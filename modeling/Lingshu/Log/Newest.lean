import Lingshu.Log.Keyed
import Mathlib.Data.List.Perm.Subperm

/-! # The first entries of a list

Lists in falling order of a label, their first entries by rank, and when the first by one label that pass a test are
the first by another. -/
namespace Log
set_option autoImplicit false

section Falling
variable {ε β γ : Type} [LinearOrder β] [LinearOrder γ] (f : ε → β) (g : ε → γ)

/-- In falling order, without ties. -/
def Falling (l : List ε) : Prop := l.Pairwise fun a b => f b < f a

def ahead (l : List ε) (a : ε) : List ε := l.filter fun b => f a < f b

variable {f g} {l t : List ε} {a b : ε}

theorem falling_reverse_sortBy (hne : l.Pairwise fun a b => f a ≠ f b) : Falling f (sortBy f l).reverse := by
  have hdistinct : (sortBy f l).Pairwise fun a b => f a ≠ f b := ((sortBy_perm f l).pairwise_iff Ne.symm).mpr hne
  refine List.pairwise_reverse.mpr (((sortBy_pairwise f l).and hdistinct).imp fun h => ?_)
  exact lt_of_le_of_ne h.1 h.2

theorem ahead_cons_of_lt {x : ε} (h : f a < f x) : ahead f (x :: l) a = x :: ahead f l a :=
  List.filter_cons_of_pos (decide_eq_true h)

theorem ahead_length_le (h : f a ≤ f b) : (ahead f l b).length ≤ (ahead f l a).length := by
  refine (List.monotone_filter_right l fun c hc => ?_).length_le
  exact decide_eq_true (lt_of_le_of_lt h (of_decide_eq_true hc))

/-- Those of which fewer than `k` others are ahead. -/
theorem mem_take_iff (h : Falling f l) (k : ℕ) : a ∈ l.take k ↔ a ∈ l ∧ (ahead f l a).length < k := by
  induction l generalizing k with
  | nil => simp
  | cons x l ih =>
    obtain ⟨hx, hl⟩ := List.pairwise_cons.mp h
    cases k with
    | zero => simp
    | succ k =>
      rw [List.take_succ_cons, List.mem_cons, List.mem_cons]
      by_cases ha : a ∈ l
      · have hne : a ≠ x := fun h => absurd (hx a ha) (h ▸ lt_irrefl _)
        rw [ahead_cons_of_lt (hx a ha), List.length_cons, Nat.add_lt_add_iff_right, ih hl]
        simp only [hne, false_or]
      · have hcut : a ∉ l.take k := fun h => ha (List.mem_of_mem_take h)
        simp only [ha, hcut, or_false]
        refine ⟨?_, And.left⟩
        rintro rfl
        have hnone : ahead f (a :: l) a = [] := by
          refine List.filter_eq_nil_iff.mpr fun b hb => ?_
          rw [decide_eq_true_eq, not_lt]
          rcases List.mem_cons.mp hb with rfl | hb
          · exact le_refl _
          · exact (hx b hb).le
        exact ⟨rfl, by rw [hnone]; exact Nat.succ_pos k⟩

/-- What is ahead of one of the first is one of the first. -/
theorem mem_take_of_ahead (h : Falling f l) {k : ℕ} (ha : a ∈ l.take k) (hb : b ∈ l) (hab : f a < f b) :
    b ∈ l.take k := by
  rw [mem_take_iff h] at ha ⊢
  exact ⟨hb, lt_of_le_of_lt (ahead_length_le hab.le) ha.2⟩

theorem lt_iff_of_falling (hf : Falling f l) (hg : Falling g l) (ha : a ∈ l) (hb : b ∈ l) : f a < f b ↔ g a < g b := by
  have hboth : l.Pairwise fun a b => f b < f a ∧ g b < g a := List.Pairwise.and hf hg
  refine List.Pairwise.forall_of_forall_of_flip (R := fun a b => f a < f b ↔ g a < g b) (fun c _ => ?_)
    (hboth.imp fun h => ?_) (hboth.imp fun h => ?_) ha hb
  · exact iff_of_false (lt_irrefl _) (lt_irrefl _)
  · exact iff_of_false h.1.not_gt h.2.not_gt
  · exact iff_of_true h.1 h.2

theorem falling_nodup (h : Falling f l) : (l.map f).Nodup :=
  List.pairwise_map.mpr (List.Pairwise.imp (fun hab => ne_of_gt hab) h)

/-- A part of a list from which nothing ahead is missing stands at its beginning. -/
theorem prefix_of_closed (ht : Falling f t) (hl : Falling f l) (hsub : ∀ a ∈ t, a ∈ l)
    (hclosed : ∀ a ∈ t, ∀ b ∈ l, f a < f b → b ∈ t) : t <+: l := by
  induction l generalizing t with
  | nil => exact List.prefix_nil.mpr (List.eq_nil_iff_forall_not_mem.mpr fun a ha => List.not_mem_nil (hsub a ha))
  | cons x l ih =>
    cases t with
    | nil => exact List.nil_prefix
    | cons y t =>
      obtain ⟨hx, hl⟩ := List.pairwise_cons.mp hl
      obtain ⟨hy, htail⟩ := List.pairwise_cons.mp ht
      have hxy : x = y := by
        rcases List.mem_cons.mp (hsub y List.mem_cons_self) with h | hmem
        · exact h.symm
        · have hahead := hclosed y List.mem_cons_self x List.mem_cons_self (hx y hmem)
          rcases List.mem_cons.mp hahead with h | h
          · exact h
          · exact absurd (hy x h) (hx y hmem).not_gt
      subst hxy
      refine (List.prefix_cons_inj x).mpr (ih htail hl (fun a ha => ?_) fun a ha b hb hab => ?_)
      · exact (List.mem_cons.mp (hsub a (List.mem_cons_of_mem _ ha))).resolve_left
          fun h => absurd (hy a ha) (h ▸ lt_irrefl _)
      · exact (List.mem_cons.mp (hclosed a (List.mem_cons_of_mem _ ha) b (List.mem_cons_of_mem _ hb) hab)).resolve_left
          fun h => absurd (hx b hb) (h ▸ lt_irrefl _)

/-- The first by `f` that pass a test, among the first `m` of all, are the first by `g` exactly when these are among
them and each has none ahead by `f` that is not ahead by `g`. -/
theorem take_filter_eq_iff {p : ε → Bool} {r s : List ε} (hr : Falling f r) (hs : Falling g s)
    (hpass : ∀ a ∈ s, p a) (hfrom : ∀ a ∈ r, p a → a ∈ s) (m limit : ℕ) :
    ((r.take m).filter p).take limit = s.take limit ↔
      ∀ a ∈ s.take limit, a ∈ r.take m ∧ ∀ b ∈ r, p b → f a < f b → g a < g b := by
  have hq : Falling f ((r.take m).filter p) := (List.Pairwise.take hr).filter p
  have hqs : ∀ b ∈ (r.take m).filter p, b ∈ s := fun b hb =>
    hfrom b (List.mem_of_mem_take (List.mem_filter.mp hb).1) (List.mem_filter.mp hb).2
  constructor
  · intro h a ha
    have hX : a ∈ ((r.take m).filter p).take limit := h ▸ ha
    have hfetched := (List.mem_filter.mp (List.mem_of_mem_take hX)).1
    refine ⟨hfetched, fun b hb hpb hab => ?_⟩
    have hbq : b ∈ (r.take m).filter p := List.mem_filter.mpr ⟨mem_take_of_ahead hr hfetched hb hab, hpb⟩
    have hbX := mem_take_of_ahead hq hX hbq hab
    have hfalling : Falling g (((r.take m).filter p).take limit) := h ▸ List.Pairwise.take hs
    exact (lt_iff_of_falling (List.Pairwise.take hq) hfalling hX hbX).mp hab
  · intro h
    have hsub : ∀ a ∈ s.take limit, a ∈ (r.take m).filter p := fun a ha =>
      List.mem_filter.mpr ⟨(h a ha).1, hpass a (List.mem_of_mem_take ha)⟩
    have hrange : ∀ a ∈ s.take limit, a ∈ r := fun a ha => List.mem_of_mem_take (h a ha).1
    have hboth : Falling f (s.take limit) := by
      refine (List.Pairwise.take hs).imp_of_mem fun {a b} ha hb hab => ?_
      refine lt_of_le_of_ne (le_of_not_gt fun hba => ?_) fun heq => ?_
      · exact hab.not_gt ((h a ha).2 b (hrange b hb) (hpass b (List.mem_of_mem_take hb)) hba)
      · exact absurd hab (List.inj_on_of_nodup_map (falling_nodup hr) (hrange b hb) (hrange a ha) heq ▸
          lt_irrefl _)
    have hfirst : s.take limit <+: (r.take m).filter p := by
      refine prefix_of_closed hboth hq hsub fun a ha b hb hab => mem_take_of_ahead hs ha (hqs b hb) ?_
      exact (h a ha).2 b (List.mem_of_mem_take (List.mem_filter.mp hb).1) (List.mem_filter.mp hb).2 hab
    rcases Nat.le_total limit s.length with hlimit | hlimit
    · have hcut := List.prefix_iff_eq_take.mp hfirst
      rw [List.length_take, Nat.min_eq_left hlimit] at hcut
      exact hcut.symm
    · -- all of `s` is wanted, and nothing else is fetched that passes
      rw [List.take_of_length_le hlimit] at hfirst ⊢
      have hlength := (List.Nodup.subperm ((falling_nodup hq).of_map f) hqs).length_le
      rw [hfirst.sublist.eq_of_length_le hlength, List.take_of_length_le (hlength.trans hlimit)]

end Falling

end Log
