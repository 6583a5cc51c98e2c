import Mathlib.Data.List.Basic
import Mathlib.Data.List.Perm.Basic

/-! # Pages of a sorted result

A result is read page by page, each page from a list of its own that is sorted by the same total preorder. Elements that
tie may come in another order in each list. The pages put together show what the elements show, whatever the lists, just
when of every class of tied elements that goes over the end of a page all elements show the same. -/
namespace Paging
set_option autoImplicit false

variable {α β : Type}

/-- A list of the elements in which each may come before all later ones. -/
structure Sorted (le : α → α → Bool) (rows l : List α) : Prop where
  perm : l.Perm rows
  sorted : l.Pairwise fun a b => le a b

def page (limit k : ℕ) (l : List α) : List α := (l.drop (k * limit)).take limit

/-- The first `n` pages, the `k`-th from the `k`-th list. -/
def pages (limit : ℕ) (orders : ℕ → List α) (n : ℕ) : List α :=
  ((List.range n).map fun k => page limit k (orders k)).flatten

/-- How many come before the element, in every order. -/
def below (le : α → α → Bool) (rows : List α) (a : α) : ℕ := rows.countP fun b => !le a b

/-- How many come before it or tie with it. -/
def upTo (le : α → α → Bool) (rows : List α) (a : α) : ℕ := rows.countP fun b => le b a

/-- The class of the element has elements on both sides of a place. -/
def Straddles (le : α → α → Bool) (rows : List α) (m : ℕ) (a : α) : Prop := below le rows a < m ∧ m < upTo le rows a

instance (le : α → α → Bool) (rows : List α) (m : ℕ) (a : α) : Decidable (Straddles le rows m a) :=
  inferInstanceAs (Decidable (_ ∧ _))

/-- Tied elements around a place show the same. -/
def UniformAt (le : α → α → Bool) (shown : α → β) (rows : List α) (m : ℕ) : Prop :=
  ∀ a ∈ rows, ∀ b ∈ rows, le a b → le b a → Straddles le rows m a → shown a = shown b

/-! ## One list -/

section OneList
variable {le : α → α → Bool} {rows l l' : List α} {m : ℕ} {a b : α}

theorem page_succ (limit k : ℕ) (l : List α) : l.take ((k + 1) * limit) = l.take (k * limit) ++ page limit k l := by
  rw [Nat.succ_mul, List.take_add, page]

theorem pages_succ (limit : ℕ) (orders : ℕ → List α) (n : ℕ) :
    pages limit orders (n + 1) = pages limit orders n ++ page limit n (orders n) := by
  simp [pages, List.range_succ]

/-- Pages from one list are its beginning. -/
theorem pages_eq_take {limit : ℕ} {orders : ℕ → List α} {n : ℕ} (h : ∀ k < n, orders k = l) :
    pages limit orders n = l.take (n * limit) := by
  induction n with
  | zero => simp [pages]
  | succ n ih => rw [pages_succ, ih fun k hk => h k (by omega), h n (by omega), ← page_succ]

/-- From some page on another list. -/
theorem pages_add {limit : ℕ} {orders : ℕ → List α} {n : ℕ} (h : ∀ k ≥ n, orders k = l) (j : ℕ) :
    pages limit orders (n + j) = pages limit orders n ++ (l.drop (n * limit)).take (j * limit) := by
  induction j with
  | zero => simp
  | succ j ih =>
    rw [← Nat.add_assoc, pages_succ, ih, h (n + j) (by omega), List.append_assoc, page]
    have hnext : (j + 1) * limit = j * limit + limit := Nat.succ_mul ..
    rw [hnext, List.take_add, List.drop_drop, Nat.add_mul]

theorem Sorted.le_of_split (h : Sorted le rows l) (ha : a ∈ l.take m) (hb : b ∈ l.drop m) : le a b := by
  have hsorted := h.sorted
  rw [← List.take_append_drop m l] at hsorted
  exact (List.pairwise_append.mp hsorted).2.2 a ha b hb

theorem Sorted.countP_eq (h : Sorted le rows l) (p : α → Bool) :
    rows.countP p = (l.take m).countP p + (l.drop m).countP p := by
  rw [← List.countP_append, List.take_append_drop, h.perm.countP_eq]

variable (hrefl : ∀ a, le a a)
include hrefl

theorem Sorted.below_lt (h : Sorted le rows l) (ha : a ∈ l.take m) : below le rows a < m := by
  have hdrop : (l.drop m).countP (fun b => !le a b) = 0 :=
    List.countP_eq_zero.mpr fun b hb => by simp [h.le_of_split ha hb]
  have hself : 0 < (l.take m).countP fun b => le a b := List.countP_pos_iff.mpr ⟨a, ha, hrefl a⟩
  have hsplit : (l.take m).length = (l.take m).countP (fun b => le a b) + (l.take m).countP fun b => !le a b := by
    simpa using List.length_eq_countP_add_countP (fun b => le a b) (l := l.take m)
  have hlength : (l.take m).length ≤ m := List.length_take_le ..
  rw [below, h.countP_eq (m := m), hdrop]
  omega

theorem Sorted.lt_upTo (h : Sorted le rows l) (ha : a ∈ l.drop m) : m < upTo le rows a := by
  have hfull : (l.take m).length = m := by
    have hpos := List.length_pos_of_mem ha
    rw [List.length_drop] at hpos
    rw [List.length_take]
    omega
  have htake : (l.take m).countP (fun b => le b a) = m := by
    rw [List.countP_eq_length.mpr fun b hb => h.le_of_split hb ha, hfull]
  have hself : 0 < (l.drop m).countP fun b => le b a := List.countP_pos_iff.mpr ⟨a, ha, hrefl a⟩
  rw [upTo, h.countP_eq (m := m), htake]
  omega

end OneList

/-! ## Two lists -/

/-- Two lists of one value each. -/
theorem map_eq_of_same {shown : α → β} {xs ys : List α} (hlength : xs.length = ys.length)
    (h : ∀ x ∈ xs ++ ys, ∀ y ∈ xs ++ ys, shown x = shown y) : xs.map shown = ys.map shown := by
  refine List.ext_getElem (by rw [List.length_map, List.length_map, hlength]) fun i hi hi' => ?_
  rw [List.length_map] at hi hi'
  rw [List.getElem_map, List.getElem_map]
  exact h _ (List.mem_append_left _ (List.getElem_mem hi)) _ (List.mem_append_right _ (List.getElem_mem hi'))

section TwoLists
variable {le : α → α → Bool} (htotal : ∀ a b, le a b ∨ le b a) (htrans : ∀ a b c, le a b → le b c → le a c)
  {rows l l' : List α} {m : ℕ} {a b : α} {shown : α → β}
include htotal htrans

omit htotal in
/-- Only one class goes over a place. -/
theorem le_of_straddles (ha : Straddles le rows m a) (hb : Straddles le rows m b) : le a b := by
  by_contra hab
  have hmono : upTo le rows b ≤ below le rows a := by
    refine List.countP_mono_left fun c _ hcb => ?_
    rw [Bool.not_eq_true', Bool.eq_false_iff]
    exact fun hac => hab (htrans a c b hac hcb)
  obtain ⟨hbelow, -⟩ := ha
  obtain ⟨-, hupTo⟩ := hb
  omega

omit htrans in
/-- What is complete before a place is the same in every list. -/
theorem Sorted.complete_perm (h : Sorted le rows l) :
    ((l.take m).filter fun a => upTo le rows a ≤ m).Perm (rows.filter fun a => upTo le rows a ≤ m) := by
  have hrefl : ∀ a, le a a := fun a => (htotal a a).elim id id
  have hdrop : (l.drop m).filter (fun a => upTo le rows a ≤ m) = [] :=
    List.filter_eq_nil_iff.mpr fun a ha => by simpa using h.lt_upTo hrefl ha
  have hall := h.perm.filter fun a => decide (upTo le rows a ≤ m)
  rw [← List.take_append_drop m l, List.filter_append, hdrop, List.append_nil] at hall
  exact hall

omit htrans in
/-- What else stands before a place belongs to the class that goes over it. -/
theorem Sorted.straddles (h : Sorted le rows l) (ha : a ∈ (l.take m).filter fun a => !decide (upTo le rows a ≤ m)) :
    a ∈ rows ∧ Straddles le rows m a := by
  have hrefl : ∀ a, le a a := fun a => (htotal a a).elim id id
  obtain ⟨hmem, hover⟩ := List.mem_filter.mp ha
  refine ⟨h.perm.mem_iff.mp (List.mem_of_mem_take hmem), h.below_lt hrefl hmem, ?_⟩
  simpa using hover

theorem Sorted.take_perm (h : Sorted le rows l) (h' : Sorted le rows l') (huniform : UniformAt le shown rows m) :
    ((l.take m).map shown).Perm ((l'.take m).map shown) := by
  let p : α → Bool := fun a => upTo le rows a ≤ m
  have hsplit : ∀ xs : List α, (xs.filter p ++ xs.filter fun a => !p a).Perm xs := List.filter_append_perm p
  have hcomplete : ((l.take m).filter p).Perm ((l'.take m).filter p) :=
    (h.complete_perm htotal).trans (h'.complete_perm htotal).symm
  have hover : ((l.take m).filter fun a => !p a).map shown = ((l'.take m).filter fun a => !p a).map shown := by
    refine map_eq_of_same ?_ fun x hx y hy => ?_
    · have hlength := (hsplit (l.take m)).length_eq
      have hlength' := (hsplit (l'.take m)).length_eq
      rw [List.length_append] at hlength hlength'
      have hsame := hcomplete.length_eq
      have htake : (l.take m).length = (l'.take m).length := by
        rw [List.length_take, List.length_take, h.perm.length_eq, h'.perm.length_eq]
      omega
    · have hstraddles : ∀ z ∈ ((l.take m).filter fun a => !p a) ++ (l'.take m).filter fun a => !p a,
          z ∈ rows ∧ Straddles le rows m z := fun z hz =>
        (List.mem_append.mp hz).elim (h.straddles htotal) (h'.straddles htotal)
      obtain ⟨hxmem, hx⟩ := hstraddles x hx
      obtain ⟨hymem, hy⟩ := hstraddles y hy
      exact huniform x hxmem y hymem (le_of_straddles htrans hx hy) (le_of_straddles htrans hy hx) hx
  have hmap : ∀ xs : List α, ((xs.filter p).map shown ++ (xs.filter fun a => !p a).map shown).Perm (xs.map shown) :=
    fun xs => by
      rw [← List.map_append]
      exact (hsplit xs).map shown
  refine (hmap (l.take m)).symm.trans (List.Perm.trans ?_ (hmap (l'.take m)))
  rw [hover]
  exact (hcomplete.map shown).append_right _

theorem Sorted.page_perm {limit k : ℕ} (h : Sorted le rows l) (h' : Sorted le rows l')
    (huniform : ∀ j, UniformAt le shown rows (j * limit)) :
    ((page limit k l).map shown).Perm ((page limit k l').map shown) := by
  have hnext := h.take_perm htotal htrans h' (huniform (k + 1))
  rw [page_succ, page_succ, List.map_append, List.map_append] at hnext
  have hbefore := h.take_perm htotal htrans h' (huniform k)
  exact (List.perm_append_left_iff _).mp (hnext.trans (hbefore.symm.append_right _))

/-- Where no class is cut, the pages together are the elements. -/
theorem pages_perm {limit n : ℕ} {orders : ℕ → List α} (hlength : rows.length ≤ n * limit)
    (h : ∀ k, Sorted le rows (orders k)) (huniform : ∀ k, UniformAt le shown rows (k * limit)) :
    ((pages limit orders n).map shown).Perm (rows.map shown) := by
  have hfirst : ∀ j, ((pages limit orders j).map shown).Perm ((pages limit (fun _ => orders 0) j).map shown) := by
    intro j
    induction j with
    | zero => exact .refl _
    | succ j ih =>
      rw [pages_succ, pages_succ, List.map_append, List.map_append]
      exact ih.append ((h j).page_perm htotal htrans (h 0) huniform)
  refine (hfirst n).trans ?_
  rw [pages_eq_take (l := orders 0) fun _ _ => rfl, List.take_of_length_le (by rwa [(h 0).perm.length_eq])]
  exact (h 0).perm.map shown

/-! ## A class that is cut -/

/-- Two lists that differ in the elements around a place: one has the first there, the other the second. -/
theorem exists_sorted [DecidableEq α] (ha : a ∈ rows) (hb : b ∈ rows) (hne : a ≠ b) (hab : le a b) (hba : le b a)
    (hcut : Straddles le rows m a) :
    ∃ before after, before.length + 1 = m ∧ Sorted le rows (before ++ a :: b :: after) ∧
      Sorted le rows (before ++ b :: a :: after) := by
  let lower := (rows.filter fun c => !le a c).mergeSort le
  let tied := (rows.filter fun c => le a c).filter fun c => le c a
  let upper := ((rows.filter fun c => le a c).filter fun c => !le c a).mergeSort le
  let others := (tied.erase a).erase b
  have hsort : ∀ xs : List α, (xs.mergeSort le).Pairwise fun c d => le c d :=
    List.pairwise_mergeSort htrans fun c d => by simpa using htotal c d
  have hlower : ∀ c ∈ lower, le c a := fun c hc => by
    have hc := (List.mem_filter.mp (List.mem_mergeSort.mp hc)).2
    exact (htotal c a).resolve_right (by simpa using hc)
  have hupper : ∀ c ∈ upper, le a c := fun c hc =>
    (List.mem_filter.mp (List.mem_filter.mp (List.mem_mergeSort.mp hc)).1).2
  have htied : ∀ c ∈ tied, le a c ∧ le c a := fun c hc =>
    ⟨(List.mem_filter.mp (List.mem_filter.mp hc).1).2, (List.mem_filter.mp hc).2⟩
  have hrefl : le a a := (htotal a a).elim id id
  have hamem : a ∈ tied := List.mem_filter.mpr ⟨List.mem_filter.mpr ⟨ha, hrefl⟩, hrefl⟩
  have hbmem : b ∈ tied.erase a :=
    (List.mem_erase_of_ne hne.symm).mpr (List.mem_filter.mpr ⟨List.mem_filter.mpr ⟨hb, hab⟩, hba⟩)
  have hothers : (a :: b :: others).Perm tied :=
    (List.Perm.cons a (List.perm_cons_erase hbmem)).symm.trans (List.perm_cons_erase hamem).symm
  have hrows : (lower ++ (tied ++ upper)).Perm rows := by
    have hfirst := List.filter_append_perm (fun c => !le a c) rows
    simp only [Bool.not_not] at hfirst
    have hsecond := List.filter_append_perm (fun c => le c a) (rows.filter fun c => le a c)
    exact ((List.mergeSort_perm _ _).append (((List.mergeSort_perm _ _).append_left tied).trans hsecond)).trans hfirst
  have harranged : ∀ middle : List α, middle.Perm tied → Sorted le rows (lower ++ (middle ++ upper)) := by
    intro middle hmiddle
    have hin : ∀ c ∈ middle, le a c ∧ le c a := fun c hc => htied c (hmiddle.mem_iff.mp hc)
    refine ⟨((hmiddle.append_right upper).append_left lower).trans hrows, List.pairwise_append.mpr ⟨hsort _,
      List.pairwise_append.mpr ⟨?_, hsort _, ?_⟩, ?_⟩⟩
    · exact List.pairwise_of_forall_mem_list fun c hc d hd => htrans c a d (hin c hc).2 (hin d hd).1
    · exact fun c hc d hd => htrans c a d (hin c hc).2 (hupper d hd)
    · intro c hc d hd
      rcases List.mem_append.mp hd with hd | hd
      · exact htrans c a d (hlower c hc) (hin d hd).1
      · exact htrans c a d (hlower c hc) (hupper d hd)
  have hbelow : lower.length = below le rows a := by
    rw [List.length_mergeSort, below, List.countP_eq_length_filter]
  have hupTo : lower.length + tied.length = upTo le rows a := by
    rw [upTo, ← hrows.countP_eq, List.countP_append, List.countP_append, List.countP_eq_length.mpr hlower,
      List.countP_eq_length.mpr fun c hc => (htied c hc).2, List.countP_eq_zero.mpr fun c hc => ?_]
    · rfl
    · have hc := (List.mem_filter.mp (List.mem_mergeSort.mp hc)).2
      simpa using hc
  have hcount := hothers.length_eq
  rw [List.length_cons, List.length_cons] at hcount
  obtain ⟨hcutBelow, hcutUpTo⟩ := hcut
  -- as many of the others before the two as the place asks for
  let i := m - 1 - lower.length
  have hmiddle : ∀ x y : α, (x :: y :: others).Perm tied → (others.take i ++ x :: y :: others.drop i).Perm tied := by
    intro x y hxy
    have hmove : (others.take i ++ x :: y :: others.drop i).Perm (x :: y :: (others.take i ++ others.drop i)) :=
      List.perm_middle.trans (List.Perm.cons x List.perm_middle)
    rw [List.take_append_drop] at hmove
    exact hmove.trans hxy
  refine ⟨lower ++ others.take i, others.drop i ++ upper, ?_, ?_, ?_⟩
  · rw [List.length_append, List.length_take]
    omega
  · have hsorted := harranged _ (hmiddle a b hothers)
    simpa only [List.append_assoc, List.cons_append] using hsorted
  · have hsorted := harranged _ (hmiddle b a ((List.Perm.swap a b others).trans hothers))
    simpa only [List.append_assoc, List.cons_append] using hsorted

/-- Pages from two lists that differ around the end of a page. -/
theorem uniformAt_of_pages [DecidableEq α] {limit n : ℕ} (hlength : rows.length ≤ n * limit)
    (h : ∀ orders, (∀ k, Sorted le rows (orders k)) → ((pages limit orders n).map shown).Perm (rows.map shown))
    (k : ℕ) : UniformAt le shown rows (k * limit) := by
  intro a ha b hb hab hba hcut
  by_contra hshown
  obtain ⟨before, after, hbefore, hfirst, hsecond⟩ :=
    exists_sorted htotal htrans ha hb (fun heq => hshown (congrArg shown heq)) hab hba hcut
  have hsize := hfirst.perm.length_eq
  rw [List.length_append, List.length_cons, List.length_cons] at hsize
  have hk : k < n := by
    have hover : k * limit < n * limit := by omega
    exact Nat.lt_of_mul_lt_mul_right hover
  obtain ⟨j, rfl⟩ := Nat.exists_eq_add_of_lt hk
  -- up to the place from the one list, from there on from the other
  have hall := h (fun i => if i < k then before ++ a :: b :: after else before ++ b :: a :: after) fun i => by
    split
    · exact hfirst
    · exact hsecond
  rw [Nat.add_assoc, pages_add (l := before ++ b :: a :: after) fun i hi => if_neg (by omega),
    pages_eq_take (l := before ++ a :: b :: after) fun i hi => if_pos hi] at hall
  have htake : (before ++ a :: b :: after).take (k * limit) = before ++ [a] := by
    rw [← hbefore, List.take_length_add_append, List.take_succ_cons, List.take_zero]
  have hdrop : (before ++ b :: a :: after).drop (k * limit) = a :: after := by
    rw [← hbefore, List.drop_length_add_append, List.drop_succ_cons, List.drop_zero]
  have hrest : (a :: after).take ((j + 1) * limit) = a :: after := by
    refine List.take_of_length_le ?_
    rw [Nat.add_assoc, Nat.add_mul] at hlength
    rw [List.length_cons]
    omega
  rw [htake, hdrop, hrest] at hall
  have hsame := hall.trans (hfirst.perm.map shown).symm
  simp only [List.map_append, List.map_cons, List.append_assoc, List.cons_append, List.nil_append] at hsame
  have htwice := (List.perm_append_left_iff _).mp hsame
  have honce : ([shown a] ++ after.map shown).Perm ([shown b] ++ after.map shown) := htwice.cons_inv
  exact hshown (List.singleton_perm_singleton.mp ((List.perm_append_right_iff _).mp honce))

end TwoLists

/-! ## A part of the elements -/

section Part
variable {le : α → α → Bool} {rows l : List α} {m : ℕ} {p : α → Bool} {a : α}

theorem Sorted.filter (h : Sorted le rows l) (p : α → Bool) : Sorted le (rows.filter p) (l.filter p) :=
  ⟨h.perm.filter p, h.sorted.filter p⟩

/-- A part that is complete before a place is all of it before the place. -/
theorem Sorted.filter_take (hrefl : ∀ a, le a a) (h : Sorted le rows l)
    (hbound : ∀ a ∈ rows, p a = true → upTo le rows a ≤ m) : (l.take m).filter p = l.filter p := by
  have hdrop : (l.drop m).filter p = [] := List.filter_eq_nil_iff.mpr fun a ha hp => by
    have hover := h.lt_upTo hrefl ha
    have hwithin := hbound a (h.perm.mem_iff.mp (List.mem_of_mem_drop ha)) hp
    omega
  conv_rhs => rw [← List.take_append_drop m l, List.filter_append, hdrop, List.append_nil]

/-- The places before `m` lose something of a part when an element of it comes later. -/
theorem Sorted.countP_take_lt (h : Sorted le rows l) (ha : a ∈ l.drop m) (hp : p a = true) :
    (l.take m).countP p < rows.countP p := by
  have hlater : 0 < (l.drop m).countP p := List.countP_pos_iff.mpr ⟨a, ha, hp⟩
  rw [h.countP_eq (m := m)]
  omega

theorem Sorted.countP_take_le (h : Sorted le rows l) : (l.take m).countP p ≤ rows.countP p := by
  rw [h.countP_eq (m := m)]
  exact Nat.le_add_right _ _

theorem filter_merge {xs ys : List α} (hxs : ∀ x ∈ xs, p x = true) (hys : ∀ y ∈ ys, p y = false) :
    (xs.merge ys le).filter p = xs := by
  induction xs generalizing ys with
  | nil =>
    rw [List.nil_merge]
    exact List.filter_eq_nil_iff.mpr fun y hy => by simp [hys y hy]
  | cons x xs ih =>
    have hx := hxs x List.mem_cons_self
    have hrest : ∀ x' ∈ xs, p x' = true := fun x' hx' => hxs x' (List.mem_cons_of_mem _ hx')
    induction ys with
    | nil =>
      rw [List.merge_right]
      exact List.filter_eq_self.mpr hxs
    | cons y ys ihys =>
      have hy := hys y List.mem_cons_self
      by_cases hle : le x y = true
      · rw [List.cons_merge_cons_pos _ _ _ hle, List.filter_cons_of_pos hx, ih hrest hys]
      · rw [List.cons_merge_cons_neg _ _ _ hle, List.filter_cons_of_neg (by simp [hy])]
        exact ihys fun y' hy' => hys y' (List.mem_cons_of_mem _ hy')

variable (htotal : ∀ a b, le a b ∨ le b a) (htrans : ∀ a b c, le a b → le b c → le a c)
include htotal htrans

theorem sorted_mergeSort (rows : List α) : Sorted le rows (rows.mergeSort le) :=
  ⟨List.mergeSort_perm _ _, List.pairwise_mergeSort htrans (fun a b => by simpa using htotal a b) _⟩

/-- A sorted list of a part is the part of a sorted list. -/
theorem exists_sorted_filter (h : Sorted le (rows.filter p) l) : ∃ l', Sorted le rows l' ∧ l'.filter p = l := by
  have hothers := sorted_mergeSort htotal htrans (rows.filter fun a => !p a)
  refine ⟨l.merge ((rows.filter fun a => !p a).mergeSort le) le, ⟨?_, ?_⟩, filter_merge ?_ ?_⟩
  · refine (List.merge_perm_append le).trans ?_
    exact (h.perm.append hothers.perm).trans (List.filter_append_perm p rows)
  · exact List.pairwise_merge htrans (fun a b => by simpa using htotal a b) _ _ h.sorted hothers.sorted
  · exact fun a ha => (List.mem_filter.mp (h.perm.mem_iff.mp ha)).2
  · intro a ha
    simpa using (List.mem_filter.mp (hothers.perm.mem_iff.mp ha)).2

/-- An element may come after all others of its class. -/
theorem exists_sorted_drop (ha : a ∈ rows) (hlt : m < upTo le rows a) : ∃ l, Sorted le rows l ∧ a ∈ l.drop m := by
  obtain ⟨before, after, rfl⟩ := List.append_of_mem ha
  have hlower := sorted_mergeSort htotal htrans ((before ++ after).filter fun b => le b a)
  have hupper := sorted_mergeSort htotal htrans ((before ++ after).filter fun b => !le b a)
  have hrefl : le a a := (htotal a a).elim id id
  have hbelow : ∀ b ∈ ((before ++ after).filter fun b => le b a).mergeSort le, le b a := fun b hb =>
    (List.mem_filter.mp (hlower.perm.mem_iff.mp hb)).2
  have habove : ∀ b ∈ ((before ++ after).filter fun b => !le b a).mergeSort le, le a b := fun b hb => by
    have hnot := (List.mem_filter.mp (hupper.perm.mem_iff.mp hb)).2
    exact (htotal a b).resolve_right (by simpa using hnot)
  have hfrom := List.pairwise_cons.mpr ⟨habove, hupper.sorted⟩
  refine ⟨_ ++ a :: _, ⟨?_, List.pairwise_append.mpr ⟨hlower.sorted, hfrom, ?_⟩⟩, ?_⟩
  · refine List.perm_middle.trans (List.Perm.trans ?_ List.perm_middle.symm)
    exact List.Perm.cons a ((hlower.perm.append hupper.perm).trans (List.filter_append_perm _ _))
  · intro b hb c hc
    rcases List.mem_cons.mp hc with rfl | hc
    · exact hbelow b hb
    · exact htrans b a c (hbelow b hb) (habove c hc)
  · have hlength : upTo le (before ++ a :: after) a =
        (((before ++ after).filter fun b => le b a).mergeSort le).length + 1 := by
      rw [hlower.perm.length_eq, ← List.countP_eq_length_filter, upTo, List.countP_append, List.countP_append,
        List.countP_cons_of_pos (p := fun b => le b a) hrefl]
      omega
    rw [List.drop_append_of_le_length (by omega)]
    exact List.mem_append_right _ List.mem_cons_self

end Part

/-! ## One kind before the other -/

/-- The order with the elements of one kind before all others. -/
def firstOf (q : α → Bool) (le : α → α → Bool) (a b : α) : Bool := (q a && !q b) || (q a == q b && le a b)

section Kinds
variable {q : α → Bool} {le : α → α → Bool} {rows l l' : List α} {a b : α}

theorem firstOf_same (h : q a = q b) : firstOf q le a b = le a b := by
  cases hb : q b <;> simp [firstOf, h, hb]

theorem firstOf_iff : firstOf q le a b = true ↔ (q a = true ∧ q b = false) ∨ (q a = q b ∧ le a b = true) := by
  simp [firstOf]

theorem firstOf_total (htotal : ∀ a b, le a b ∨ le b a) (a b : α) : firstOf q le a b ∨ firstOf q le b a := by
  simp only [firstOf_iff]
  cases hb : q b <;> cases ha : q a <;> simp [htotal a b]

theorem firstOf_trans (htrans : ∀ a b c, le a b → le b c → le a c) (a b c : α) (hab : firstOf q le a b)
    (hbc : firstOf q le b c) : firstOf q le a c := by
  rw [firstOf_iff] at hab hbc ⊢
  obtain ⟨ha, hb⟩ | ⟨hkind, hab⟩ := hab
  · obtain ⟨hb', -⟩ | ⟨hkind, -⟩ := hbc
    · rw [hb] at hb'
      cases hb'
    · exact .inl ⟨ha, hkind ▸ hb⟩
  · obtain ⟨hb, hc⟩ | ⟨hkind', hbc⟩ := hbc
    · exact .inl ⟨hkind ▸ hb, hc⟩
    · exact .inr ⟨hkind.trans hkind', htrans a b c hab hbc⟩

theorem filter_append_kinds (hl : ∀ a ∈ l, q a = true) (hl' : ∀ a ∈ l', q a = false) :
    (l ++ l').filter q = l ∧ (l ++ l').filter (fun a => !q a) = l' := by
  have hnot : ∀ a ∈ l', (!q a) = true := fun a ha => by simp [hl' a ha]
  have hnone : l'.filter q = [] := List.filter_eq_nil_iff.mpr fun a ha => by simp [hl' a ha]
  have hnone' : l.filter (fun a => !q a) = [] := List.filter_eq_nil_iff.mpr fun a ha => by simp [hl a ha]
  constructor
  · rw [List.filter_append, List.filter_eq_self.mpr hl, hnone, List.append_nil]
  · rw [List.filter_append, List.filter_eq_self.mpr hnot, hnone', List.nil_append]

theorem Sorted.append (h : Sorted le (rows.filter q) l) (h' : Sorted le (rows.filter fun a => !q a) l') :
    Sorted (firstOf q le) rows (l ++ l') := by
  have hl : ∀ a ∈ l, q a = true := fun a ha => (List.mem_filter.mp (h.perm.mem_iff.mp ha)).2
  have hl' : ∀ a ∈ l', q a = false := fun a ha => by simpa using (List.mem_filter.mp (h'.perm.mem_iff.mp ha)).2
  refine ⟨(h.perm.append h'.perm).trans (List.filter_append_perm q rows), List.pairwise_append.mpr ⟨?_, ?_, ?_⟩⟩
  · refine h.sorted.imp_of_mem fun ha hb hle => ?_
    rwa [firstOf_same ((hl _ ha).trans (hl _ hb).symm)]
  · refine h'.sorted.imp_of_mem fun ha hb hle => ?_
    rwa [firstOf_same ((hl' _ ha).trans (hl' _ hb).symm)]
  · exact fun a ha b hb => firstOf_iff.mpr (.inl ⟨hl a ha, hl' b hb⟩)

/-- A list of both kinds is the list of the first kind and then that of the others. -/
theorem Sorted.split (h : Sorted (firstOf q le) rows l) : l = l.filter q ++ l.filter (fun a => !q a) ∧
    Sorted le (rows.filter q) (l.filter q) ∧ Sorted le (rows.filter fun a => !q a) (l.filter fun a => !q a) := by
  refine ⟨?_, ⟨h.perm.filter q, ?_⟩, ⟨h.perm.filter _, ?_⟩⟩
  · have hsorted := h.sorted
    clear h
    induction l with
    | nil => rfl
    | cons a l ih =>
      obtain ⟨hfirst, hrest⟩ := List.pairwise_cons.mp hsorted
      cases ha : q a with
      | true =>
        rw [List.filter_cons_of_pos ha, List.filter_cons_of_neg (by simp [ha]), List.cons_append, ← ih hrest]
      | false =>
        have hnone : l.filter q = [] := List.filter_eq_nil_iff.mpr fun b hb hq => by
          obtain ⟨hqa, -⟩ | ⟨hkind, -⟩ := firstOf_iff.mp (hfirst b hb)
          · rw [ha] at hqa
            cases hqa
          · rw [ha, hq] at hkind
            cases hkind
        rw [List.filter_cons_of_neg (by simp [ha]), List.filter_cons_of_pos (by simp [ha]), hnone, List.nil_append]
        rw [hnone, List.nil_append] at ih
        rw [← ih hrest]
  · refine (h.sorted.filter q).imp_of_mem fun ha hb hle => ?_
    rwa [firstOf_same ((List.mem_filter.mp ha).2.trans (List.mem_filter.mp hb).2.symm)] at hle
  · refine (h.sorted.filter _).imp_of_mem fun ha hb hle => ?_
    have hqa := (List.mem_filter.mp ha).2
    have hqb := (List.mem_filter.mp hb).2
    rwa [firstOf_same (by simpa using hqa.trans hqb.symm)] at hle

end Kinds

/-! ## Pages as they are shown -/

section Shown
variable {le : α → α → Bool} {rows : List α} {limit n : ℕ} {shown : α → β} {results : ℕ → List β}

theorem flatten_results {orders : ℕ → List α} (h : ∀ k < n, results k = (page limit k (orders k)).map shown) :
    ((List.range n).map results).flatten = (pages limit orders n).map shown := by
  rw [pages, List.map_flatten, List.map_map]
  exact congrArg List.flatten (List.map_congr_left fun k hk => h k (List.mem_range.mp hk))

variable (htotal : ∀ a b, le a b ∨ le b a) (htrans : ∀ a b c, le a b → le b c → le a c)
include htotal htrans

/-- `pages_perm` for pages of which each was read from some list. -/
theorem results_perm (hlength : rows.length ≤ n * limit)
    (h : ∀ k < n, ∃ l, Sorted le rows l ∧ results k = (page limit k l).map shown)
    (huniform : ∀ k, UniformAt le shown rows (k * limit)) :
    ((List.range n).map results).flatten.Perm (rows.map shown) := by
  have horders : ∀ k, ∃ l, Sorted le rows l ∧ (k < n → results k = (page limit k l).map shown) := by
    intro k
    by_cases hk : k < n
    · obtain ⟨l, hl, hresults⟩ := h k hk
      exact ⟨l, hl, fun _ => hresults⟩
    · exact ⟨_, sorted_mergeSort htotal htrans rows, fun hk' => absurd hk' hk⟩
  choose orders hsorted hresults using horders
  rw [flatten_results hresults]
  exact pages_perm htotal htrans hlength hsorted huniform

theorem uniformAt_of_results [DecidableEq α] (hlimit : 0 < limit)
    (h : ∀ n results, rows.length ≤ n * limit →
      (∀ k < n, ∃ l, Sorted le rows l ∧ results k = (page limit k l).map shown) →
        ((List.range n).map results).flatten.Perm (rows.map shown)) (k : ℕ) : UniformAt le shown rows (k * limit) := by
  have hlength : rows.length ≤ rows.length * limit := Nat.le_mul_of_pos_right _ hlimit
  refine uniformAt_of_pages htotal htrans hlength (fun orders hsorted => ?_) k
  have hresults : ∀ j < rows.length, (fun j => (page limit j (orders j)).map shown) j =
      (page limit j (orders j)).map shown := fun _ _ => rfl
  rw [← flatten_results hresults]
  exact h _ _ hlength fun j _ => ⟨orders j, hsorted j, rfl⟩

end Shown

/-! ## Two of a part on the first page -/

/-- The order in which, among tied elements, those of the part come last. -/
def partLast (p : α → Bool) (le : α → α → Bool) (a b : α) : Bool := le a b && (!le b a || !p a || p b)

section Two
variable {p : α → Bool} {le : α → α → Bool} {rows l : List α} {m : ℕ}

theorem partLast_le {a b : α} (h : partLast p le a b) : le a b := by
  rw [partLast, Bool.and_eq_true] at h
  exact h.1

/-- Two different elements of a part that a list holds more than once. -/
theorem exists_two (hnodup : l.Nodup) (h : 1 < l.countP p) : ∃ a ∈ l, ∃ b ∈ l, p a = true ∧ p b = true ∧ a ≠ b := by
  rw [List.countP_eq_length_filter] at h
  have hpart := hnodup.filter p
  match hl : l.filter p with
  | [] | [_] => simp [hl] at h
  | a :: b :: rest =>
    have ha : a ∈ l.filter p := hl ▸ List.mem_cons_self
    have hb : b ∈ l.filter p := hl ▸ List.mem_cons_of_mem _ List.mem_cons_self
    rw [hl] at hpart
    have hne : a ≠ b := fun hab => (List.nodup_cons.mp hpart).1 (hab ▸ List.mem_cons_self)
    exact ⟨a, (List.mem_filter.mp ha).1, b, (List.mem_filter.mp hb).1, (List.mem_filter.mp ha).2,
      (List.mem_filter.mp hb).2, hne⟩

theorem countP_of_two {a b : α} (ha : a ∈ l) (hb : b ∈ l) (hpa : p a = true) (hpb : p b = true) (hne : a ≠ b) :
    1 < l.countP p := by
  obtain ⟨before, after, rfl⟩ := List.append_of_mem ha
  have hb : b ∈ before ++ after := by
    rcases List.mem_append.mp hb with hb | hb
    · exact List.mem_append_left _ hb
    · exact List.mem_append_right _ ((List.mem_cons.mp hb).resolve_left hne.symm)
  have hother : 0 < (before ++ after).countP p := List.countP_pos_iff.mpr ⟨b, hb, hpb⟩
  rw [List.countP_append] at hother
  rw [List.countP_append, List.countP_cons_of_pos hpa]
  omega

variable (htotal : ∀ a b, le a b ∨ le b a) (htrans : ∀ a b c, le a b → le b c → le a c)
include htotal htrans

omit htrans in
theorem partLast_total (a b : α) : partLast p le a b ∨ partLast p le b a := by
  have h := htotal a b
  cases hab : le a b <;> cases hba : le b a <;> cases ha : p a <;> cases hb : p b <;> simp_all [partLast]

omit htotal in
theorem partLast_trans (a b c : α) (hab : partLast p le a b) (hbc : partLast p le b c) : partLast p le a c := by
  simp only [partLast, Bool.and_eq_true, Bool.or_eq_true, Bool.not_eq_true'] at *
  refine ⟨htrans a b c hab.1 hbc.1, ?_⟩
  cases hca : le c a with
  | false => exact .inl (.inl rfl)
  | true =>
    have hba := htrans b c a hbc.1 hca
    have hcb := htrans c a b hca hab.1
    rw [hba] at hab
    rw [hcb] at hbc
    rcases hab.2 with (hno | ha) | hb
    · cases hno
    · exact .inl (.inr ha)
    · rcases hbc.2 with (hno | hb') | hc
      · cases hno
      · rw [hb] at hb'
        cases hb'
      · exact .inr hc

/-- The first `m` places hold two of a part in every order just when there are two of it that have at most `m - 2`
others around them or before. -/
theorem two_take_iff (hnodup : rows.Nodup) : (∀ l, Sorted le rows l → 1 < (l.take m).countP p) ↔
    ∃ a ∈ rows, ∃ b ∈ rows, p a = true ∧ p b = true ∧ a ≠ b ∧ le a b ∧
      rows.countP (fun c => !p c && le c b) + 2 ≤ m := by
  constructor
  · intro h
    have hsorted := sorted_mergeSort (partLast_total (p := p) htotal) (partLast_trans htrans) rows
    let l := rows.mergeSort (partLast p le)
    have hl : Sorted le rows l := ⟨hsorted.perm, hsorted.sorted.imp fun h => partLast_le h⟩
    have htwo := h l hl
    obtain ⟨a, ha, b, hb, hpa, hpb, hne⟩ := exists_two ((hl.perm.nodup_iff.mpr hnodup).sublist (List.take_sublist m l)) htwo
    have hmem : ∀ {c}, c ∈ l.take m → c ∈ rows := fun hc => hl.perm.mem_iff.mp (List.mem_of_mem_take hc)
    have hothers : ∀ b ∈ l.take m, p b = true → rows.countP (fun c => !p c && le c b) + 2 ≤ m := by
      intro b hb hpb
      have hdrop : (l.drop m).countP (fun c => !p c && le c b) = 0 := List.countP_eq_zero.mpr fun c hc hcount => by
        rw [Bool.and_eq_true, Bool.not_eq_true'] at hcount
        have hbc := hsorted.le_of_split hb hc
        simp [partLast, hcount.1, hcount.2, hpb] at hbc
      have htake : (l.take m).countP (fun c => !p c && le c b) ≤ (l.take m).countP fun c => !p c :=
        List.countP_mono_left fun c _ hc => (Bool.and_eq_true _ _ ▸ hc).1
      have hlength : (l.take m).length ≤ m := List.length_take_le ..
      have hsplit := List.length_eq_countP_add_countP p (l := l.take m)
      simp only [Bool.not_eq_true, Bool.decide_eq_false] at hsplit
      rw [hl.countP_eq (m := m), hdrop]
      omega
    rcases htotal a b with hab | hba
    · exact ⟨a, hmem ha, b, hmem hb, hpa, hpb, hne, hab, hothers b hb hpb⟩
    · exact ⟨b, hmem hb, a, hmem ha, hpb, hpa, hne.symm, hba, hothers a ha hpa⟩
  · rintro ⟨a, ha, b, hb, hpa, hpb, hne, hab, hothers⟩ l hl
    by_contra hfew
    have hrefl : ∀ a, le a a := fun a => (htotal a a).elim id id
    obtain ⟨x, hx, hxb⟩ : ∃ x ∈ l.drop m, le x b := by
      by_contra hnone
      push Not at hnone
      have hearly : ∀ x ∈ rows, le x b → x ∈ l.take m := fun x hx hxb => by
        have hmem := hl.perm.mem_iff.mpr hx
        rw [← List.take_append_drop m l] at hmem
        exact (List.mem_append.mp hmem).resolve_right fun hd => hnone x hd hxb
      exact hfew (countP_of_two (hearly a ha hab) (hearly b hb (hrefl b)) hpa hpb hne)
    have hfull : (l.take m).length = m := by
      have hpos := List.length_pos_of_mem hx
      rw [List.length_drop] at hpos
      rw [List.length_take]
      omega
    have hcount : (l.take m).countP (fun c => !p c) ≤ rows.countP fun c => !p c && le c b := by
      rw [hl.countP_eq (m := m)]
      refine Nat.le_trans (List.countP_mono_left fun c hc hpc => ?_) (Nat.le_add_right _ _)
      rw [Bool.and_eq_true]
      exact ⟨hpc, htrans c x b (hl.le_of_split hc hx) hxb⟩
    have hsplit := List.length_eq_countP_add_countP p (l := l.take m)
    simp only [Bool.not_eq_true, Bool.decide_eq_false] at hsplit
    omega

end Two

end Paging
