import Mathlib.Algebra.Ring.Nat
import Mathlib.Data.List.TakeWhile

/-! # Patterns of character classes

A pattern lists how many elements of which class follow one another. `scan` takes as many as it can; where no element of
a class with `many` may follow that class, this reads what the pattern spells. -/
namespace Text
set_option autoImplicit false

variable {α : Type}

inductive Item (α : Type) where
  | exactly (n : ℕ) (p : α → Bool)
  | many (p : α → Bool)

/-- The list is made of the pieces that the pattern asks for. -/
inductive Spells : List (Item α) → List α → Prop where
  | nil : Spells [] []
  | exactly {p : α → Bool} {items : List (Item α)} {piece text : List α} (hp : ∀ a ∈ piece, p a)
      (rest : Spells items text) : Spells (.exactly piece.length p :: items) (piece ++ text)
  | many {p : α → Bool} {items : List (Item α)} {piece text : List α} (hne : piece ≠ []) (hp : ∀ a ∈ piece, p a)
      (rest : Spells items text) : Spells (.many p :: items) (piece ++ text)

/-- What comes after the pieces that the pattern asks for. -/
def scan : List (Item α) → List α → Option (List α)
  | [], text => some text
  | .exactly n p :: items, text =>
    if (text.take n).length = n ∧ (text.take n).all p then scan items (text.drop n) else none
  | .many p :: items, text => if text.takeWhile p = [] then none else scan items (text.dropWhile p)

/-- After a class with `many` comes an element that is not in it. -/
def Determinate : List (Item α) → Prop
  | [] => True
  | .exactly _ _ :: items => Determinate items
  | .many p :: .exactly (_ + 1) q :: items => (∀ a, q a → p a = false) ∧ Determinate items
  | .many _ :: _ => False

variable {items : List (Item α)} {text piece rest : List α} {p q : α → Bool} {n : ℕ}

theorem spells_exactly_iff : Spells (.exactly n p :: items) text ↔
    ∃ piece rest, piece.length = n ∧ (∀ a ∈ piece, p a) ∧ Spells items rest ∧ text = piece ++ rest := by
  constructor
  · intro h
    cases h with
    | exactly hp hrest => exact ⟨_, _, rfl, hp, hrest, rfl⟩
  · rintro ⟨piece, rest, rfl, hp, hrest, rfl⟩
    exact .exactly hp hrest

theorem spells_many_iff : Spells (.many p :: items) text ↔
    ∃ piece rest, piece ≠ [] ∧ (∀ a ∈ piece, p a) ∧ Spells items rest ∧ text = piece ++ rest := by
  constructor
  · intro h
    cases h with
    | many hne hp hrest => exact ⟨_, _, hne, hp, hrest, rfl⟩
  · rintro ⟨piece, rest, hne, hp, hrest, rfl⟩
    exact .many hne hp hrest

theorem spells_nil_iff : Spells ([] : List (Item α)) text ↔ text = [] := by
  constructor
  · intro h
    cases h
    rfl
  · rintro rfl
    exact .nil

/-- The element itself. -/
def Item.one [DecidableEq α] (a : α) : Item α := .exactly 1 fun b => b = a

theorem spells_one_iff [DecidableEq α] {a : α} :
    Spells (.one a :: items) text ↔ ∃ rest, Spells items rest ∧ text = a :: rest := by
  rw [Item.one, spells_exactly_iff]
  constructor
  · rintro ⟨piece, rest, hlength, hp, hrest, rfl⟩
    obtain ⟨b, rfl⟩ := List.length_eq_one_iff.mp hlength
    obtain rfl := of_decide_eq_true (hp b List.mem_cons_self)
    exact ⟨rest, hrest, rfl⟩
  · rintro ⟨rest, hrest, rfl⟩
    exact ⟨[a], rest, rfl, fun b hb => decide_eq_true (List.mem_singleton.mp hb), hrest, rfl⟩

theorem spells_of_scan (h : scan items text = some rest) : ∃ piece, Spells items piece ∧ text = piece ++ rest := by
  induction items generalizing text with
  | nil =>
    obtain rfl := Option.some.inj h
    exact ⟨[], .nil, rfl⟩
  | cons item items ih =>
    cases item with
    | exactly n p =>
      unfold scan at h
      split at h
      next hfits =>
        obtain ⟨piece, hspells, hrest⟩ := ih h
        have hpiece := Spells.exactly (List.all_eq_true.mp hfits.2) hspells
        rw [hfits.1] at hpiece
        refine ⟨_, hpiece, ?_⟩
        rw [List.append_assoc, ← hrest, List.take_append_drop]
      next => cases h
    | many p =>
      unfold scan at h
      split at h
      next => cases h
      next hne =>
        obtain ⟨piece, hspells, hrest⟩ := ih h
        refine ⟨_, Spells.many hne (fun a ha => List.mem_takeWhile_imp ha) hspells, ?_⟩
        rw [List.append_assoc, ← hrest, List.takeWhile_append_dropWhile]

theorem head_of_exactly (h : Spells (.exactly (n + 1) q :: items) piece) : ∃ a as, piece = a :: as ∧ q a := by
  obtain ⟨piece, rest, hlength, hp, -, rfl⟩ := spells_exactly_iff.mp h
  obtain ⟨a, as, rfl⟩ := List.exists_cons_of_length_eq_add_one hlength
  exact ⟨a, as ++ rest, rfl, hp a List.mem_cons_self⟩

theorem scan_of_spells (hdet : Determinate items) (h : Spells items piece) (rest : List α) :
    scan items (piece ++ rest) = some rest := by
  induction h with
  | nil => rfl
  | @exactly p items piece text hp _ ih =>
    rw [scan, List.append_assoc, List.take_left, List.drop_left, if_pos ⟨rfl, List.all_eq_true.mpr hp⟩]
    exact ih hdet
  | @many p items piece text hne hp hrest ih =>
    match items, hdet with
    | .exactly (n + 1) q :: items, hdet =>
      obtain ⟨hdisjoint, hdet⟩ := hdet
      obtain ⟨a, as, rfl, ha⟩ := head_of_exactly hrest
      have htake : ((piece ++ a :: as) ++ rest).takeWhile p = piece := by
        rw [List.append_assoc, List.takeWhile_append_of_pos hp, List.cons_append, List.takeWhile_cons,
          hdisjoint a ha]
        simp
      have hdrop : ((piece ++ a :: as) ++ rest).dropWhile p = a :: as ++ rest := by
        rw [List.append_assoc, List.dropWhile_append_of_pos hp, List.cons_append, List.dropWhile_cons,
          hdisjoint a ha]
        simp
      rw [scan, htake, hdrop, if_neg hne]
      exact ih hdet

/-! ## Groups -/

section Groups
variable (sep : α)

/-- Groups of the given sizes, with a separator between two. -/
def grouped : List ℕ → List α → List α
  | [], _ => []
  | [n], l => l.take n
  | n :: ns, l => l.take n ++ sep :: grouped ns (l.drop n)

def groupItems [DecidableEq α] (p : α → Bool) : List ℕ → List (Item α)
  | [] => []
  | [n] => [.exactly n p]
  | n :: ns => .exactly n p :: .one sep :: groupItems p ns

theorem grouped_cons_cons (n m : ℕ) (ns : List ℕ) (l : List α) :
    grouped sep (n :: m :: ns) l = l.take n ++ sep :: grouped sep (m :: ns) (l.drop n) := rfl

theorem groupItems_cons_cons [DecidableEq α] (n m : ℕ) (ns : List ℕ) :
    groupItems sep p (n :: m :: ns) = .exactly n p :: .one sep :: groupItems sep p (m :: ns) := rfl

theorem mem_grouped {a : α} {ns : List ℕ} {l : List α} (h : a ∈ grouped sep ns l) : a ∈ l ∨ a = sep := by
  induction ns generalizing l with
  | nil => cases h
  | cons n ns ih =>
    cases ns with
    | nil => exact .inl (List.mem_of_mem_take h)
    | cons m ns =>
      rw [grouped_cons_cons, List.mem_append, List.mem_cons] at h
      rcases h with h | h | h
      · exact .inl (List.mem_of_mem_take h)
      · exact .inr h
      · exact (ih h).imp_left List.mem_of_mem_drop

theorem spells_groupItems_iff [DecidableEq α] {ns : List ℕ} :
    Spells (groupItems sep p ns) text ↔ ∃ l, l.length = ns.sum ∧ (∀ a ∈ l, p a) ∧ text = grouped sep ns l := by
  induction ns generalizing text with
  | nil =>
    rw [groupItems, spells_nil_iff]
    constructor
    · exact fun h => ⟨[], rfl, fun a ha => absurd ha List.not_mem_nil, h⟩
    · rintro ⟨_, _, _, h⟩
      exact h
  | cons n ns ih =>
    cases ns with
    | nil =>
      simp only [groupItems, grouped, spells_exactly_iff, spells_nil_iff, List.sum_cons, List.sum_nil, Nat.add_zero]
      constructor
      · rintro ⟨piece, rest, hlength, hp, rfl, rfl⟩
        exact ⟨piece, hlength, hp, by rw [List.append_nil, List.take_of_length_le hlength.le]⟩
      · rintro ⟨l, hlength, hp, rfl⟩
        exact ⟨l, [], hlength, hp, rfl, by rw [List.append_nil, List.take_of_length_le hlength.le]⟩
    | cons m ns =>
      rw [groupItems_cons_cons, spells_exactly_iff]
      simp only [spells_one_iff, ih]
      constructor
      · rintro ⟨piece, _, hlength, hp, ⟨_, ⟨l, hl, hpl, rfl⟩, rfl⟩, rfl⟩
        refine ⟨piece ++ l, by rw [List.length_append, hlength, hl]; rfl, ?_, ?_⟩
        · intro a ha
          exact (List.mem_append.mp ha).elim (hp a) (hpl a)
        · rw [grouped_cons_cons, ← hlength, List.take_left, List.drop_left]
      · rintro ⟨l, hlength, hp, rfl⟩
        rw [List.sum_cons] at hlength
        refine ⟨l.take n, _, by rw [List.length_take]; omega, fun a ha => hp a (List.mem_of_mem_take ha),
          ⟨_, ⟨l.drop n, by rw [List.length_drop]; omega, fun a ha => hp a (List.mem_of_mem_drop ha), rfl⟩, rfl⟩, ?_⟩
        exact grouped_cons_cons ..

end Groups

end Text
