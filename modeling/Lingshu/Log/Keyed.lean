import Mathlib.Data.List.Sort

/-! # Logs of keyed entries

A log is a list of entries, the oldest first. `view` folds it over a map, entry by entry, each at its own key;
`puts` writes it into a store that keeps one entry for a key. -/
namespace Log
set_option autoImplicit false

variable {κ ε ρ : Type}

/-! ## Folding a log over a map -/

section View
variable (hits : κ → ε → Bool) (apply : ρ → ε → ρ)

/-- The map after one entry. -/
def viewStep (m : κ → ρ) (e : ε) : κ → ρ := fun k => if hits k e then apply (m k) e else m k

/-- The map after all of them. -/
def view (m : κ → ρ) (log : List ε) : κ → ρ := log.foldl (viewStep hits apply) m

/-- At one key only the entries of that key matter. -/
theorem view_apply (m : κ → ρ) (log : List ε) (k : κ) :
    view hits apply m log k = (log.filter (hits k)).foldl apply (m k) := by
  unfold view
  induction log generalizing m with
  | nil => rfl
  | cons e log ih =>
    rw [List.foldl_cons, ih, List.filter_cons]
    unfold viewStep
    cases hits k e <;> rfl

end View

/-! ## One entry for a key -/

section Puts
variable [DecidableEq κ] (key : ε → κ)

/-- The entry takes the place of one with its key. -/
def put (store : List ε) (e : ε) : List ε := store.filter (fun e' => key e' ≠ key e) ++ [e]

def puts (log : List ε) : List ε := log.foldl (put key) []

/-- The entries that none of the later ones has the key of. -/
def lasting : List ε → List ε
  | [] => []
  | e :: log => if ∃ e' ∈ log, key e' = key e then lasting log else e :: lasting log

variable {key} in
theorem lasting_cons_of_later {e : ε} {log : List ε} (h : ∃ e' ∈ log, key e' = key e) :
    lasting key (e :: log) = lasting key log :=
  if_pos h

variable {key} in
theorem lasting_cons_of_last {e : ε} {log : List ε} (h : ¬∃ e' ∈ log, key e' = key e) :
    lasting key (e :: log) = e :: lasting key log :=
  if_neg h

theorem lasting_sublist (log : List ε) : (lasting key log).Sublist log := by
  induction log with
  | nil => exact .slnil
  | cons e log ih =>
    by_cases hlater : ∃ e' ∈ log, key e' = key e
    · rw [lasting_cons_of_later hlater]
      exact ih.cons e
    · rw [lasting_cons_of_last hlater]
      exact ih.cons_cons e

theorem lasting_pairwise (log : List ε) : (lasting key log).Pairwise fun e e' => key e ≠ key e' := by
  induction log with
  | nil => exact .nil
  | cons e log ih =>
    by_cases hlater : ∃ e' ∈ log, key e' = key e
    · rw [lasting_cons_of_later hlater]
      exact ih
    · rw [lasting_cons_of_last hlater]
      refine .cons (fun e' he' hkey => hlater ⟨e', ?_, hkey.symm⟩) ih
      exact (lasting_sublist key log).subset he'

theorem foldl_put (store log : List ε) :
    log.foldl (put key) store = store.filter (fun e => ∀ e' ∈ log, key e' ≠ key e) ++ lasting key log := by
  induction log generalizing store with
  | nil => simp [lasting]
  | cons e log ih =>
    rw [List.foldl_cons, ih, put, List.filter_append, List.filter_filter]
    have hstore : (store.filter fun a => (decide (∀ e' ∈ log, key e' ≠ key a)) && decide (key a ≠ key e)) =
        store.filter (fun a => ∀ e' ∈ e :: log, key e' ≠ key a) := by
      refine List.filter_congr fun a _ => ?_
      rw [← Bool.decide_and, decide_eq_decide, List.forall_mem_cons, and_comm, ne_comm]
    rw [hstore, List.append_assoc]
    congr 1
    by_cases hlater : ∃ e' ∈ log, key e' = key e
    · rw [lasting_cons_of_later hlater, List.filter_cons_of_neg (by simpa using hlater)]
      rfl
    · rw [lasting_cons_of_last hlater, List.filter_cons_of_pos (by simpa using hlater)]
      rfl

/-- What is in the store after the log. -/
theorem puts_eq_lasting (log : List ε) : puts key log = lasting key log := by
  rw [puts, foldl_put]
  rfl

/-- The entries with a property all last exactly when each of them has a key of its own from then on. -/
theorem filter_lasting_iff (p : ε → Bool) (log : List ε) :
    (lasting key log).filter p = log.filter p ↔ log.Pairwise (fun e e' => p e → key e' ≠ key e) := by
  induction log with
  | nil => simp [lasting]
  | cons e log ih =>
    rw [List.pairwise_cons]
    by_cases hlater : ∃ e' ∈ log, key e' = key e
    · rw [lasting_cons_of_later hlater]
      cases hp : p e with
      | false =>
        rw [List.filter_cons_of_neg (by simp [hp]), ih]
        simp
      | true =>
        obtain ⟨e', he', hkey⟩ := hlater
        rw [List.filter_cons_of_pos hp]
        constructor
        · intro h
          have hle := ((lasting_sublist key log).filter p).length_le
          rw [h, List.length_cons] at hle
          omega
        · intro h
          exact absurd hkey (h.1 e' he' rfl)
    · rw [lasting_cons_of_last hlater]
      have hnone : ∀ e' ∈ log, key e' ≠ key e := fun e' he' hkey => hlater ⟨e', he', hkey⟩
      cases hp : p e with
      | false =>
        rw [List.filter_cons_of_neg (by simp [hp]), List.filter_cons_of_neg (by simp [hp]), ih]
        simp
      | true =>
        rw [List.filter_cons_of_pos hp, List.filter_cons_of_pos hp, List.cons.injEq, ih]
        simp only [true_and, iff_and_self]
        exact fun _ e' he' _ => hnone e' he'

end Puts

/-! ## In the order of a label -/

section Sorted
variable {β γ : Type} [LinearOrder β] [LinearOrder γ] (f : ε → β) (g : ε → γ)

def sortBy (l : List ε) : List ε := l.insertionSort fun a b => f a ≤ f b

theorem sortBy_perm (l : List ε) : (sortBy f l).Perm l := List.perm_insertionSort _ l

theorem sortBy_pairwise (l : List ε) : (sortBy f l).Pairwise fun a b => f a ≤ f b := by
  have htotal : Std.Total fun a b : ε => f a ≤ f b := ⟨fun a b => le_total (f a) (f b)⟩
  have htrans : IsTrans ε fun a b => f a ≤ f b := ⟨fun _ _ _ => le_trans⟩
  exact List.pairwise_insertionSort _ l

theorem le_of_pairwise {l : List ε} (hf : l.Pairwise fun a b => f a ≤ f b) (hg : l.Pairwise fun a b => g a ≤ g b)
    {a b : ε} (ha : a ∈ l) (hb : b ∈ l) (h : f a < f b) : g a ≤ g b := by
  induction l with
  | nil => cases ha
  | cons x l ih =>
    obtain ⟨hfx, hf⟩ := List.pairwise_cons.mp hf
    obtain ⟨hgx, hg⟩ := List.pairwise_cons.mp hg
    rcases List.mem_cons.mp ha with rfl | ha'
    · rcases List.mem_cons.mp hb with rfl | hb'
      · exact absurd h (lt_irrefl _)
      · exact hgx b hb'
    · rcases List.mem_cons.mp hb with rfl | hb'
      · exact absurd h (not_lt_of_ge (hfx a ha'))
      · exact ih hf hg ha' hb'

/-- A list in the order of labels that differ is in the order of other labels too exactly when the labels agree. -/
theorem pairwise_iff_of_labels {l : List ε} (hf : l.Pairwise fun a b => f a ≤ f b)
    (hne : l.Pairwise fun a b => f a ≠ f b) :
    (l.Pairwise fun a b => g a ≤ g b) ↔ ∀ a ∈ l, ∀ b ∈ l, f a < f b → g a ≤ g b := by
  constructor
  · intro hg a ha b hb
    exact le_of_pairwise f g hf hg ha hb
  · intro h
    refine (hf.and hne).imp_of_mem fun ha hb hab => ?_
    exact h _ ha _ hb (lt_of_le_of_ne hab.1 hab.2)

end Sorted

end Log
