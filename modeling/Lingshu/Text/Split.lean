import Mathlib.Data.List.DropRight
import Mathlib.Data.List.Infix

/-! # Splitting and stripping lists

The first occurrence of a list in another one, and a list without what it begins and ends with. -/
namespace Text
set_option autoImplicit false

variable {α : Type} {sub text pre xs ys : List α} {c : α}

/-! ## The first occurrence -/

section First
variable [DecidableEq α]

/-- What stands before and after the first occurrence. -/
def splitFirst (sub : List α) : List α → Option (List α × List α)
  | [] => if sub = [] then some ([], []) else none
  | a :: text =>
    if sub.isPrefixOf (a :: text) then some ([], (a :: text).drop sub.length)
    else (splitFirst sub text).map fun r => (a :: r.1, r.2)

theorem splitFirst_begins (h : sub <+: text) : splitFirst sub text = some ([], text.drop sub.length) := by
  cases text with
  | nil =>
    obtain rfl := List.prefix_nil.mp h
    rfl
  | cons a text => exact if_pos (List.isPrefixOf_iff_prefix.mpr h)

theorem splitFirst_cons (h : ¬sub <+: c :: text) :
    splitFirst sub (c :: text) = (splitFirst sub text).map fun r => (c :: r.1, r.2) :=
  if_neg fun hprefix => h (List.isPrefixOf_iff_prefix.mp hprefix)

theorem splitFirst_eq_none_iff : splitFirst sub text = none ↔ ¬sub <:+: text := by
  induction text with
  | nil => simp [splitFirst]
  | cons a text ih =>
    rw [List.infix_cons_iff, not_or, ← ih]
    by_cases hprefix : sub <+: a :: text
    · simp [splitFirst_begins hprefix, hprefix]
    · simp [splitFirst_cons hprefix, hprefix]

/-- Where the first element does not occur before, an occurrence is the first one. -/
theorem splitFirst_append (h : c ∉ pre) (rest : List α) :
    splitFirst (c :: sub) (pre ++ (c :: sub ++ rest)) = some (pre, rest) := by
  induction pre with
  | nil =>
    have hprefix : c :: sub <+: c :: sub ++ rest := List.prefix_append _ _
    rw [List.nil_append, splitFirst_begins hprefix, List.drop_left]
  | cons a pre ih =>
    obtain ⟨hne, hrest⟩ := not_or.mp (mt List.mem_cons.mpr h)
    have hprefix : ¬c :: sub <+: a :: (pre ++ (c :: sub ++ rest)) := fun hprefix =>
      hne (List.cons_prefix_cons.mp hprefix).1
    rw [List.cons_append, splitFirst_cons hprefix, ih hrest]
    rfl

end First

/-! ## Occurrences beside an element that is not part of them -/

/-- What stands before the first `c`, and what after it. -/
theorem append_cons_inj {xs' ys' : List α} (h : c ∉ xs) (h' : c ∉ xs') (heq : xs ++ c :: ys = xs' ++ c :: ys') :
    xs = xs' ∧ ys = ys' := by
  induction xs generalizing xs' with
  | nil =>
    cases xs' with
    | nil => exact ⟨rfl, (List.cons.inj heq).2⟩
    | cons x xs' => exact absurd (List.mem_cons.mpr (.inl (List.cons.inj heq).1)) h'
  | cons x xs ih =>
    cases xs' with
    | nil => exact absurd (List.mem_cons.mpr (.inl (List.cons.inj heq).1.symm)) h
    | cons x' xs' =>
      obtain ⟨rfl, htail⟩ := List.cons.inj heq
      obtain ⟨rfl, rfl⟩ := ih (fun hmem => h (List.mem_cons_of_mem _ hmem))
        (fun hmem => h' (List.mem_cons_of_mem _ hmem)) htail
      exact ⟨rfl, rfl⟩

theorem prefix_of_append_cons (hc : c ∉ sub) (h : sub <+: xs ++ c :: ys) : sub <+: xs := by
  induction xs generalizing sub with
  | nil =>
    cases sub with
    | nil => exact List.nil_prefix
    | cons a sub => exact absurd ((List.cons_prefix_cons.mp h).1 ▸ List.mem_cons_self) hc
  | cons x xs ih =>
    cases sub with
    | nil => exact List.nil_prefix
    | cons a sub =>
      obtain ⟨rfl, htail⟩ := List.cons_prefix_cons.mp h
      exact List.cons_prefix_cons.mpr ⟨rfl, ih (fun hmem => hc (List.mem_cons_of_mem _ hmem)) htail⟩

theorem infix_of_append_cons (hc : c ∉ sub) (h : sub <:+: xs ++ c :: ys) : sub <:+: xs ∨ sub <:+: ys := by
  induction xs with
  | nil =>
    obtain hprefix | htail := List.infix_cons_iff.mp h
    · exact .inl (prefix_of_append_cons hc hprefix).isInfix
    · exact .inr htail
  | cons x xs ih =>
    obtain hprefix | htail := List.infix_cons_iff.mp h
    · exact .inl (prefix_of_append_cons hc hprefix).isInfix
    · exact (ih htail).imp_left fun h => List.infix_cons_iff.mpr (.inr h)

theorem not_infix_of_notMem (hc : c ∈ sub) (h : c ∉ text) : ¬sub <:+: text := fun hinside => h (hinside.subset hc)

/-! ## Stripping -/

variable {p : α → Bool}

/-- Without the elements at both ends of which `p` holds. -/
def strip (p : α → Bool) (text : List α) : List α := (text.dropWhile p).rdropWhile p

theorem strip_cons_pos (h : p c = true) (text : List α) : strip p (c :: text) = strip p text := by
  rw [strip, List.dropWhile_cons_of_pos h, strip]

/-- A list that neither begins nor ends so is left as it is. -/
theorem strip_eq_self (hne : text ≠ []) (hhead : p (text.head hne) = false) (hlast : p (text.getLast hne) = false) :
    strip p text = text := by
  have hdrop : text.dropWhile p = text := by
    cases text with
    | nil => rfl
    | cons a text => exact List.dropWhile_cons_of_neg (by simpa using hhead)
  rw [strip, hdrop, List.rdropWhile_eq_self_iff]
  exact fun _ => by simpa using hlast

theorem strip_concat_pos (hne : text ≠ []) (hhead : p (text.head hne) = false) (h : p c = true) :
    strip p (text ++ [c]) = strip p text := by
  cases text with
  | nil => exact absurd rfl hne
  | cons a text =>
    have hneg : ¬p a = true := by simpa using hhead
    rw [strip, strip, List.cons_append, List.dropWhile_cons_of_neg hneg, List.dropWhile_cons_of_neg hneg,
      ← List.cons_append, List.rdropWhile_concat_pos _ _ _ h]

theorem mem_dropWhile {a : α} (ha : p a = false) (h : a ∈ text) : a ∈ text.dropWhile p := by
  induction text with
  | nil => exact h
  | cons b text ih =>
    rw [List.dropWhile_cons]
    split
    · next hb =>
      refine ih ((List.mem_cons.mp h).resolve_left ?_)
      rintro rfl
      simp [ha] at hb
    · exact h

/-- Elements of which `p` does not hold are kept. -/
theorem mem_strip {a : α} (ha : p a = false) (h : a ∈ text) : a ∈ strip p text := by
  rw [strip, List.rdropWhile, List.mem_reverse]
  exact mem_dropWhile ha (List.mem_reverse.mpr (mem_dropWhile ha h))

/-- What stands before an element that is kept is kept. -/
theorem strip_keeps {a : α} (ha : p a = false) (hc : p c = false) (rest : List α) :
    ∃ rest', strip p (a :: (xs ++ c :: rest)) = a :: (xs ++ c :: rest') := by
  have hneg : ¬p a = true := by simpa using ha
  rw [strip, List.dropWhile_cons_of_neg hneg]
  induction rest using List.reverseRecOn with
  | nil =>
    have hlast : ¬p c = true := by simpa using hc
    exact ⟨[], List.rdropWhile_concat_neg _ (a :: xs) c hlast⟩
  | append_singleton rest d ih =>
    have hsplit : a :: (xs ++ c :: (rest ++ [d])) = a :: (xs ++ c :: rest) ++ [d] := by simp
    rw [hsplit, List.rdropWhile_concat]
    split
    · exact ih
    · exact ⟨rest ++ [d], by simp⟩

/-! ## The alphabetical order -/

section Order
variable [LT α] {rest rest' : List α}

/-- A list that does not begin like others stands on one side of all of them. -/
theorem append_lt_iff (h : ¬pre <+: text) : pre ++ rest < text ↔ pre ++ rest' < text := by
  induction pre generalizing text with
  | nil => exact absurd List.nil_prefix h
  | cons a pre ih =>
    cases text with
    | nil => simp
    | cons b text =>
      rw [List.cons_append, List.cons_append, List.cons_lt_cons_iff, List.cons_lt_cons_iff]
      refine or_congr_right (and_congr_right fun hab => ?_)
      exact ih fun hprefix => h (hab ▸ (List.prefix_cons_inj a).mpr hprefix)

theorem lt_append_iff (h : ¬pre <+: text) : text < pre ++ rest ↔ text < pre ++ rest' := by
  induction pre generalizing text with
  | nil => exact absurd List.nil_prefix h
  | cons a pre ih =>
    cases text with
    | nil => simp
    | cons b text =>
      rw [List.cons_append, List.cons_append, List.cons_lt_cons_iff, List.cons_lt_cons_iff]
      refine or_congr_right (and_congr_right fun hab => ?_)
      exact ih fun hprefix => h (hab ▸ (List.prefix_cons_inj b).mpr hprefix)

theorem lt_append (h : rest ≠ []) : pre < pre ++ rest := by
  induction pre with
  | nil =>
    obtain ⟨a, as, rfl⟩ := List.exists_cons_of_ne_nil h
    exact List.nil_lt_cons a as
  | cons a pre ih => exact List.cons_lt_cons_iff.mpr (.inr ⟨rfl, ih⟩)

end Order

end Text
