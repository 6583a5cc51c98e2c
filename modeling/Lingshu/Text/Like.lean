import Mathlib.Data.List.Infix

/-! # Patterns of `LIKE`

`%` stands for any text, `_` for one character, and a backslash takes the character after it as it is. A text between
two `%` is meant to be found anywhere; it is exactly when it has none of the three. -/
namespace Text
set_option autoImplicit false

def special (c : Char) : Bool := c = '%' ∨ c = '_' ∨ c = '\\'

/-- The pattern comes first. -/
def like : List Char → List Char → Bool
  | [], s => s.isEmpty
  | c :: p, s =>
    if c = '%' then s.tails.any fun t => like p t
    else if c = '_' then s != [] && like p s.tail
    else if c = '\\' then
      match p with
      | [] => false
      | d :: p => s.head? = some d && like p s.tail
    else s.head? = some c && like p s.tail

/-- `%value%`. -/
def anywhere (v : List Char) : List Char := '%' :: (v ++ ['%'])

section Like
variable {c d : Char} {p s v : List Char}

theorem like_eq (c : Char) (p s : List Char) : like (c :: p) s =
    if c = '%' then s.tails.any fun t => like p t
    else if c = '_' then s != [] && like p s.tail
    else if c = '\\' then
      match p with
      | [] => false
      | d :: p => s.head? = some d && like p s.tail
    else s.head? = some c && like p s.tail := by
  cases p <;> rfl

theorem like_percent : like ('%' :: p) s ↔ ∃ t, t <:+ s ∧ like p t := by
  rw [like_eq, if_pos rfl]
  simp only [List.any_eq_true, List.mem_tails]

theorem like_escape (d : Char) (p s : List Char) : like ('\\' :: d :: p) (d :: s) = like p s := by
  rw [like_eq, if_neg (by decide), if_neg (by decide), if_pos rfl]
  simp

theorem like_cons (h : special c = false) : like (c :: p) s ↔ ∃ t, s = c :: t ∧ like p t := by
  simp only [special, decide_eq_false_iff_not, not_or] at h
  rw [like_eq, if_neg h.1, if_neg h.2.1, if_neg h.2.2]
  cases s with
  | nil => simp
  | cons x s =>
    simp only [List.head?_cons, Option.some.injEq, List.tail_cons, Bool.and_eq_true, decide_eq_true_eq, List.cons.injEq]
    constructor
    · rintro ⟨rfl, hlike⟩
      exact ⟨s, ⟨rfl, rfl⟩, hlike⟩
    · rintro ⟨t, ⟨rfl, rfl⟩, hlike⟩
      exact ⟨rfl, hlike⟩

theorem like_append (h : ∀ c ∈ v, special c = false) : like (v ++ p) s ↔ ∃ t, s = v ++ t ∧ like p t := by
  induction v generalizing s with
  | nil => simp
  | cons c v ih =>
    rw [List.cons_append, like_cons (h c List.mem_cons_self)]
    constructor
    · rintro ⟨t, rfl, hlike⟩
      obtain ⟨u, rfl, hrest⟩ := (ih fun c hc => h c (List.mem_cons_of_mem _ hc)).mp hlike
      exact ⟨u, rfl, hrest⟩
    · rintro ⟨t, rfl, hlike⟩
      exact ⟨v ++ t, rfl, (ih fun c hc => h c (List.mem_cons_of_mem _ hc)).mpr ⟨t, rfl, hlike⟩⟩

theorem like_any (s : List Char) : like ['%'] s := like_percent.mpr ⟨[], List.nil_suffix, rfl⟩

/-- A text without special characters is found wherever it stands. -/
theorem like_anywhere (h : ∀ c ∈ v, special c = false) : like (anywhere v) s ↔ v <:+: s := by
  rw [anywhere, like_percent]
  simp only [like_append h, like_any, and_true]
  constructor
  · rintro ⟨t, hsuffix, u, rfl⟩
    exact (List.infix_append' [] v u).trans hsuffix.isInfix
  · rintro ⟨a, b, rfl⟩
    exact ⟨v ++ b, ⟨a, by rw [List.append_assoc]⟩, b, rfl⟩

/-! ## Special characters -/

/-- A shortest text that the value finds as a pattern, with a letter for each `_`; a backslash at the end takes the `%`
after it. -/
def found : List Char → List Char
  | [] => []
  | c :: p =>
    if c = '%' then found p
    else if c = '_' then 'a' :: found p
    else if c = '\\' then
      match p with
      | [] => ['%']
      | d :: p => d :: found p
    else c :: found p

theorem found_eq (c : Char) (p : List Char) : found (c :: p) =
    if c = '%' then found p
    else if c = '_' then 'a' :: found p
    else if c = '\\' then
      match p with
      | [] => ['%']
      | d :: p => d :: found p
    else c :: found p := by
  cases p <;> rfl

theorem like_found (v : List Char) : like (v ++ ['%']) (found v) := by
  induction v using found.induct with
  | case1 => exact like_any _
  | case2 p ih =>
    rw [found_eq, if_pos rfl, List.cons_append, like_percent]
    exact ⟨found p, List.suffix_refl _, ih⟩
  | case3 p h ih =>
    rw [found_eq, if_neg h, if_pos rfl, List.cons_append, like_eq, if_neg h, if_pos rfl]
    exact ih
  | case4 h h' => decide
  | case5 d p h h' ih =>
    rw [found_eq, if_neg h, if_neg h', if_pos rfl, List.cons_append, List.cons_append, like_escape]
    exact ih
  | case6 c p h h' h'' ih =>
    rw [found_eq, if_neg h, if_neg h', if_neg h'', List.cons_append, like_cons (by simp [special, h, h', h''])]
    exact ⟨found p, rfl, ih⟩

/-- No character counts twice. -/
theorem found_length_le (v : List Char) : (found v).length ≤ v.length := by
  induction v using found.induct with
  | case1 => exact le_refl _
  | case2 p ih =>
    rw [found_eq, if_pos rfl, List.length_cons]
    exact Nat.le_succ_of_le ih
  | case3 p h ih =>
    rw [found_eq, if_neg h, if_pos rfl, List.length_cons, List.length_cons]
    exact Nat.succ_le_succ ih
  | case4 h h' => decide
  | case5 d p h h' ih =>
    rw [found_eq, if_neg h, if_neg h', if_pos rfl, List.length_cons, List.length_cons, List.length_cons]
    exact Nat.succ_le_succ (Nat.le_succ_of_le ih)
  | case6 c p h h' h'' ih =>
    rw [found_eq, if_neg h, if_neg h', if_neg h'', List.length_cons, List.length_cons]
    exact Nat.succ_le_succ ih

theorem not_special_of_found (v : List Char) (hfound : found v = v) : ∀ c ∈ v, special c = false := by
  induction v using found.induct with
  | case1 => exact fun c hc => absurd hc List.not_mem_nil
  | case2 p ih =>
    rw [found_eq, if_pos rfl] at hfound
    exact absurd (found_length_le p) (by rw [hfound, List.length_cons]; omega)
  | case3 p h ih =>
    rw [found_eq, if_neg h, if_pos rfl] at hfound
    exact absurd (List.cons.inj hfound).1 (by decide)
  | case4 h h' => exact absurd hfound (by decide)
  | case5 d p h h' ih =>
    rw [found_eq, if_neg h, if_neg h', if_pos rfl] at hfound
    have hlength := congrArg List.length hfound
    simp only [List.length_cons] at hlength
    exact absurd (found_length_le p) (by omega)
  | case6 c p h h' h'' ih =>
    rw [found_eq, if_neg h, if_neg h', if_neg h''] at hfound
    refine List.forall_mem_cons.mpr ⟨by simp [special, h, h', h''], ih (List.cons.inj hfound).2⟩

theorem mem_found (v : List Char) : ∀ c ∈ found v, c ∈ v ∨ c = 'a' ∨ c = '%' := by
  induction v using found.induct with
  | case1 => exact fun c hc => absurd hc List.not_mem_nil
  | case2 p ih =>
    rw [found_eq, if_pos rfl]
    exact fun c hc => (ih c hc).imp_left (List.mem_cons_of_mem _)
  | case3 p h ih =>
    rw [found_eq, if_neg h, if_pos rfl]
    exact List.forall_mem_cons.mpr ⟨.inr (.inl rfl), fun c hc => (ih c hc).imp_left (List.mem_cons_of_mem _)⟩
  | case4 h h' => exact fun c hc => .inr (.inr (List.mem_singleton.mp hc))
  | case5 d p h h' ih =>
    rw [found_eq, if_neg h, if_neg h', if_pos rfl]
    refine List.forall_mem_cons.mpr ⟨.inl (List.mem_cons_of_mem _ List.mem_cons_self), fun c hc => ?_⟩
    exact (ih c hc).imp_left fun hmem => List.mem_cons_of_mem _ (List.mem_cons_of_mem _ hmem)
  | case6 c p h h' h'' ih =>
    rw [found_eq, if_neg h, if_neg h', if_neg h'']
    exact List.forall_mem_cons.mpr ⟨.inl List.mem_cons_self, fun c hc => (ih c hc).imp_left (List.mem_cons_of_mem _)⟩

/-- With special characters the value finds a text that it does not stand in. -/
theorem special_found (hlike : like (anywhere v) (found v) → v <:+: found v) : ∀ c ∈ v, special c = false := by
  have hmatch : like (anywhere v) (found v) := like_percent.mpr ⟨found v, List.suffix_refl _, like_found v⟩
  refine not_special_of_found v ?_
  exact ((hlike hmatch).eq_of_length_le (found_length_le v)).symm

end Like

end Text
