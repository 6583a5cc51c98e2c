import Lingshu.Workflow.Values

/-! # Literals as they are written

What `_resolve_literal` makes of a boolean, an integer, a decimal and a quoted string. -/
namespace Lingshu.Workflow
open Json
set_option autoImplicit false

inductive Quote where
  | single
  | double
  deriving DecidableEq, Repr

def Quote.char : Quote → Char
  | .single => '\''
  | .double => '"'

inductive Sign where
  | none
  | plus
  | minus
  deriving DecidableEq, Repr

def Sign.text : Sign → List Char
  | .none => []
  | .plus => ['+']
  | .minus => ['-']

def digitChars : List Char := ['0', '1', '2', '3', '4', '5', '6', '7', '8', '9']

def Digits (text : List Char) : Prop := ∀ c ∈ text, c ∈ digitChars

instance (text : List Char) : Decidable (Digits text) := inferInstanceAs (Decidable (∀ c ∈ text, c ∈ digitChars))

/-- A boolean in any case, an integer, a decimal, a quoted string without its quote. -/
inductive Written where
  | bool (b : Bool) (text : List Char) (h : lower text = if b then ['t', 'r', 'u', 'e'] else ['f', 'a', 'l', 's', 'e'])
  | int (sign : Sign) (digits : List Char) (hne : digits ≠ []) (h : Digits digits)
  | decimal (sign : Sign) (whole fraction : List Char) (hne : whole ++ fraction ≠ []) (h : Digits (whole ++ fraction))
  | quoted (quote : Quote) (content : List Char) (h : quote.char ∉ content)

def Written.text : Written → List Char
  | .bool _ text _ => text
  | .int sign digits _ _ => sign.text ++ digits
  | .decimal sign whole fraction _ _ => sign.text ++ (whole ++ '.' :: fraction)
  | .quoted quote content _ => quote.char :: (content ++ [quote.char])

def signed (sign : Sign) (n : ℕ) : Int := if sign = .minus then -(n : Int) else n

/-- What a literal denotes; a float stands for what its text is read as. -/
def Written.value : Written → Literal
  | .bool b _ _ => .bool b
  | .int sign digits _ _ => .int (signed sign (digitsValue digits))
  | .decimal sign whole fraction _ _ => .float (String.ofList (sign.text ++ (whole ++ '.' :: fraction)))
  | .quoted _ content _ => .str (String.ofList content)

/-! ## Reading literals -/

theorem digitOf_digit : ∀ c ∈ digitChars, digitOf c = some (c.toNat - 48) :=
  List.all_iff_forall_prop.mp (by decide)

theorem digit_ne : ∀ c ∈ digitChars, c ≠ '_' ∧ c ≠ '.' ∧ c ≠ 'e' ∧ c ≠ 'E' ∧ c ≠ '+' ∧ c ≠ '-' :=
  List.all_iff_forall_prop.mp (by decide)

theorem quote_ne (quote : Quote) : quote.char ≠ '_' ∧ quote.char ≠ '.' ∧ quote.char ≠ 'e' ∧ quote.char ≠ 'E' ∧
    quote.char ≠ '+' ∧ quote.char ≠ '-' := by
  cases quote <;> decide

theorem digitOf_quote (quote : Quote) : digitOf quote.char = none := by
  cases quote <;> decide

/-- The letters of the words that are no literals of their own. -/
def wordLetters : List Char := ['t', 'r', 'u', 'e', 'f', 'a', 'l', 's', 'i', 'n', 'y']

theorem digit_lower : ∀ c ∈ digitChars, c.toLower ∉ wordLetters := List.all_iff_forall_prop.mp (by decide)

theorem quote_lower (quote : Quote) : quote.char.toLower ∉ wordLetters := by
  cases quote <;> decide

theorem lower_ne {text word : List Char} {c : Char} (hword : word ⊆ wordLetters) (hc : c ∈ text)
    (hlower : c.toLower ∉ wordLetters) : lower text ≠ word := by
  intro h
  exact hlower (hword (h ▸ List.mem_map_of_mem hc))

theorem signOf_sign (sign : Sign) {text : List Char} (h : ∀ c ∈ text.head?, c ≠ '+' ∧ c ≠ '-') :
    signOf (sign.text ++ text) = (decide (sign = .minus), text) := by
  cases sign with
  | plus => rfl
  | minus => rfl
  | none =>
    cases text with
    | nil => rfl
    | cons c text =>
      obtain ⟨hplus, hminus⟩ := h c rfl
      unfold signOf Sign.text
      split
      next heq => exact absurd (List.cons.inj heq).1 hminus
      next heq => exact absurd (List.cons.inj heq).1 hplus
      next => rfl

theorem digits_head {digits : List Char} (h : Digits digits) : ∀ c ∈ digits.head?, c ≠ '+' ∧ c ≠ '-' :=
  fun c hc => (digit_ne c (h c (List.mem_of_mem_head? hc))).2.2.2.2

theorem mapM_digitOf {digits : List Char} (h : Digits digits) :
    digits.mapM digitOf = some (digits.map fun c => c.toNat - 48) := by
  induction digits with
  | nil => rfl
  | cons c digits ih =>
    obtain ⟨hc, hrest⟩ := List.forall_mem_cons.mp h
    simp [List.mapM_cons, digitOf_digit c hc, ih hrest]

theorem digitsOf_digits {digits : List Char} (hne : digits ≠ []) (h : Digits digits) :
    digitsOf digits = some (digits.map fun c => c.toNat - 48) := by
  have hsplit : digits.splitOn '_' = [digits] :=
    List.splitOn_eq_singleton fun hmem => (digit_ne _ (h _ hmem)).1 rfl
  rw [digitsOf, hsplit, if_neg (by simpa using Ne.symm hne)]
  simpa using mapM_digitOf h

/-- Every character of a text that is read as digits is a digit or an underscore. -/
theorem digitsOf_eq_none {text : List Char} {c : Char} (hc : c ∈ text) (hunderscore : c ≠ '_')
    (hdigit : digitOf c = none) : digitsOf text = none := by
  have hmem : ∀ text : List Char, c ∈ text → c ∈ (text.splitOn '_').flatten := by
    intro text
    induction text with
    | nil => exact fun h => absurd h List.not_mem_nil
    | cons a text ih =>
      intro h
      rw [List.splitOn_cons_eq_if_modifyHead]
      obtain rfl | h := List.mem_cons.mp h
      · obtain ⟨piece, pieces, hsplit⟩ := List.exists_cons_of_ne_nil (List.splitOn_ne_nil '_' text)
        simp [hunderscore, hsplit]
      · obtain ⟨piece, pieces, hsplit⟩ := List.exists_cons_of_ne_nil (List.splitOn_ne_nil '_' text)
        have := ih h
        by_cases ha : a = '_' <;> simp_all
  have hnone : ∀ l : List Char, c ∈ l → l.mapM digitOf = none := by
    intro l
    induction l with
    | nil => exact fun h => absurd h List.not_mem_nil
    | cons a l ih =>
      intro h
      rw [List.mapM_cons]
      obtain rfl | h := List.mem_cons.mp h
      · simp [hdigit]
      · cases digitOf a <;> simp [ih h]
  unfold digitsOf
  split
  · rfl
  · exact hnone _ (hmem text hc)

theorem intOf_digits (sign : Sign) {digits : List Char} (hne : digits ≠ []) (h : Digits digits) :
    intOf (sign.text ++ digits) =
      if digits.length ≤ maxStrDigits then some (signed sign (digitsValue digits)) else none := by
  have hsign : signOf (sign.text ++ digits) = (decide (sign = .minus), digits) :=
    signOf_sign sign (digits_head h)
  rw [intOf, hsign, digitsOf_digits hne h]
  simp only [List.length_map, List.foldl_map, decide_eq_true_eq]
  by_cases hlength : digits.length ≤ maxStrDigits
  · rw [if_neg (by omega), if_pos hlength]
    rfl
  · rw [if_pos (by omega), if_neg hlength]

/-- A mantissa without an exponent, after a sign. -/
theorem isFloat_of_mantissa (sign : Sign) {text : List Char} (hhead : ∀ c ∈ text.head?, c ≠ '+' ∧ c ≠ '-')
    (hplain : ∀ c ∈ text, c ≠ 'e' ∧ c ≠ 'E') (h : isMantissa text = true) : isFloat (sign.text ++ text) = true := by
  have htake : text.takeWhile (fun c => c ≠ 'e' ∧ c ≠ 'E') = text :=
    List.takeWhile_eq_self_iff.mpr fun c hc => decide_eq_true (hplain c hc)
  have hdrop : text.dropWhile (fun c => c ≠ 'e' ∧ c ≠ 'E') = [] :=
    List.dropWhile_eq_nil_iff.mpr fun c hc => decide_eq_true (hplain c hc)
  rw [isFloat, signOf_sign sign hhead]
  simp only [htake, hdrop, h, isExponent, and_true, or_true, decide_true]

theorem isMantissa_point {whole fraction : List Char} (hne : whole ++ fraction ≠ []) (h : Digits (whole ++ fraction)) :
    isMantissa (whole ++ '.' :: fraction) = true := by
  have hwhole : Digits whole := fun c hc => h c (List.mem_append_left _ hc)
  have hfraction : Digits fraction := fun c hc => h c (List.mem_append_right _ hc)
  have hpoint : ∀ c ∈ whole, decide (c ≠ '.') = true := fun c hc => decide_eq_true (digit_ne c (hwhole c hc)).2.1
  have hread : ∀ {digits : List Char}, Digits digits → digits = [] ∨ (digitsOf digits).isSome = true := by
    intro digits hdigits
    by_cases hnil : digits = []
    · exact .inl hnil
    · exact .inr (by rw [digitsOf_digits hnil hdigits]; rfl)
  rw [isMantissa, List.takeWhile_append_of_pos hpoint, List.dropWhile_append_of_pos hpoint]
  have hboth : ¬(whole = [] ∧ fraction = []) := fun ⟨hw, hf⟩ => hne (by rw [hw, hf]; rfl)
  simpa using ⟨hread hwhole, hread hfraction, not_and_or.mp hboth⟩

theorem isFloat_decimal (sign : Sign) {whole fraction : List Char} (hne : whole ++ fraction ≠ [])
    (h : Digits (whole ++ fraction)) : isFloat (sign.text ++ (whole ++ '.' :: fraction)) = true := by
  have hchar : ∀ c ∈ whole ++ '.' :: fraction, c = '.' ∨ c ∈ digitChars := by
    intro c hc
    obtain hc | hc := List.mem_append.mp hc
    · exact .inr (h c (List.mem_append_left _ hc))
    · exact (List.mem_cons.mp hc).imp_right fun hc => h c (List.mem_append_right _ hc)
  refine isFloat_of_mantissa sign (fun c hc => ?_) (fun c hc => ?_) (isMantissa_point hne h)
  · obtain rfl | hdigit := hchar c (List.mem_of_mem_head? hc)
    · decide
    · exact (digit_ne c hdigit).2.2.2.2
  · obtain rfl | hdigit := hchar c hc
    · decide
    · exact ⟨(digit_ne c hdigit).2.2.1, (digit_ne c hdigit).2.2.2.1⟩

theorem isFloat_digits (sign : Sign) {digits : List Char} (hne : digits ≠ []) (h : Digits digits) :
    isFloat (sign.text ++ digits) = true := by
  refine isFloat_of_mantissa sign (digits_head h) (fun c hc => ?_) ?_
  · exact ⟨(digit_ne c (h c hc)).2.2.1, (digit_ne c (h c hc)).2.2.2.1⟩
  · have hpoint : ∀ c ∈ digits, decide (c ≠ '.') = true := fun c hc => decide_eq_true (digit_ne c (h c hc)).2.1
    rw [isMantissa, List.takeWhile_eq_self_iff.mpr hpoint, List.dropWhile_eq_nil_iff.mpr hpoint]
    simp only [digitsOf_digits hne h, Option.isSome_some]

theorem signOf_quote (quote : Quote) (rest : List Char) : signOf (quote.char :: rest) = (false, quote.char :: rest) := by
  cases quote <;> rfl

theorem isMantissa_quote (quote : Quote) (rest : List Char) : isMantissa (quote.char :: rest) = false := by
  obtain ⟨hunderscore, hpoint, -⟩ := quote_ne quote
  have htake : (quote.char :: rest).takeWhile (· ≠ '.') = quote.char :: rest.takeWhile (· ≠ '.') :=
    List.takeWhile_cons_of_pos (by simpa using hpoint)
  have hnone : digitsOf (quote.char :: rest.takeWhile (· ≠ '.')) = none :=
    digitsOf_eq_none List.mem_cons_self hunderscore (digitOf_quote quote)
  rw [isMantissa, htake]
  split
  · rw [hnone]
    rfl
  · simp only [hnone, Option.isSome_none, reduceCtorEq, false_and, or_false, decide_false, Bool.false_eq_true]

theorem isFloat_quote (quote : Quote) (rest : List Char) : isFloat (quote.char :: rest) = false := by
  obtain ⟨-, -, he, hE, -⟩ := quote_ne quote
  have htake : (quote.char :: rest).takeWhile (fun c => c ≠ 'e' ∧ c ≠ 'E') =
      quote.char :: rest.takeWhile (fun c => c ≠ 'e' ∧ c ≠ 'E') := List.takeWhile_cons_of_pos (by simp [he, hE])
  have hspecial : lower (quote.char :: rest) ∉ specialFloats := by
    intro hmem
    have hwords : ∀ word ∈ specialFloats, word ⊆ wordLetters := by decide
    exact lower_ne (hwords _ hmem) List.mem_cons_self (quote_lower quote) rfl
  rw [isFloat, signOf_quote]
  simp only [htake, hspecial, isMantissa_quote, Bool.false_eq_true, false_and, or_false, decide_false]

/-- An integer with more digits than `int()` takes is read by `float()`. -/
def readAs : Written → Literal
  | .int sign digits _ _ =>
    if digits.length ≤ maxStrDigits then .int (signed sign (digitsValue digits))
    else .float (String.ofList (sign.text ++ digits))
  | w => w.value

theorem resolveLiteral_eq {raw : List Char} {c : Char} (hc : c ∈ raw) (hlower : c.toLower ∉ wordLetters) :
    resolveLiteral raw = resolveOther raw := by
  rw [resolveLiteral, if_neg (lower_ne (by decide) hc hlower), if_neg (lower_ne (by decide) hc hlower)]

theorem resolveLiteral_written (w : Written) : resolveLiteral w.text = readAs w := by
  cases w with
  | bool b text h =>
    cases b with
    | true => exact if_pos h
    | false =>
      have hfalse : lower text = ['f', 'a', 'l', 's', 'e'] := h
      have htrue : lower text ≠ ['t', 'r', 'u', 'e'] := by
        rw [hfalse]
        decide
      exact (if_neg htrue).trans (if_pos hfalse)
  | int sign digits hne h =>
    obtain ⟨c, hc⟩ := List.exists_mem_of_ne_nil digits hne
    rw [Written.text, resolveLiteral_eq (List.mem_append_right _ hc) (digit_lower c (h c hc)), resolveOther,
      intOf_digits sign hne h, readAs]
    by_cases hlength : digits.length ≤ maxStrDigits
    · simp only [if_pos hlength]
    · simp only [if_neg hlength, isFloat_digits sign hne h, if_true]
  | decimal sign whole fraction hne h =>
    obtain ⟨c, hc⟩ := List.exists_mem_of_ne_nil (whole ++ fraction) hne
    have hmem : c ∈ sign.text ++ (whole ++ '.' :: fraction) := by
      simp only [List.mem_append, List.mem_cons] at hc ⊢
      exact .inr (hc.imp_right .inr)
    have hhead : ∀ c ∈ (whole ++ '.' :: fraction).head?, c ≠ '+' ∧ c ≠ '-' := by
      cases whole with
      | nil =>
        rintro c ⟨⟩
        decide
      | cons d whole =>
        rintro c ⟨⟩
        exact (digit_ne d (h d List.mem_cons_self)).2.2.2.2
    have hint : intOf (sign.text ++ (whole ++ '.' :: fraction)) = none := by
      have hnone : digitsOf (whole ++ '.' :: fraction) = none :=
        digitsOf_eq_none (List.mem_append_right _ List.mem_cons_self) (by decide) (by decide : digitOf '.' = none)
      rw [intOf, signOf_sign sign hhead]
      simp only [hnone]
    rw [Written.text, resolveLiteral_eq hmem (digit_lower c (h c hc)), resolveOther, hint]
    exact if_pos (isFloat_decimal sign hne h)
  | quoted quote content h =>
    have hint : intOf (quote.char :: (content ++ [quote.char])) = none := by
      have hnone : digitsOf (quote.char :: (content ++ [quote.char])) = none :=
        digitsOf_eq_none List.mem_cons_self (quote_ne quote).1 (digitOf_quote quote)
      rw [intOf, signOf_quote]
      simp only [hnone]
    have hlast : (quote.char :: (content ++ [quote.char])).getLast? = some quote.char := by
      rw [← List.cons_append, List.getLast?_concat]
    rw [Written.text, resolveLiteral_eq List.mem_cons_self (quote_lower quote), resolveOther, hint]
    simp only [isFloat_quote, Bool.false_eq_true, if_false, hlast, List.head?_cons, List.drop_succ_cons, List.drop_zero,
      List.dropLast_concat]
    cases quote <;> rfl

end Lingshu.Workflow
