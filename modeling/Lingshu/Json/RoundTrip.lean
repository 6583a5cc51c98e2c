import Lingshu.Json.Access
import Mathlib.Data.Int.Notation
import Mathlib.Data.List.TakeDrop
import Mathlib.Tactic.Common

/-! # What is written is read

`loads` of what `dumps` writes is the value. -/
namespace Json
set_option autoImplicit false

/-! ## Values -/

/-- The text is that of a float. -/
def isFloatText (text : String) : Bool :=
  decide ((parseConstant text.toList).or (parseNumber text.toList) = some (.float text, []))

mutual

/-- A value of Python: the text of a float is one, and the keys of a dict are distinct. -/
def Value.wellFormed : Value → Bool
  | .float text => isFloatText text
  | .list items => itemsWellFormed items
  | .dict entries => decide (entries.map Prod.fst).Nodup && entriesWellFormed entries
  | _ => true

def itemsWellFormed : List Value → Bool
  | [] => true
  | v :: vs => v.wellFormed && itemsWellFormed vs

def entriesWellFormed : List (String × Value) → Bool
  | [] => true
  | (_, v) :: es => v.wellFormed && entriesWellFormed es

end

/-! ## Numbers -/

/-- What may follow a number. -/
def Ends (rest : List Char) : Prop :=
  ∀ c ∈ rest.head?, c.isDigit = false ∧ c ≠ '.' ∧ c ≠ 'e' ∧ c ≠ 'E' ∧ c ≠ '+' ∧ c ≠ '-'

section Numbers
variable {cs rest : List Char}

theorem ends_nil : Ends [] := fun c hc => by cases hc

theorem ends_cons {c : Char} (h : c = ',' ∨ c = ']' ∨ c = '\x7d') : Ends (c :: rest) := by
  intro c' hc'
  obtain rfl : c = c' := Option.some.inj hc'
  rcases h with rfl | rfl | rfl <;> decide

theorem takeDigits_cons (c : Char) (cs : List Char) : takeDigits (c :: cs) =
    if c.isDigit then (c :: (takeDigits cs).1, (takeDigits cs).2) else ([], c :: cs) := by
  simp only [takeDigits, List.span_eq_takeWhile_dropWhile, List.takeWhile_cons, List.dropWhile_cons]
  split <;> rfl

theorem takeDigits_ends (h : Ends rest) : takeDigits rest = ([], rest) := by
  cases rest with
  | nil => rfl
  | cons c rest => rw [takeDigits_cons, if_neg (by simp [(h c rfl).1])]

theorem takeDigits_append (h : Ends rest) :
    takeDigits (cs ++ rest) = ((takeDigits cs).1, (takeDigits cs).2 ++ rest) := by
  induction cs with
  | nil => exact takeDigits_ends h
  | cons c cs ih =>
    rw [List.cons_append, takeDigits_cons, takeDigits_cons, ih]
    split <;> rfl

theorem takeDigits_of_isDigit (h : ∀ c ∈ cs, c.isDigit = true) : takeDigits cs = (cs, []) := by
  induction cs with
  | nil => rfl
  | cons c cs ih =>
    rw [takeDigits_cons, if_pos (h c List.mem_cons_self), ih fun c hc => h c (List.mem_cons_of_mem _ hc)]

/-- The fraction of a number. -/
def parseFrac (cs : List Char) : List Char × List Char :=
  match cs with
  | '.' :: rest => if (takeDigits rest).1 = [] then ([], cs) else ('.' :: (takeDigits rest).1, (takeDigits rest).2)
  | _ => ([], cs)

def parseSign (cs : List Char) : List Char × List Char :=
  match cs with
  | c :: rest => if c = '+' ∨ c = '-' then ([c], rest) else ([], cs)
  | [] => ([], cs)

/-- The exponent of a number. -/
def parseExpo (cs : List Char) : List Char × List Char :=
  match cs with
  | e :: rest =>
    if e = 'e' ∨ e = 'E' then
      if (takeDigits (parseSign rest).2).1 = [] then ([], cs)
      else (e :: (parseSign rest).1 ++ (takeDigits (parseSign rest).2).1, (takeDigits (parseSign rest).2).2)
    else ([], cs)
  | [] => ([], cs)

theorem parseTail_eq (cs : List Char) : parseTail cs =
    ((parseFrac cs).1 ++ (parseExpo (parseFrac cs).2).1, (parseExpo (parseFrac cs).2).2) := by
  rfl

theorem parseFrac_append (h : Ends rest) : parseFrac (cs ++ rest) = ((parseFrac cs).1, (parseFrac cs).2 ++ rest) := by
  cases cs with
  | nil =>
    rw [List.nil_append]
    unfold parseFrac
    split
    · next x => exact absurd rfl (h '.' rfl).2.1
    · rfl
  | cons c cs =>
    rw [List.cons_append]
    by_cases hc : c = '.'
    · subst hc
      simp only [parseFrac, takeDigits_append h]
      split <;> rfl
    · unfold parseFrac
      split
      · next x hx => exact absurd (List.cons.inj hx).1 hc
      · split
        · next x hx => exact absurd (List.cons.inj hx).1 hc
        · rfl

theorem parseSign_append (h : Ends rest) : parseSign (cs ++ rest) = ((parseSign cs).1, (parseSign cs).2 ++ rest) := by
  cases cs with
  | nil =>
    cases rest with
    | nil => rfl
    | cons c rest =>
      obtain ⟨-, -, -, -, hplus, hminus⟩ := h c rfl
      simp [parseSign, hplus, hminus]
  | cons c cs =>
    simp only [List.cons_append, parseSign]
    split <;> rfl

theorem parseExpo_append (h : Ends rest) : parseExpo (cs ++ rest) = ((parseExpo cs).1, (parseExpo cs).2 ++ rest) := by
  cases cs with
  | nil =>
    cases rest with
    | nil => rfl
    | cons c rest =>
      obtain ⟨-, -, he, hE, -, -⟩ := h c rfl
      simp [parseExpo, he, hE]
  | cons c cs =>
    simp only [List.cons_append, parseExpo, parseSign_append h, takeDigits_append h]
    split
    · split <;> rfl
    · rfl

theorem parseTail_append (h : Ends rest) : parseTail (cs ++ rest) = ((parseTail cs).1, (parseTail cs).2 ++ rest) := by
  rw [parseTail_eq, parseTail_eq, parseFrac_append h, parseExpo_append h]

/-- The part of a number before the fraction; a leading zero stands alone. -/
def parseInteger (cs : List Char) : List Char × List Char :=
  match cs with
  | '0' :: rest => (['0'], rest)
  | _ => takeDigits cs

theorem parseInteger_append (h : Ends rest) :
    parseInteger (cs ++ rest) = ((parseInteger cs).1, (parseInteger cs).2 ++ rest) := by
  cases cs with
  | nil =>
    rw [List.nil_append]
    unfold parseInteger
    split
    · next x => exact absurd (h '0' rfl).1 (by decide)
    · exact takeDigits_ends h
  | cons c cs =>
    by_cases hc : c = '0'
    · subst hc
      rfl
    · unfold parseInteger
      split
      · next x hx => exact absurd (List.cons.inj hx).1 hc
      · split
        · next x hx => exact absurd (List.cons.inj hx).1 hc
        · exact takeDigits_append h

/-- A number without its sign. -/
def parseUnsigned (negative : Bool) (cs : List Char) : Option (Value × List Char) :=
  if (parseInteger cs).1 = [] then none
  else
    let tail := parseTail (parseInteger cs).2
    if tail.1 = [] then
      let n : ℕ := digitsValue (parseInteger cs).1
      some (.int (if negative then -(n : Int) else n), tail.2)
    else
      some (.float (String.ofList ((if negative then ['-'] else []) ++ (parseInteger cs).1 ++ tail.1)), tail.2)

def parseMinus (cs : List Char) : Bool × List Char :=
  match cs with
  | '-' :: rest => (true, rest)
  | _ => (false, cs)

theorem parseNumber_eq (cs : List Char) : parseNumber cs = parseUnsigned (parseMinus cs).1 (parseMinus cs).2 := rfl

theorem parseMinus_cons {c : Char} (h : c ≠ '-') (cs : List Char) : parseMinus (c :: cs) = (false, c :: cs) := by
  unfold parseMinus
  split
  · next x hx => exact absurd (List.cons.inj hx).1 h
  · rfl

theorem parseMinus_append (h : Ends rest) :
    parseMinus (cs ++ rest) = ((parseMinus cs).1, (parseMinus cs).2 ++ rest) := by
  cases cs with
  | nil =>
    cases rest with
    | nil => rfl
    | cons c rest => exact parseMinus_cons (h c rfl).2.2.2.2.2 rest
  | cons c cs =>
    by_cases hc : c = '-'
    · subst hc
      rfl
    · rw [List.cons_append, parseMinus_cons hc, parseMinus_cons hc]
      rfl

theorem parseUnsigned_append {negative : Bool} {v : Value} {left : List Char} (h : Ends rest)
    (hnumber : parseUnsigned negative cs = some (v, left)) :
    parseUnsigned negative (cs ++ rest) = some (v, left ++ rest) := by
  simp only [parseUnsigned, parseInteger_append h, parseTail_append h] at *
  split at hnumber
  · cases hnumber
  · rw [if_neg (by assumption)]
    split at hnumber <;> cases hnumber <;> simp_all

theorem parseNumber_append {v : Value} {left : List Char} (h : Ends rest) (hnumber : parseNumber cs = some (v, left)) :
    parseNumber (cs ++ rest) = some (v, left ++ rest) := by
  rw [parseNumber_eq] at hnumber
  rw [parseNumber_eq, parseMinus_append h]
  exact parseUnsigned_append h hnumber

theorem digitsValue_eq (ds : List Char) : digitsValue ds = Nat.ofDigitChars 10 ds 0 := by
  rw [Nat.ofDigitChars_eq_foldl]
  rfl

/-- Only zero begins with a zero. -/
theorem head?_toDigits {n : ℕ} (hn : 0 < n) : (Nat.toDigits 10 n).head? ≠ some '0' := by
  induction n using Nat.strongRecOn with
  | ind n ih =>
    rw [Nat.toDigits_eq_if (by decide)]
    split
    · next hlt =>
      have hchar : ∀ d < 10, 0 < d → d.digitChar ≠ '0' := by decide
      simpa using hchar n hlt hn
    · have hrest := ih (n / 10) (by omega) (by omega)
      cases hdigits : Nat.toDigits 10 (n / 10) with
      | nil => exact absurd hdigits Nat.toDigits_ne_nil
      | cons c cs =>
        rw [hdigits] at hrest
        exact hrest

theorem parseInteger_toDigits (n : ℕ) : parseInteger (Nat.toDigits 10 n) = (Nat.toDigits 10 n, []) := by
  obtain rfl | hn := Nat.eq_zero_or_pos n
  · rfl
  have hdigits : ∀ c ∈ Nat.toDigits 10 n, c.isDigit = true := fun c hc =>
    Nat.isDigit_of_mem_toDigits (by decide) (by decide) hc
  unfold parseInteger
  split
  · next x hx => exact absurd (congrArg List.head? hx) (head?_toDigits hn)
  · exact takeDigits_of_isDigit hdigits

theorem parseUnsigned_nat (negative : Bool) (n : ℕ) (h : Ends rest) :
    parseUnsigned negative (Nat.toDigits 10 n ++ rest) = some (.int (if negative then -(n : Int) else n), rest) := by
  have hnil : Nat.toDigits 10 n ≠ [] := Nat.toDigits_ne_nil
  simp only [parseUnsigned, parseInteger_append h, parseInteger_toDigits, if_neg hnil]
  have htail : parseTail ([] ++ rest) = ([], [] ++ rest) := parseTail_append h
  rw [htail, if_pos rfl, digitsValue_eq, Nat.ofDigitChars_ten_toDigits]
  rfl

theorem toString_int (i : ℤ) : (toString i).toList =
    if 0 ≤ i then i.toNat.repr.toList else '-' :: (-i).toNat.repr.toList := by
  rw [Int.toString_eq_repr, Int.repr_eq_if]
  split
  · rfl
  · rw [String.toList_append]
    rfl

theorem parseMinus_toDigits (n : ℕ) (rest : List Char) :
    parseMinus (Nat.toDigits 10 n ++ rest) = (false, Nat.toDigits 10 n ++ rest) := by
  cases hdigits : Nat.toDigits 10 n with
  | nil => exact absurd hdigits Nat.toDigits_ne_nil
  | cons c cs =>
    refine parseMinus_cons (fun hc => ?_) _
    have hmem : '-' ∈ Nat.toDigits 10 n := by rw [hdigits, hc]; exact List.mem_cons_self
    exact absurd (Nat.isDigit_of_mem_toDigits (by decide) (by decide) hmem) (by decide)

theorem parseNumber_int (i : ℤ) (h : Ends rest) : parseNumber ((toString i).toList ++ rest) = some (.int i, rest) := by
  rw [toString_int, parseNumber_eq]
  split
  · next hi =>
    rw [Nat.toList_repr, parseMinus_toDigits, parseUnsigned_nat _ _ h]
    simp [Int.toNat_of_nonneg hi]
  · next hi =>
    rw [Nat.toList_repr]
    have hminus : parseMinus ('-' :: Nat.toDigits 10 (-i).toNat ++ rest) =
        (true, Nat.toDigits 10 (-i).toNat ++ rest) := rfl
    rw [hminus, parseUnsigned_nat _ _ h, if_pos rfl, Int.toNat_of_nonneg (by omega), Int.neg_neg]

end Numbers

/-! ## Strings -/

section Strings
variable {rest acc : List Char} {fuel : ℕ}

theorem hexValue_hexDigit : ∀ n < 16, hexValue (hexDigit n) = some n := by decide

theorem toList_unicodeEscape (n : ℕ) : (unicodeEscape n).toList = '\\' :: 'u' ::
    [hexDigit (n / 4096 % 16), hexDigit (n / 256 % 16), hexDigit (n / 16 % 16), hexDigit (n % 16)] := by
  have happend : unicodeEscape n = "\\u" ++ String.ofList [hexDigit (n / 4096 % 16), hexDigit (n / 256 % 16),
    hexDigit (n / 16 % 16), hexDigit (n % 16)] := rfl
  have hopen : "\\u".toList = ['\\', 'u'] := rfl
  rw [happend, String.toList_append, hopen, String.toList_ofList]
  rfl

/-- No character is a surrogate. -/
theorem scalar (c : Char) : c.toNat < 55296 ∨ (57343 < c.toNat ∧ c.toNat < 1114112) := c.valid

theorem hex4_digits {n : ℕ} (hn : n < 65536) (rest : List Char) :
    hex4 (hexDigit (n / 4096 % 16) :: hexDigit (n / 256 % 16) :: hexDigit (n / 16 % 16) :: hexDigit (n % 16) :: rest) =
      some (n, rest) := by
  have hdigit : ∀ m, hexValue (hexDigit (m % 16)) = some (m % 16) := fun m =>
    hexValue_hexDigit _ (Nat.mod_lt _ (by decide))
  have hsum : n / 4096 % 16 * 4096 + n / 256 % 16 * 256 + n / 16 % 16 * 16 + n % 16 = n := by omega
  simp only [hex4, hdigit, Option.bind_eq_bind, Option.bind_some, hsum]
  rfl

theorem parseChars_unicode {c : Char} (hc : c.toNat < 65536) (rest : List Char) :
    parseChars (fuel + 1) acc ((unicodeEscape c.toNat).toList ++ rest) = parseChars fuel (c :: acc) rest := by
  have hplain : ¬ (55296 ≤ c.toNat ∧ c.toNat < 56320) := by
    have hscalar := scalar c
    omega
  rw [toList_unicodeEscape]
  simp only [List.cons_append, List.nil_append, parseChars, hex4_digits hc, Option.bind_eq_bind, Option.bind_some]
  split
  · rw [if_neg hplain, Char.ofNat_toNat]
  · rw [Char.ofNat_toNat]

theorem parseChars_surrogates {hi lo : ℕ} (hhi : 55296 ≤ hi ∧ hi < 56320) (hlo : 56320 ≤ lo ∧ lo < 57344)
    (rest : List Char) : parseChars (fuel + 1) acc ((unicodeEscape hi ++ unicodeEscape lo).toList ++ rest) =
      parseChars fuel (Char.ofNat (65536 + (hi - 55296) * 1024 + (lo - 56320)) :: acc) rest := by
  have hhi' : hi < 65536 := by omega
  have hlo' : lo < 65536 := by omega
  rw [String.toList_append, toList_unicodeEscape, toList_unicodeEscape]
  simp only [List.cons_append, List.nil_append, parseChars, hex4_digits hhi', hex4_digits hlo', Option.bind_eq_bind,
    Option.bind_some]
  rw [if_pos hhi, if_pos hlo]

/-- A character outside the basic plane. -/
theorem parseChars_pair {c : Char} (hc : 65536 ≤ c.toNat) (rest : List Char) :
    parseChars (fuel + 1) acc ((unicodeEscape (55296 + (c.toNat - 65536) / 1024) ++
      unicodeEscape (56320 + (c.toNat - 65536) % 1024)).toList ++ rest) = parseChars fuel (c :: acc) rest := by
  have hscalar := scalar c
  have hchar : 65536 + (55296 + (c.toNat - 65536) / 1024 - 55296) * 1024 +
      (56320 + (c.toNat - 65536) % 1024 - 56320) = c.toNat := by omega
  rw [parseChars_surrogates (by omega) (by omega), hchar, Char.ofNat_toNat]

theorem parseChars_plain {c : Char} (hquote : c ≠ '"') (hslash : c ≠ '\\') (hc : 32 ≤ c.toNat) (rest : List Char) :
    parseChars (fuel + 1) acc (c :: rest) = parseChars fuel (c :: acc) rest := by
  have hlt : ¬ c.toNat < 32 := Nat.not_lt.mpr hc
  simp [parseChars, hslash, hlt]

theorem parseChars_escapeChar (c : Char) (rest : List Char) :
    parseChars (fuel + 1) acc ((escapeChar c).toList ++ rest) = parseChars fuel (c :: acc) rest := by
  unfold escapeChar
  split_ifs with h1 h2 h3 h4 h5 h6 h7 h8 h9
  · subst h1; rfl
  · subst h2; rfl
  · subst h3; rfl
  · subst h4; rfl
  · subst h5; rfl
  · obtain rfl : c = Char.ofNat 8 := by rw [← h6, Char.ofNat_toNat]
    rfl
  · obtain rfl : c = Char.ofNat 12 := by rw [← h7, Char.ofNat_toNat]
    rfl
  · rw [String.toList_singleton]
    exact parseChars_plain h1 h2 h8.1 rest
  · exact parseChars_unicode h9 rest
  · exact parseChars_pair (Nat.le_of_not_lt h9) rest

theorem parseChars_quote (s : List Char) (hfuel : s.length < fuel) :
    parseChars fuel acc ((s.flatMap fun c => (escapeChar c).toList) ++ '"' :: rest) =
      some (String.ofList (acc.reverse ++ s), rest) := by
  induction s generalizing fuel acc with
  | nil =>
    obtain ⟨fuel, rfl⟩ := Nat.exists_eq_add_of_lt hfuel
    rw [List.flatMap_nil, List.nil_append, List.append_nil]
    rfl
  | cons c s ih =>
    obtain ⟨fuel, rfl⟩ := Nat.exists_eq_succ_of_ne_zero (Nat.ne_of_gt (Nat.lt_of_le_of_lt (Nat.zero_le _) hfuel))
    rw [List.flatMap_cons, List.append_assoc, parseChars_escapeChar, ih (Nat.lt_of_succ_lt_succ hfuel),
      List.reverse_cons, List.append_assoc]
    rfl

end Strings

/-! ## Texts -/

/-- A character that a value may begin with. -/
def Opens (c : Char) : Prop := c ≠ ' ' ∧ c ≠ '\t' ∧ c ≠ '\n' ∧ c ≠ '\r' ∧ c ≠ ']' ∧ c ≠ '\x7d'

instance (c : Char) : Decidable (Opens c) := inferInstanceAs (Decidable (_ ∧ _ ∧ _ ∧ _ ∧ _ ∧ _))

section Texts
variable {cs rest : List Char} {c : Char} {fuel : ℕ}

theorem skipWs_of_opens (h : Opens c) (cs : List Char) : skipWs (c :: cs) = c :: cs := by
  obtain ⟨hspace, htab, hline, hreturn, -, -⟩ := h
  rw [skipWs, if_neg]
  simp [hspace, htab, hline, hreturn]

theorem toList_quote (s : String) :
    (quote s).toList = '"' :: ((s.toList.flatMap fun c => (escapeChar c).toList) ++ ['"']) := by
  have hmark : "\"".toList = ['"'] := rfl
  rw [quote, String.toList_append, String.toList_append, String.toList_join, List.flatMap_map, hmark]
  rfl

theorem length_escapeChar (c : Char) : 0 < (escapeChar c).toList.length := by
  unfold escapeChar
  split_ifs
  · exact Nat.zero_lt_succ 1
  · exact Nat.zero_lt_succ 1
  · exact Nat.zero_lt_succ 1
  · exact Nat.zero_lt_succ 1
  · exact Nat.zero_lt_succ 1
  · exact Nat.zero_lt_succ 1
  · exact Nat.zero_lt_succ 1
  · rw [String.toList_singleton]
    exact Nat.zero_lt_one
  · rw [toList_unicodeEscape]
    exact Nat.zero_lt_succ _
  · rw [String.toList_append, toList_unicodeEscape]
    exact Nat.zero_lt_succ _

theorem length_le_escaped (cs : List Char) : cs.length ≤ (cs.flatMap fun c => (escapeChar c).toList).length := by
  induction cs with
  | nil => exact Nat.le_refl 0
  | cons c cs ih =>
    have hc := length_escapeChar c
    rw [List.flatMap_cons, List.length_append, List.length_cons]
    omega

/-- A text read behind its opening quote. -/
theorem parseChars_toList (s : String) (rest : List Char) :
    parseChars (((s.toList.flatMap fun c => (escapeChar c).toList) ++ '"' :: rest).length + 1) []
      ((s.toList.flatMap fun c => (escapeChar c).toList) ++ '"' :: rest) = some (s, rest) := by
  have hlength := length_le_escaped s.toList
  have hfuel : s.toList.length < ((s.toList.flatMap fun c => (escapeChar c).toList) ++ '"' :: rest).length + 1 := by
    rw [List.length_append]
    omega
  rw [parseChars_quote _ hfuel, List.reverse_nil, List.nil_append, String.ofList_toList]

theorem parseUnsigned_none (negative : Bool) (hdigit : c.isDigit = false) (cs : List Char) :
    parseUnsigned negative (c :: cs) = none := by
  have hinteger : (parseInteger (c :: cs)).1 = [] := by
    unfold parseInteger
    split
    · next x hx =>
      rw [(List.cons.inj hx).1] at hdigit
      cases hdigit
    · rw [takeDigits_cons, hdigit]
      rfl
  rw [parseUnsigned, if_pos hinteger]

theorem parseNumber_none (hminus : c ≠ '-') (hdigit : c.isDigit = false) (cs : List Char) :
    parseNumber (c :: cs) = none := by
  rw [parseNumber_eq, parseMinus_cons hminus]
  exact parseUnsigned_none _ hdigit cs

theorem parseConstant_none {p : Value × List Char} (h : parseNumber cs = some p) : parseConstant cs = none := by
  unfold parseConstant
  split
  · rw [parseNumber_none (by decide) (by decide)] at h
    cases h
  · rw [parseNumber_none (by decide) (by decide)] at h
    cases h
  · next cs =>
    have hnone : parseNumber ('-' :: 'I' :: 'n' :: 'f' :: 'i' :: 'n' :: 'i' :: 't' :: 'y' :: cs) = none := by
      rw [parseNumber_eq]
      exact parseUnsigned_none true (show Char.isDigit 'I' = false by decide) _
    rw [hnone] at h
    cases h
  · rfl

theorem parseConstant_append {v : Value} {left : List Char} (h : parseConstant cs = some (v, left)) (rest : List Char) :
    parseConstant (cs ++ rest) = some (v, left ++ rest) := by
  unfold parseConstant at h
  split at h <;> cases h <;> rfl

/-- A constant or a number. -/
theorem parseValue_number {p : Value × List Char} (h : (parseConstant cs).or (parseNumber cs) = some p) :
    parseValue (fuel + 1) cs = some p := by
  have hword : ∀ c cs, c ≠ '-' → c ≠ 'N' → c ≠ 'I' → c.isDigit = false →
      (parseConstant (c :: cs)).or (parseNumber (c :: cs)) ≠ some p := by
    intro c cs hminus hN hI hdigit
    rw [parseNumber_none hminus hdigit, Option.or_none]
    unfold parseConstant
    split
    · next x hx => exact absurd (List.cons.inj hx).1 hN
    · next x hx => exact absurd (List.cons.inj hx).1 hI
    · next x hx => exact absurd (List.cons.inj hx).1 hminus
    · exact fun hnone => by cases hnone
  rw [parseValue.eq_def]
  simp only
  split <;> first
    | exact h
    | exact absurd h (hword _ _ (by decide) (by decide) (by decide) (by decide))

theorem float_append {v : Value} {left : List Char} (hends : Ends rest)
    (h : (parseConstant cs).or (parseNumber cs) = some (v, left)) :
    (parseConstant (cs ++ rest)).or (parseNumber (cs ++ rest)) = some (v, left ++ rest) := by
  cases hconstant : parseConstant cs with
  | some p =>
    rw [hconstant] at h
    obtain rfl := Option.some.inj h
    rw [parseConstant_append hconstant, Option.some_or]
  | none =>
    rw [hconstant, Option.none_or] at h
    have hnumber := parseNumber_append hends h
    rw [parseConstant_none hnumber, hnumber, Option.none_or]

/-- What a text of a float begins with. -/
theorem opens_of_float {v : Value} {left : List Char} (h : (parseConstant cs).or (parseNumber cs) = some (v, left)) :
    ∃ c cs', cs = c :: cs' ∧ Opens c := by
  cases cs with
  | nil => cases h
  | cons c cs =>
    refine ⟨c, cs, rfl, ?_⟩
    by_contra hno
    have hcases : c = ' ' ∨ c = '\t' ∨ c = '\n' ∨ c = '\r' ∨ c = ']' ∨ c = '\x7d' := by
      unfold Opens at hno
      tauto
    have hnone : parseConstant (c :: cs) = none ∧ parseNumber (c :: cs) = none := by
      rcases hcases with rfl | rfl | rfl | rfl | rfl | rfl <;>
        exact ⟨rfl, parseNumber_none (by decide) (by decide) cs⟩
    rw [hnone.1, hnone.2] at h
    cases h

/-- No text of a value begins with a blank or a closing bracket. -/
theorem opens_dumps {v : Value} (h : v.wellFormed) : ∃ c cs, (dumps v).toList = c :: cs ∧ Opens c := by
  cases v with
  | null => exact ⟨'n', _, rfl, by decide⟩
  | bool b => cases b <;> exact ⟨_, _, rfl, by decide⟩
  | int i =>
    have hint := parseNumber_int i ends_nil
    rw [List.append_nil] at hint
    have hread : (parseConstant (toString i).toList).or (parseNumber (toString i).toList) = some (.int i, []) := by
      rw [parseConstant_none hint, hint, Option.none_or]
    exact opens_of_float hread
  | float text => exact opens_of_float (of_decide_eq_true h)
  | str s => exact ⟨'"', _, toList_quote s, by decide⟩
  | list items =>
    refine ⟨'[', (dumpsItems items ++ "]").toList, ?_, by decide⟩
    rw [dumps, String.append_assoc, String.toList_append]
    rfl
  | dict entries =>
    refine ⟨'\x7b', (dumpsEntries entries ++ "\x7d").toList, ?_, by decide⟩
    rw [dumps, String.append_assoc, String.toList_append]
    rfl

/-- No blank before what is written. -/
theorem skipWs_dumps {v : Value} (h : v.wellFormed) (rest : List Char) :
    skipWs ((dumps v).toList ++ rest) = (dumps v).toList ++ rest := by
  obtain ⟨c, cs, hdumps, hopens⟩ := opens_dumps h
  rw [hdumps]
  exact skipWs_of_opens hopens _

end Texts

/-! ## Round trip -/

section Steps
variable {v : Value} {rest cs : List Char} {fuel : ℕ}

theorem parseValue_float {text : String} (h : isFloatText text) (hends : Ends rest) :
    parseValue (fuel + 1) (text.toList ++ rest) = some (.float text, rest) :=
  parseValue_number (float_append hends (of_decide_eq_true h))

theorem parseValue_int (i : ℤ) (hends : Ends rest) :
    parseValue (fuel + 1) ((toString i).toList ++ rest) = some (.int i, rest) := by
  have hint := parseNumber_int i hends
  exact parseValue_number (by rw [parseConstant_none hint, hint, Option.none_or])

theorem parseValue_str (s : String) (rest : List Char) :
    parseValue (fuel + 1) ((quote s).toList ++ rest) = some (.str s, rest) := by
  have hread := parseChars_toList s rest
  rw [toList_quote, List.cons_append, List.append_assoc, List.singleton_append, parseValue, hread]
  rfl

theorem parseValue_list {items : List Value} (hopens : ∃ c cs', cs = c :: cs' ∧ Opens c)
    (h : parseItems fuel cs = some (items, rest)) : parseValue (fuel + 1) ('[' :: cs) = some (.list items, rest) := by
  obtain ⟨c, cs', rfl, hopens⟩ := hopens
  rw [parseValue, skipWs_of_opens hopens]
  split
  · next hclose => exact absurd (List.cons.inj hclose).1 hopens.2.2.2.2.1
  · rw [h]
    rfl

theorem parseValue_dict {entries : List (String × Value)} (hopens : ∃ c cs', cs = c :: cs' ∧ Opens c)
    (h : parseEntries fuel cs = some (entries, rest)) :
    parseValue (fuel + 1) ('\x7b' :: cs) = some (.dict entries, rest) := by
  obtain ⟨c, cs', rfl, hopens⟩ := hopens
  rw [parseValue, skipWs_of_opens hopens]
  split
  · next hclose => exact absurd (List.cons.inj hclose).1 hopens.2.2.2.2.2
  · rw [h]
    rfl

theorem parseItems_last (h : parseValue fuel cs = some (v, ']' :: rest)) :
    parseItems (fuel + 1) cs = some ([v], rest) := by
  rw [parseItems, h]
  rfl

theorem parseItems_next {vs : List Value} {more : List Char} (h : parseValue fuel cs = some (v, ',' :: ' ' :: more))
    (hmore : skipWs more = more) (hrest : parseItems fuel more = some (vs, rest)) :
    parseItems (fuel + 1) cs = some (v :: vs, rest) := by
  have hskip : skipWs (' ' :: more) = more := by
    rw [skipWs, if_pos (.inl rfl), hmore]
  rw [parseItems, h]
  simp only [Option.bind_eq_bind, Option.bind_some]
  have hcomma : skipWs (',' :: ' ' :: more) = ',' :: ' ' :: more := skipWs_of_opens (by decide) _
  rw [hcomma]
  simp only [hskip, hrest, Option.bind_some]
  rfl

theorem parseEntries_last {k : String} {value : List Char} (hvalue : skipWs value = value)
    (h : parseValue fuel value = some (v, '\x7d' :: rest)) :
    parseEntries (fuel + 1) ((quote k).toList ++ ':' :: ' ' :: value) = some ([(k, v)], rest) := by
  have hread := parseChars_toList k (':' :: ' ' :: value)
  have hskip : skipWs (' ' :: value) = value := by
    rw [skipWs, if_pos (.inl rfl), hvalue]
  have hcolon : skipWs (':' :: ' ' :: value) = ':' :: ' ' :: value := skipWs_of_opens (by decide) _
  have hclose : skipWs ('\x7d' :: rest) = '\x7d' :: rest := rfl
  rw [toList_quote, List.cons_append, List.append_assoc, List.singleton_append, parseEntries, hread]
  simp only [Option.bind_eq_bind, Option.bind_some, hcolon, hskip, h, hclose]
  rfl

theorem parseEntries_next {k : String} {es : List (String × Value)} {value more : List Char} (hk : k ∉ es.map Prod.fst)
    (hvalue : skipWs value = value) (h : parseValue fuel value = some (v, ',' :: ' ' :: more))
    (hmore : skipWs more = more) (hrest : parseEntries fuel more = some (es, rest)) :
    parseEntries (fuel + 1) ((quote k).toList ++ ':' :: ' ' :: value) = some ((k, v) :: es, rest) := by
  have hread := parseChars_toList k (':' :: ' ' :: value)
  have hskip : ∀ {cs}, skipWs cs = cs → skipWs (' ' :: cs) = cs := fun hcs => by
    rw [skipWs, if_pos (.inl rfl), hcs]
  have hcolon : skipWs (':' :: ' ' :: value) = ':' :: ' ' :: value := skipWs_of_opens (by decide) _
  have hcomma : skipWs (',' :: ' ' :: more) = ',' :: ' ' :: more := skipWs_of_opens (by decide) _
  have hnew : es.lookup k = none := Assoc.lookup_eq_none_of_notMem hk
  rw [toList_quote, List.cons_append, List.append_assoc, List.singleton_append, parseEntries, hread]
  simp only [Option.bind_eq_bind, Option.bind_some, hcolon, hskip hvalue, h, hcomma, hskip hmore, hrest, hnew]
  rfl

end Steps

theorem toList_list (items : List Value) :
    (dumps (.list items)).toList = '[' :: ((dumpsItems items).toList ++ [']']) := by
  rw [dumps, String.append_assoc, String.toList_append, String.toList_append]
  rfl

theorem toList_dict (entries : List (String × Value)) :
    (dumps (.dict entries)).toList = '\x7b' :: ((dumpsEntries entries).toList ++ ['\x7d']) := by
  rw [dumps, String.append_assoc, String.toList_append, String.toList_append]
  rfl

theorem toList_items (v w : Value) (vs : List Value) : (dumpsItems (v :: w :: vs)).toList =
    (dumps v).toList ++ ',' :: ' ' :: (dumpsItems (w :: vs)).toList := by
  have hitems : dumpsItems (v :: w :: vs) = dumps v ++ (", " ++ dumpsItems (w :: vs)) := by
    rw [← String.append_assoc]
    simp only [dumpsItems]
  rw [hitems, String.toList_append, String.toList_append]
  rfl

theorem toList_entry (k : String) (v : Value) :
    (dumpsEntries [(k, v)]).toList = (quote k).toList ++ ':' :: ' ' :: (dumps v).toList := by
  rw [dumpsEntries, String.append_assoc, String.toList_append, String.toList_append]
  rfl

theorem toList_entries (k : String) (v : Value) (e : String × Value) (es : List (String × Value)) :
    (dumpsEntries ((k, v) :: e :: es)).toList =
      (quote k).toList ++ ':' :: ' ' :: ((dumps v).toList ++ ',' :: ' ' :: (dumpsEntries (e :: es)).toList) := by
  have hentries : dumpsEntries ((k, v) :: e :: es) =
      quote k ++ (": " ++ (dumps v ++ (", " ++ dumpsEntries (e :: es)))) := by
    simp only [dumpsEntries, String.append_assoc]
  rw [hentries, String.toList_append, String.toList_append, String.toList_append, String.toList_append]
  rfl

theorem opens_items {v : Value} {vs : List Value} (h : itemsWellFormed (v :: vs)) :
    ∃ c cs, (dumpsItems (v :: vs)).toList = c :: cs ∧ Opens c := by
  rw [itemsWellFormed, Bool.and_eq_true] at h
  obtain ⟨c, cs, hdumps, hopens⟩ := opens_dumps h.1
  cases vs with
  | nil => exact ⟨c, cs, hdumps, hopens⟩
  | cons w vs => exact ⟨c, _, by rw [toList_items, hdumps, List.cons_append], hopens⟩

theorem opens_entries (e : String × Value) (es : List (String × Value)) :
    ∃ cs, (dumpsEntries (e :: es)).toList = '"' :: cs := by
  cases es with
  | nil => exact ⟨_, by rw [toList_entry, toList_quote, List.cons_append]⟩
  | cons e' es => exact ⟨_, by rw [toList_entries, toList_quote, List.cons_append]⟩

/-- The parser reads the value at the beginning of a text. -/
def ReadBack (v : Value) : Prop := ∀ rest fuel, Ends rest → (dumps v).toList.length < fuel →
  parseValue fuel ((dumps v).toList ++ rest) = some (v, rest)

def ItemsReadBack (vs : List Value) : Prop := ∀ rest fuel, (dumpsItems vs).toList.length + 1 < fuel →
  parseItems fuel ((dumpsItems vs).toList ++ ']' :: rest) = some (vs, rest)

def EntriesReadBack (es : List (String × Value)) : Prop := ∀ rest fuel, (dumpsEntries es).toList.length + 1 < fuel →
  parseEntries fuel ((dumpsEntries es).toList ++ '\x7d' :: rest) = some (es, rest)

theorem exists_succ {m n : ℕ} (h : m < n) : ∃ k, n = k + 1 := ⟨n - 1, by omega⟩

section Values
variable {v w : Value} {vs : List Value} {k : String} {e : String × Value} {es : List (String × Value)}

theorem ReadBack.items (h : ReadBack v) : ItemsReadBack [v] := by
  intro rest fuel hfuel
  obtain ⟨fuel, rfl⟩ := exists_succ hfuel
  have hitems : dumpsItems [v] = dumps v := rfl
  rw [hitems] at hfuel
  exact parseItems_last (h (']' :: rest) fuel (ends_cons (.inr (.inl rfl))) (by omega))

theorem ItemsReadBack.cons (hv : ReadBack v) (hw : itemsWellFormed (w :: vs)) (h : ItemsReadBack (w :: vs)) :
    ItemsReadBack (v :: w :: vs) := by
  intro rest fuel hfuel
  obtain ⟨fuel, rfl⟩ := exists_succ hfuel
  rw [toList_items, List.length_append, List.length_cons, List.length_cons] at hfuel
  rw [toList_items, List.append_assoc, List.cons_append, List.cons_append]
  obtain ⟨c, cs, hitems, hopens⟩ := opens_items hw
  have hskip : skipWs ((dumpsItems (w :: vs)).toList ++ ']' :: rest) =
      (dumpsItems (w :: vs)).toList ++ ']' :: rest := by
    rw [hitems]
    exact skipWs_of_opens hopens _
  exact parseItems_next (hv _ fuel (ends_cons (.inl rfl)) (by omega)) hskip (h rest fuel (by omega))

theorem ReadBack.entries (hv : v.wellFormed) (h : ReadBack v) : EntriesReadBack [(k, v)] := by
  intro rest fuel hfuel
  obtain ⟨fuel, rfl⟩ := exists_succ hfuel
  rw [toList_entry, List.length_append, List.length_cons, List.length_cons] at hfuel
  rw [toList_entry, List.append_assoc, List.cons_append, List.cons_append]
  exact parseEntries_last (skipWs_dumps hv _) (h ('\x7d' :: rest) fuel (ends_cons (.inr (.inr rfl))) (by omega))

theorem EntriesReadBack.cons (hk : k ∉ (e :: es).map Prod.fst) (hv : v.wellFormed) (hread : ReadBack v)
    (h : EntriesReadBack (e :: es)) : EntriesReadBack ((k, v) :: e :: es) := by
  intro rest fuel hfuel
  obtain ⟨fuel, rfl⟩ := exists_succ hfuel
  have hlength : (dumps v).toList.length < fuel ∧ (dumpsEntries (e :: es)).toList.length + 1 < fuel := by
    rw [toList_entries, List.length_append, List.length_cons, List.length_cons, List.length_append, List.length_cons,
      List.length_cons] at hfuel
    omega
  rw [toList_entries, List.append_assoc, List.cons_append, List.cons_append, List.append_assoc, List.cons_append,
    List.cons_append]
  obtain ⟨cs, hentries⟩ := opens_entries e es
  have hskip : skipWs ((dumpsEntries (e :: es)).toList ++ '\x7d' :: rest) =
      (dumpsEntries (e :: es)).toList ++ '\x7d' :: rest := by
    rw [hentries]
    exact skipWs_of_opens (by decide) _
  exact parseEntries_next hk (skipWs_dumps hv _) (hread _ fuel (ends_cons (.inl rfl)) hlength.1) hskip
    (h rest fuel hlength.2)

theorem ItemsReadBack.list (hv : itemsWellFormed (v :: vs)) (h : ItemsReadBack (v :: vs)) :
    ReadBack (.list (v :: vs)) := by
  intro rest fuel _ hfuel
  obtain ⟨fuel, rfl⟩ := exists_succ hfuel
  rw [toList_list, List.length_cons, List.length_append, List.length_singleton] at hfuel
  rw [toList_list, List.cons_append, List.append_assoc, List.singleton_append]
  obtain ⟨c, cs, hitems, hopens⟩ := opens_items hv
  exact parseValue_list ⟨c, _, by rw [hitems, List.cons_append], hopens⟩ (h rest fuel (by omega))

theorem EntriesReadBack.dict (h : EntriesReadBack (e :: es)) : ReadBack (.dict (e :: es)) := by
  intro rest fuel _ hfuel
  obtain ⟨fuel, rfl⟩ := exists_succ hfuel
  rw [toList_dict, List.length_cons, List.length_append, List.length_singleton] at hfuel
  rw [toList_dict, List.cons_append, List.append_assoc, List.singleton_append]
  obtain ⟨cs, hentries⟩ := opens_entries e es
  exact parseValue_dict ⟨'"', _, by rw [hentries, List.cons_append], by decide⟩ (h rest fuel (by omega))

end Values

mutual

theorem readBack : ∀ v : Value, v.wellFormed → ReadBack v
  | .list (v :: vs), h => (itemsReadBack v vs h).list h
  | .dict ((k, v) :: es), h => by
    rw [Value.wellFormed, Bool.and_eq_true, decide_eq_true_eq] at h
    exact (entriesReadBack k v es h.1 h.2).dict
  | .null, h | .bool true, h | .bool false, h | .int i, h | .float text, h | .str s, h | .list [], h | .dict [], h => by
    intro rest fuel hends hfuel
    obtain ⟨fuel, rfl⟩ := exists_succ hfuel
    first
      | rfl
      | exact parseValue_int i hends
      | exact parseValue_float h hends
      | exact parseValue_str s rest
termination_by v => sizeOf v

theorem itemsReadBack : ∀ (v : Value) (vs : List Value), itemsWellFormed (v :: vs) → ItemsReadBack (v :: vs)
  | v, [], h => by
    rw [itemsWellFormed, Bool.and_eq_true] at h
    exact (readBack v h.1).items
  | v, w :: vs, h => by
    rw [itemsWellFormed, Bool.and_eq_true] at h
    exact .cons (readBack v h.1) h.2 (itemsReadBack w vs h.2)
termination_by v vs => sizeOf v + sizeOf vs + 1

theorem entriesReadBack : ∀ (k : String) (v : Value) (es : List (String × Value)),
    (((k, v) :: es).map Prod.fst).Nodup → entriesWellFormed ((k, v) :: es) → EntriesReadBack ((k, v) :: es)
  | k, v, [], _, h => by
    rw [entriesWellFormed, Bool.and_eq_true] at h
    exact (readBack v h.1).entries h.1
  | k, v, (k', w) :: es, hnodup, h => by
    rw [entriesWellFormed, Bool.and_eq_true] at h
    rw [List.map_cons, List.nodup_cons] at hnodup
    exact .cons hnodup.1 h.1 (readBack v h.1) (entriesReadBack k' w es hnodup.2 h.2)
termination_by _ v es => sizeOf v + sizeOf es + 1

end

/-- What is written is read as the same value. -/
theorem loads_dumps {v : Value} (h : v.wellFormed) : loads (dumps v) = some v := by
  have hskip := skipWs_dumps h []
  rw [List.append_nil] at hskip
  have hparse := readBack v h [] (2 * (dumps v).toList.length + 2) ends_nil (by omega)
  rw [List.append_nil] at hparse
  rw [loads, hskip, hparse]
  rfl

end Json
