import Lingshu.Json.RoundTrip

/-! # Writing JSON without escapes for what is not ASCII

`json.dumps` with `ensure_ascii=False`, which writes on one line. -/
namespace Json
set_option autoImplicit false

def escapeControl (c : Char) : String :=
  if c = '"' then "\\\""
  else if c = '\\' then "\\\\"
  else if c = '\n' then "\\n"
  else if c = '\r' then "\\r"
  else if c = '\t' then "\\t"
  else if c.toNat = 8 then "\\b"
  else if c.toNat = 12 then "\\f"
  else if 32 ≤ c.toNat then String.singleton c
  else unicodeEscape c.toNat

def quoteRaw (s : String) : String := "\"" ++ String.join (s.toList.map escapeControl) ++ "\""

mutual

/-- `json.dumps(v, ensure_ascii=False)`. -/
def dumpsRaw : Value → String
  | .null => "null"
  | .bool true => "true"
  | .bool false => "false"
  | .int i => toString i
  | .float text => text
  | .str s => quoteRaw s
  | .list items => "[" ++ dumpsRawItems items ++ "]"
  | .dict entries => "\x7b" ++ dumpsRawEntries entries ++ "\x7d"

def dumpsRawItems : List Value → String
  | [] => ""
  | [v] => dumpsRaw v
  | v :: vs => dumpsRaw v ++ ", " ++ dumpsRawItems vs

def dumpsRawEntries : List (String × Value) → String
  | [] => ""
  | [(k, v)] => quoteRaw k ++ ": " ++ dumpsRaw v
  | (k, v) :: es => quoteRaw k ++ ": " ++ dumpsRaw v ++ ", " ++ dumpsRawEntries es

end

/-! ## One line -/

/-- The text is on one line. -/
def OneLine (s : String) : Prop := '\n' ∉ s.toList

instance (s : String) : Decidable (OneLine s) := inferInstanceAs (Decidable ('\n' ∉ s.toList))

theorem OneLine.append {s t : String} (hs : OneLine s) (ht : OneLine t) : OneLine (s ++ t) := by
  rw [OneLine, String.toList_append, List.mem_append, not_or]
  exact ⟨hs, ht⟩

theorem oneLine_join {parts : List String} (h : ∀ s ∈ parts, OneLine s) : OneLine (String.join parts) := by
  rw [OneLine, String.toList_join, List.mem_flatMap]
  rintro ⟨s, hs, hmem⟩
  exact h s hs hmem

theorem newline_ne_hexDigit (n : ℕ) (h : n < 16) : '\n' ≠ hexDigit n := by
  revert n
  decide

theorem oneLine_unicodeEscape (n : ℕ) : OneLine (unicodeEscape n) := by
  rw [OneLine, toList_unicodeEscape]
  simp only [List.mem_cons, List.not_mem_nil, not_or, or_false]
  refine ⟨by decide, by decide, ?_, ?_, ?_, ?_⟩ <;> exact newline_ne_hexDigit _ (Nat.mod_lt _ (by decide))

theorem oneLine_escapeControl (c : Char) : OneLine (escapeControl c) := by
  unfold escapeControl
  split
  · decide
  split
  · decide
  split
  · decide
  split
  · decide
  split
  · decide
  split
  · decide
  split
  · decide
  split
  next hnewline _ _ _ _ _ =>
    rw [OneLine, String.toList_singleton, List.mem_singleton]
    exact Ne.symm hnewline
  next => exact oneLine_unicodeEscape _

theorem oneLine_quoteRaw (s : String) : OneLine (quoteRaw s) := by
  refine OneLine.append (OneLine.append (by decide) (oneLine_join fun t ht => ?_)) (by decide)
  obtain ⟨c, _, rfl⟩ := List.mem_map.mp ht
  exact oneLine_escapeControl c

theorem oneLine_int (i : ℤ) : OneLine (toString i) := by
  have hdigits : ∀ n : ℕ, '\n' ∉ Nat.toDigits 10 n := fun n hmem =>
    absurd (Nat.isDigit_of_mem_toDigits (by decide) (by decide) hmem) (by decide)
  rw [OneLine, toString_int]
  split
  · rw [Nat.toList_repr]
    exact hdigits _
  · rw [Nat.toList_repr, List.mem_cons, not_or]
    exact ⟨by decide, hdigits _⟩

section Floats
variable {cs rest left : List Char} {v : Value} {negative : Bool}

/-- What a number cannot contain is left over. -/
theorem parseUnsigned_left (h : Ends rest) (hnumber : parseUnsigned negative (cs ++ rest) = some (v, left)) :
    rest <:+ left := by
  simp only [parseUnsigned, parseInteger_append h, parseTail_append h] at hnumber
  split at hnumber
  · cases hnumber
  · split at hnumber <;> cases hnumber <;> exact List.suffix_append _ _

theorem parseNumber_left (h : Ends rest) (hnumber : parseNumber (cs ++ rest) = some (v, left)) : rest <:+ left := by
  rw [parseNumber_eq, parseMinus_append h] at hnumber
  exact parseUnsigned_left h hnumber

theorem ends_newline : Ends ('\n' :: rest) := by
  intro c hc
  obtain rfl : '\n' = c := Option.some.inj hc
  decide

theorem oneLine_float {text : String} (h : isFloatText text) : OneLine text := by
  have hread : (parseConstant text.toList).or (parseNumber text.toList) = some (.float text, []) := of_decide_eq_true h
  cases hconstant : parseConstant text.toList with
  | some p =>
    rw [hconstant, Option.some_or] at hread
    obtain rfl := Option.some.inj hread
    unfold parseConstant at hconstant
    split at hconstant <;> cases hconstant <;> decide
  | none =>
    rw [hconstant, Option.none_or] at hread
    intro hmem
    obtain ⟨xs, ys, hsplit⟩ := List.append_of_mem hmem
    rw [hsplit] at hread
    have hleft := parseNumber_left ends_newline hread
    cases List.suffix_nil.mp hleft

end Floats

mutual

theorem oneLine_dumpsRaw : ∀ v : Value, v.wellFormed → OneLine (dumpsRaw v)
  | .null, _ => (by decide : OneLine "null")
  | .bool true, _ => (by decide : OneLine "true")
  | .bool false, _ => (by decide : OneLine "false")
  | .int i, _ => oneLine_int i
  | .float text, h => oneLine_float h
  | .str s, _ => oneLine_quoteRaw s
  | .list items, h => OneLine.append (OneLine.append (by decide) (oneLine_dumpsRawItems items h)) (by decide)
  | .dict entries, h => by
    rw [Value.wellFormed, Bool.and_eq_true] at h
    exact OneLine.append (OneLine.append (by decide) (oneLine_dumpsRawEntries entries h.2)) (by decide)

theorem oneLine_dumpsRawItems : ∀ vs : List Value, itemsWellFormed vs → OneLine (dumpsRawItems vs)
  | [], _ => (by decide : OneLine "")
  | [v], h => by
    rw [itemsWellFormed, Bool.and_eq_true] at h
    exact oneLine_dumpsRaw v h.1
  | v :: w :: vs, h => by
    rw [itemsWellFormed, Bool.and_eq_true] at h
    exact OneLine.append (OneLine.append (oneLine_dumpsRaw v h.1) (by decide)) (oneLine_dumpsRawItems (w :: vs) h.2)

theorem oneLine_dumpsRawEntries : ∀ es : List (String × Value), entriesWellFormed es → OneLine (dumpsRawEntries es)
  | [], _ => (by decide : OneLine "")
  | [(k, v)], h => by
    rw [entriesWellFormed, Bool.and_eq_true] at h
    exact OneLine.append (OneLine.append (oneLine_quoteRaw k) (by decide)) (oneLine_dumpsRaw v h.1)
  | (k, v) :: e :: es, h => by
    rw [entriesWellFormed, Bool.and_eq_true] at h
    refine OneLine.append (OneLine.append (OneLine.append (OneLine.append (oneLine_quoteRaw k) (by decide))
      (oneLine_dumpsRaw v h.1)) (by decide)) (oneLine_dumpsRawEntries (e :: es) h.2)

end

end Json
