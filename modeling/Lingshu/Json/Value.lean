import Mathlib.Data.Nat.Notation

/-! # JSON values and their text

`Value` is what Python's `json` module reads and writes. A float is kept as the text that stands
for it. `dumps` and `loads` are `json.dumps` and `json.loads` with their default settings: ASCII
output, `", "` and `": "` as separators.
-/
namespace Json
set_option autoImplicit false

inductive Value where
  | null
  | bool (b : Bool)
  | int (i : Int)
  | float (text : String)
  | str (s : String)
  | list (items : List Value)
  | dict (entries : List (String × Value))
  deriving Inhabited

/-! ## Equality -/

mutual

def Value.decEq : (a b : Value) → Decidable (a = b)
  | .null, .null => isTrue rfl
  | .bool a, .bool b => decidable_of_iff (a = b) (by simp)
  | .int a, .int b => decidable_of_iff (a = b) (by simp)
  | .float a, .float b => decidable_of_iff (a = b) (by simp)
  | .str a, .str b => decidable_of_iff (a = b) (by simp)
  | .list a, .list b =>
    match decEqItems a b with
    | isTrue h => isTrue (by rw [h])
    | isFalse h => isFalse (by simpa using h)
  | .dict a, .dict b =>
    match decEqEntries a b with
    | isTrue h => isTrue (by rw [h])
    | isFalse h => isFalse (by simpa using h)
  | .null, .bool _ | .null, .int _ | .null, .float _ | .null, .str _ | .null, .list _ | .null, .dict _
  | .bool _, .null | .bool _, .int _ | .bool _, .float _ | .bool _, .str _ | .bool _, .list _
  | .bool _, .dict _ | .int _, .null | .int _, .bool _ | .int _, .float _ | .int _, .str _
  | .int _, .list _ | .int _, .dict _ | .float _, .null | .float _, .bool _ | .float _, .int _
  | .float _, .str _ | .float _, .list _ | .float _, .dict _ | .str _, .null | .str _, .bool _
  | .str _, .int _ | .str _, .float _ | .str _, .list _ | .str _, .dict _ | .list _, .null
  | .list _, .bool _ | .list _, .int _ | .list _, .float _ | .list _, .str _ | .list _, .dict _
  | .dict _, .null | .dict _, .bool _ | .dict _, .int _ | .dict _, .float _ | .dict _, .str _
  | .dict _, .list _ => isFalse (by simp)

def decEqItems : (a b : List Value) → Decidable (a = b)
  | [], [] => isTrue rfl
  | [], _ :: _ | _ :: _, [] => isFalse (by simp)
  | a :: as, b :: bs =>
    match Value.decEq a b, decEqItems as bs with
    | isTrue h, isTrue h' => isTrue (by rw [h, h'])
    | isFalse h, _ => isFalse (by simp [h])
    | _, isFalse h' => isFalse (by simp [h'])

def decEqEntries : (a b : List (String × Value)) → Decidable (a = b)
  | [], [] => isTrue rfl
  | [], _ :: _ | _ :: _, [] => isFalse (by simp)
  | (k, a) :: as, (l, b) :: bs =>
    match decEq k l, Value.decEq a b, decEqEntries as bs with
    | isTrue h, isTrue h', isTrue h'' => isTrue (by rw [h, h', h''])
    | isFalse h, _, _ => isFalse (by simp [h])
    | _, isFalse h', _ => isFalse (by simp [h'])
    | _, _, isFalse h'' => isFalse (by simp [h''])

end

instance : DecidableEq Value := Value.decEq

/-! ## Writing -/

def hexDigit (n : ℕ) : Char := "0123456789abcdef".toList.getD n '0'

/-- `\uXXXX` for one UTF-16 code unit. -/
def unicodeEscape (n : ℕ) : String :=
  "\\u".append (String.ofList [hexDigit (n / 4096 % 16), hexDigit (n / 256 % 16), hexDigit (n / 16 % 16),
    hexDigit (n % 16)])

def escapeChar (c : Char) : String :=
  if c = '"' then "\\\""
  else if c = '\\' then "\\\\"
  else if c = '\n' then "\\n"
  else if c = '\r' then "\\r"
  else if c = '\t' then "\\t"
  else if c.toNat = 8 then "\\b"
  else if c.toNat = 12 then "\\f"
  else if 32 ≤ c.toNat ∧ c.toNat ≤ 126 then String.singleton c
  else if c.toNat < 65536 then unicodeEscape c.toNat
  -- Outside the basic plane: a surrogate pair.
  else unicodeEscape (55296 + (c.toNat - 65536) / 1024) ++ unicodeEscape (56320 + (c.toNat - 65536) % 1024)

def quote (s : String) : String := "\"" ++ String.join (s.toList.map escapeChar) ++ "\""

mutual

def dumps : Value → String
  | .null => "null"
  | .bool true => "true"
  | .bool false => "false"
  | .int i => toString i
  | .float text => text
  | .str s => quote s
  | .list items => "[" ++ dumpsItems items ++ "]"
  | .dict entries => "\x7b" ++ dumpsEntries entries ++ "\x7d"

def dumpsItems : List Value → String
  | [] => ""
  | [v] => dumps v
  | v :: vs => dumps v ++ ", " ++ dumpsItems vs

def dumpsEntries : List (String × Value) → String
  | [] => ""
  | [(k, v)] => quote k ++ ": " ++ dumps v
  | (k, v) :: es => quote k ++ ": " ++ dumps v ++ ", " ++ dumpsEntries es

end

/-! ## Reading -/

def skipWs : List Char → List Char
  | c :: cs => if c = ' ' ∨ c = '\t' ∨ c = '\n' ∨ c = '\r' then skipWs cs else c :: cs
  | [] => []

def hexValue (c : Char) : Option ℕ :=
  if '0' ≤ c ∧ c ≤ '9' then some (c.toNat - 48)
  else if 'a' ≤ c ∧ c ≤ 'f' then some (c.toNat - 87)
  else if 'A' ≤ c ∧ c ≤ 'F' then some (c.toNat - 55)
  else none

def hex4 : List Char → Option (ℕ × List Char)
  | a :: b :: c :: d :: cs => do
    let a ← hexValue a
    let b ← hexValue b
    let c ← hexValue c
    let d ← hexValue d
    return (a * 4096 + b * 256 + c * 16 + d, cs)
  | _ => none

/-- The characters of a string literal, up to the closing quote. -/
def parseChars : ℕ → List Char → List Char → Option (String × List Char)
  | 0, _, _ => none
  | fuel + 1, acc, cs =>
    match cs with
    | [] => none
    | '"' :: cs => some (String.ofList acc.reverse, cs)
    | '\\' :: 'u' :: cs => do
      let (hi, cs) ← hex4 cs
      match cs with
      | '\\' :: 'u' :: cs' =>
        if 55296 ≤ hi ∧ hi < 56320 then
          let (lo, cs') ← hex4 cs'
          if 56320 ≤ lo ∧ lo < 57344 then
            parseChars fuel (Char.ofNat (65536 + (hi - 55296) * 1024 + (lo - 56320)) :: acc) cs'
          else parseChars fuel (Char.ofNat hi :: acc) cs
        else parseChars fuel (Char.ofNat hi :: acc) cs
      | _ => parseChars fuel (Char.ofNat hi :: acc) cs
    | '\\' :: c :: cs =>
      if c = '"' ∨ c = '\\' ∨ c = '/' then parseChars fuel (c :: acc) cs
      else if c = 'n' then parseChars fuel ('\n' :: acc) cs
      else if c = 'r' then parseChars fuel ('\r' :: acc) cs
      else if c = 't' then parseChars fuel ('\t' :: acc) cs
      else if c = 'b' then parseChars fuel (Char.ofNat 8 :: acc) cs
      else if c = 'f' then parseChars fuel (Char.ofNat 12 :: acc) cs
      else none
    -- A raw control character is refused, as in strict mode.
    | c :: cs => if c.toNat < 32 then none else parseChars fuel (c :: acc) cs

def takeDigits (cs : List Char) : List Char × List Char := cs.span Char.isDigit

def digitsValue (ds : List Char) : ℕ := ds.foldl (fun n c => 10 * n + (c.toNat - 48)) 0

/-- The optional fraction and exponent of a number. -/
def parseTail (cs : List Char) : List Char × List Char :=
  let frac := match cs with
    | '.' :: rest => if (takeDigits rest).1 = [] then ([], cs) else ('.' :: (takeDigits rest).1, (takeDigits rest).2)
    | _ => ([], cs)
  let expo := match frac.2 with
    | e :: rest =>
      if e = 'e' ∨ e = 'E' then
        let signed := match rest with
          | c :: rest' => if c = '+' ∨ c = '-' then ([c], rest') else ([], rest)
          | [] => ([], rest)
        if (takeDigits signed.2).1 = [] then ([], frac.2)
        else (e :: signed.1 ++ (takeDigits signed.2).1, (takeDigits signed.2).2)
      else ([], frac.2)
    | [] => ([], frac.2)
  (frac.1 ++ expo.1, expo.2)

def parseNumber (cs : List Char) : Option (Value × List Char) :=
  let signed := match cs with
    | '-' :: rest => (true, rest)
    | _ => (false, cs)
  let digits := match signed.2 with
    -- A leading zero stands alone.
    | '0' :: rest => (['0'], rest)
    | _ => takeDigits signed.2
  if digits.1 = [] then none
  else
    let tail := parseTail digits.2
    if tail.1 = [] then
      let n : ℕ := digitsValue digits.1
      some (.int (if signed.1 then -(n : Int) else n), tail.2)
    else
      some (.float (String.ofList ((if signed.1 then ['-'] else []) ++ digits.1 ++ tail.1)), tail.2)

/-- The constants that `json` reads besides. -/
def parseConstant : List Char → Option (Value × List Char)
  | 'N' :: 'a' :: 'N' :: cs => some (.float "NaN", cs)
  | 'I' :: 'n' :: 'f' :: 'i' :: 'n' :: 'i' :: 't' :: 'y' :: cs => some (.float "Infinity", cs)
  | '-' :: 'I' :: 'n' :: 'f' :: 'i' :: 'n' :: 'i' :: 't' :: 'y' :: cs => some (.float "-Infinity", cs)
  | _ => none

mutual

def parseValue : ℕ → List Char → Option (Value × List Char)
  | 0, _ => none
  | fuel + 1, cs =>
    match cs with
    | 'n' :: 'u' :: 'l' :: 'l' :: cs => some (.null, cs)
    | 't' :: 'r' :: 'u' :: 'e' :: cs => some (.bool true, cs)
    | 'f' :: 'a' :: 'l' :: 's' :: 'e' :: cs => some (.bool false, cs)
    | '"' :: cs => do
      let (s, cs) ← parseChars (cs.length + 1) [] cs
      return (.str s, cs)
    | '[' :: cs =>
      match skipWs cs with
      | ']' :: cs => some (.list [], cs)
      | cs => do
        let (vs, cs) ← parseItems fuel cs
        return (.list vs, cs)
    | '\x7b' :: cs =>
      match skipWs cs with
      | '\x7d' :: cs => some (.dict [], cs)
      | cs => do
        let (es, cs) ← parseEntries fuel cs
        return (.dict es, cs)
    | cs => (parseConstant cs).or (parseNumber cs)

/-- One or more items, up to the closing bracket. -/
def parseItems : ℕ → List Char → Option (List Value × List Char)
  | 0, _ => none
  | fuel + 1, cs => do
    let (v, cs) ← parseValue fuel cs
    match skipWs cs with
    | ']' :: cs => return ([v], cs)
    | ',' :: cs =>
      let (vs, cs) ← parseItems fuel (skipWs cs)
      return (v :: vs, cs)
    | _ => none

/-- One or more entries, up to the closing brace. -/
def parseEntries : ℕ → List Char → Option (List (String × Value) × List Char)
  | 0, _ => none
  | fuel + 1, cs =>
    match cs with
    | '"' :: cs => do
      let (k, cs) ← parseChars (cs.length + 1) [] cs
      match skipWs cs with
      | ':' :: cs =>
        let (v, cs) ← parseValue fuel (skipWs cs)
        match skipWs cs with
        | '\x7d' :: cs => return ([(k, v)], cs)
        | ',' :: cs =>
          let (es, cs) ← parseEntries fuel (skipWs cs)
          -- A repeated key keeps its place and takes the later value.
          match es.lookup k with
          | some w => return ((k, w) :: es.filter (fun e => e.1 ≠ k), cs)
          | none => return ((k, v) :: es, cs)
        | _ => none
      | _ => none
    | _ => none

end

/-- `none` stands for `JSONDecodeError`. Every call of the parser reads a character, so the fuel
is never what stops it. -/
def loads (s : String) : Option Value :=
  match parseValue (2 * s.toList.length + 2) (skipWs s.toList) with
  | some (v, rest) => if skipWs rest = [] then some v else none
  | none => none

example : loads (dumps (.dict [("min", .int (-3)), ("tags", .list [.str "a\"b", .null])])) =
    some (.dict [("min", .int (-3)), ("tags", .list [.str "a\"b", .null])]) := by decide +kernel

end Json
