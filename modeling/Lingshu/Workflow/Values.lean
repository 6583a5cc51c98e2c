import Lingshu.Json.Access
import Lingshu.Text.Split
import Mathlib.Data.Bool.AllAny
import Mathlib.Data.String.Basic

/-! # Python values in a workflow

JSON values and any other objects, the literals of condition expressions, and how Python reads and compares them. The
behaviour of other objects, and of floats in comparisons, is the parameter `Python`. -/
namespace Lingshu.Workflow
open Json
set_option autoImplicit false

/-! ## Texts -/

/-- `c.isspace()`. -/
def isSpace (c : Char) : Bool :=
  (9 ≤ c.toNat ∧ c.toNat ≤ 13) ∨ (28 ≤ c.toNat ∧ c.toNat ≤ 32) ∨ c.toNat = 0x85 ∨ c.toNat = 0xA0 ∨ c.toNat = 0x1680 ∨
    (0x2000 ≤ c.toNat ∧ c.toNat ≤ 0x200A) ∨ c.toNat = 0x2028 ∨ c.toNat = 0x2029 ∨ c.toNat = 0x202F ∨
    c.toNat = 0x205F ∨ c.toNat = 0x3000

def strip (text : List Char) : List Char := Text.strip isSpace text

/-- `text.lower()`, as far as it can yield the letters of a boolean: no character outside ASCII does. -/
def lower (text : List Char) : List Char := text.map Char.toLower

/-- The zeros of the decimal digits of Unicode; the other nine follow each of them. -/
def decimalZeros : List ℕ :=
  [0x30, 0x660, 0x6F0, 0x7C0, 0x966, 0x9E6, 0xA66, 0xAE6, 0xB66, 0xBE6, 0xC66, 0xCE6, 0xD66, 0xDE6, 0xE50, 0xED0, 0xF20,
    0x1040, 0x1090, 0x17E0, 0x1810, 0x1946, 0x19D0, 0x1A80, 0x1A90, 0x1B50, 0x1BB0, 0x1C40, 0x1C50, 0xA620, 0xA8D0,
    0xA900, 0xA9D0, 0xA9F0, 0xAA50, 0xABF0, 0xFF10, 0x104A0, 0x10D30, 0x11066, 0x110F0, 0x11136, 0x111D0, 0x112F0,
    0x11450, 0x114D0, 0x11650, 0x116C0, 0x11730, 0x118E0, 0x11950, 0x11C50, 0x11D50, 0x11DA0, 0x11F50, 0x16A60, 0x16AC0,
    0x16B50, 0x1D7CE, 0x1D7D8, 0x1D7E2, 0x1D7EC, 0x1D7F6, 0x1E140, 0x1E2F0, 0x1E4F0, 0x1E950, 0x1FBF0]

def digitOf (c : Char) : Option ℕ :=
  (decimalZeros.find? fun start => start ≤ c.toNat ∧ c.toNat < start + 10).map fun start => c.toNat - start

/-- Digits with single underscores between them. -/
def digitsOf (text : List Char) : Option (List ℕ) :=
  if [] ∈ text.splitOn '_' then none else (text.splitOn '_').flatten.mapM digitOf

def signOf : List Char → Bool × List Char
  | '-' :: text => (true, text)
  | '+' :: text => (false, text)
  | text => (false, text)

/-- The most digits that `int()` takes. -/
def maxStrDigits : ℕ := 4300

/-- `int(raw)`; `none` is a `ValueError`. -/
def intOf (raw : List Char) : Option Int :=
  match digitsOf (signOf raw).2 with
  | none => none
  | some digits =>
    if maxStrDigits < digits.length then none
    else
      let n : ℕ := digits.foldl (fun n d => 10 * n + d) 0
      some (if (signOf raw).1 then -(n : Int) else n)

/-- Digits with at most one point among them, and at least one digit. -/
def isMantissa (text : List Char) : Bool :=
  let whole := text.takeWhile (· ≠ '.')
  match text.dropWhile (· ≠ '.') with
  | [] => (digitsOf whole).isSome
  | _ :: fraction =>
    (whole = [] ∨ (digitsOf whole).isSome) ∧ (fraction = [] ∨ (digitsOf fraction).isSome) ∧ ¬(whole = [] ∧ fraction = [])

/-- What follows the mantissa, with its `e`. -/
def isExponent : List Char → Bool
  | [] => true
  | _ :: exponent => (digitsOf (signOf exponent).2).isSome

def specialFloats : List (List Char) :=
  [['i', 'n', 'f'], ['i', 'n', 'f', 'i', 'n', 'i', 't', 'y'], ['n', 'a', 'n']]

/-- `float(raw)` does not raise. -/
def isFloat (raw : List Char) : Bool :=
  let text := (signOf raw).2
  lower text ∈ specialFloats ∨
    isMantissa (text.takeWhile fun c => c ≠ 'e' ∧ c ≠ 'E') ∧ isExponent (text.dropWhile fun c => c ≠ 'e' ∧ c ≠ 'E')

/-! ## Literals -/

/-- A float is kept as the text from which it is read. -/
inductive Literal where
  | bool (b : Bool)
  | int (i : Int)
  | float (text : String)
  | str (s : String)
  deriving DecidableEq, Repr

/-- `_resolve_literal` after the booleans. -/
def resolveOther (raw : List Char) : Literal :=
  match intOf raw with
  | some i => .int i
  | none =>
    if isFloat raw then .float (String.ofList raw)
    else if (raw.head? = some '\'' ∧ raw.getLast? = some '\'') ∨ (raw.head? = some '"' ∧ raw.getLast? = some '"') then
      .str (String.ofList (raw.drop 1).dropLast)
    else .str (String.ofList raw)

/-- `_resolve_literal`. -/
def resolveLiteral (raw : List Char) : Literal :=
  if lower raw = ['t', 'r', 'u', 'e'] then .bool true
  else if lower raw = ['f', 'a', 'l', 's', 'e'] then .bool false
  else resolveOther raw

/-! ## Values -/

/-- `_CONDITION_OPS`. -/
inductive Op where
  | eq
  | ne
  | gt
  | ge
  | lt
  | le
  deriving DecidableEq, Repr

def Op.text : Op → List Char
  | .eq => ['=', '=']
  | .ne => ['!', '=']
  | .gt => ['>']
  | .ge => ['>', '=']
  | .lt => ['<']
  | .le => ['<', '=']

/-- The operator on two values of a linear order. -/
def Op.holds : Op → Ordering → Bool
  | .eq, o => o = .eq
  | .ne, o => o ≠ .eq
  | .gt, o => o = .gt
  | .ge, o => o ≠ .lt
  | .lt, o => o = .lt
  | .le, o => o ≠ .gt

inductive Number where
  | int (i : Int)
  | float (text : String)
  deriving DecidableEq, Repr

/-- A JSON value, or an object that is none. -/
inductive Val (O : Type) where
  | json (v : Value)
  | object (o : O)
  deriving DecidableEq

/-- What a use of an object can raise. -/
inductive Exc (O : Type) where
  | typeError (message : String)
  | raised (o : O)
  deriving DecidableEq, Repr

/-- Floats, and the objects that are no JSON values. -/
structure Python (O : Type) where
  /-- A comparison of which one side at least is a float. -/
  floats : Op → Number → Number → Bool
  /-- For a dict, its `get`. -/
  entry : O → Option (String → Val O)
  compare : Op → O → Literal → Except (Exc O) Bool
  truthy : O → Except (Exc O) Bool

variable {O : Type} (py : Python O)

def Literal.number : Literal → Option Number
  | .bool b => some (.int (if b then 1 else 0))
  | .int i => some (.int i)
  | .float text => some (.float text)
  | .str _ => none

/-- A `bool` is a number too. -/
def numberOf : Value → Option Number
  | .bool b => some (.int (if b then 1 else 0))
  | .int i => some (.int i)
  | .float text => some (.float text)
  | _ => none

/-- `type(v).__name__`. -/
def typeName : Value → String
  | .null => "NoneType"
  | .bool _ => "bool"
  | .int _ => "int"
  | .float _ => "float"
  | .str _ => "str"
  | .list _ => "list"
  | .dict _ => "dict"

def Literal.typeName : Literal → String
  | .bool _ => "bool"
  | .int _ => "int"
  | .float _ => "float"
  | .str _ => "str"

def notSupported (op : Op) (left : Value) (right : Literal) : String :=
  "'" ++ String.ofList op.text ++ "' not supported between instances of '" ++ Workflow.typeName left ++ "' and '" ++
    right.typeName ++ "'"

def compareNumbers (op : Op) : Number → Number → Bool
  | .int i, .int j => op.holds (Ord.compare i j)
  | a, b => py.floats op a b

/-- `_CONDITION_OPS[op_str](left_val, right_val)` as a `bool`: values of different kinds are unequal and have no order. -/
def compare (op : Op) (left : Val O) (right : Literal) : Except (Exc O) Bool :=
  match left with
  | .object o => py.compare op o right
  | .json v =>
    match numberOf v, right.number with
    | some a, some b => .ok (compareNumbers py op a b)
    | _, _ =>
      match v, right with
      | .str s, .str t => .ok (op.holds (Ord.compare s t))
      | _, _ =>
        match op with
        | .eq => .ok false
        | .ne => .ok true
        | _ => .error (.typeError (notSupported op v right))

/-- `bool(v)`. -/
def truthy : Val O → Except (Exc O) Bool
  | .json v => .ok v.truthy
  | .object o => py.truthy o

/-- `current.get(part)` where `current` is a dict. -/
def entry : Val O → Option (String → Val O)
  | .json (.dict entries) => some fun part => .json ((entries.lookup part).getD .null)
  | .json _ => none
  | .object o => py.entry o

end Lingshu.Workflow
