import Lingshu.Workflow.Values
import Mathlib.Data.List.Sort

/-! # Condition expressions

`evaluate_condition` and `_resolve_value`. -/
namespace Lingshu.Workflow
open Json
set_option autoImplicit false

variable {O : Type} (py : Python O)

/-- The values by node id, with the inputs. -/
abbrev Context (O : Type) : Type := Assoc (Val O)

/-- The rest of a path from a value on: anything but a dict on the way gives `None`. -/
def resolveFrom : List (List Char) → Val O → Val O
  | [], current => current
  | part :: parts, current =>
    match entry py current with
    | some get => resolveFrom parts (get (String.ofList part))
    | none => .json .null

/-- The path in the context, which is a dict. -/
def resolveParts (parts : List (List Char)) (context : Context O) : Val O :=
  match parts with
  | [] => .json .null
  | part :: parts => resolveFrom py parts ((context.lookup (String.ofList part)).getD (.json .null))

/-- `_resolve_value`. -/
def resolveValue (path : List Char) (context : Context O) : Val O := resolveParts py (path.splitOn '.') context

/-- The keys of `_CONDITION_OPS`. -/
def conditionOps : List Op := [.eq, .ne, .gt, .ge, .lt, .le]

/-- `sorted(_CONDITION_OPS, key=len, reverse=True)`; the sort is stable. -/
def searchOrder : List Op := conditionOps.insertionSort fun a b => b.text.length ≤ a.text.length

/-- The first operator found, with the texts to its left and right. -/
def findOperator (expr : List Char) : Option (Op × List Char × List Char) :=
  searchOrder.findSome? fun op => (Text.splitFirst op.text expr).map fun r => (op, r)

/-- `evaluate_condition`. -/
def evaluateCondition (expression : List Char) (context : Context O) : Except (Exc O) Bool :=
  let expr := strip expression
  if lower expr = ['t', 'r', 'u', 'e'] then .ok true
  else if lower expr = ['f', 'a', 'l', 's', 'e'] then .ok false
  else
    match findOperator expr with
    | some (op, left, right) => compare py op (resolveValue py (strip left) context) (resolveLiteral (strip right))
    | none => truthy py (resolveValue py expr context)

end Lingshu.Workflow
