import Lingshu.Json.Access

/-! # From a table row to an instance

The pure part of `data/pipeline`: the columns of a schema, computed fields, masking. A row is a dict of
values; what Python's own operators do with them, and `ast.parse`, is the parameter `Python`. -/
namespace Lingshu.Data
open Json
set_option autoImplicit false

abbrev Row : Type := Assoc Value

/-- `row.get(name)`. -/
def field (row : Row) (name : String) : Value := (row.lookup name).getD .null

/-! ## Schemas -/

structure Compliance where
  sensitivity : String := "PUBLIC"
  maskingStrategy : String := "MASK_NONE"
  deriving DecidableEq, Repr

structure PropertyType where
  apiName : String := ""
  physicalColumn : Option String := none
  virtualExpression : Option String := none
  compliance : Option Compliance := none
  deriving DecidableEq, Repr

/-- An empty mapping is as good as none. -/
structure AssetMapping where
  readConnectionId : String := ""
  readAssetPath : String := ""
  deriving DecidableEq, Repr

/-- What reads of instances use of `SchemaInfo`. -/
structure SchemaInfo where
  propertyTypes : List PropertyType
  assetMapping : Option AssetMapping
  virtualFields : Assoc String

/-- `if physical_col`, `if virtual_expr`. -/
def nonempty : Option String → Option String
  | some "" => none
  | text => text

/-- `_load_schema`. -/
def loadSchema (propertyTypes : List PropertyType) (assetMapping : Option AssetMapping) : SchemaInfo where
  propertyTypes := propertyTypes
  assetMapping := assetMapping
  virtualFields := Assoc.ofEntries <| propertyTypes.filterMap fun pt =>
    match nonempty pt.physicalColumn, nonempty pt.virtualExpression with
    | none, some expression => some (pt.apiName, expression)
    | _, _ => none

/-! ## Columns -/

/-- `_build_column_map`. -/
def buildColumnMap (schema : SchemaInfo) : Assoc String :=
  Assoc.ofEntries <| schema.propertyTypes.filterMap fun pt =>
    (nonempty pt.physicalColumn).map fun column => (pt.apiName, column)

/-- The primary key in terms of columns; a name without a column is dropped. -/
def physicalPk (colMap : Assoc String) (primaryKey : Assoc Value) : Row :=
  Assoc.ofEntries <| primaryKey.filterMap fun e => (colMap.lookup e.1).map fun column => (column, e.2)

def reverseMap (colMap : Assoc String) : Assoc String :=
  Assoc.ofEntries (colMap.map fun e => (e.2, e.1))

/-- A row in terms of property names. -/
def mapBack (colMap : Assoc String) (row : Row) : Row :=
  Assoc.ofEntries (row.map fun e => (((reverseMap colMap).lookup e.1).getD e.1, e.2))

/-! ## Computed fields -/

inductive BinOp where
  | add
  | sub
  | mult
  | div
  deriving DecidableEq, Repr

/-- The nodes that `_eval_node` tells apart: a binary operator outside `_BINARY_OPS` is `none`, a node of
any other kind is `other`. -/
inductive Expr where
  | constant (value : Value)
  | name (id : String)
  | binOp (op : Option BinOp) (left right : Expr)
  | uSub (operand : Expr)
  | call (func : String) (args : List Expr)
  | other

/-- Python itself: the parser, and its operators on values; `none` is a raised exception. -/
structure Python where
  parse : String → Option Expr
  binOp : BinOp → Value → Value → Option Value
  neg : Value → Option Value
  abs : Value → Option Value
  int : Value → Option Int
  round : Value → Int → Option Value
  str : Value → String
  repr : Value → String
  upper : String → String

variable (py : Python)

/-- `_call_builtin`. -/
def callBuiltin (func : String) (args : List Value) : Option Value :=
  match func, args with
  | "CONCAT", args => some (.str (String.join ((args.filter (· ≠ .null)).map py.str)))
  | "IF", [c, a, b] => some (if c.truthy then a else b)
  | "ABS", [a] => if a = .null then some .null else py.abs a
  | "ROUND", a :: rest =>
    if a = .null then some .null
    else do
      let digits ← match rest with
        | d :: _ => if d = .null then some 0 else py.int d
        | [] => some 0
      py.round a digits
  | _, _ => some .null

mutual

/-- `_eval_node`. -/
def evalNode (row : Row) : Expr → Option Value
  | .constant v => some v
  | .name id => some ((row.lookup id).getD .null)
  | .binOp op left right =>
    match evalNode row left, evalNode row right with
    | some l, some r =>
      match op with
      | some op => if l ≠ .null ∧ r ≠ .null then py.binOp op l r else some .null
      | none => some .null
    | _, _ => none
  | .uSub operand =>
    match evalNode row operand with
    | some v => if v ≠ .null then py.neg v else some .null
    | none => none
  | .call func args =>
    match evalArgs row args with
    | some vs => callBuiltin py (py.upper func) vs
    | none => none
  | .other => some .null

def evalArgs (row : Row) : List Expr → Option (List Value)
  | [] => some []
  | e :: es =>
    match evalNode row e, evalArgs row es with
    | some v, some vs => some (v :: vs)
    | _, _ => none

end

/-- Whatever is raised, the field is `None`. -/
def evaluateExpression (expression : String) (row : Row) : Value :=
  match py.parse expression with
  | some tree => (evalNode py row tree).getD .null
  | none => .null

/-- `apply_virtual_fields` on one row: a later field sees the earlier ones. -/
def applyVirtualFields (row : Row) (virtualFields : Assoc String) : Row :=
  virtualFields.foldl (fun enriched e => enriched.set e.1 (evaluateExpression py e.2 enriched)) row

/-! ## Masking -/

def maskValue (value : Value) (strategy : String) : Value :=
  if value = .null then .null
  else match strategy with
    | "MASK_NONE" => value
    | "MASK_NULLIFY" => .null
    | "MASK_REDACT_FULL" => .str "***"
    | "SHOW_LAST_4" =>
      let s := (py.str value).toList
      if s.length ≤ 4 then .str "***" else .str ("***" ++ String.ofList (s.drop (s.length - 4)))
    | "MASK_PHONE_MIDDLE" =>
      let s := (py.str value).toList
      if 7 ≤ s.length then
        .str (String.ofList (s.take 3) ++ "****" ++ String.ofList (s.drop (s.length - 4)))
      else .str "***"
    | _ => .str "***"

def buildMaskingRules (propertyTypes : List PropertyType) : Assoc String :=
  Assoc.ofEntries <| propertyTypes.filterMap fun pt =>
    match pt.compliance with
    | some c =>
      if c.sensitivity ≠ "PUBLIC" ∧ c.maskingStrategy ≠ "MASK_NONE" then some (pt.apiName, c.maskingStrategy)
      else none
    | none => none

/-- `apply_masking` on one row. -/
def applyMasking (row : Row) (rules : Assoc String) : Row :=
  rules.foldl (fun masked e => match masked.lookup e.1 with
    | some v => masked.set e.1 (maskValue py v e.2)
    | none => masked) row

theorem applyVirtualFields_ne_nil {row : Row} (h : row ≠ []) (fields : Assoc String) :
    applyVirtualFields py row fields ≠ [] := by
  unfold applyVirtualFields
  induction fields generalizing row with
  | nil => exact h
  | cons e fields ih => exact ih (Assoc.set_ne_nil _ _ _)

theorem applyMasking_ne_nil {row : Row} (h : row ≠ []) (rules : Assoc String) : applyMasking py row rules ≠ [] := by
  unfold applyMasking
  induction rules generalizing row with
  | nil => exact h
  | cons e rules ih =>
    refine ih ?_
    show (match row.lookup e.1 with
      | some v => _
      | none => _) ≠ []
    split
    · exact Assoc.set_ne_nil _ _ _
    · exact h

/-- What becomes of a row that the connector returned. -/
def toInstance (schema : SchemaInfo) (row : Row) : Row :=
  applyMasking py (applyVirtualFields py (mapBack (buildColumnMap schema) row) schema.virtualFields)
    (buildMaskingRules schema.propertyTypes)

end Lingshu.Data
