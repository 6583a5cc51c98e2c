import Lingshu.Data.Connections
import Mathlib.Data.List.Sort

/-! # Reading instances

`QueryEngine`, the two queries of `PostgreSQLConnector`, and the reads of `DataServiceImpl` on top of them. What
PostgreSQL makes of single values, and the tables behind a connector, are parameters. -/
namespace Lingshu.Data
open Json
set_option autoImplicit false

/-! ## Requests -/

inductive FilterOperator where
  | eq
  | neq
  | gt
  | gte
  | lt
  | lte
  | contains
  | in
  deriving DecidableEq, Repr

structure Filter where
  field : String
  operator : FilterOperator
  value : Value
  deriving DecidableEq

inductive SortOrder where
  | asc
  | desc
  deriving DecidableEq, Repr

structure SortSpec where
  field : String
  order : SortOrder := .asc
  deriving DecidableEq, Repr

/-! ## The data source -/

/-- The columns of a table and its rows, in the order in which they are scanned; a cell that a row does not have is
NULL. -/
structure Table where
  columns : List String
  rows : List Row

/-- `"column" op $n` and the order of `ORDER BY "column" ASC`. -/
structure Postgres where
  test : FilterOperator → Value → Value → Bool
  le : Value → Value → Bool

/-- What a connector finds under a table path. -/
abbrev Sources : Type := PostgreSQLConnector → String → Option Table

inductive ReadError where
  | app (e : AppError)
  /-- `Invalid SQL {label}: {name!r}`. -/
  | invalidIdentifier (label name : String)
  | undefinedTable (name : String)
  | undefinedColumn
  /-- A `WHERE` without a condition. -/
  | syntaxError
  deriving DecidableEq

/-- `_SAFE_IDENTIFIER`; its `$` also matches before a newline at the end. -/
def safeIdentifier (name : String) : Bool :=
  let cs := name.toList
  let cs := if cs.getLast? = some '\n' then cs.dropLast else cs
  match cs with
  | [] => false
  | c :: cs =>
    (('a' ≤ c ∧ c ≤ 'z') ∨ ('A' ≤ c ∧ c ≤ 'Z') ∨ c = '_') && cs.length ≤ 62 &&
      cs.all fun c => ('a' ≤ c ∧ c ≤ 'z') ∨ ('A' ≤ c ∧ c ≤ 'Z') ∨ ('0' ≤ c ∧ c ≤ '9') ∨ c = '_'

/-- `_validate_identifier` on all of some names. -/
def validateIdentifiers (label : String) (names : List String) : Except ReadError Unit :=
  match names.find? fun name => !safeIdentifier name with
  | some name => .error (.invalidIdentifier label name)
  | none => .ok ()

variable (pg : Postgres)

/-- Whether `a` may come before `b`; two rows that no column tells apart stay as they were scanned. -/
def rowLe : List SortSpec → Row → Row → Bool
  | [], _, _ => true
  | s :: sort, a, b =>
    let x := field a s.field
    let y := field b s.field
    let before := match s.order with
      | .asc => pg.le x y
      | .desc => pg.le y x
    let after := match s.order with
      | .asc => pg.le y x
      | .desc => pg.le x y
    if before && after then rowLe sort a b else before

/-- The columns that `SELECT` lists; without any it is `*`. -/
def selectList (t : Table) (columns : List String) : List String := if columns = [] then t.columns else columns

/-- `dict(row)`. -/
def project (columns : List String) (row : Row) : Row := Assoc.ofEntries (columns.map fun c => (c, field row c))

def holds (filters : List Filter) (row : Row) : Bool :=
  filters.all fun f => pg.test f.operator (field row f.field) f.value

/-- `ORDER BY`; without a sort it is `ORDER BY 1`. -/
def orderClause (t : Table) (columns : List String) (sort : List SortSpec) : List SortSpec :=
  if sort = [] then ((selectList t columns).head?.map fun c => { field := c }).toList else sort

/-- The rows that the data query goes through, before its columns are taken. -/
def selectRows (t : Table) (columns : List String) (filters : List Filter) (sort : List SortSpec)
    (offset limit : ℕ) : List Row :=
  let sorted := (t.rows.filter (holds pg filters)).insertionSort fun a b => rowLe pg (orderClause t columns sort) a b
  (sorted.drop offset).take limit

structure QueryResult where
  rows : List Row
  total : ℕ
  columns : List String
  deriving DecidableEq

/-- The table that a statement reads, when it exists and has the columns. -/
def openTable (tables : String → Option Table) (tablePath : String) (columns : List String) :
    Except ReadError Table :=
  match tables tablePath with
  | none => .error (.undefinedTable tablePath)
  | some t => if columns.all (· ∈ t.columns) then .ok t else .error .undefinedColumn

/-- `PostgreSQLConnector.execute_query`. -/
def executeQuery (tables : String → Option Table) (tablePath : String) (columns : List String)
    (filters : List Filter) (sort : List SortSpec) (offset limit : ℕ) : Except ReadError QueryResult := do
  validateIdentifiers "table_path" [tablePath]
  validateIdentifiers "column" columns
  validateIdentifiers "sort field" (sort.map SortSpec.field)
  let t ← openTable tables tablePath (columns ++ filters.map Filter.field ++ sort.map SortSpec.field)
  return {
    rows := (selectRows pg t columns filters sort offset limit).map (project (selectList t columns))
    total := (t.rows.filter (holds pg filters)).length
    columns := columns }

/-- The row that `... WHERE key LIMIT 1` finds. -/
def rowOf (t : Table) (primaryKey : Row) : Option Row :=
  t.rows.find? fun row => primaryKey.all fun e => pg.test .eq (field row e.1) e.2

/-- `PostgreSQLConnector.get_row`. -/
def getRow (tables : String → Option Table) (tablePath : String) (primaryKey : Row) (columns : List String) :
    Except ReadError (Option Row) := do
  validateIdentifiers "table_path" [tablePath]
  validateIdentifiers "column" columns
  validateIdentifiers "primary key column" primaryKey.keys
  if primaryKey = [] then .error .syntaxError
  else
    let t ← openTable tables tablePath (columns ++ primaryKey.keys)
    return (rowOf pg t primaryKey).map (project (selectList t columns))

/-! ## Query engine -/

/-- `masked_fields` of the schema. -/
def maskedFields (schema : SchemaInfo) : List String := (buildMaskingRules schema.propertyTypes).keys

/-- `_translate_filters`; a field without a column is dropped. -/
def translateFilters (schema : SchemaInfo) (filters : List Filter) : Except ReadError (List Filter) :=
  match filters.find? fun f => f.field ∈ maskedFields schema with
  | some f => .error (.app ⟨.dataMaskedFieldNotSortable, "Cannot filter on masked field: " ++ f.field⟩)
  | none => .ok <| filters.filterMap fun f =>
    ((buildColumnMap schema).lookup f.field).map fun column => { f with field := column }

/-- `_translate_sort`. -/
def translateSort (schema : SchemaInfo) (sort : List SortSpec) : Except ReadError (List SortSpec) :=
  match sort.find? fun s => s.field ∈ maskedFields schema with
  | some s => .error (.app ⟨.dataMaskedFieldNotSortable, "Cannot sort on masked field: " ++ s.field⟩)
  | none => .ok <| sort.filterMap fun s =>
    ((buildColumnMap schema).lookup s.field).map fun column => { s with field := column }

/-! ## Data service -/

variable (py : Python) (sources : Sources) (s : DataState)

/-- `DataServiceImpl.query_instances` for a loaded schema. -/
def queryInstances (schema : SchemaInfo) (typeRid tenantId : String) (filters : List Filter) (sort : List SortSpec)
    (offset limit : ℕ) : Except ReadError QueryResult := do
  let connector ← (s.readConnector typeRid tenantId schema.assetMapping).mapError .app
  let colMap := buildColumnMap schema
  let translatedFilters ← translateFilters schema filters
  let translatedSort ← translateSort schema sort
  let result ← executeQuery pg (sources connector) (schema.assetMapping.getD {}).readAssetPath colMap.values
    translatedFilters translatedSort offset limit
  return {
    rows := result.rows.map (toInstance py schema)
    total := result.total
    columns := colMap.keys }

/-- `DataServiceImpl.get_instance` for a loaded schema; a row without columns is as good as none. -/
def getInstance (schema : SchemaInfo) (typeRid tenantId : String) (primaryKey : Assoc Value) :
    Except ReadError (Option Row) := do
  let connector ← (s.readConnector typeRid tenantId schema.assetMapping).mapError .app
  let colMap := buildColumnMap schema
  let row ← getRow pg (sources connector) (schema.assetMapping.getD {}).readAssetPath (physicalPk colMap primaryKey)
    colMap.values
  match row with
  | some (e :: row) => return some (toInstance py schema (e :: row))
  | _ => return none

/-! ### Plain stand-ins -/

/-- Python for types that compute nothing. -/
def Python.plain : Python where
  parse _ := none
  binOp _ _ _ := none
  neg _ := none
  abs _ := none
  int _ := none
  round _ _ := none
  str := dumps
  repr := dumps
  upper := String.toUpper

/-- A database that is only asked for equal values. -/
def Postgres.plain : Postgres where
  test _ a b := a = b
  le _ _ := true

end Lingshu.Data
