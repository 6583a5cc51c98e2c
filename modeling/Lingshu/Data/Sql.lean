import Lingshu.Data.Instances

/-! # The SQL of the connectors

The statements that `PostgreSQLConnector` and `DorisConnector` build, in pieces: text of the connector's own, names
spliced in as quoted identifiers, and placeholders. -/
namespace Lingshu.Data.Sql
open Json
set_option autoImplicit false

/-! ## Statements -/

/-- The connectors that build SQL; they differ in quotes and placeholders, and in `IN`. -/
inductive Dialect where
  | postgresql
  | doris
  deriving DecidableEq, Repr

/-- A placeholder of PostgreSQL has a number, `%s` has none. -/
inductive Piece where
  | text (s : String)
  | identifier (name : String)
  | placeholder (number : Option ℕ)
  deriving DecidableEq, Repr

structure Statement where
  pieces : List Piece
  params : List Value
  deriving DecidableEq

def Piece.render : Dialect → Piece → String
  | _, .text s => s
  | .postgresql, .identifier name => "\"" ++ name ++ "\""
  | .doris, .identifier name => "`" ++ name ++ "`"
  | _, .placeholder (some n) => "$" ++ toString n
  | _, .placeholder none => "%s"

/-- The text that is sent. -/
def Statement.sql (dialect : Dialect) (statement : Statement) : String :=
  String.join (statement.pieces.map (Piece.render dialect))

/-- `separator.join(parts)`. -/
def joined (separator : String) : List (List Piece) → List Piece
  | [] => []
  | [part] => part
  | part :: parts => part ++ .text separator :: joined separator parts

/-! ## Clauses -/

/-- `_FILTER_OPS.get(operator, "=")`. -/
def filterOp : FilterOperator → String
  | .eq | .in => "="
  | .neq => "!="
  | .gt => ">"
  | .gte => ">="
  | .lt => "<"
  | .lte => "<="
  | .contains => "LIKE"

/-- `f"{value}"`. -/
def formatted (py : Python) : Value → String
  | .str s => s
  | v => py.str v

/-- The value itself if it is a list, else a list of it. -/
def members : Value → List Value
  | .list vs => vs
  | v => [v]

def colClause (columns : List String) : List Piece :=
  if columns = [] then [.text "*"] else joined ", " (columns.map fun c => [.identifier c])

def whereClause (parts : List (List Piece)) : List Piece := if parts = [] then [.text "TRUE"] else joined " AND " parts

def direction : SortOrder → String
  | .asc => " ASC"
  | .desc => " DESC"

def orderBy (sort : List SortSpec) : List Piece :=
  if sort = [] then [.text "1"] else joined ", " (sort.map fun s => [.identifier s.field, .text (direction s.order)])

def countSql (tableRef whereClause : List Piece) : List Piece :=
  .text "SELECT COUNT(*) FROM " :: tableRef ++ .text " WHERE " :: whereClause

def dataSql (columns : List String) (tableRef whereClause : List Piece) (sort : List SortSpec) (page : List Piece) :
    List Piece :=
  .text "SELECT " :: colClause columns ++ .text " FROM " :: tableRef ++ .text " WHERE " :: whereClause ++
    .text " ORDER BY " :: orderBy sort ++ page

def rowSql (columns : List String) (tableRef whereClause : List Piece) : List Piece :=
  .text "SELECT " :: colClause columns ++ .text " FROM " :: tableRef ++ .text " WHERE " :: whereClause ++
    [.text " LIMIT 1"]

variable (py : Python)

/-! ## PostgreSQL -/

namespace PostgreSQL

/-- `config.get("schema", "public")`, as it is written into the statement. -/
def schemaName (connector : PostgreSQLConnector) : String :=
  formatted py ((connector.config.lookup "schema").getD (.str "public"))

def tableRef (connector : PostgreSQLConnector) (tablePath : String) : List Piece :=
  [.identifier (schemaName py connector), .text ".", .identifier tablePath]

/-- The condition of a filter, and its parameter. -/
def condition (paramIdx : ℕ) (f : Filter) : List Piece × Value :=
  match f.operator with
  | .contains => ([.identifier f.field, .text " LIKE ", .placeholder (some paramIdx)],
      .str ("%" ++ formatted py f.value ++ "%"))
  | .in => ([.identifier f.field, .text " = ANY(", .placeholder (some paramIdx), .text ")"], .list (members f.value))
  | op => ([.identifier f.field, .text (" " ++ filterOp op ++ " "), .placeholder (some paramIdx)], f.value)

/-- The loop over the filters, from a number of the first parameter. -/
def conditions : ℕ → List Filter → List (List Piece × Value)
  | _, [] => []
  | paramIdx, f :: fs => condition py paramIdx f :: conditions (paramIdx + 1) fs

/-- The count query and the data query of `execute_query`. -/
def executeQuery (connector : PostgreSQLConnector) (tablePath : String) (columns : List String) (filters : List Filter)
    (sort : List SortSpec) (offset limit : ℕ) : Except ReadError (List Statement) := do
  validateIdentifiers "table_path" [tablePath]
  validateIdentifiers "column" columns
  let table := tableRef py connector tablePath
  let parts := conditions py 1 filters
  let params := parts.map Prod.snd
  let paramIdx := 1 + filters.length
  validateIdentifiers "sort field" (sort.map SortSpec.field)
  let page := [.text " OFFSET ", .placeholder (some paramIdx), .text " LIMIT ", .placeholder (some (paramIdx + 1))]
  return [
    { pieces := countSql table (whereClause (parts.map Prod.fst)), params := params },
    { pieces := dataSql columns table (whereClause (parts.map Prod.fst)) sort page
      params := params ++ [.int offset, .int limit] }]

def keyConditions : ℕ → Assoc Value → List (List Piece)
  | _, [] => []
  | idx, e :: es => [.identifier e.1, .text " = ", .placeholder (some idx)] :: keyConditions (idx + 1) es

/-- The query of `get_row`. -/
def getRow (connector : PostgreSQLConnector) (tablePath : String) (primaryKey : Assoc Value) (columns : List String) :
    Except ReadError (List Statement) := do
  validateIdentifiers "table_path" [tablePath]
  validateIdentifiers "column" columns
  validateIdentifiers "primary key column" primaryKey.keys
  return [{
    pieces := rowSql columns (tableRef py connector tablePath) (joined " AND " (keyConditions 1 primaryKey))
    params := primaryKey.values }]

end PostgreSQL

/-! ## Doris -/

namespace Doris

def condition (f : Filter) : List Piece × List Value :=
  match f.operator with
  | .contains => ([.identifier f.field, .text " LIKE ", .placeholder none], [.str ("%" ++ formatted py f.value ++ "%")])
  | .in =>
    let values := members f.value
    (.identifier f.field :: .text " IN (" :: joined ", " (values.map fun _ => [.placeholder none]) ++ [.text ")"], values)
  | op => ([.identifier f.field, .text (" " ++ filterOp op ++ " "), .placeholder none], [f.value])

/-- `_build_where`. -/
def buildWhere (filters : List Filter) : List Piece × List Value :=
  let parts := filters.map (condition py)
  (whereClause (parts.map Prod.fst), (parts.map Prod.snd).flatten)

def executeQuery (tablePath : String) (columns : List String) (filters : List Filter) (sort : List SortSpec)
    (offset limit : ℕ) : Except ReadError (List Statement) := do
  validateIdentifiers "table_path" [tablePath]
  validateIdentifiers "column" columns
  let (clause, params) := buildWhere py filters
  validateIdentifiers "sort field" (sort.map SortSpec.field)
  let page := [.text " LIMIT ", .placeholder none, .text " OFFSET ", .placeholder none]
  return [
    { pieces := countSql [.identifier tablePath] clause, params := params },
    { pieces := dataSql columns [.identifier tablePath] clause sort page, params := params ++ [.int limit, .int offset] }]

def getRow (tablePath : String) (primaryKey : Assoc Value) (columns : List String) :
    Except ReadError (List Statement) := do
  validateIdentifiers "table_path" [tablePath]
  validateIdentifiers "column" columns
  validateIdentifiers "primary key column" primaryKey.keys
  let parts := primaryKey.map fun e => [.identifier e.1, .text " = ", .placeholder none]
  return [{ pieces := rowSql columns [.identifier tablePath] (joined " AND " parts), params := primaryKey.values }]

end Doris

end Lingshu.Data.Sql
