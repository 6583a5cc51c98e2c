import Lingshu.Data.Sql

/-! # Names and values in the SQL of the connectors

Which names are spliced into the statements, whether the placeholders stand in the order of the parameters, and what
of the values the text can show. -/
namespace Lingshu.Data.Sql
open Json
set_option autoImplicit false

/-! ## Requests -/

inductive SqlConnector where
  | postgresql (connector : PostgreSQLConnector)
  | doris

inductive Request where
  | query (columns : List String) (filters : List Filter) (sort : List SortSpec) (offset limit : ℕ)
  | row (primaryKey : Assoc Value) (columns : List String)

/-- The statements that a connector sends for a request. -/
def statements (py : Python) : SqlConnector → String → Request → Except ReadError (List Statement)
  | .postgresql connector, tablePath, .query columns filters sort offset limit =>
    PostgreSQL.executeQuery py connector tablePath columns filters sort offset limit
  | .postgresql connector, tablePath, .row primaryKey columns => PostgreSQL.getRow py connector tablePath primaryKey columns
  | .doris, tablePath, .query columns filters sort offset limit =>
    Doris.executeQuery py tablePath columns filters sort offset limit
  | .doris, tablePath, .row primaryKey columns => Doris.getRow tablePath primaryKey columns

/-- The names that are validated. -/
def Request.validated : Request → List String
  | .query columns _ sort _ _ => columns ++ sort.map SortSpec.field
  | .row primaryKey columns => columns ++ primaryKey.keys

/-- The names that are not. -/
def Request.filterFields : Request → List String
  | .query _ filters _ _ _ => filters.map Filter.field
  | .row .. => []

/-- What a configuration adds to them. -/
def SqlConnector.schemas (py : Python) : SqlConnector → List String
  | .postgresql connector => [PostgreSQL.schemaName py connector]
  | .doris => []

/-- Requests that differ in the values of filters and keys and in the page; the number of values of an `IN` shows in
Doris' text. -/
def Request.SameShape (connector : SqlConnector) : Request → Request → Prop
  | .query columns filters sort _ _, .query columns' filters' sort' _ _ =>
    columns = columns' ∧ sort = sort' ∧ List.Forall₂ (fun f f' : Filter => f.field = f'.field ∧ f.operator = f'.operator ∧
      (connector = .doris → f.operator = .in → (members f.value).length = (members f'.value).length)) filters filters'
  | .row primaryKey columns, .row primaryKey' columns' => columns = columns' ∧ primaryKey.keys = primaryKey'.keys
  | _, _ => False

/-! ## What a statement is made of -/

/-- A letter or underscore, and up to 62 more characters that may be digits too. -/
def plainIdentifier (name : String) : Bool :=
  match name.toList with
  | [] => false
  | c :: cs =>
    (('a' ≤ c ∧ c ≤ 'z') ∨ ('A' ≤ c ∧ c ≤ 'Z') ∨ c = '_') && cs.length ≤ 62 &&
      cs.all fun c => ('a' ≤ c ∧ c ≤ 'z') ∨ ('A' ≤ c ∧ c ≤ 'Z') ∨ ('0' ≤ c ∧ c ≤ '9') ∨ c = '_'

def Piece.name : Piece → List String
  | .identifier name => [name]
  | _ => []

def Piece.number : Piece → List (Option ℕ)
  | .placeholder number => [number]
  | _ => []

/-- The names that are spliced in. -/
def names (pieces : List Piece) : List String := pieces.flatMap Piece.name

/-- The placeholders, in the order of the text. -/
def numbers (pieces : List Piece) : List (Option ℕ) := pieces.flatMap Piece.number

/-- The n-th placeholder of the text is that of the n-th parameter, and there are no others. -/
def Aligned (connector : SqlConnector) (statement : Statement) : Prop :=
  numbers statement.pieces = match connector with
    | .postgresql _ => (List.range' 1 statement.params.length).map some
    | .doris => List.replicate statement.params.length none

structure InjectionFree (py : Python) (connector : SqlConnector) (tablePath : String) (request : Request) : Prop where
  plain : ∀ sent, statements py connector tablePath request = .ok sent → ∀ statement ∈ sent,
    ∀ name ∈ names statement.pieces, plainIdentifier name
  aligned : ∀ sent, statements py connector tablePath request = .ok sent → ∀ statement ∈ sent, Aligned connector statement
  bound : ∀ request', request.SameShape connector request' → ∀ sent sent',
    statements py connector tablePath request = .ok sent → statements py connector tablePath request' = .ok sent' →
    sent.map Statement.pieces = sent'.map Statement.pieces

/-! ## Clauses -/

section Clauses
variable {py : Python} {connector : PostgreSQLConnector} {tablePath : String} {columns : List String} {filters : List Filter}
  {sort : List SortSpec} {offset limit : ℕ} {primaryKey : Assoc Value}

theorem flatMap_joined {α : Type} {f : Piece → List α} (hf : ∀ s, f (.text s) = []) (separator : String)
    (parts : List (List Piece)) : (joined separator parts).flatMap f = parts.flatMap fun part => part.flatMap f := by
  induction parts with
  | nil => rfl
  | cons part parts ih =>
    cases parts with
    | nil => simp [joined]
    | cons next parts =>
      change (part ++ .text separator :: joined separator (next :: parts)).flatMap f = _
      rw [List.flatMap_append, List.flatMap_cons, hf, List.nil_append, ih, ← List.flatMap_cons]

@[simp] theorem names_text (s : String) (pieces : List Piece) : names (.text s :: pieces) = names pieces := rfl

@[simp] theorem names_identifier (name : String) (pieces : List Piece) :
    names (.identifier name :: pieces) = name :: names pieces := rfl

@[simp] theorem names_placeholder (number : Option ℕ) (pieces : List Piece) :
    names (.placeholder number :: pieces) = names pieces := rfl

@[simp] theorem names_nil : names [] = [] := rfl

@[simp] theorem names_append (a b : List Piece) : names (a ++ b) = names a ++ names b := List.flatMap_append ..

@[simp] theorem names_joined (separator : String) (parts : List (List Piece)) :
    names (joined separator parts) = parts.flatMap names := flatMap_joined (fun _ => rfl) ..

@[simp] theorem numbers_text (s : String) (pieces : List Piece) : numbers (.text s :: pieces) = numbers pieces := rfl

@[simp] theorem numbers_identifier (name : String) (pieces : List Piece) :
    numbers (.identifier name :: pieces) = numbers pieces := rfl

@[simp] theorem numbers_placeholder (number : Option ℕ) (pieces : List Piece) :
    numbers (.placeholder number :: pieces) = number :: numbers pieces := rfl

@[simp] theorem numbers_nil : numbers [] = [] := rfl

@[simp] theorem numbers_append (a b : List Piece) : numbers (a ++ b) = numbers a ++ numbers b := List.flatMap_append ..

@[simp] theorem numbers_joined (separator : String) (parts : List (List Piece)) :
    numbers (joined separator parts) = parts.flatMap numbers := flatMap_joined (fun _ => rfl) ..

@[simp] theorem names_colClause (columns : List String) : names (colClause columns) = columns := by
  unfold colClause
  split
  next h => rw [h]; rfl
  next => simp [List.flatMap_map]

@[simp] theorem numbers_colClause (columns : List String) : numbers (colClause columns) = [] := by
  unfold colClause
  split
  · rfl
  · simp [List.flatMap_map]

@[simp] theorem names_whereClause (parts : List (List Piece)) : names (whereClause parts) = parts.flatMap names := by
  unfold whereClause
  split
  next h => rw [h]; rfl
  next => exact names_joined ..

@[simp] theorem numbers_whereClause (parts : List (List Piece)) : numbers (whereClause parts) = parts.flatMap numbers := by
  unfold whereClause
  split
  next h => rw [h]; rfl
  next => exact numbers_joined ..

@[simp] theorem names_orderBy (sort : List SortSpec) : names (orderBy sort) = sort.map SortSpec.field := by
  unfold orderBy
  split
  next h => rw [h]; rfl
  next =>
    rw [names_joined, List.flatMap_map]
    exact List.map_eq_flatMap.symm

@[simp] theorem numbers_orderBy (sort : List SortSpec) : numbers (orderBy sort) = [] := by
  unfold orderBy
  split
  · rfl
  · simp [List.flatMap_map]

@[simp] theorem names_countSql (table clause : List Piece) : names (countSql table clause) = names table ++ names clause := by
  simp [countSql]

@[simp] theorem numbers_countSql (table clause : List Piece) :
    numbers (countSql table clause) = numbers table ++ numbers clause := by
  simp [countSql]

@[simp] theorem names_dataSql (columns : List String) (table clause : List Piece) (sort : List SortSpec)
    (page : List Piece) : names (dataSql columns table clause sort page) =
      columns ++ names table ++ names clause ++ sort.map SortSpec.field ++ names page := by
  simp [dataSql]

@[simp] theorem numbers_dataSql (columns : List String) (table clause : List Piece) (sort : List SortSpec)
    (page : List Piece) : numbers (dataSql columns table clause sort page) =
      numbers table ++ numbers clause ++ numbers page := by
  simp [dataSql]

@[simp] theorem names_rowSql (columns : List String) (table clause : List Piece) :
    names (rowSql columns table clause) = columns ++ names table ++ names clause := by
  simp [rowSql]

@[simp] theorem numbers_rowSql (columns : List String) (table clause : List Piece) :
    numbers (rowSql columns table clause) = numbers table ++ numbers clause := by
  simp [rowSql]

/-! ## Conditions -/

@[simp] theorem PostgreSQL.names_condition (paramIdx : ℕ) (f : Filter) :
    names (PostgreSQL.condition py paramIdx f).1 = [f.field] := by
  unfold PostgreSQL.condition
  split <;> rfl

@[simp] theorem PostgreSQL.numbers_condition (paramIdx : ℕ) (f : Filter) :
    numbers (PostgreSQL.condition py paramIdx f).1 = [some paramIdx] := by
  unfold PostgreSQL.condition
  split <;> rfl

@[simp] theorem PostgreSQL.names_conditions (paramIdx : ℕ) (filters : List Filter) :
    ((PostgreSQL.conditions py paramIdx filters).map Prod.fst).flatMap names = filters.map Filter.field := by
  induction filters generalizing paramIdx with
  | nil => rfl
  | cons f fs ih => simp [PostgreSQL.conditions, ih]

/-- One parameter for each filter, numbered in turn. -/
@[simp] theorem PostgreSQL.numbers_conditions (paramIdx : ℕ) (filters : List Filter) :
    ((PostgreSQL.conditions py paramIdx filters).map Prod.fst).flatMap numbers =
      (List.range' paramIdx filters.length).map some := by
  induction filters generalizing paramIdx with
  | nil => rfl
  | cons f fs ih => simp [PostgreSQL.conditions, ih, List.range'_succ]

@[simp] theorem PostgreSQL.length_conditions (paramIdx : ℕ) (filters : List Filter) :
    (PostgreSQL.conditions py paramIdx filters).length = filters.length := by
  induction filters generalizing paramIdx with
  | nil => rfl
  | cons f fs ih => simp [PostgreSQL.conditions, ih]

@[simp] theorem PostgreSQL.names_keyConditions (idx : ℕ) (primaryKey : Assoc Value) :
    (PostgreSQL.keyConditions idx primaryKey).flatMap names = primaryKey.keys := by
  induction primaryKey generalizing idx with
  | nil => rfl
  | cons e es ih => simp [PostgreSQL.keyConditions, ih, Assoc.keys]

@[simp] theorem PostgreSQL.numbers_keyConditions (idx : ℕ) (primaryKey : Assoc Value) :
    (PostgreSQL.keyConditions idx primaryKey).flatMap numbers = (List.range' idx primaryKey.length).map some := by
  induction primaryKey generalizing idx with
  | nil => rfl
  | cons e es ih => simp [PostgreSQL.keyConditions, ih, List.range'_succ]

@[simp] theorem PostgreSQL.names_tableRef (connector : PostgreSQLConnector) (tablePath : String) :
    names (PostgreSQL.tableRef py connector tablePath) = [PostgreSQL.schemaName py connector, tablePath] := rfl

@[simp] theorem PostgreSQL.numbers_tableRef (connector : PostgreSQLConnector) (tablePath : String) :
    numbers (PostgreSQL.tableRef py connector tablePath) = [] := rfl

@[simp] theorem numbers_placeholders (n : ℕ) :
    (List.replicate n [Piece.placeholder none]).flatMap numbers = List.replicate n none := by
  induction n with
  | zero => rfl
  | succ n ih => rw [List.replicate_succ, List.flatMap_cons, ih, List.replicate_succ, numbers_placeholder]; rfl

@[simp] theorem Doris.names_condition (f : Filter) : names (Doris.condition py f).1 = [f.field] := by
  unfold Doris.condition
  split
  · rfl
  · simp
  · rfl

@[simp] theorem Doris.numbers_condition (f : Filter) :
    numbers (Doris.condition py f).1 = List.replicate (Doris.condition py f).2.length none := by
  unfold Doris.condition
  split
  · rfl
  · simp
  · rfl

/-- As many placeholders as values in each condition. -/
theorem numbers_parts {parts : List (List Piece × List Value)}
    (h : ∀ part ∈ parts, numbers part.1 = List.replicate part.2.length none) :
    (parts.map Prod.fst).flatMap numbers = List.replicate (parts.map Prod.snd).flatten.length none := by
  induction parts with
  | nil => rfl
  | cons part parts ih =>
    have hrest := ih fun part hpart => h part (List.mem_cons_of_mem _ hpart)
    rw [List.map_cons, List.flatMap_cons, h part List.mem_cons_self, hrest, List.replicate_append_replicate,
      List.map_cons, List.flatten_cons, List.length_append]

@[simp] theorem Doris.names_keys (primaryKey : Assoc Value) :
    (primaryKey.map fun e => [.identifier e.1, .text " = ", .placeholder none]).flatMap names = primaryKey.keys := by
  rw [List.flatMap_map]
  exact List.map_eq_flatMap.symm

@[simp] theorem Doris.numbers_keys (primaryKey : Assoc Value) :
    (primaryKey.map fun e => [.identifier e.1, .text " = ", .placeholder none]).flatMap numbers =
      List.replicate primaryKey.length none := by
  induction primaryKey with
  | nil => rfl
  | cons e es ih => rw [List.map_cons, List.flatMap_cons, ih, List.length_cons, List.replicate_succ]; rfl

@[simp] theorem Doris.names_buildWhere (filters : List Filter) :
    names (Doris.buildWhere py filters).1 = filters.map Filter.field := by
  simp only [Doris.buildWhere, names_whereClause, List.map_map, List.flatMap_map]
  exact (List.flatMap_congr fun f _ => Doris.names_condition f).trans List.map_eq_flatMap.symm

@[simp] theorem Doris.numbers_buildWhere (filters : List Filter) :
    numbers (Doris.buildWhere py filters).1 = List.replicate (Doris.buildWhere py filters).2.length none := by
  simp only [Doris.buildWhere, numbers_whereClause]
  refine numbers_parts fun part hpart => ?_
  obtain ⟨f, -, rfl⟩ := List.mem_map.mp hpart
  exact Doris.numbers_condition f

/-! ## Conditions without their values -/

/-- The text has the fields, the operators and the numbers. -/
theorem PostgreSQL.conditions_pieces {filters filters' : List Filter}
    (h : List.Forall₂ (fun f f' : Filter => f.field = f'.field ∧ f.operator = f'.operator) filters filters')
    (paramIdx : ℕ) : (PostgreSQL.conditions py paramIdx filters).map Prod.fst =
      (PostgreSQL.conditions py paramIdx filters').map Prod.fst := by
  induction h generalizing paramIdx with
  | nil => rfl
  | @cons f f' fs fs' hf _ ih =>
    obtain ⟨hfield, hoperator⟩ := hf
    have hcondition : (PostgreSQL.condition py paramIdx f).1 = (PostgreSQL.condition py paramIdx f').1 := by
      unfold PostgreSQL.condition
      rw [hfield, hoperator]
      cases f'.operator <;> rfl
    simp only [PostgreSQL.conditions, List.map_cons, hcondition, ih]

theorem PostgreSQL.keyConditions_pieces {primaryKey primaryKey' : Assoc Value} (h : primaryKey.keys = primaryKey'.keys)
    (idx : ℕ) : PostgreSQL.keyConditions idx primaryKey = PostgreSQL.keyConditions idx primaryKey' := by
  induction primaryKey generalizing primaryKey' idx with
  | nil => rw [List.map_eq_nil_iff.mp h.symm]
  | cons e es ih =>
    obtain ⟨e', es', rfl, he, hes⟩ := List.map_eq_cons_iff.mp h.symm
    simp only [PostgreSQL.keyConditions, he, ih hes.symm]

theorem Doris.keys_pieces {primaryKey primaryKey' : Assoc Value} (h : primaryKey.keys = primaryKey'.keys) :
    primaryKey.map (fun e => [Piece.identifier e.1, .text " = ", .placeholder none]) =
      primaryKey'.map fun e => [.identifier e.1, .text " = ", .placeholder none] := by
  have hmap : ∀ l : Assoc Value, l.map (fun e => [Piece.identifier e.1, .text " = ", .placeholder none]) =
      l.keys.map fun key => [.identifier key, .text " = ", .placeholder none] := fun l => by
    rw [Assoc.keys, List.map_map]
    rfl
  rw [hmap, hmap, h]

theorem Doris.conditions_pieces {filters filters' : List Filter}
    (h : List.Forall₂ (fun f f' : Filter => f.field = f'.field ∧ f.operator = f'.operator ∧
      (f.operator = .in → (members f.value).length = (members f'.value).length)) filters filters') :
    (Doris.buildWhere py filters).1 = (Doris.buildWhere py filters').1 := by
  have hparts : (filters.map (Doris.condition py)).map Prod.fst = (filters'.map (Doris.condition py)).map Prod.fst := by
    induction h with
    | nil => rfl
    | @cons f f' fs fs' hf _ ih =>
      obtain ⟨hfield, hoperator, hmembers⟩ := hf
      have hcondition : (Doris.condition py f).1 = (Doris.condition py f').1 := by
        unfold Doris.condition
        rw [hfield, ← hoperator]
        cases hin : f.operator with
        | «in» => simp only [List.map_const', hmembers hin]
        | _ => rfl
      simp only [List.map_cons, hcondition, ih]
  simp only [Doris.buildWhere, hparts]

end Clauses

/-! ## Statements -/

section Statements
variable {py : Python} {connector : SqlConnector} {tablePath : String} {request request' : Request}
  {sent sent' : List Statement}

/-- What is known of the statements of a request that is not refused. -/
structure Sent (py : Python) (connector : SqlConnector) (tablePath : String) (request : Request)
    (sent : List Statement) : Prop where
  safe : ∀ name ∈ tablePath :: request.validated, safeIdentifier name
  names : ∀ name, (∃ statement ∈ sent, name ∈ names statement.pieces) ↔
    name ∈ connector.schemas py ∨ name = tablePath ∨ name ∈ request.validated ∨ name ∈ request.filterFields
  aligned : ∀ statement ∈ sent, Aligned connector statement

/-- The three validations of a request, and what is sent after them. -/
theorem validated_iff {columns rest : List String} {what : String} {texts : List Statement} :
    (do
      validateIdentifiers "table_path" [tablePath]
      validateIdentifiers "column" columns
      validateIdentifiers what rest
      return texts) = Except.ok sent ↔
    (∀ name ∈ tablePath :: (columns ++ rest), safeIdentifier name) ∧ texts = sent := by
  simp only [bind_ok_iff, validateIdentifiers_ok_iff, exists_const, List.forall_mem_cons, List.forall_mem_append,
    List.not_mem_nil, false_imp_iff, implies_true, and_true, and_assoc]
  exact and_congr_right fun _ => and_congr_right fun _ => and_congr_right fun _ => ⟨Except.ok.inj, congrArg _⟩

theorem Doris.executeQuery_iff {columns : List String} {filters : List Filter} {sort : List SortSpec}
    {offset limit : ℕ} :
    Doris.executeQuery py tablePath columns filters sort offset limit = .ok sent ↔
      (∀ name ∈ tablePath :: (columns ++ sort.map SortSpec.field), safeIdentifier name) ∧
      [⟨countSql [.identifier tablePath] (Doris.buildWhere py filters).1, (Doris.buildWhere py filters).2⟩,
        ⟨dataSql columns [.identifier tablePath] (Doris.buildWhere py filters).1 sort
            [.text " LIMIT ", .placeholder none, .text " OFFSET ", .placeholder none],
          (Doris.buildWhere py filters).2 ++ [.int limit, .int offset]⟩] = sent :=
  validated_iff

/-- Two more numbers in turn. -/
theorem numbers_page (n : ℕ) : (List.range' 1 n).map some ++ [some (1 + n), some (1 + n + 1)] =
    (List.range' 1 (n + 2)).map some := by
  rw [List.range'_concat, List.range'_concat]
  simp [Nat.add_assoc]

theorem sent_of_ok (h : statements py connector tablePath request = .ok sent) :
    Sent py connector tablePath request sent := by
  cases connector with
  | postgresql connector =>
    cases request with
    | query columns filters sort offset limit =>
      obtain ⟨hsafe, rfl⟩ := validated_iff.mp h
      refine ⟨hsafe, fun name => ?_, ?_⟩
      · simp only [SqlConnector.schemas, Request.validated, Request.filterFields, List.exists_mem_cons_iff]
        simp
        grind
      · intro statement hstatement
        simp only [List.mem_cons, List.not_mem_nil, or_false] at hstatement
        rcases hstatement with rfl | rfl
        · simp [Aligned]
        · simp [Aligned, numbers_page]
    | row primaryKey columns =>
      obtain ⟨hsafe, rfl⟩ := validated_iff.mp h
      refine ⟨hsafe, fun name => ?_, ?_⟩
      · simp [SqlConnector.schemas, Request.validated, Request.filterFields]
        grind
      · simp [Aligned, Assoc.values]
  | doris =>
    cases request with
    | query columns filters sort offset limit =>
      obtain ⟨hsafe, rfl⟩ := Doris.executeQuery_iff.mp h
      refine ⟨hsafe, fun name => ?_, ?_⟩
      · simp [SqlConnector.schemas, Request.validated, Request.filterFields]
        grind
      · intro statement hstatement
        simp only [List.mem_cons, List.not_mem_nil, or_false] at hstatement
        rcases hstatement with rfl | rfl
        · simp [Aligned]
        · simp [Aligned, List.replicate_succ']
    | row primaryKey columns =>
      obtain ⟨hsafe, rfl⟩ := validated_iff.mp h
      refine ⟨hsafe, fun name => ?_, ?_⟩
      · simp [SqlConnector.schemas, Request.validated, Request.filterFields]
        grind
      · simp [Aligned, Assoc.values]

theorem statements_ok (h : ∀ name ∈ tablePath :: request.validated, safeIdentifier name) :
    ∃ sent, statements py connector tablePath request = .ok sent := by
  cases connector with
  | postgresql connector =>
    cases request with
    | query columns filters sort offset limit => exact ⟨_, validated_iff.mpr ⟨h, rfl⟩⟩
    | row primaryKey columns => exact ⟨_, validated_iff.mpr ⟨h, rfl⟩⟩
  | doris =>
    cases request with
    | query columns filters sort offset limit => exact ⟨_, validated_iff.mpr ⟨h, rfl⟩⟩
    | row primaryKey columns => exact ⟨_, validated_iff.mpr ⟨h, rfl⟩⟩

/-- Requests of one shape have one text. -/
theorem pieces_of_sameShape (hshape : request.SameShape connector request')
    (h : statements py connector tablePath request = .ok sent)
    (h' : statements py connector tablePath request' = .ok sent') :
    sent.map Statement.pieces = sent'.map Statement.pieces := by
  cases connector with
  | postgresql connector =>
    cases request with
    | query columns filters sort offset limit =>
      cases request' with
      | row => exact hshape.elim
      | query columns' filters' sort' offset' limit' =>
        obtain ⟨rfl, rfl, hfilters⟩ := hshape
        have hpieces := @PostgreSQL.conditions_pieces py _ _ (hfilters.imp fun _ _ hf => ⟨hf.1, hf.2.1⟩) 1
        obtain ⟨-, rfl⟩ := validated_iff.mp h
        obtain ⟨-, rfl⟩ := validated_iff.mp h'
        simp only [List.map_cons, List.map_nil, hpieces, hfilters.length_eq]
    | row primaryKey columns =>
      cases request' with
      | query => exact hshape.elim
      | row primaryKey' columns' =>
        obtain ⟨rfl, hkeys⟩ := hshape
        obtain ⟨-, rfl⟩ := validated_iff.mp h
        obtain ⟨-, rfl⟩ := validated_iff.mp h'
        simp only [List.map_cons, List.map_nil, PostgreSQL.keyConditions_pieces hkeys]
  | doris =>
    cases request with
    | query columns filters sort offset limit =>
      cases request' with
      | row => exact hshape.elim
      | query columns' filters' sort' offset' limit' =>
        obtain ⟨rfl, rfl, hfilters⟩ := hshape
        have hpieces := @Doris.conditions_pieces py _ _ (hfilters.imp fun _ _ hf => ⟨hf.1, hf.2.1, hf.2.2 rfl⟩)
        obtain ⟨-, rfl⟩ := Doris.executeQuery_iff.mp h
        obtain ⟨-, rfl⟩ := Doris.executeQuery_iff.mp h'
        simp only [List.map_cons, List.map_nil, hpieces]
    | row primaryKey columns =>
      cases request' with
      | query => exact hshape.elim
      | row primaryKey' columns' =>
        obtain ⟨rfl, hkeys⟩ := hshape
        obtain ⟨-, rfl⟩ := validated_iff.mp h
        obtain ⟨-, rfl⟩ := validated_iff.mp h'
        simp only [List.map_cons, List.map_nil, Doris.keys_pieces hkeys]

end Statements

/-! ## Names -/

/-- What the validation lets through is plain but for a newline at the end. -/
theorem plainIdentifier_iff (name : String) :
    plainIdentifier name ↔ safeIdentifier name ∧ name.toList.getLast? ≠ some '\n' := by
  by_cases hlast : name.toList.getLast? = some '\n'
  · refine iff_of_false ?_ fun h => h.2 hlast
    unfold plainIdentifier
    cases hname : name.toList with
    | nil => exact Bool.false_ne_true
    | cons c cs =>
      rw [hname] at hlast
      intro h
      simp only [Bool.and_eq_true, List.all_eq_true, decide_eq_true_eq] at h
      rcases List.mem_cons.mp (List.mem_of_getLast? hlast) with rfl | hmem
      · exact absurd h.1.1 (by decide)
      · exact absurd (h.2 _ hmem) (by decide)
  · have hsafe : safeIdentifier name = plainIdentifier name := by
      unfold safeIdentifier
      dsimp only
      rw [if_neg hlast]
      rfl
    rw [hsafe]
    exact ⟨fun h => ⟨h, hlast⟩, And.left⟩

section Theorem
variable (py : Python) (connector : SqlConnector) (tablePath : String) (request : Request)

/-- The schema and the fields of filters are spliced in without the check that the other names pass. -/
theorem injectionFree_iff : InjectionFree py connector tablePath request ↔
    (∃ name ∈ tablePath :: request.validated, safeIdentifier name = false) ∨
    (∀ name ∈ connector.schemas py ++ request.filterFields, safeIdentifier name) ∧
      ∀ name ∈ connector.schemas py ++ request.filterFields ++ tablePath :: request.validated,
        name.toList.getLast? ≠ some '\n' := by
  by_cases hsafe : ∀ name ∈ tablePath :: request.validated, safeIdentifier name
  · obtain ⟨sent, hsent⟩ := @statements_ok py connector _ _ hsafe
    have hnames := (sent_of_ok hsent).names
    constructor
    · intro h
      have hplain : ∀ name, (name ∈ connector.schemas py ∨ name = tablePath ∨ name ∈ request.validated ∨
          name ∈ request.filterFields) → safeIdentifier name ∧ name.toList.getLast? ≠ some '\n' := by
        intro name hname
        obtain ⟨statement, hstatement, hspliced⟩ := (hnames name).mpr hname
        exact (plainIdentifier_iff name).mp (h.plain sent hsent statement hstatement name hspliced)
      refine .inr ⟨fun name hname => (hplain name ?_).1, fun name hname => (hplain name ?_).2⟩
      · rcases List.mem_append.mp hname with hname | hname
        · exact .inl hname
        · exact .inr (.inr (.inr hname))
      · grind
    · intro h
      obtain ⟨hunchecked, hlast⟩ := h.resolve_left fun ⟨name, hname, hbad⟩ => by simp [hsafe name hname] at hbad
      refine ⟨fun sent' hsent' statement hstatement name hname => ?_, fun sent' hsent' => (sent_of_ok hsent').aligned,
        fun request' hshape _ _ => pieces_of_sameShape hshape⟩
      have hfrom := ((sent_of_ok hsent').names name).mp ⟨statement, hstatement, hname⟩
      refine (plainIdentifier_iff name).mpr ⟨?_, hlast name (by grind)⟩
      rcases hfrom with hname | rfl | hname | hname
      · exact hunchecked name (List.mem_append_left _ hname)
      · exact hsafe _ List.mem_cons_self
      · exact hsafe name (List.mem_cons_of_mem _ hname)
      · exact hunchecked name (List.mem_append_right _ hname)
  · have hrefused : ∀ sent, statements py connector tablePath request ≠ .ok sent :=
      fun sent hsent => hsafe (sent_of_ok hsent).safe
    refine iff_of_true ⟨fun sent hsent => absurd hsent (hrefused sent), fun sent hsent => absurd hsent (hrefused sent),
      fun _ _ sent _ hsent => absurd hsent (hrefused sent)⟩ (.inl ?_)
    simpa only [not_forall, exists_prop, Bool.not_eq_true] using hsafe

end Theorem

/-- A schema of a configuration that ends its quotation. -/
theorem schema_spliced :
    (statements .plain (.postgresql ⟨[("schema", .str "x\"; DROP TABLE t; --")]⟩) "robots"
      (.query ["id"] [] [] 0 20)).toOption.map (·.map (Statement.sql .postgresql)) = some [
        "SELECT COUNT(*) FROM \"x\"; DROP TABLE t; --\".\"robots\" WHERE TRUE",
        "SELECT \"id\" FROM \"x\"; DROP TABLE t; --\".\"robots\" WHERE TRUE ORDER BY 1 OFFSET $1 LIMIT $2"] ∧
    ¬ InjectionFree .plain (.postgresql ⟨[("schema", .str "x\"; DROP TABLE t; --")]⟩) "robots"
      (.query ["id"] [] [] 0 20) := by
  refine ⟨by decide, fun h => ?_⟩
  have hplain := h.plain _ rfl _ List.mem_cons_self "x\"; DROP TABLE t; --" (by decide)
  exact absurd hplain (by decide)

end Lingshu.Data.Sql
