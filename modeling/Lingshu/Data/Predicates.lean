import Lingshu.Data.Injection
import Lingshu.Text.Like

/-! # The predicates of filters

What a filter says of a cell, and what PostgreSQL and Doris make of the conditions that their connectors build. -/
namespace Lingshu.Data.Sql
open Json
set_option autoImplicit false

/-! ## Columns -/

inductive ColumnType where
  | string
  | long
  | double
  | boolean
  deriving DecidableEq, Repr

/-- The values of a column but NULL. The texts of PostgreSQL have no character 0. -/
def ColumnType.has : ColumnType → Value → Bool
  | .string, .str s => '\x00' ∉ s.toList
  | .long, .int i => -9223372036854775808 ≤ i ∧ i ≤ 9223372036854775807
  | .double, .float text => ' ' ∉ text.toList
  | .boolean, .bool _ => true
  | _, _ => false

namespace ColumnType
variable {v : Value}

theorem str_of_has (h : ColumnType.has .string v) : ∃ s, v = .str s := by
  cases v with
  | str s => exact ⟨s, rfl⟩
  | _ => cases h

theorem int_of_has (h : ColumnType.has .long v) : ∃ i, v = .int i := by
  cases v with
  | int i => exact ⟨i, rfl⟩
  | _ => cases h

theorem float_of_has (h : ColumnType.has .double v) : ∃ text, v = .float text := by
  cases v with
  | float text => exact ⟨text, rfl⟩
  | _ => cases h

theorem bool_of_has (h : ColumnType.has .boolean v) : ∃ b, v = .bool b := by
  cases v with
  | bool b => exact ⟨b, rfl⟩
  | _ => cases h

end ColumnType

/-- The columns of a table; their names are such as the SQL connectors select. -/
structure Schema where
  columns : Assoc ColumnType
  nodup : columns.keys.Nodup
  plain : ∀ c ∈ columns.keys, plainIdentifier c

/-- A row of the table, without NULLs. -/
def Schema.Holds (schema : Schema) (row : Row) : Prop := ∀ c ∈ schema.columns, c.2.has (field row c.1)

/-- The filter has values of the column's type. -/
def ColumnType.Fits (type : ColumnType) (f : Filter) : Prop :=
  match f.operator with
  | .contains => type = .string ∧ type.has f.value
  | .in => ∀ v ∈ members f.value, type.has v
  | _ => type.has f.value

def Schema.Types (schema : Schema) (f : Filter) : Prop := ∃ type, (f.field, type) ∈ schema.columns ∧ type.Fits f

/-! ## Meanings -/

/-- How floats compare. -/
structure Floats where
  eq : String → String → Bool
  lt : String → String → Bool

variable (floats : Floats)

def same : Value → Value → Bool
  | .str a, .str b => a = b
  | .int a, .int b => a = b
  | .float a, .float b => floats.eq a b
  | .bool a, .bool b => a = b
  | _, _ => false

def less : Value → Value → Bool
  | .str a, .str b => a < b
  | .int a, .int b => a < b
  | .float a, .float b => floats.lt a b
  | .bool a, .bool b => !a && b
  | _, _ => false

/-- The value is found in the text of the cell. -/
def within : Value → Value → Bool
  | .str v, .str s => v.toList <:+: s.toList
  | _, _ => false

/-- What an operator says of a cell and a value. -/
def meaning (cell : Value) : FilterOperator → Value → Bool
  | .eq, v => same floats cell v
  | .neq, v => !same floats cell v
  | .gt, v => less floats v cell
  | .gte, v => less floats v cell || same floats cell v
  | .lt, v => less floats cell v
  | .lte, v => less floats cell v || same floats cell v
  | .contains, v => within v cell
  | .in, v => (members v).any (same floats cell)

/-- The row is one that the filters ask for. -/
def plainly (filters : List Filter) (row : Row) : Bool :=
  filters.all fun f => meaning floats (field row f.field) f.operator f.value

/-! ## SQL -/

/-- `LIKE`; only texts are like texts. -/
def likeValue : Value → Value → Bool
  | .str s, .str pattern => Text.like pattern.toList s.toList
  | _, _ => false

def operatorOf : String → Option FilterOperator
  | " = " => some .eq
  | " != " => some .neq
  | " > " => some .gt
  | " >= " => some .gte
  | " < " => some .lt
  | " <= " => some .lte
  | _ => none

/-- The database on a condition with its parameters; `IN ()` is none. -/
def evaluate (row : Row) : List Piece → List Value → Option Bool
  | [.identifier c, .text " LIKE ", .placeholder _], [v] => some (likeValue (field row c) v)
  | [.identifier c, .text " = ANY(", .placeholder _, .text ")"], [.list vs] => some (vs.any (same floats (field row c)))
  | [.identifier c, .text operator, .placeholder _], [v] =>
    (operatorOf operator).map fun op => meaning floats (field row c) op v
  | .identifier c :: .text " IN (" :: .placeholder _ :: _, vs => some (vs.any (same floats (field row c)))
  | _, _ => none

/-- `AND`. -/
def conjunction : List (Option Bool) → Option Bool
  | [] => some true
  | b :: bs => do return (← b) && (← conjunction bs)

variable (py : Python)

/-- Whether the statement of `PostgreSQLConnector` selects the row. -/
def PostgreSQL.selects (filters : List Filter) (row : Row) : Option Bool :=
  conjunction <| (PostgreSQL.conditions py 1 filters).map fun part => evaluate floats row part.1 [part.2]

/-- Whether that of `DorisConnector` does. -/
def Doris.selects (filters : List Filter) (row : Row) : Option Bool :=
  conjunction <| (filters.map (Doris.condition py)).map fun part => evaluate floats row part.1 part.2

/-- What an operator says in SQL. -/
def sqlMeaning (cell : Value) : FilterOperator → Value → Bool
  | .contains, v => likeValue cell (.str ("%" ++ formatted py v ++ "%"))
  | op, v => meaning floats cell op v

/-- The row is selected if and only if the filters ask for it. -/
def Schema.Right (schema : Schema) (filters : List Filter) (selects : Row → Option Bool) : Prop :=
  ∀ row, schema.Holds row → selects row = some (plainly floats filters row)

/-- Nothing that is looked for is a pattern. -/
def Literal (f : Filter) : Prop :=
  f.operator = .contains → ∀ t, f.value = .str t → ∀ c ∈ t.toList, Text.special c = false

def Listed (f : Filter) : Prop := f.operator = .in → members f.value ≠ []

section Conditions
variable {floats : Floats} {py : Python} {row : Row} {filters : List Filter} {f : Filter} {c : String}

theorem conjunction_some {α : Type} (g : α → Bool) (l : List α) :
    conjunction (l.map fun a => some (g a)) = some (l.all g) := by
  induction l with
  | nil => rfl
  | cons a l ih => rw [List.map_cons, conjunction, ih, List.all_cons]; rfl

theorem all_congr_of_mem {α : Type} {p q : α → Bool} {l : List α} (h : ∀ a ∈ l, p a = q a) : l.all p = l.all q := by
  rw [Bool.eq_iff_iff, List.all_eq_true, List.all_eq_true]
  exact forall₂_congr fun a ha => by rw [h a ha]

theorem PostgreSQL.evaluate_condition (paramIdx : ℕ) (f : Filter) :
    evaluate floats row (PostgreSQL.condition py paramIdx f).1 [(PostgreSQL.condition py paramIdx f).2] =
      some (sqlMeaning floats py (field row f.field) f.operator f.value) := by
  unfold PostgreSQL.condition
  cases f.operator <;> rfl

theorem PostgreSQL.selects_eq (filters : List Filter) (row : Row) : PostgreSQL.selects floats py filters row =
    some (filters.all fun f => sqlMeaning floats py (field row f.field) f.operator f.value) := by
  have hconditions : ∀ paramIdx, (PostgreSQL.conditions py paramIdx filters).map
      (fun part => evaluate floats row part.1 [part.2]) =
        filters.map fun f => some (sqlMeaning floats py (field row f.field) f.operator f.value) := by
    induction filters with
    | nil => exact fun _ => rfl
    | cons f fs ih =>
      intro paramIdx
      rw [PostgreSQL.conditions, List.map_cons, List.map_cons, ih, PostgreSQL.evaluate_condition]
  rw [PostgreSQL.selects, hconditions, conjunction_some]

theorem Doris.evaluate_condition (f : Filter) :
    evaluate floats row (Doris.condition py f).1 (Doris.condition py f).2 =
      if f.operator = .in ∧ members f.value = [] then none
      else some (sqlMeaning floats py (field row f.field) f.operator f.value) := by
  unfold Doris.condition
  cases hop : f.operator with
  | «in» =>
    cases hvalues : members f.value with
    | nil => rfl
    | cons v vs =>
      rw [if_neg (by simp)]
      cases vs <;> simp [evaluate, joined, sqlMeaning, meaning, hvalues]
  | _ => rfl

theorem Doris.selects_eq (h : ∀ f ∈ filters, f.operator = .in → members f.value ≠ []) (row : Row) :
    Doris.selects floats py filters row =
      some (filters.all fun f => sqlMeaning floats py (field row f.field) f.operator f.value) := by
  rw [Doris.selects, List.map_map, ← conjunction_some]
  refine congrArg conjunction (List.map_congr_left fun f hf => ?_)
  rw [Function.comp_apply, Doris.evaluate_condition, if_neg fun hin => h f hf hin.1 hin.2]

/-! ## Cells -/

theorem exists_blank (type : ColumnType) : ∃ v, type.has v := by
  cases type with
  | string => exact ⟨.str "", rfl⟩
  | long => exact ⟨.int 0, rfl⟩
  | double => exact ⟨.float "0.0", by decide⟩
  | boolean => exact ⟨.bool false, rfl⟩

variable {schema : Schema} {type : ColumnType}

theorem field_set (row : Row) (c : String) (v : Value) (name : String) :
    field (row.set c v) name = if name = c then v else field row name := by
  rw [field, Assoc.lookup_set]
  split <;> rfl

theorem Schema.Holds.set (h : schema.Holds row) {c : String} (hc : (c, type) ∈ schema.columns) {v : Value}
    (hv : type.has v) : schema.Holds (row.set c v) := by
  intro e he
  rw [field_set]
  split
  next heq =>
    have htype := Assoc.lookup_of_mem schema.nodup he
    rw [heq, Assoc.lookup_of_mem schema.nodup hc] at htype
    rw [← Option.some.inj htype]
    exact hv
  next => exact h e he

theorem exists_holds (schema : Schema) : ∃ row, schema.Holds row := by
  choose blank hblank using exists_blank
  refine ⟨schema.columns.map fun e => (e.1, blank e.2), fun e he => ?_⟩
  have hnodup : Assoc.keys (schema.columns.map fun e => (e.1, blank e.2)) = schema.columns.keys := by
    rw [Assoc.keys, List.map_map]
    rfl
  have hlookup : List.lookup e.1 (schema.columns.map fun e => (e.1, blank e.2)) = some (blank e.2) :=
    Assoc.lookup_of_mem (hnodup ▸ schema.nodup) (List.mem_map_of_mem (f := fun e => (e.1, blank e.2)) he)
  rw [field, hlookup]
  exact hblank e.2

/-- A column may have any of its values. -/
theorem exists_cell (hc : (c, type) ∈ schema.columns) {v : Value} (hv : type.has v) :
    ∃ row, schema.Holds row ∧ field row c = v := by
  obtain ⟨row, hrow⟩ := exists_holds schema
  exact ⟨row.set c v, hrow.set hc hv, by rw [field_set, if_pos rfl]⟩

/-! ## `LIKE` -/

theorem likeValue_eq (s t : String) : likeValue (.str s) (.str ("%" ++ formatted py (.str t) ++ "%")) =
    Text.like (Text.anywhere t.toList) s.toList := by
  rw [likeValue, formatted, String.toList_append, String.toList_append]
  rfl

theorem sqlMeaning_eq (hliteral : Literal f) (hfits : type.Fits f) {cell : Value} (hcell : type.has cell) :
    sqlMeaning floats py cell f.operator f.value = meaning floats cell f.operator f.value := by
  cases hop : f.operator with
  | contains =>
    simp only [ColumnType.Fits, hop] at hfits
    obtain ⟨rfl, hvalue⟩ := hfits
    obtain ⟨t, hf⟩ := ColumnType.str_of_has hvalue
    obtain ⟨s, rfl⟩ := ColumnType.str_of_has hcell
    rw [hf, sqlMeaning, likeValue_eq, meaning, within]
    exact Bool.eq_iff_iff.mpr ((Text.like_anywhere (hliteral hop t hf)).trans decide_eq_true_iff.symm)
  | _ => rfl

variable (floats py) in
/-- The text that a pattern finds may stand in the column. -/
theorem literal_of_sqlMeaning (hfits : type.Fits f)
    (h : ∀ cell, type.has cell → sqlMeaning floats py cell f.operator f.value = meaning floats cell f.operator f.value) :
    Literal f := by
  intro hop t hf
  simp only [ColumnType.Fits, hop, hf] at hfits
  obtain ⟨rfl, hvalue⟩ := hfits
  simp only [ColumnType.has, decide_eq_true_eq] at hvalue
  have hcell : ColumnType.has .string (.str (String.ofList (Text.found t.toList))) := by
    simp only [ColumnType.has, String.toList_ofList, decide_eq_true_eq]
    intro hzero
    rcases Text.mem_found _ _ hzero with hmem | heq | heq
    · exact hvalue hmem
    · exact absurd heq (by decide)
    · exact absurd heq (by decide)
  have heq := h _ hcell
  rw [hop, hf, sqlMeaning, likeValue_eq, meaning, within, String.toList_ofList] at heq
  exact Text.special_found fun hlike => of_decide_eq_true (heq ▸ hlike)

theorem plainly_singleton (f : Filter) (row : Row) :
    plainly floats [f] row = meaning floats (field row f.field) f.operator f.value := Bool.and_true _

variable (floats py) in
/-- All lists of some filters are right about the rows exactly when each filter is literal. -/
theorem PostgreSQL.right_iff (htyped : ∀ f ∈ filters, schema.Types f) :
    (∀ part ⊆ filters, schema.Right floats part (PostgreSQL.selects floats py part)) ↔ ∀ f ∈ filters, Literal f := by
  constructor
  · intro h f hf
    obtain ⟨type, hcolumn, hfits⟩ := htyped f hf
    refine literal_of_sqlMeaning floats py hfits fun cell hcell => ?_
    obtain ⟨row, hrow, rfl⟩ := exists_cell hcolumn hcell
    have hright := h [f] (List.cons_subset.mpr ⟨hf, List.nil_subset _⟩) row hrow
    rw [PostgreSQL.selects_eq, plainly_singleton] at hright
    exact (Bool.and_true _).symm.trans (Option.some.inj hright)
  · intro h part hpart row hrow
    rw [PostgreSQL.selects_eq, plainly]
    refine congrArg some (all_congr_of_mem fun f hf => ?_)
    obtain ⟨type, hcolumn, hfits⟩ := htyped f (hpart hf)
    exact sqlMeaning_eq (h f (hpart hf)) hfits (hrow _ hcolumn)

theorem Doris.right_iff (htyped : ∀ f ∈ filters, schema.Types f) :
    (∀ part ⊆ filters, schema.Right floats part (Doris.selects floats py part)) ↔
      ∀ f ∈ filters, Literal f ∧ Listed f := by
  constructor
  · intro h
    have hlisted : ∀ f ∈ filters, Listed f := fun f hf hop hvalues => by
      obtain ⟨row, hrow⟩ := exists_holds schema
      have hright := h [f] (List.cons_subset.mpr ⟨hf, List.nil_subset _⟩) row hrow
      rw [Doris.selects, List.map_map, List.map_singleton, Function.comp_apply, Doris.evaluate_condition,
        if_pos ⟨hop, hvalues⟩] at hright
      cases hright
    have hliteral := (PostgreSQL.right_iff floats py htyped).mp fun part hpart row hrow => ?_
    · exact fun f hf => ⟨hliteral f hf, hlisted f hf⟩
    rw [PostgreSQL.selects_eq, ← h part hpart row hrow, Doris.selects_eq fun f hf => hlisted f (hpart hf)]
  · intro h part hpart row hrow
    have hsql := (PostgreSQL.right_iff floats py htyped).mpr (fun f hf => (h f hf).1) part hpart row hrow
    rw [PostgreSQL.selects_eq] at hsql
    rw [Doris.selects_eq fun f hf => (h f (hpart hf)).2]
    exact hsql

end Conditions

end Lingshu.Data.Sql
