import Lingshu.Data.Keys

/-! # Filters and what is reported

The filters of `query_instances` against the values that the returned rows show. A filter is brought to the column of its
field, and dropped if there is none; what the rows show under the field may come from elsewhere. -/
namespace Lingshu.Data
open Json
set_option autoImplicit false

/-- NULL passes no comparison; `CONTAINS` makes a text of its value. -/
structure Postgres.Strict (pg : Postgres) : Prop where
  cell : ∀ op v, pg.test op .null v = false
  value : ∀ op x, op ≠ .contains → pg.test op x .null = false

/-- What an instance shows passes all filters of the request. -/
def shows (pg : Postgres) (filters : List Filter) (inst : Row) : Bool :=
  filters.all fun f => pg.test f.operator (field inst f.field) f.value

/-- All returned rows pass the filters, and the total counts the rows of the table that do. -/
def HonoursFilters (schema : SchemaInfo) (filters : List Filter) : Prop :=
  ∀ pg : Postgres, pg.Strict → ∀ py sources s typeRid tenantId t sort offset limit page,
    tableOf sources s schema typeRid tenantId = some t →
    queryInstances pg py sources s schema typeRid tenantId filters sort offset limit = .ok page →
    (∀ inst ∈ page.rows, shows pg filters inst) ∧
      page.total = (t.rows.filter fun row => shows pg filters (instanceOf py schema t row)).length

/-- Nothing passes the filter, as it compares a column with NULL. -/
def ComparesNull (schema : SchemaInfo) (f : Filter) : Prop :=
  f.value = .null ∧ f.operator ≠ .contains ∧ f.field ∈ (buildColumnMap schema).keys

section Filters
variable {pg : Postgres} {py : Python} {schema : SchemaInfo} {filters fs : List Filter} {t : Table} {row : Row}

theorem translateFilters_masked (h : ∃ f ∈ filters, f.field ∈ maskedFields schema) :
    translateFilters schema filters ≠ .ok fs := by
  obtain ⟨f, hf, hmasked⟩ := h
  unfold translateFilters
  split
  · exact nofun
  next hnone => exact absurd hmasked (by simpa using List.find?_eq_none.mp hnone f hf)

theorem translateFilters_unmasked (h : ∀ f ∈ filters, f.field ∉ maskedFields schema) :
    translateFilters schema filters = .ok (filters.filterMap fun f =>
      ((buildColumnMap schema).lookup f.field).map fun column => { f with field := column }) := by
  unfold translateFilters
  rw [List.find?_eq_none.mpr fun f hf => by simpa using h f hf]

/-- A row passes the statement's filters if it passes those that have a column. -/
theorem holds_translated (row : Row) :
    holds pg (filters.filterMap fun f => ((buildColumnMap schema).lookup f.field).map fun column => { f with field := column })
        row = true ↔
      ∀ f ∈ filters, ∀ column, (buildColumnMap schema).lookup f.field = some column →
        pg.test f.operator (field row column) f.value = true := by
  rw [holds, List.all_eq_true]
  constructor
  · intro h f hf column hcolumn
    exact h _ (List.mem_filterMap.mpr ⟨f, hf, by rw [hcolumn, Option.map_some]⟩)
  · intro h g hg
    obtain ⟨f, hf, hmap⟩ := List.mem_filterMap.mp hg
    obtain ⟨column, hcolumn, rfl⟩ := Option.map_eq_some_iff.mp hmap
    exact h f hf column hcolumn

/-- Where every filtered field shows its column, both see the same. -/
theorem holds_eq_shows (h : ∀ f ∈ filters, ∃ column, Plain schema f.field column) (row : Row) :
    holds pg (filters.filterMap fun f => ((buildColumnMap schema).lookup f.field).map fun column => { f with field := column })
        row = shows pg filters (instanceOf py schema t row) := by
  have hcell : ∀ f ∈ filters, ∀ column, (buildColumnMap schema).lookup f.field = some column →
      field (instanceOf py schema t row) f.field = field row column := by
    intro f hf column hcolumn
    obtain ⟨c, hplain⟩ := h f hf
    obtain rfl := Option.some.inj (hplain.stands.symm.trans hcolumn)
    rw [field, instanceOf, hplain.lookup_toInstance row, Option.getD_some]
  rw [Bool.eq_iff_iff, holds_translated, shows, List.all_eq_true]
  constructor
  · intro hall f hf
    obtain ⟨column, hplain⟩ := h f hf
    rw [hcell f hf column hplain.stands]
    exact hall f hf column hplain.stands
  · intro hall f hf column hcolumn
    rw [← hcell f hf column hcolumn]
    exact hall f hf

/-- The rows that a page is taken from. -/
theorem holds_of_selectRows {columns : List String} {sort : List SortSpec} {offset limit : ℕ}
    (h : row ∈ selectRows pg t columns fs sort offset limit) : row ∈ t.rows ∧ holds pg fs row = true := by
  have hmem := List.mem_of_mem_drop (List.mem_of_mem_take h)
  rw [List.mem_insertionSort] at hmem
  exact List.mem_filter.mp hmem

/-- Nothing is found, and nothing would pass. -/
theorem nothing_passes (hstrict : pg.Strict) (h : ∃ f ∈ filters, ComparesNull schema f) :
    (∀ row, holds pg (filters.filterMap fun f =>
      ((buildColumnMap schema).lookup f.field).map fun column => { f with field := column }) row = false) ∧
    ∀ inst, shows pg filters inst = false := by
  obtain ⟨f, hf, hnull, hop, hkey⟩ := h
  obtain ⟨column, hcolumn⟩ := Assoc.exists_lookup_of_mem hkey
  refine ⟨fun row => Bool.eq_false_iff.mpr fun hholds => ?_, fun inst => Bool.eq_false_iff.mpr fun hshows => ?_⟩
  · have htest := holds_translated row |>.mp hholds f hf column hcolumn
    rw [hnull, hstrict.value _ _ hop] at htest
    cases htest
  · have htest := List.all_eq_true.mp hshows f hf
    rw [hnull, hstrict.value _ _ hop] at htest
    cases htest

/-- Without a masked field the query is answered, over rows on which the statement's filters and the reported values
agree. -/
theorem honours_of_agree (hagree : ∀ pg : Postgres, pg.Strict → ∀ py t row,
      holds pg (filters.filterMap fun f => ((buildColumnMap schema).lookup f.field).map fun column =>
        { f with field := column }) row = shows pg filters (instanceOf py schema t row)) :
    HonoursFilters schema filters := by
  intro pg hstrict py sources s typeRid tenantId t sort offset limit page htable hquery
  obtain ⟨t', fs, ss, htable', -, hfs, -, rfl⟩ := queryInstances_ok_iff.mp hquery
  obtain rfl := Option.some.inj (htable.symm.trans htable')
  by_cases hmasked : ∃ f ∈ filters, f.field ∈ maskedFields schema
  · exact absurd hfs (translateFilters_masked hmasked)
  · push_neg at hmasked
    obtain rfl := Except.ok.inj ((translateFilters_unmasked hmasked).symm.trans hfs)
    constructor
    · intro inst hinst
      obtain ⟨row, hrow, rfl⟩ := List.mem_map.mp hinst
      rw [← hagree pg hstrict]
      exact (holds_of_selectRows hrow).2
    · exact congrArg List.length (List.filter_congr fun row _ => hagree pg hstrict py t row)

/-! ## Fields that are not reported from their column -/

theorem lookup_computed {fields : Assoc String} {name : String} (h : name ∈ fields.keys) (row : Row) :
    (applyVirtualFields .plain row fields).lookup name = some .null := by
  unfold applyVirtualFields
  induction fields generalizing row with
  | nil => cases h
  | cons e fields ih =>
    rw [List.foldl_cons]
    by_cases hrest : name ∈ Assoc.keys fields
    · exact ih hrest _
    · have hname : name = e.1 := (List.mem_cons.mp h).resolve_right hrest
      have hkept := @lookup_applyVirtualFields .plain _ _ hrest (row.set e.1 (evaluateExpression .plain e.2 row))
      unfold applyVirtualFields at hkept
      rw [hkept, Assoc.lookup_set, if_pos hname]
      rfl

theorem field_unreported {name : String} (hunmasked : name ∉ maskedFields schema)
    (h : ¬ ∃ column, Plain schema name column) (hcolumns : t.columns = (buildColumnMap schema).values) (row : Row) :
    field (instanceOf .plain schema t row) name = .null := by
  have hrule : (buildMaskingRules schema.propertyTypes).lookup name = none := Assoc.lookup_eq_none_of_notMem hunmasked
  have hshown : (instanceOf .plain schema t row).lookup name =
      (applyVirtualFields .plain (mapped schema t row) schema.virtualFields).lookup name := by
    have hmask := @lookup_applyMasking .plain _ (nodup_maskingRules schema)
      (applyVirtualFields .plain (mapped schema t row) schema.virtualFields) name
    rw [hrule] at hmask
    exact hmask.trans Option.map_id'
  by_cases hstored : name ∈ schema.virtualFields.keys
  · rw [field, hshown, lookup_computed hstored, Option.getD_some]
  · rw [field, hshown, lookup_applyVirtualFields hstored, Assoc.lookup_eq_none_of_notMem, Option.getD_none]
    rw [keys_mapped]
    intro hbase
    obtain ⟨hcolumn, hname⟩ := nameOf_columnOf hbase
    have hvalue : columnOf schema name ∈ (buildColumnMap schema).values := by
      unfold selectList at hcolumn
      rwa [hcolumns, ite_self] at hcolumn
    have hstands := columnMap_nameOf hvalue
    rw [hname] at hstands
    exact h ⟨_, hstands, hname, hstored, hrule⟩

/-- A database in which all values are alike. -/
def Postgres.blind : Postgres where
  test op x v := x ≠ .null ∧ (op = .contains ∨ v ≠ .null)
  le _ _ := true

theorem Postgres.blind_strict : Postgres.blind.Strict := by
  constructor
  · intro op v
    simp [Postgres.blind]
  · intro op x hop
    simp [Postgres.blind, hop]

theorem plain_of_honours (h : HonoursFilters schema filters) (hread : ¬ Unreadable schema)
    (hunmasked : ∀ f ∈ filters, f.field ∉ maskedFields schema) (hnull : ¬ ∃ f ∈ filters, ComparesNull schema f) :
    ∀ f ∈ filters, ∃ column, Plain schema f.field column := by
  intro f hf
  by_contra hplain
  let row : Row := (buildColumnMap schema).values.map fun c => (c, .bool true)
  let t : Table := ⟨(buildColumnMap schema).values, [row]⟩
  have hholds : holds Postgres.blind (filters.filterMap fun f =>
      ((buildColumnMap schema).lookup f.field).map fun column => { f with field := column }) row = true := by
    refine (holds_translated row).mpr fun g hg column hcolumn => ?_
    have hcell : field row column = .bool true := by
      rw [field, Assoc.lookup_map_self _ (mem_values_of_lookup hcolumn), Option.getD_some]
    have hvalue : g.operator = .contains ∨ g.value ≠ .null := by
      by_contra hbad
      push_neg at hbad
      exact hnull ⟨g, hg, hbad.2, hbad.1, Assoc.mem_keys_of_lookup hcolumn⟩
    rw [hcell]
    simpa [Postgres.blind] using hvalue
  have hsilent : shows Postgres.blind filters (instanceOf .plain schema t row) = false := by
    refine Bool.eq_false_iff.mpr fun hshows => ?_
    have htest := List.all_eq_true.mp hshows f hf
    rw [field_unreported (hunmasked f hf) hplain rfl, Postgres.blind_strict.cell] at htest
    cases htest
  have hquery : queryInstances .blind .plain (fun _ _ => some t) (serviceOf schema) schema "" "" filters [] 0 1 = .ok _ :=
    queryInstances_ok_iff.mpr ⟨t, _, [], tableOf_serviceOf hread t "" "", readable_of_columns hread fun c hc => hc,
      translateFilters_unmasked hunmasked, rfl, rfl⟩
  obtain ⟨-, htotal⟩ := h _ Postgres.blind_strict _ _ _ _ _ t [] 0 1 _ (tableOf_serviceOf hread t "" "") hquery
  dsimp only [t] at htotal
  rw [List.filter_cons_of_pos hholds, List.filter_cons_of_neg (by rw [hsilent]; decide)] at htotal
  cases htotal

end Filters

/-- Never ignored, however the database compares and whatever the expressions compute. -/
theorem honoursFilters_iff (schema : SchemaInfo) (filters : List Filter) :
    HonoursFilters schema filters ↔
      Unreadable schema ∨ (∃ f ∈ filters, f.field ∈ maskedFields schema) ∨ (∃ f ∈ filters, ComparesNull schema f) ∨
        ∀ f ∈ filters, ∃ column, Plain schema f.field column := by
  constructor
  · intro h
    by_cases hread : Unreadable schema
    · exact .inl hread
    by_cases hmasked : ∃ f ∈ filters, f.field ∈ maskedFields schema
    · exact .inr (.inl hmasked)
    by_cases hnull : ∃ f ∈ filters, ComparesNull schema f
    · exact .inr (.inr (.inl hnull))
    push_neg at hmasked
    exact .inr (.inr (.inr (plain_of_honours h hread hmasked hnull)))
  · rintro (hread | hmasked | hnull | hplain)
    · intro pg _ py sources s typeRid tenantId t sort offset limit page _ hquery
      obtain ⟨t', -, -, -, hreadable, -⟩ := queryInstances_ok_iff.mp hquery
      exact absurd hreadable hread.not_readable
    · intro pg _ py sources s typeRid tenantId t sort offset limit page _ hquery
      obtain ⟨-, fs, -, -, -, hfs, -⟩ := queryInstances_ok_iff.mp hquery
      exact absurd hfs (translateFilters_masked hmasked)
    · refine honours_of_agree fun pg hstrict py t row => ?_
      obtain ⟨hholds, hshows⟩ := nothing_passes hstrict hnull
      rw [hholds, hshows]
    · exact honours_of_agree fun pg _ py t row => holds_eq_shows hplain row

/-- A filter on a name that no property has. -/
theorem ghost_filter_ignored :
    queryInstances .plain .plain (fun _ _ => some ⟨["id"], [[("id", .int 1)]]⟩) (serviceOf robots) robots "ri.obj.1" "t"
        [⟨"ghost", .eq, .int 2⟩] [] 0 10 = .ok { rows := [[("id", .int 1)]], total := 1, columns := ["id"] } ∧
      ¬ HonoursFilters robots [⟨"ghost", .eq, .int 2⟩] := by
  refine ⟨by decide, fun h => ?_⟩
  have hread : ¬ Unreadable robots := by
    unfold Unreadable
    decide
  have hnull : ¬ ∃ f ∈ [(⟨"ghost", .eq, .int 2⟩ : Filter)], ComparesNull robots f := by
    unfold ComparesNull
    decide
  obtain ⟨column, hplain⟩ := plain_of_honours h hread (by decide) hnull _ List.mem_cons_self
  have hnone : (buildColumnMap robots).lookup "ghost" = none := by decide
  cases hnone.symm.trans hplain.stands

end Lingshu.Data
