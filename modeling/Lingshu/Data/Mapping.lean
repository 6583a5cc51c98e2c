import Lingshu.Data.Instances
import Mathlib.Data.List.Forall2

/-! # Columns and properties

What the engine's rows show under the names of the properties. `reverse_map` has one name for a column: of two
properties with one column the later takes the value, and the earlier is lost. -/
namespace Lingshu.Data
open Json
set_option autoImplicit false

/-- Some property has this name and this column. -/
def Declares (schema : SchemaInfo) (name column : String) : Prop :=
  ∃ pt ∈ schema.propertyTypes, pt.apiName = name ∧ nonempty pt.physicalColumn = some column

/-- What is built from a row of the table: every property with a column has the value of its column, and nothing else
stands under the name of a property. -/
structure Maps (schema : SchemaInfo) (t : Table) (row built : Row) : Prop where
  kept : ∀ name column, Declares schema name column → column ∈ t.columns → built.lookup name = some (field row column)
  own : ∀ pt ∈ schema.propertyTypes, ∀ v, built.lookup pt.apiName = some v →
    ∃ column ∈ t.columns, Declares schema pt.apiName column ∧ v = field row column

/-- Every row that the engine builds from a table with the columns. -/
structure MapsAll (pg : Postgres) (schema : SchemaInfo) (columns : List String) : Prop where
  pages : ∀ tables path t, tables path = some t → t.columns = columns → ∀ filters sort offset limit fs ss page,
    translateFilters schema filters = .ok fs → translateSort schema sort = .ok ss →
    QueryEngine.queryInstances pg tables schema path filters sort offset limit = .ok page →
    List.Forall₂ (Maps schema t) (selectRows pg t (buildColumnMap schema).values fs ss offset limit) page.rows
  single : ∀ tables path t, tables path = some t → t.columns = columns → ∀ primaryKey built,
    QueryEngine.getInstance pg tables schema path primaryKey = .ok (some built) →
    ∃ row, rowOf pg t (physicalPk (buildColumnMap schema) primaryKey) = some row ∧ Maps schema t row built

/-- Names and columns of the properties determine each other; without a mapped column, `*` brings up no column under
the name of a property. -/
structure Separate (schema : SchemaInfo) (columns : List String) : Prop where
  paired : ∀ n c n' c', Declares schema n c → Declares schema n' c' → c ∈ columns → c' ∈ columns → (n = n' ↔ c = c')
  unnamed : (∀ n c, ¬ Declares schema n c) → ∀ pt ∈ schema.propertyTypes, pt.apiName ∉ columns

section Columns
variable {schema : SchemaInfo} {t : Table} {row : Row} {name column : String}

theorem declares_of_lookup (h : (buildColumnMap schema).lookup name = some column) : Declares schema name column := by
  rw [buildColumnMap, Assoc.lookup_ofEntries] at h
  obtain ⟨pt, hpt, heq⟩ := List.mem_filterMap.mp (List.mem_reverse.mp (Assoc.mem_of_lookup h))
  obtain ⟨c, hc, heq⟩ := Option.map_eq_some_iff.mp heq
  obtain ⟨rfl, rfl⟩ := Prod.mk.inj heq
  exact ⟨pt, hpt, rfl, hc⟩

theorem lookup_of_declares (h : Declares schema name column) : ∃ c, (buildColumnMap schema).lookup name = some c := by
  obtain ⟨pt, hpt, rfl, hc⟩ := h
  refine Assoc.exists_lookup_of_mem ?_
  rw [buildColumnMap, Assoc.keys_ofEntries, Assoc.mem_keysOf]
  exact List.mem_map.mpr ⟨_, List.mem_filterMap.mpr ⟨pt, hpt, by rw [hc, Option.map_some]⟩, rfl⟩

theorem mem_values_of_lookup {colMap : Assoc String} (h : colMap.lookup name = some column) : column ∈ colMap.values :=
  List.mem_map.mpr ⟨(name, column), Assoc.mem_of_lookup h, rfl⟩

/-- A name of the built row is the name of one of the columns that were asked for. -/
theorem nameOf_columnOf (h : name ∈ baseNames schema t) :
    columnOf schema name ∈ selectList t (buildColumnMap schema).values ∧ nameOf schema (columnOf schema name) = name := by
  obtain ⟨c, hc, rfl⟩ := List.mem_map.mp (Assoc.mem_keysOf.mp h)
  have hc := Assoc.mem_keysOf.mp hc
  rw [columnOf_nameOf hc]
  exact ⟨hc, rfl⟩

theorem selectList_of_mapped (h : column ∈ (buildColumnMap schema).values) :
    selectList t (buildColumnMap schema).values = (buildColumnMap schema).values := by
  rw [selectList, if_neg (List.ne_nil_of_mem h)]

theorem mem_baseNames_of_mapped (h : column ∈ (buildColumnMap schema).values) : nameOf schema column ∈ baseNames schema t := by
  refine Assoc.mem_keysOf.mpr (List.mem_map.mpr ⟨column, Assoc.mem_keysOf.mpr ?_, rfl⟩)
  rwa [selectList_of_mapped h]

theorem maps_mapped {path : String} (hselect : Selectable schema path t) (h : Separate schema t.columns) (row : Row) :
    Maps schema t row (mapped schema t row) := by
  constructor
  · intro n c hdeclares hc
    obtain ⟨c', hlookup⟩ := lookup_of_declares hdeclares
    have hvalue := mem_values_of_lookup hlookup
    obtain rfl : c = c' := (h.paired n c n c' hdeclares (declares_of_lookup hlookup) hc
      (hselect.columns c' hvalue).2).mp rfl
    have hname : nameOf schema c = n := (h.paired _ c n c (declares_of_lookup (columnMap_nameOf hvalue)) hdeclares hc
      hc).mpr rfl
    have hbase := mem_baseNames_of_mapped (t := t) hvalue
    rw [hname] at hbase
    rw [lookup_mapped hbase, columnOf, hlookup, Option.getD_some]
  · intro pt hpt v hv
    have hbase : pt.apiName ∈ baseNames schema t := by
      rw [← keys_mapped schema t row]
      exact Assoc.mem_keys_of_lookup hv
    rw [lookup_mapped hbase] at hv
    obtain ⟨hcolumn, hname⟩ := nameOf_columnOf hbase
    cases hlookup : (buildColumnMap schema).lookup pt.apiName with
    | some c =>
      refine ⟨c, (hselect.columns c (mem_values_of_lookup hlookup)).2, declares_of_lookup hlookup, ?_⟩
      rw [columnOf, hlookup, Option.getD_some] at hv
      exact (Option.some.inj hv).symm
    | none =>
      rw [columnOf, hlookup, Option.getD_none] at hcolumn hname
      unfold selectList at hcolumn
      split at hcolumn
      next hnil =>
        refine absurd hcolumn (h.unnamed (fun n c hdeclares => ?_) pt hpt)
        obtain ⟨c', hlookup'⟩ := lookup_of_declares hdeclares
        exact List.ne_nil_of_mem (mem_values_of_lookup hlookup') hnil
      next =>
        have hmapped := columnMap_nameOf hcolumn
        rw [hname, hlookup] at hmapped
        cases hmapped

theorem field_oneCell {c : String} {v : Value} (hv : v ≠ .null) (h : field [(column, v)] c = v) : c = column := by
  unfold field at h
  rw [Assoc.lookup_cons] at h
  split at h
  next heq => exact heq
  next => exact absurd h.symm hv

/-- Every row of a table is built from by some page. -/
theorem MapsAll.maps {pg : Postgres} (h : MapsAll pg schema t.columns)
    (hselect : ∀ c ∈ (buildColumnMap schema).values, safeIdentifier c ∧ c ∈ t.columns) (row : Row) :
    Maps schema { t with rows := [row] } row (mapped schema t row) := by
  have hpage := h.pages (fun _ => some { t with rows := [row] }) "t" _ rfl rfl [] [] 0 1 [] [] _ rfl rfl
    (QueryEngine.queryInstances_ok_iff.mpr ⟨_, [], [], rfl, ⟨by decide, hselect⟩, rfl, rfl, rfl⟩)
  exact (List.forall₂_cons.mp hpage).1

theorem separate_of_mapsAll {pg : Postgres} (h : MapsAll pg schema t.columns)
    (hselect : ∀ c ∈ (buildColumnMap schema).values, safeIdentifier c ∧ c ∈ t.columns) : Separate schema t.columns := by
  have hkept : ∀ n c, Declares schema n c → c ∈ t.columns → ∀ row,
      (mapped schema t row).lookup n = some (field row c) :=
    fun n c hdeclares hc row => (h.maps hselect row).kept n c hdeclares hc
  have hname : ∀ n c, Declares schema n c → c ∈ t.columns → nameOf schema c = n := by
    intro n c hdeclares hc
    have hcell := hkept n c hdeclares hc [(c, .str c)]
    have hbase : n ∈ baseNames schema t := by
      rw [← keys_mapped schema t [(c, .str c)]]
      exact Assoc.mem_keys_of_lookup hcell
    obtain ⟨-, hback⟩ := nameOf_columnOf hbase
    rw [lookup_mapped hbase] at hcell
    have hcolumn := field_oneCell (v := .str c) nofun ((Option.some.inj hcell).trans (by simp [field]))
    rwa [hcolumn] at hback
  constructor
  · intro n c n' c' hn hn' hc hc'
    constructor
    · rintro rfl
      have hcell := hkept n c hn hc [(c', .str c')]
      rw [hkept n c' hn' hc' [(c', .str c')]] at hcell
      exact field_oneCell (v := .str c') nofun ((Option.some.inj hcell).symm.trans (by simp [field]))
    · rintro rfl
      rw [← hname n c hn hc, hname n' c hn' hc]
  · intro hnone pt hpt hmem
    have hmap : buildColumnMap schema = [] := by
      refine List.eq_nil_iff_forall_not_mem.mpr fun e he => hnone e.1 e.2 (declares_of_lookup ?_)
      exact Assoc.lookup_of_mem (nodup_columnMap schema) he
    have hbase : pt.apiName ∈ baseNames schema t := by
      refine Assoc.mem_keysOf.mpr (List.mem_map.mpr ⟨pt.apiName, Assoc.mem_keysOf.mpr ?_, ?_⟩)
      · rwa [hmap]
      · rw [nameOf, hmap]
        rfl
    obtain ⟨c, -, hdeclares, -⟩ := (h.maps hselect []).own pt hpt _ (lookup_mapped hbase [])
    exact hnone _ _ hdeclares

end Columns

/-- No row is built where a column is refused. -/
theorem mapsAll_iff (pg : Postgres) (schema : SchemaInfo) (columns : List String) :
    MapsAll pg schema columns ↔
      (∃ c ∈ (buildColumnMap schema).values, ¬(safeIdentifier c ∧ c ∈ columns)) ∨ Separate schema columns := by
  constructor
  · intro h
    by_cases hselect : ∀ c ∈ (buildColumnMap schema).values, safeIdentifier c ∧ c ∈ columns
    · exact .inr (separate_of_mapsAll (t := ⟨columns, []⟩) h hselect)
    · push_neg at hselect
      obtain ⟨c, hc, hbad⟩ := hselect
      exact .inl ⟨c, hc, fun hgood => hbad hgood.1 hgood.2⟩
  · intro h
    have hmaps : ∀ {path t}, t.columns = columns → Selectable schema path t → ∀ row,
        Maps schema t row (mapped schema t row) := by
      rintro path t rfl hselect row
      rcases h with ⟨c, hc, hbad⟩ | h
      · exact absurd (hselect.columns c hc) hbad
      · exact maps_mapped hselect h row
    constructor
    · intro tables path t htable hcolumns filters sort offset limit fs ss page hfs hss hpage
      obtain ⟨t', fs', ss', htable', hselect, hfs', hss', rfl⟩ := QueryEngine.queryInstances_ok_iff.mp hpage
      obtain rfl := Option.some.inj (htable.symm.trans htable')
      obtain rfl := Except.ok.inj (hfs.symm.trans hfs')
      obtain rfl := Except.ok.inj (hss.symm.trans hss')
      exact List.forall₂_map_right_iff.mpr (List.forall₂_same.mpr fun row _ => hmaps hcolumns hselect row)
    · intro tables path t htable hcolumns primaryKey built hget
      obtain ⟨-, t', htable', hselect, hrow⟩ := QueryEngine.getInstance_ok_iff.mp hget
      obtain rfl := Option.some.inj (htable.symm.trans htable')
      obtain ⟨row, hfound, rfl⟩ := Option.map_eq_some_iff.mp hrow
      exact ⟨row, hfound, hmaps hcolumns hselect row⟩

/-- Two properties of one column. -/
def sharedColumn : SchemaInfo where
  propertyTypes := [{ apiName := "a", physicalColumn := some "c" }, { apiName := "b", physicalColumn := some "c" }]
  assetMapping := none
  virtualFields := []

theorem shared_column_lost :
    QueryEngine.queryInstances Postgres.plain (fun _ => some ⟨["c"], [[("c", .int 1)]]⟩) sharedColumn "t" [] [] 0 10 =
        .ok { rows := [[("b", .int 1)]], total := 1, columns := ["a", "b"] } ∧
      ¬ MapsAll Postgres.plain sharedColumn ["c"] := by
  refine ⟨rfl, fun h => ?_⟩
  have hlost := (h.maps (t := ⟨["c"], []⟩) (by decide) []).kept "a" "c" ⟨_, List.mem_cons_self, rfl, rfl⟩ (by decide)
  exact absurd hlost (by decide)

end Lingshu.Data
