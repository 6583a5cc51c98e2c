import Lingshu.Data.Reads

/-! # What an instance shows

The steps from a row of the table to an instance, name by name: the columns under the names of their properties,
the computed fields, the masks. -/
namespace Lingshu.Data
open Json
set_option autoImplicit false

variable {py : Python} {schema : SchemaInfo} {t : Table} {row : Row} {name column : String}

/-! ## Columns under their names -/

/-- The name under which a column comes back. -/
def nameOf (schema : SchemaInfo) (column : String) : String :=
  ((reverseMap (buildColumnMap schema)).lookup column).getD column

theorem nodup_columnMap (schema : SchemaInfo) : (buildColumnMap schema).keys.Nodup := Assoc.nodup_keys_ofEntries _

theorem nodup_maskingRules (schema : SchemaInfo) : (buildMaskingRules schema.propertyTypes).keys.Nodup :=
  Assoc.nodup_keys_ofEntries _

/-- A column comes back under a name that it is mapped from. -/
theorem columnMap_nameOf (h : column ∈ (buildColumnMap schema).values) :
    (buildColumnMap schema).lookup (nameOf schema column) = some column := by
  obtain ⟨⟨n, c⟩, hmem, rfl⟩ := List.mem_map.mp h
  unfold nameOf
  rw [reverseMap, Assoc.lookup_ofEntries]
  cases hlookup : (((buildColumnMap schema).map fun e => (e.2, e.1)).reverse).lookup c with
  | none =>
    have hnone := List.lookup_eq_none_iff.mp hlookup (c, n)
      (List.mem_reverse.mpr (List.mem_map.mpr ⟨(n, c), hmem, rfl⟩))
    simp at hnone
  | some n' =>
    obtain ⟨e, he, heq⟩ := List.mem_map.mp (List.mem_reverse.mp (Assoc.mem_of_lookup hlookup))
    obtain ⟨rfl, rfl⟩ := Prod.mk.inj heq
    exact Assoc.lookup_of_mem (nodup_columnMap schema) he

/-- The names of an instance before anything is computed. -/
def baseNames (schema : SchemaInfo) (t : Table) : List String :=
  Assoc.keysOf ((Assoc.keysOf (selectList t (buildColumnMap schema).values)).map (nameOf schema))

/-- The column that a name stands for. -/
def columnOf (schema : SchemaInfo) (name : String) : String := ((buildColumnMap schema).lookup name).getD name

theorem columnOf_nameOf (h : column ∈ selectList t (buildColumnMap schema).values) :
    columnOf schema (nameOf schema column) = column := by
  unfold selectList at h
  split at h
  next hnil =>
    have hmap : buildColumnMap schema = [] := List.map_eq_nil_iff.mp hnil
    unfold columnOf nameOf
    rw [hmap]
    rfl
  next => rw [columnOf, columnMap_nameOf h, Option.getD_some]

/-- The mapped row, before anything is computed. -/
def mapped (schema : SchemaInfo) (t : Table) (row : Row) : Row :=
  mapBack (buildColumnMap schema) (project (selectList t (buildColumnMap schema).values) row)

theorem mapped_eq (schema : SchemaInfo) (t : Table) (row : Row) :
    mapped schema t row = (baseNames schema t).map fun n => (n, field row (columnOf schema n)) := by
  unfold mapped mapBack project
  rw [Assoc.ofEntries_map, List.map_map]
  have hnames : ((Assoc.keysOf (selectList t (buildColumnMap schema).values)).map
        ((fun e => (((reverseMap (buildColumnMap schema)).lookup e.1).getD e.1, e.2)) ∘ fun c => (c, field row c))) =
      ((Assoc.keysOf (selectList t (buildColumnMap schema).values)).map (nameOf schema)).map
        fun n => (n, field row (columnOf schema n)) := by
    rw [List.map_map]
    refine List.map_congr_left fun c hc => ?_
    have hcolumn := columnOf_nameOf (Assoc.mem_keysOf.mp hc)
    rw [Function.comp_apply, Function.comp_apply, hcolumn]
    rfl
  rw [hnames, Assoc.ofEntries_map]
  rfl

theorem keys_mapped (schema : SchemaInfo) (t : Table) (row : Row) : (mapped schema t row).keys = baseNames schema t := by
  rw [mapped_eq]
  exact Assoc.keys_map_self _ _

theorem lookup_mapped (h : name ∈ baseNames schema t) (row : Row) :
    (mapped schema t row).lookup name = some (field row (columnOf schema name)) := by
  rw [mapped_eq]
  exact Assoc.lookup_map_self _ h

/-! ## Computed fields -/

theorem keys_applyVirtualFields (row row' : Row) (fields : Assoc String) (h : row.keys = row'.keys) :
    (applyVirtualFields py row fields).keys = (applyVirtualFields py row' fields).keys := by
  unfold applyVirtualFields
  induction fields generalizing row row' with
  | nil => exact h
  | cons e fields ih =>
    refine ih _ _ ?_
    rw [Assoc.keys_set, Assoc.keys_set, h]

theorem nodup_set {α : Type} {d : Assoc α} (h : d.keys.Nodup) (key : String) (v : α) : (d.set key v).keys.Nodup := by
  rw [Assoc.keys_set]
  split
  · exact h
  next hnew =>
    refine List.nodup_append.mpr ⟨h, List.nodup_singleton _, fun a ha b hb hab => ?_⟩
    obtain rfl := hab.trans (List.mem_singleton.mp hb)
    exact hnew ha

theorem nodup_applyVirtualFields {row : Row} (h : row.keys.Nodup) (fields : Assoc String) :
    (applyVirtualFields py row fields).keys.Nodup := by
  unfold applyVirtualFields
  induction fields generalizing row with
  | nil => exact h
  | cons e fields ih => exact ih (nodup_set h _ _)

theorem lookup_applyVirtualFields {fields : Assoc String} (h : name ∉ fields.keys) (row : Row) :
    (applyVirtualFields py row fields).lookup name = row.lookup name := by
  unfold applyVirtualFields
  induction fields generalizing row with
  | nil => rfl
  | cons e fields ih =>
    have hne : name ≠ e.1 := fun heq => h (heq ▸ List.mem_cons_self)
    have hrest : name ∉ Assoc.keys fields := fun hmem => h (List.mem_cons_of_mem _ hmem)
    rw [List.foldl_cons, ih hrest, Assoc.lookup_set, if_neg hne]

/-! ## Masks -/

theorem keys_applyMasking (row : Row) (rules : Assoc String) : (applyMasking py row rules).keys = row.keys := by
  unfold applyMasking
  induction rules generalizing row with
  | nil => rfl
  | cons e rules ih =>
    rw [List.foldl_cons, ih]
    split
    next v hv => rw [Assoc.keys_set, if_pos (Assoc.mem_keys_of_lookup hv)]
    next => rfl

/-- Each field is masked by the rule under its name. -/
theorem lookup_applyMasking {rules : Assoc String} (hnodup : rules.keys.Nodup) (row : Row) (name : String) :
    (applyMasking py row rules).lookup name =
      (row.lookup name).map fun v => ((rules.lookup name).map (maskValue py v)).getD v := by
  unfold applyMasking
  induction rules generalizing row with
  | nil =>
    rw [List.foldl_nil]
    cases row.lookup name <;> rfl
  | cons e rules ih =>
    obtain ⟨hnew, hrest⟩ := List.nodup_cons.mp hnodup
    rw [List.foldl_cons, ih hrest, Assoc.lookup_cons]
    by_cases hname : name = e.1
    · have hnone : rules.lookup name = none := by
        rw [List.lookup_eq_none_iff]
        intro e' he'
        have hne : e'.1 ≠ e.1 := fun heq => hnew (heq ▸ List.mem_map_of_mem he')
        simp [hname, Ne.symm hne]
      rw [if_pos hname, hnone, ← hname]
      cases hv : row.lookup name with
      | none => simp [hv]
      | some v => simp [Assoc.lookup_set]
    · rw [if_neg hname]
      cases hv : row.lookup e.1 with
      | none => rfl
      | some v =>
        dsimp only
        rw [Assoc.lookup_set, if_neg hname]

/-! ## Fields that are shown as they are -/

/-- The name stands for the column, and for nothing computed; it is not masked. -/
structure Plain (schema : SchemaInfo) (name column : String) : Prop where
  stands : (buildColumnMap schema).lookup name = some column
  named : nameOf schema column = name
  stored : name ∉ schema.virtualFields.keys
  unmasked : (buildMaskingRules schema.propertyTypes).lookup name = none

theorem Plain.mem_baseNames (h : Plain schema name column) : name ∈ baseNames schema t := by
  refine Assoc.mem_keysOf.mpr (List.mem_map.mpr ⟨column, Assoc.mem_keysOf.mpr ?_, h.named⟩)
  have hmem : column ∈ (buildColumnMap schema).values := List.mem_map.mpr ⟨(name, column), Assoc.mem_of_lookup h.stands, rfl⟩
  unfold selectList
  rw [if_neg (List.ne_nil_of_mem hmem)]
  exact hmem

/-- An instance shows the cell of such a column. -/
theorem Plain.lookup_toInstance (h : Plain schema name column) (row : Row) :
    (toInstance py schema (project (selectList t (buildColumnMap schema).values) row)).lookup name =
      some (field row column) := by
  have hcell := lookup_mapped (h.mem_baseNames (t := t)) row
  rw [columnOf, h.stands, Option.getD_some] at hcell
  rw [toInstance, lookup_applyMasking (nodup_maskingRules schema), lookup_applyVirtualFields h.stored, h.unmasked]
  rw [Data.mapped] at hcell
  rw [hcell]
  rfl

/-! ## What the reads return -/

/-- The instance that a row of the table becomes. -/
def instanceOf (py : Python) (schema : SchemaInfo) (t : Table) (row : Row) : Row :=
  toInstance py schema (project (selectList t (buildColumnMap schema).values) row)

/-- What the service makes of a row of the engine. -/
def present (py : Python) (schema : SchemaInfo) (row : Row) : Row :=
  applyMasking py (applyVirtualFields py row schema.virtualFields) (buildMaskingRules schema.propertyTypes)

namespace QueryEngine

/-- `QueryEngine.query_instances`, over the tables of a connector. -/
def queryInstances (pg : Postgres) (tables : String → Option Table) (schema : SchemaInfo) (tablePath : String)
    (filters : List Filter) (sort : List SortSpec) (offset limit : ℕ) : Except ReadError QueryResult := do
  let colMap := buildColumnMap schema
  let translatedFilters ← translateFilters schema filters
  let translatedSort ← translateSort schema sort
  let result ← executeQuery pg tables tablePath colMap.values translatedFilters translatedSort offset limit
  return {
    rows := result.rows.map (mapBack colMap)
    total := result.total
    columns := colMap.keys }

/-- `QueryEngine.get_instance`. -/
def getInstance (pg : Postgres) (tables : String → Option Table) (schema : SchemaInfo) (tablePath : String)
    (primaryKey : Assoc Value) : Except ReadError (Option Row) := do
  let colMap := buildColumnMap schema
  let row ← getRow pg tables tablePath (physicalPk colMap primaryKey) colMap.values
  match row with
  | some (e :: row) => return some (mapBack colMap (e :: row))
  | _ => return none

end QueryEngine

/-- The table that the reads of a type go to. -/
def tableOf (sources : Sources) (s : DataState) (schema : SchemaInfo) (typeRid tenantId : String) : Option Table :=
  match s.readConnector typeRid tenantId schema.assetMapping with
  | .ok connector => sources connector (schema.assetMapping.getD {}).readAssetPath
  | .error _ => none

/-- The engine's statements are well formed for the table. -/
structure Selectable (schema : SchemaInfo) (tablePath : String) (t : Table) : Prop where
  path : safeIdentifier tablePath
  columns : ∀ c ∈ (buildColumnMap schema).values, safeIdentifier c ∧ c ∈ t.columns

/-- The statements of the reads are well formed for the table. -/
structure Readable (schema : SchemaInfo) (t : Table) : Prop where
  path : safeIdentifier (schema.assetMapping.getD {}).readAssetPath
  columns : ∀ c ∈ (buildColumnMap schema).values, safeIdentifier c ∧ c ∈ t.columns

theorem validateIdentifiers_ok_iff {label : String} {names : List String} {u : Unit} :
    validateIdentifiers label names = .ok u ↔ ∀ name ∈ names, safeIdentifier name := by
  cases u
  unfold validateIdentifiers
  cases h : names.find? fun name => !safeIdentifier name with
  | none => simpa using h
  | some name =>
    have hbad := List.find?_some h
    have hmem := List.mem_of_find?_eq_some h
    constructor
    · intro hok
      cases hok
    · intro hall
      rw [hall name hmem] at hbad
      cases hbad

theorem openTable_ok_iff {tables : String → Option Table} {tablePath : String} {columns : List String} {t : Table} :
    openTable tables tablePath columns = .ok t ↔ tables tablePath = some t ∧ ∀ c ∈ columns, c ∈ t.columns := by
  unfold openTable
  cases h : tables tablePath with
  | none => simp
  | some t' =>
    dsimp only
    split
    next hall =>
      have hall : ∀ c ∈ columns, c ∈ t'.columns := by simpa using hall
      constructor
      · intro hok
        obtain rfl := Except.ok.inj hok
        exact ⟨rfl, hall⟩
      · rintro ⟨hsome, -⟩
        rw [Option.some.inj hsome]
    next hnot =>
      constructor
      · intro hok
        cases hok
      · rintro ⟨hsome, hall⟩
        obtain rfl := Option.some.inj hsome
        exact absurd (by simpa using hall) hnot

theorem keys_subset_values_of_physicalPk {colMap : Assoc String} {primaryKey : Assoc Value} :
    ∀ c ∈ (physicalPk colMap primaryKey).keys, c ∈ colMap.values := by
  intro c hc
  rw [physicalPk, Assoc.keys_ofEntries, Assoc.mem_keysOf] at hc
  obtain ⟨e, he, rfl⟩ := List.mem_map.mp hc
  obtain ⟨k, -, hk⟩ := List.mem_filterMap.mp he
  obtain ⟨column, hcolumn, rfl⟩ := Option.map_eq_some_iff.mp hk
  exact List.mem_map.mpr ⟨(k.1, column), Assoc.mem_of_lookup hcolumn, rfl⟩

section Reads
variable {pg : Postgres} {sources : Sources} {s : DataState} {typeRid tenantId : String}

/-- The service adds to the engine's rows what is computed, and the masks. -/
theorem queryInstances_engine (filters : List Filter) (sort : List SortSpec) (offset limit : ℕ) :
    queryInstances pg py sources s schema typeRid tenantId filters sort offset limit = do
      let connector ← (s.readConnector typeRid tenantId schema.assetMapping).mapError .app
      let page ← QueryEngine.queryInstances pg (sources connector) schema
        (schema.assetMapping.getD {}).readAssetPath filters sort offset limit
      return { page with rows := page.rows.map (present py schema) } := by
  unfold queryInstances QueryEngine.queryInstances
  simp only [bind_assoc, pure_bind, List.map_map]
  rfl

theorem getInstance_engine (primaryKey : Assoc Value) :
    getInstance pg py sources s schema typeRid tenantId primaryKey = do
      let connector ← (s.readConnector typeRid tenantId schema.assetMapping).mapError .app
      let row ← QueryEngine.getInstance pg (sources connector) schema (schema.assetMapping.getD {}).readAssetPath
        primaryKey
      return row.map (present py schema) := by
  unfold getInstance QueryEngine.getInstance
  simp only [bind_assoc]
  refine bind_congr fun connector => bind_congr fun row => ?_
  rcases row with - | (- | ⟨e, es⟩) <;> rfl

/-- When `get_row` returns, and what. -/
theorem getRow_ok_iff {tables : String → Option Table} {tablePath : String} {primaryKey : Row}
    {columns : List String} {found : Option Row} :
    getRow pg tables tablePath primaryKey columns = .ok found ↔
      safeIdentifier tablePath ∧ (∀ c ∈ columns, safeIdentifier c) ∧ (∀ c ∈ primaryKey.keys, safeIdentifier c) ∧
      primaryKey ≠ [] ∧ ∃ t, (tables tablePath = some t ∧ ∀ c ∈ columns ++ primaryKey.keys, c ∈ t.columns) ∧
        (rowOf pg t primaryKey).map (project (selectList t columns)) = found := by
  unfold getRow
  simp only [bind_ok_iff, validateIdentifiers_ok_iff, exists_const, List.forall_mem_singleton]
  by_cases hnil : primaryKey = []
  · simp [hnil]
  · rw [if_neg hnil]
    simp only [bind_ok_iff, openTable_ok_iff, hnil, ne_eq, not_false_eq_true, true_and]
    exact and_congr_right fun _ => and_congr_right fun _ => and_congr_right fun _ => exists_congr fun t =>
      and_congr_right fun _ => ⟨fun h => Except.ok.inj h, fun h => congrArg Except.ok h⟩

theorem project_ne_nil {columns : List String} (h : columns ≠ []) (row : Row) : project columns row ≠ [] := by
  obtain ⟨c, hc⟩ := List.exists_mem_of_ne_nil columns h
  rw [project, Assoc.ofEntries_map]
  exact List.ne_nil_of_mem (List.mem_map_of_mem (Assoc.mem_keysOf.mpr hc))

/-- A key that is looked for has a column, so that columns are selected. -/
theorem selectList_ne_nil {primaryKey : Assoc Value} (h : physicalPk (buildColumnMap schema) primaryKey ≠ [])
    (t : Table) : selectList t (buildColumnMap schema).values ≠ [] := by
  obtain ⟨e, he⟩ := List.exists_mem_of_ne_nil _ h
  have hmem := keys_subset_values_of_physicalPk e.1 (List.mem_map_of_mem he)
  have hne := List.ne_nil_of_mem hmem
  unfold selectList
  rw [if_neg hne]
  exact hne

/-- When `get_instance` of the engine returns, and what. -/
theorem QueryEngine.getInstance_ok_iff {tables : String → Option Table} {tablePath : String} {primaryKey : Assoc Value}
    {found : Option Row} :
    QueryEngine.getInstance pg tables schema tablePath primaryKey = .ok found ↔
      physicalPk (buildColumnMap schema) primaryKey ≠ [] ∧
      ∃ t, tables tablePath = some t ∧ Selectable schema tablePath t ∧
        (rowOf pg t (physicalPk (buildColumnMap schema) primaryKey)).map (mapped schema t) = found := by
  have hkeys : ∀ c ∈ (physicalPk (buildColumnMap schema) primaryKey).keys, c ∈ (buildColumnMap schema).values :=
    keys_subset_values_of_physicalPk
  unfold QueryEngine.getInstance
  simp only [bind_ok_iff]
  constructor
  · rintro ⟨row, hrow, hfound⟩
    obtain ⟨hpath, hcolumns, -, hne, t, ⟨htable, hopen⟩, rfl⟩ := getRow_ok_iff.mp hrow
    refine ⟨hne, t, htable, ⟨hpath, fun c hc => ⟨hcolumns c hc, hopen c (List.mem_append_left _ hc)⟩⟩, ?_⟩
    cases hrow' : rowOf pg t (physicalPk (buildColumnMap schema) primaryKey) with
    | none =>
      rw [hrow'] at hfound
      exact Except.ok.inj hfound
    | some r =>
      have hproject := project_ne_nil (selectList_ne_nil hne t) r
      rw [hrow', Option.map_some] at hfound
      rw [Option.map_some, mapped]
      cases hr : project (selectList t (buildColumnMap schema).values) r with
      | nil => exact absurd hr hproject
      | cons e es =>
        rw [hr] at hfound
        exact Except.ok.inj hfound
  · rintro ⟨hne, t, htable, hselect, rfl⟩
    have hsafe : ∀ c ∈ (physicalPk (buildColumnMap schema) primaryKey).keys, safeIdentifier c :=
      fun c hc => (hselect.columns c (hkeys c hc)).1
    have hopen : ∀ c ∈ (buildColumnMap schema).values ++ (physicalPk (buildColumnMap schema) primaryKey).keys,
        c ∈ t.columns := by
      intro c hc
      rcases List.mem_append.mp hc with hc | hc
      · exact (hselect.columns c hc).2
      · exact (hselect.columns c (hkeys c hc)).2
    refine ⟨_, getRow_ok_iff.mpr ⟨hselect.path, fun c hc => (hselect.columns c hc).1, hsafe, hne,
      t, ⟨htable, hopen⟩, rfl⟩, ?_⟩
    cases hrow' : rowOf pg t (physicalPk (buildColumnMap schema) primaryKey) with
    | none => rfl
    | some r =>
      have hproject := project_ne_nil (selectList_ne_nil hne t) r
      rw [Option.map_some, Option.map_some, mapped]
      cases hr : project (selectList t (buildColumnMap schema).values) r with
      | nil => exact absurd hr hproject
      | cons e es => rfl

/-- When `get_instance` returns, and what. -/
theorem getInstance_ok_iff {primaryKey : Assoc Value} {found : Option Row} :
    getInstance pg py sources s schema typeRid tenantId primaryKey = .ok found ↔
      physicalPk (buildColumnMap schema) primaryKey ≠ [] ∧
      ∃ t, tableOf sources s schema typeRid tenantId = some t ∧ Readable schema t ∧
        (rowOf pg t (physicalPk (buildColumnMap schema) primaryKey)).map (instanceOf py schema t) = found := by
  rw [getInstance_engine]
  unfold tableOf
  cases hconnector : s.readConnector typeRid tenantId schema.assetMapping with
  | error e =>
    constructor
    · intro h
      cases h
    · rintro ⟨-, t, h, -⟩
      cases h
  | ok connector =>
    simp only [bind_ok_iff]
    constructor
    · rintro ⟨c, hc, row, hrow, hfound⟩
      obtain rfl := Except.ok.inj (show Except.ok connector = Except.ok c from hc)
      obtain ⟨hne, t, htable, hselect, rfl⟩ := QueryEngine.getInstance_ok_iff.mp hrow
      refine ⟨hne, t, htable, ⟨hselect.path, hselect.columns⟩, ?_⟩
      rw [← Except.ok.inj hfound, Option.map_map]
      rfl
    · rintro ⟨hne, t, htable, hreadable, rfl⟩
      refine ⟨connector, rfl, _, QueryEngine.getInstance_ok_iff.mpr
        ⟨hne, t, htable, ⟨hreadable.path, hreadable.columns⟩, rfl⟩, ?_⟩
      rw [Option.map_map]
      rfl

/-- What is renamed by the column map has the name of a column. -/
theorem field_of_renamed {α : Type} {field : α → String} {rename : α → String → α} {columns : Assoc String}
    (hrename : ∀ a c, field (rename a c) = c) {items : List α} {a : α}
    (h : a ∈ items.filterMap fun a => (columns.lookup (field a)).map (rename a)) : field a ∈ columns.values := by
  obtain ⟨b, -, hb⟩ := List.mem_filterMap.mp h
  obtain ⟨column, hcolumn, rfl⟩ := Option.map_eq_some_iff.mp hb
  rw [hrename]
  exact List.mem_map.mpr ⟨(field b, column), Assoc.mem_of_lookup hcolumn, rfl⟩

theorem translateFilters_fields {filters translated : List Filter}
    (h : translateFilters schema filters = .ok translated) :
    ∀ f ∈ translated, f.field ∈ (buildColumnMap schema).values := by
  unfold translateFilters at h
  split at h
  · cases h
  · obtain rfl := Except.ok.inj h
    exact fun f hf => field_of_renamed (fun _ _ => rfl) hf

theorem translateSort_fields {sort translated : List SortSpec} (h : translateSort schema sort = .ok translated) :
    ∀ f ∈ translated, f.field ∈ (buildColumnMap schema).values := by
  unfold translateSort at h
  split at h
  · cases h
  · obtain rfl := Except.ok.inj h
    exact fun f hf => field_of_renamed (fun _ _ => rfl) hf

/-- When `query_instances` of the engine returns, and what. -/
theorem QueryEngine.queryInstances_ok_iff {tables : String → Option Table} {tablePath : String} {filters : List Filter}
    {sort : List SortSpec} {offset limit : ℕ} {page : QueryResult} :
    QueryEngine.queryInstances pg tables schema tablePath filters sort offset limit = .ok page ↔
      ∃ t fs ss, tables tablePath = some t ∧ Selectable schema tablePath t ∧
        translateFilters schema filters = .ok fs ∧ translateSort schema sort = .ok ss ∧
        { rows := (selectRows pg t (buildColumnMap schema).values fs ss offset limit).map (mapped schema t)
          total := (t.rows.filter (holds pg fs)).length
          columns := (buildColumnMap schema).keys } = page := by
  unfold QueryEngine.queryInstances executeQuery
  simp only [bind_ok_iff, validateIdentifiers_ok_iff, openTable_ok_iff, exists_const, List.forall_mem_singleton]
  constructor
  · rintro ⟨fs, hfs, ss, hss, result, ⟨hpath, hcolumns, -, t, ⟨htable, hopen⟩, hresult⟩, hpage⟩
    obtain rfl := Except.ok.inj hresult
    refine ⟨t, fs, ss, htable, ⟨hpath, fun c hc => ⟨hcolumns c hc, hopen c ?_⟩⟩, hfs, hss, ?_⟩
    · exact List.mem_append_left _ (List.mem_append_left _ hc)
    · rw [← Except.ok.inj hpage, List.map_map]
      rfl
  · rintro ⟨t, fs, ss, htable, hselect, hfs, hss, rfl⟩
    refine ⟨fs, hfs, ss, hss, _, ⟨hselect.path, fun c hc => (hselect.columns c hc).1, ?_, t, ⟨htable, ?_⟩, rfl⟩, ?_⟩
    · intro c hc
      obtain ⟨f, hf, rfl⟩ := List.mem_map.mp hc
      exact (hselect.columns _ (translateSort_fields hss f hf)).1
    · intro c hc
      rcases List.mem_append.mp hc with hc | hc
      · rcases List.mem_append.mp hc with hc | hc
        · exact (hselect.columns c hc).2
        · obtain ⟨f, hf, rfl⟩ := List.mem_map.mp hc
          exact (hselect.columns _ (translateFilters_fields hfs f hf)).2
      · obtain ⟨f, hf, rfl⟩ := List.mem_map.mp hc
        exact (hselect.columns _ (translateSort_fields hss f hf)).2
    · dsimp only
      rw [List.map_map]
      rfl

/-- When `query_instances` returns, and what. -/
theorem queryInstances_ok_iff {filters : List Filter} {sort : List SortSpec} {offset limit : ℕ} {page : QueryResult} :
    queryInstances pg py sources s schema typeRid tenantId filters sort offset limit = .ok page ↔
      ∃ t fs ss, tableOf sources s schema typeRid tenantId = some t ∧ Readable schema t ∧
        translateFilters schema filters = .ok fs ∧ translateSort schema sort = .ok ss ∧
        { rows := (selectRows pg t (buildColumnMap schema).values fs ss offset limit).map (instanceOf py schema t)
          total := (t.rows.filter (holds pg fs)).length
          columns := (buildColumnMap schema).keys } = page := by
  rw [queryInstances_engine]
  unfold tableOf
  cases hconnector : s.readConnector typeRid tenantId schema.assetMapping with
  | error e =>
    constructor
    · intro h
      cases h
    · rintro ⟨t, -, -, h, -⟩
      cases h
  | ok connector =>
    simp only [bind_ok_iff]
    constructor
    · rintro ⟨c, hc, result, hresult, hpage⟩
      obtain rfl := Except.ok.inj (show Except.ok connector = Except.ok c from hc)
      obtain ⟨t, fs, ss, htable, hselect, hfs, hss, rfl⟩ := QueryEngine.queryInstances_ok_iff.mp hresult
      refine ⟨t, fs, ss, htable, ⟨hselect.path, hselect.columns⟩, hfs, hss, ?_⟩
      rw [← Except.ok.inj hpage, List.map_map]
      rfl
    · rintro ⟨t, fs, ss, htable, hreadable, hfs, hss, rfl⟩
      refine ⟨connector, rfl, _, QueryEngine.queryInstances_ok_iff.mpr
        ⟨t, fs, ss, htable, ⟨hreadable.path, hreadable.columns⟩, hfs, hss, rfl⟩, ?_⟩
      rw [List.map_map]
      rfl

end Reads

end Lingshu.Data
