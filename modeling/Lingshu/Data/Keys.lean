import Lingshu.Data.Mapping

/-! # The instance of a key

Which row `get_instance` answers with. Components of the key are brought to columns before a row is looked for: a
component without a column is dropped, and of components with one column the last is looked for. -/
namespace Lingshu.Data
open Json
set_option autoImplicit false

/-- The row has the value of every component in the column of its property. -/
def Agrees (pg : Postgres) (schema : SchemaInfo) (primaryKey : Assoc Value) (row : Row) : Prop :=
  ∀ e ∈ primaryKey, ∃ column, (buildColumnMap schema).lookup e.1 = some column ∧ pg.test .eq (field row column) e.2

/-- Whatever is returned is the instance of a row that agrees with the key, and the only such row is returned. -/
structure AnswersKey (pg : Postgres) (schema : SchemaInfo) (primaryKey : Assoc Value) : Prop where
  agrees : ∀ py sources s typeRid tenantId t inst, tableOf sources s schema typeRid tenantId = some t →
    getInstance pg py sources s schema typeRid tenantId primaryKey = .ok (some inst) →
    ∃ row ∈ t.rows, inst = instanceOf py schema t row ∧ Agrees pg schema primaryKey row
  unique : ∀ py sources s typeRid tenantId t row, tableOf sources s schema typeRid tenantId = some t →
    Readable schema t → row ∈ t.rows → Agrees pg schema primaryKey row →
    (∀ row' ∈ t.rows, Agrees pg schema primaryKey row' → row' = row) →
    getInstance pg py sources s schema typeRid tenantId primaryKey = .ok (some (instanceOf py schema t row))

/-- No read of the type is well formed: there is no path, or a name that is no plain identifier. -/
def Unreadable (schema : SchemaInfo) : Prop :=
  ∃ name ∈ (schema.assetMapping.getD {}).readAssetPath :: (buildColumnMap schema).values, safeIdentifier name = false

/-- Something is looked for, and for each column there are values that are found. -/
structure Sought (pg : Postgres) (schema : SchemaInfo) (primaryKey : Assoc Value) : Prop where
  column : physicalPk (buildColumnMap schema) primaryKey ≠ []
  value : ∀ e ∈ physicalPk (buildColumnMap schema) primaryKey, ∃ x, pg.test .eq x e.2

/-- Every component has a column, and what is found there is also right for the component. -/
def Covered (pg : Postgres) (schema : SchemaInfo) (primaryKey : Assoc Value) : Prop :=
  ∀ e ∈ primaryKey, ∃ column v, (buildColumnMap schema).lookup e.1 = some column ∧
    (physicalPk (buildColumnMap schema) primaryKey).lookup column = some v ∧
    ∀ x, pg.test .eq x v → pg.test .eq x e.2

section Service
variable {schema : SchemaInfo} {t : Table}

/-- A service with a connector for the type. -/
def serviceOf (schema : SchemaInfo) : DataState where
  connectors := [((schema.assetMapping.getD {}).readConnectionId, ⟨[]⟩)]

theorem mapping_of_readable (h : ¬ Unreadable schema) : ∃ mapping, schema.assetMapping = some mapping := by
  cases hmapping : schema.assetMapping with
  | some mapping => exact ⟨mapping, rfl⟩
  | none => exact absurd ⟨_, List.mem_cons_self, by rw [hmapping]; rfl⟩ h

theorem tableOf_serviceOf (h : ¬ Unreadable schema) (t : Table) (typeRid tenantId : String) :
    tableOf (fun _ _ => some t) (serviceOf schema) schema typeRid tenantId = some t := by
  obtain ⟨mapping, hmapping⟩ := mapping_of_readable h
  have hconnector : (serviceOf schema).readConnector typeRid tenantId schema.assetMapping = .ok ⟨[]⟩ := by
    simp [DataState.readConnector, DataState.getConnectorByRid, serviceOf, hmapping]
  rw [tableOf, hconnector]

theorem readable_of_columns (h : ¬ Unreadable schema) (hcolumns : ∀ c ∈ (buildColumnMap schema).values, c ∈ t.columns) :
    Readable schema t := by
  have hsafe : ∀ name ∈ (schema.assetMapping.getD {}).readAssetPath :: (buildColumnMap schema).values,
      safeIdentifier name := fun name hname => by
    cases hbad : safeIdentifier name with
    | true => rfl
    | false => exact absurd ⟨name, hname, hbad⟩ h
  exact ⟨hsafe _ List.mem_cons_self, fun c hc => ⟨hsafe c (List.mem_cons_of_mem _ hc), hcolumns c hc⟩⟩

theorem Unreadable.not_readable (h : Unreadable schema) : ¬ Readable schema t := by
  obtain ⟨name, hname, hbad⟩ := h
  intro hreadable
  rcases List.mem_cons.mp hname with rfl | hname
  · exact absurd hreadable.path (by rw [hbad]; decide)
  · exact absurd (hreadable.columns name hname).1 (by rw [hbad]; decide)

end Service

section Keys
variable {pg : Postgres} {schema : SchemaInfo} {primaryKey : Assoc Value} {t : Table} {row : Row}

/-- The columns that are looked at are those of the components. -/
theorem physicalPk_of_component {e : String × Value} {column : String} (he : e ∈ primaryKey)
    (h : (buildColumnMap schema).lookup e.1 = some column) :
    ∃ v, (physicalPk (buildColumnMap schema) primaryKey).lookup column = some v := by
  refine Assoc.exists_lookup_of_mem ?_
  rw [physicalPk, Assoc.keys_ofEntries, Assoc.mem_keysOf]
  exact List.mem_map.mpr ⟨_, List.mem_filterMap.mpr ⟨e, he, by rw [h, Option.map_some]⟩, rfl⟩

theorem component_of_physicalPk {column : String} {v : Value}
    (h : (physicalPk (buildColumnMap schema) primaryKey).lookup column = some v) :
    ∃ e ∈ primaryKey, (buildColumnMap schema).lookup e.1 = some column ∧ e.2 = v := by
  rw [physicalPk, Assoc.lookup_ofEntries] at h
  obtain ⟨e, he, heq⟩ := List.mem_filterMap.mp (List.mem_reverse.mp (Assoc.mem_of_lookup h))
  obtain ⟨c, hc, heq⟩ := Option.map_eq_some_iff.mp heq
  obtain ⟨rfl, rfl⟩ := Prod.mk.inj heq
  exact ⟨e, he, hc, rfl⟩

theorem nodup_physicalPk : (physicalPk (buildColumnMap schema) primaryKey).keys.Nodup := Assoc.nodup_keys_ofEntries _

/-- What `WHERE` asks of a row. -/
def Matches (pg : Postgres) (physical : Row) (row : Row) : Prop := ∀ e ∈ physical, pg.test .eq (field row e.1) e.2

theorem rowOf_eq_some {physical : Row} (h : rowOf pg t physical = some row) : row ∈ t.rows ∧ Matches pg physical row :=
  have hall : (physical.all fun e => pg.test .eq (field row e.1) e.2) = true :=
    List.find?_some (p := fun row => physical.all fun e => pg.test .eq (field row e.1) e.2) h
  ⟨List.mem_of_find?_eq_some h, List.all_eq_true.mp hall⟩

theorem exists_rowOf {physical : Row} (hmem : row ∈ t.rows) (h : Matches pg physical row) :
    ∃ found, rowOf pg t physical = some found := by
  refine Option.isSome_iff_exists.mp ?_
  rw [rowOf, List.find?_isSome]
  exact ⟨row, hmem, List.all_eq_true.mpr h⟩

theorem Agrees.matches (h : Agrees pg schema primaryKey row) :
    Matches pg (physicalPk (buildColumnMap schema) primaryKey) row := by
  intro e he
  obtain ⟨component, hcomponent, hcolumn, hv⟩ := component_of_physicalPk (Assoc.lookup_of_mem nodup_physicalPk he)
  obtain ⟨column, hcolumn', htest⟩ := h component hcomponent
  rw [hcolumn] at hcolumn'
  rw [Option.some.inj hcolumn', ← hv]
  exact htest

theorem Covered.agrees (h : Covered pg schema primaryKey)
    (hmatch : Matches pg (physicalPk (buildColumnMap schema) primaryKey) row) : Agrees pg schema primaryKey row := by
  intro e he
  obtain ⟨column, v, hcolumn, hsought, himp⟩ := h e he
  exact ⟨column, hcolumn, himp _ (hmatch (column, v) (Assoc.mem_of_lookup hsought))⟩

theorem Matches.sought (hne : physicalPk (buildColumnMap schema) primaryKey ≠ [])
    (h : Matches pg (physicalPk (buildColumnMap schema) primaryKey) row) : Sought pg schema primaryKey :=
  ⟨hne, fun e he => ⟨_, h e he⟩⟩

theorem Agrees.column (h : Agrees pg schema primaryKey row) (hne : primaryKey ≠ []) :
    physicalPk (buildColumnMap schema) primaryKey ≠ [] := by
  obtain ⟨e, he⟩ := List.exists_mem_of_ne_nil _ hne
  obtain ⟨column, hcolumn, -⟩ := h e he
  obtain ⟨v, hv⟩ := physicalPk_of_component he hcolumn
  exact List.ne_nil_of_mem (Assoc.mem_of_lookup hv)

theorem answersKey_of_covered (hne : primaryKey ≠ []) (h : Sought pg schema primaryKey → Covered pg schema primaryKey) :
    AnswersKey pg schema primaryKey := by
  constructor
  · intro py sources s typeRid tenantId t inst htable hget
    obtain ⟨hcolumn, t', htable', hreadable, hrow⟩ := getInstance_ok_iff.mp hget
    obtain rfl := Option.some.inj (htable.symm.trans htable')
    obtain ⟨row, hfound, rfl⟩ := Option.map_eq_some_iff.mp hrow
    obtain ⟨hmem, hmatch⟩ := rowOf_eq_some hfound
    exact ⟨row, hmem, rfl, (h (hmatch.sought hcolumn)).agrees hmatch⟩
  · intro py sources s typeRid tenantId t row htable hreadable hmem hagrees honly
    have hcolumn := hagrees.column hne
    obtain ⟨found, hfound⟩ := exists_rowOf hmem hagrees.matches
    obtain ⟨hmem', hmatch⟩ := rowOf_eq_some hfound
    have hfoundAgrees := (h (hmatch.sought hcolumn)).agrees hmatch
    refine getInstance_ok_iff.mpr ⟨hcolumn, t, htable, hreadable, ?_⟩
    rw [hfound, honly found hmem' hfoundAgrees, Option.map_some]

/-- The only row of a table is returned if it matches, and has to agree. -/
theorem AnswersKey.agrees_of_matches (h : AnswersKey pg schema primaryKey) (hread : ¬ Unreadable schema)
    (hcolumn : physicalPk (buildColumnMap schema) primaryKey ≠ [])
    (hmatch : Matches pg (physicalPk (buildColumnMap schema) primaryKey) row) : Agrees pg schema primaryKey row := by
  let t : Table := ⟨(buildColumnMap schema).values, [row]⟩
  have htable := tableOf_serviceOf hread t "" ""
  have hreadable : Readable schema t := readable_of_columns hread fun c hc => hc
  obtain ⟨found, hfound⟩ := exists_rowOf (t := t) List.mem_cons_self hmatch
  have hget := (@getInstance_ok_iff .plain schema pg _ _ _ _ _ _).mpr
    ⟨hcolumn, t, htable, hreadable, congrArg (Option.map (instanceOf .plain schema t)) hfound⟩
  obtain ⟨row', hmem, -, hagrees⟩ := h.agrees _ _ _ _ _ _ _ htable hget
  rwa [List.mem_singleton.mp hmem] at hagrees

/-- A row with given cells in the columns that are looked at. -/
def rowWith (schema : SchemaInfo) (primaryKey : Assoc Value) (cells : String → Value) : Row :=
  (physicalPk (buildColumnMap schema) primaryKey).keys.map fun c => (c, cells c)

theorem field_rowWith {cells : String → Value} {column : String}
    (h : column ∈ (physicalPk (buildColumnMap schema) primaryKey).keys) :
    field (rowWith schema primaryKey cells) column = cells column := by
  rw [field, rowWith, Assoc.lookup_map_self _ h, Option.getD_some]

theorem covered_of_answersKey (h : AnswersKey pg schema primaryKey) (hread : ¬ Unreadable schema)
    (hsought : Sought pg schema primaryKey) : Covered pg schema primaryKey := by
  have hcells : ∀ c, ∃ x, ∀ v, (physicalPk (buildColumnMap schema) primaryKey).lookup c = some v → pg.test .eq x v := by
    intro c
    cases hlookup : (physicalPk (buildColumnMap schema) primaryKey).lookup c with
    | none => exact ⟨.null, nofun⟩
    | some v =>
      obtain ⟨x, hx⟩ := hsought.value _ (Assoc.mem_of_lookup hlookup)
      exact ⟨x, fun v' hv' => by rwa [← Option.some.inj hv']⟩
  choose cells hcells using hcells
  have hagrees : ∀ cells' : String → Value,
      (∀ c v, (physicalPk (buildColumnMap schema) primaryKey).lookup c = some v → pg.test .eq (cells' c) v) →
      Agrees pg schema primaryKey (rowWith schema primaryKey cells') := by
    intro cells' hcells'
    refine h.agrees_of_matches hread hsought.column fun e he => ?_
    rw [field_rowWith (List.mem_map_of_mem he)]
    exact hcells' e.1 e.2 (Assoc.lookup_of_mem nodup_physicalPk he)
  intro e he
  obtain ⟨column, hcolumn, -⟩ := hagrees cells (fun c v hv => hcells c v hv) e he
  obtain ⟨v, hv⟩ := physicalPk_of_component he hcolumn
  refine ⟨column, v, hcolumn, hv, fun x hx => ?_⟩
  -- the same row with another cell that is found in the column
  obtain ⟨column', hcolumn', htest⟩ := hagrees (Function.update cells column x) (fun c v' hv' => by
    by_cases hc : c = column
    · subst hc
      rw [Function.update_self, ← Option.some.inj (hv.symm.trans hv')]
      exact hx
    · rw [Function.update_of_ne hc]
      exact hcells c v' hv') e he
  obtain rfl := Option.some.inj (hcolumn.symm.trans hcolumn')
  rwa [field_rowWith (Assoc.mem_keys_of_lookup hv), Function.update_self] at htest

theorem ne_nil_of_answersKey (h : AnswersKey pg schema primaryKey) (hread : ¬ Unreadable schema) : primaryKey ≠ [] := by
  rintro rfl
  let t : Table := ⟨(buildColumnMap schema).values, [[]]⟩
  have hget := h.unique .plain _ _ "" "" t [] (tableOf_serviceOf hread t "" "")
    (readable_of_columns hread fun c hc => hc) List.mem_cons_self nofun fun row' hrow' _ => List.mem_singleton.mp hrow'
  exact (getInstance_ok_iff.mp hget).1 rfl

end Keys

theorem answersKey_iff (pg : Postgres) (schema : SchemaInfo) (primaryKey : Assoc Value) :
    AnswersKey pg schema primaryKey ↔
      Unreadable schema ∨ primaryKey ≠ [] ∧ (Sought pg schema primaryKey → Covered pg schema primaryKey) := by
  constructor
  · intro h
    by_cases hread : Unreadable schema
    · exact .inl hread
    · exact .inr ⟨ne_nil_of_answersKey h hread, covered_of_answersKey h hread⟩
  · rintro (hunreadable | ⟨hne, h⟩)
    · constructor
      · intro py sources s typeRid tenantId t inst htable hget
        obtain ⟨-, t', -, hreadable, -⟩ := getInstance_ok_iff.mp hget
        exact absurd hreadable hunreadable.not_readable
      · intro py sources s typeRid tenantId t row htable hreadable
        exact absurd hreadable hunreadable.not_readable
    · exact answersKey_of_covered hne h

/-- A type with one property that has a column. -/
def robots : SchemaInfo where
  propertyTypes := [{ apiName := "id", physicalColumn := some "id" }]
  assetMapping := some { readConnectionId := "ri.conn.1", readAssetPath := "robots" }
  virtualFields := []

/-- A component without a column is not looked at. -/
theorem ghost_component_dropped :
    getInstance .plain .plain (fun _ _ => some ⟨["id"], [[("id", .int 1)]]⟩) (serviceOf robots) robots "ri.obj.1" "t"
        [("id", .int 1), ("ghost", .int 2)] = .ok (some [("id", .int 1)]) ∧
      ¬ AnswersKey .plain robots [("id", .int 1), ("ghost", .int 2)] := by
  refine ⟨by decide, fun h => ?_⟩
  have hread : ¬ Unreadable robots := by
    unfold Unreadable
    decide
  have hagrees : Agrees .plain robots [("id", .int 1), ("ghost", .int 2)] [("id", .int 1)] :=
    h.agrees_of_matches hread (by decide) (by unfold Matches; decide)
  obtain ⟨column, hcolumn, -⟩ := hagrees ("ghost", .int 2) (by decide)
  have hnone : (buildColumnMap robots).lookup "ghost" = none := by decide
  cases hnone.symm.trans hcolumn

end Lingshu.Data
