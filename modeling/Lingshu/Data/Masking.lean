import Lingshu.Data.Instances
import Mathlib.Data.List.Forall2

/-! # What the masks hide

Two data sources that differ only under the masks of a type: the reads of the type return the same on both, up to
fields that are computed from masked ones. Filters and sorts never see a masked column; where no sort is asked for, the
order is that of the first column. -/
namespace Lingshu.Data
open Json
set_option autoImplicit false

/-! ## Masks that hide the whole value -/

/-- The strategies that keep nothing of a value but that there is one. -/
def hidesAll : String → Bool
  | "MASK_NONE" | "SHOW_LAST_4" | "MASK_PHONE_MIDDLE" => false
  | _ => true

/-- All names of the column are masked as a whole. -/
def hidden (schema : SchemaInfo) (column : String) : Bool :=
  let names := (buildColumnMap schema).filter fun e => e.2 = column
  !names.isEmpty && names.all fun e => ((buildMaskingRules schema.propertyTypes).lookup e.1).any hidesAll

/-- Two rows of the table differ only in values, other than NULL, of hidden columns. -/
structure RowsAlike (schema : SchemaInfo) (row row' : Row) : Prop where
  null : ∀ c, field row c = .null ↔ field row' c = .null
  seen : ∀ c, hidden schema c = false → field row c = field row' c

structure TablesAlike (schema : SchemaInfo) (t t' : Table) : Prop where
  columns : t.columns = t'.columns
  rows : List.Forall₂ (RowsAlike schema) t.rows t'.rows

/-- Two data sources whose tables are alike. -/
def SourcesAlike (schema : SchemaInfo) (sources sources' : Sources) : Prop :=
  ∀ connector path, Option.Rel (TablesAlike schema) (sources connector path) (sources' connector path)

/-! ## Fields computed from masked ones -/

mutual

/-- The names that an expression looks up. -/
def Expr.reads : Expr → List String
  | .constant _ | .other => []
  | .name id => [id]
  | .binOp _ left right => left.reads ++ right.reads
  | .uSub operand => operand.reads
  | .call _ args => readsAll args

def readsAll : List Expr → List String
  | [] => []
  | e :: es => e.reads ++ readsAll es

end

variable (py : Python) (schema : SchemaInfo)

def readsOf (expression : String) : List String := ((py.parse expression).map Expr.reads).getD []

/-- The names of hidden columns. -/
def hiddenNames : List String := ((buildColumnMap schema).filter fun e => hidden schema e.2).map Prod.fst

/-- A computed field takes over what its expression reads. -/
def taint (tainted : List String) (e : String × String) : List String :=
  if ∃ name ∈ readsOf py e.2, name ∈ tainted then e.1 :: tainted else tainted.filter (· ≠ e.1)

/-- The names whose values depend on hidden columns, before masking. -/
def tainted : List String := schema.virtualFields.foldl (taint py) (hiddenNames schema)

/-- The computed fields among them, unless they are nullified themselves. -/
def exposed : List String :=
  (tainted py schema).filter fun name =>
    name ∈ schema.virtualFields.keys ∧ (buildMaskingRules schema.propertyTypes).lookup name ≠ some "MASK_NULLIFY"

section Lemmas
variable {py schema} {row row' : Row}

theorem maskValue_hidesAll {strategy : String} (h : hidesAll strategy) {v v' : Value} (hv : v = .null ↔ v' = .null) :
    maskValue py v strategy = maskValue py v' strategy := by
  by_cases hnull : v = .null
  · rw [hnull, hv.mp hnull]
  · have hnull' : v' ≠ .null := fun heq => hnull (hv.mpr heq)
    unfold maskValue
    rw [if_neg hnull, if_neg hnull']
    unfold hidesAll at h
    split at h
    · cases h
    · cases h
    · cases h
    next hnone hlast hphone =>
      split
      · exact absurd rfl hnone
      · rfl
      · rfl
      · exact absurd rfl hlast
      · exact absurd rfl hphone
      · rfl

theorem maskValue_nullify (v : Value) : maskValue py v "MASK_NULLIFY" = .null := by
  unfold maskValue
  split <;> rfl

/-! ## Computed fields -/

mutual

/-- An expression depends only on what it looks up. -/
theorem evalNode_congr : ∀ e : Expr, (∀ id ∈ e.reads, row.lookup id = row'.lookup id) →
    evalNode py row e = evalNode py row' e
  | .constant v, _ => rfl
  | .name id, h => by
    unfold evalNode
    rw [h id (List.mem_singleton_self id)]
  | .binOp op left right, h => by
    have hleft := evalNode_congr left fun id hid => h id (List.mem_append_left _ hid)
    have hright := evalNode_congr right fun id hid => h id (List.mem_append_right _ hid)
    unfold evalNode
    rw [hleft, hright]
  | .uSub operand, h => by
    unfold evalNode
    rw [evalNode_congr operand h]
  | .call func args, h => by
    unfold evalNode
    rw [evalArgs_congr args h]
  | .other, _ => rfl

theorem evalArgs_congr : ∀ es : List Expr, (∀ id ∈ readsAll es, row.lookup id = row'.lookup id) →
    evalArgs py row es = evalArgs py row' es
  | [], _ => rfl
  | e :: es, h => by
    have hhead := evalNode_congr e fun id hid => h id (List.mem_append_left _ hid)
    have htail := evalArgs_congr es fun id hid => h id (List.mem_append_right _ hid)
    unfold evalArgs
    rw [hhead, htail]

end

theorem evaluateExpression_congr {expression : String}
    (h : ∀ id ∈ readsOf py expression, row.lookup id = row'.lookup id) :
    evaluateExpression py expression row = evaluateExpression py expression row' := by
  unfold evaluateExpression
  unfold readsOf at h
  cases hparse : py.parse expression with
  | none => rfl
  | some tree =>
    rw [hparse] at h
    exact congrArg (fun v => Option.getD v Value.null) (evalNode_congr tree h)

/-- Computing keeps two rows equal outside the tainted names. -/
theorem applyVirtualFields_congr {fields : Assoc String} {names : List String}
    (h : ∀ name, name ∉ names → row.lookup name = row'.lookup name) {name : String}
    (hname : name ∉ fields.foldl (taint py) names) :
    (applyVirtualFields py row fields).lookup name = (applyVirtualFields py row' fields).lookup name := by
  unfold applyVirtualFields
  induction fields generalizing row row' names with
  | nil => exact h name hname
  | cons e fields ih =>
    refine ih (fun n hn => ?_) hname
    rw [Assoc.lookup_set, Assoc.lookup_set]
    unfold taint at hn
    split at hn
    next hread =>
      obtain ⟨hne, hn⟩ := not_or.mp (fun hor => hn (List.mem_cons.mpr hor))
      rw [if_neg hne, if_neg hne, h n hn]
    next hread =>
      have heval : evaluateExpression py e.2 row = evaluateExpression py e.2 row' :=
        evaluateExpression_congr fun id hid => h id fun hmem => hread ⟨id, hid, hmem⟩
      by_cases hne : n = e.1
      · rw [if_pos hne, if_pos hne, heval]
      · rw [if_neg hne, if_neg hne]
        exact h n fun hmem => hn (List.mem_filter.mpr ⟨hmem, by simpa using hne⟩)

/-- Only computed fields become tainted. -/
theorem mem_foldl_taint {fields : Assoc String} {names : List String} {name : String}
    (h : name ∈ fields.foldl (taint py) names) : name ∈ names ∨ name ∈ fields.keys := by
  induction fields generalizing names with
  | nil => exact .inl h
  | cons e fields ih =>
    rcases ih h with hmem | hmem
    · unfold taint at hmem
      split at hmem
      · rcases List.mem_cons.mp hmem with rfl | hmem
        · exact .inr List.mem_cons_self
        · exact .inl hmem
      · exact .inl (List.mem_filter.mp hmem).1
    · exact .inr (List.mem_cons_of_mem _ hmem)

/-! ## Instances -/

variable {t : Table}

theorem hidesAll_of_hidden {name column : String} (h : hidden schema column)
    (hname : (name, column) ∈ buildColumnMap schema) :
    ∃ strategy, (buildMaskingRules schema.propertyTypes).lookup name = some strategy ∧ hidesAll strategy := by
  unfold hidden at h
  rw [Bool.and_eq_true, List.all_eq_true] at h
  have hall := h.2 (name, column) (List.mem_filter.mpr ⟨hname, by simp⟩)
  exact Option.any_eq_true_iff_get .. |>.mp hall |>.elim fun hsome hget => ⟨_, Option.eq_some_of_isSome hsome, hget⟩

/-- A hidden column has names. -/
theorem columnMap_ne_nil {column : String} (h : hidden schema column) : buildColumnMap schema ≠ [] := by
  intro hnil
  unfold hidden at h
  rw [hnil] at h
  cases h

/-- The name of a hidden column. -/
theorem mapped_of_hidden {name : String} (hname : name ∈ baseNames schema t) (h : hidden schema (columnOf schema name)) :
    (name, columnOf schema name) ∈ buildColumnMap schema := by
  obtain ⟨c, hc, rfl⟩ := List.mem_map.mp (Assoc.mem_keysOf.mp hname)
  have hc := Assoc.mem_keysOf.mp hc
  rw [columnOf_nameOf hc]
  have hvalues : (buildColumnMap schema).values ≠ [] := fun hnil => columnMap_ne_nil h (List.map_eq_nil_iff.mp hnil)
  unfold selectList at hc
  rw [if_neg hvalues] at hc
  exact Assoc.mem_of_lookup (columnMap_nameOf hc)

/-- Two rows that are alike become equal rows, outside the names of hidden columns. -/
theorem lookup_mapped_congr (h : RowsAlike schema row row') {name : String} (hname : name ∉ hiddenNames schema) :
    (mapped schema t row).lookup name = (mapped schema t row').lookup name := by
  by_cases hbase : name ∈ baseNames schema t
  · rw [lookup_mapped hbase, lookup_mapped hbase]
    cases hhidden : hidden schema (columnOf schema name) with
    | true =>
      have hmem := mapped_of_hidden hbase hhidden
      exact absurd (List.mem_map.mpr ⟨_, List.mem_filter.mpr ⟨hmem, hhidden⟩, rfl⟩) hname
    | false => rw [h.seen _ hhidden]
  · rw [Assoc.lookup_eq_none_of_notMem (by rwa [keys_mapped]), Assoc.lookup_eq_none_of_notMem (by rwa [keys_mapped])]

/-- Two rows that are alike become the same instance, up to the exposed fields. -/
theorem instanceOf_congr (h : RowsAlike schema row row') :
    (instanceOf py schema t row).without (exposed py schema) =
      (instanceOf py schema t row').without (exposed py schema) := by
  have hkeys : (applyVirtualFields py (mapped schema t row) schema.virtualFields).keys =
      (applyVirtualFields py (mapped schema t row') schema.virtualFields).keys :=
    keys_applyVirtualFields _ _ _ (by rw [keys_mapped, keys_mapped])
  have hinst : ∀ r, (instanceOf py schema t r).keys = (applyVirtualFields py (mapped schema t r) schema.virtualFields).keys :=
    fun r => keys_applyMasking _ _
  refine Assoc.eq_of_lookup ?_ ?_ fun name hname => ?_
  · rw [Assoc.keys_without, Assoc.keys_without, hinst, hinst, hkeys]
  · rw [Assoc.keys_without, hinst]
    refine List.Nodup.filter _ (nodup_applyVirtualFields ?_ _)
    rw [keys_mapped]
    exact Assoc.nodup_keysOf _
  · rw [Assoc.keys_without] at hname
    have hseen : name ∉ exposed py schema := by simpa using (List.mem_filter.mp hname).2
    rw [Assoc.lookup_without hseen, Assoc.lookup_without hseen]
    have hmask : ∀ r, (instanceOf py schema t r).lookup name =
        ((applyVirtualFields py (mapped schema t r) schema.virtualFields).lookup name).map fun v =>
          (((buildMaskingRules schema.propertyTypes).lookup name).map (maskValue py v)).getD v :=
      fun r => lookup_applyMasking (nodup_maskingRules schema) _ _
    rw [hmask, hmask]
    by_cases htainted : name ∈ tainted py schema
    · by_cases hvirtual : name ∈ schema.virtualFields.keys
      · have hrule : (buildMaskingRules schema.propertyTypes).lookup name = some "MASK_NULLIFY" := by
          by_contra hrule
          exact hseen (List.mem_filter.mpr ⟨htainted, by simp [hvirtual, hrule]⟩)
        have hin := (List.mem_filter.mp hname).1
        rw [hinst] at hin
        obtain ⟨v, hv⟩ := Assoc.exists_lookup_of_mem hin
        obtain ⟨v', hv'⟩ := Assoc.exists_lookup_of_mem (hkeys ▸ hin)
        rw [hv, hv', hrule]
        show some (maskValue py v "MASK_NULLIFY") = some (maskValue py v' "MASK_NULLIFY")
        rw [maskValue_nullify, maskValue_nullify]
      · have hmem : name ∈ hiddenNames schema := (mem_foldl_taint htainted).resolve_right hvirtual
        obtain ⟨e, he, rfl⟩ := List.mem_map.mp hmem
        obtain ⟨hcolumn, hhidden⟩ := List.mem_filter.mp he
        obtain ⟨strategy, hrule, hall⟩ := hidesAll_of_hidden hhidden hcolumn
        have hstands : columnOf schema e.1 = e.2 := by
          rw [columnOf, Assoc.lookup_of_mem (nodup_columnMap schema) hcolumn, Option.getD_some]
        rw [lookup_applyVirtualFields hvirtual, lookup_applyVirtualFields hvirtual, hrule]
        by_cases hbase : e.1 ∈ baseNames schema t
        · rw [lookup_mapped hbase, lookup_mapped hbase]
          exact congrArg some (maskValue_hidesAll hall (h.null _))
        · rw [Assoc.lookup_eq_none_of_notMem (by rwa [keys_mapped]),
            Assoc.lookup_eq_none_of_notMem (by rwa [keys_mapped])]
    · rw [applyVirtualFields_congr (fun n hn => lookup_mapped_congr h hn) htainted]

/-! ## The rows that a read finds -/

variable {pg : Postgres} {columns : List String}

theorem holds_congr {filters : List Filter} (h : RowsAlike schema row row')
    (hseen : ∀ f ∈ filters, hidden schema f.field = false) : holds pg filters row = holds pg filters row' := by
  induction filters with
  | nil => rfl
  | cons f filters ih =>
    have hf := h.seen f.field (hseen f List.mem_cons_self)
    have hrest := ih fun f' hf' => hseen f' (List.mem_cons_of_mem _ hf')
    unfold holds at hrest ⊢
    rw [List.all_cons, List.all_cons, hf, hrest]

theorem rowLe_congr {sort : List SortSpec} {a a' b b' : Row} (ha : RowsAlike schema a a') (hb : RowsAlike schema b b')
    (hseen : ∀ s ∈ sort, hidden schema s.field = false) : rowLe pg sort a b = rowLe pg sort a' b' := by
  induction sort with
  | nil => rfl
  | cons s sort ih =>
    have hs := hseen s List.mem_cons_self
    have hrest := ih fun s' hs' => hseen s' (List.mem_cons_of_mem _ hs')
    unfold rowLe
    rw [ha.seen _ hs, hb.seen _ hs, hrest]

/-- Rows that are alike are sorted the same way. -/
theorem forall₂_insertionSort {sort : List SortSpec} (hseen : ∀ s ∈ sort, hidden schema s.field = false)
    {rows rows' : List Row} (h : List.Forall₂ (RowsAlike schema) rows rows') :
    List.Forall₂ (RowsAlike schema) (rows.insertionSort fun a b => rowLe pg sort a b)
      (rows'.insertionSort fun a b => rowLe pg sort a b) := by
  have hinsert : ∀ {a a' : Row} {rs rs' : List Row}, RowsAlike schema a a' → List.Forall₂ (RowsAlike schema) rs rs' →
      List.Forall₂ (RowsAlike schema) (rs.orderedInsert (fun a b => rowLe pg sort a b) a)
        (rs'.orderedInsert (fun a b => rowLe pg sort a b) a') := by
    intro a a' rs rs' ha hrs
    induction hrs with
    | nil => exact .cons ha .nil
    | @cons b b' rs rs' hb hrs ih =>
      rw [List.orderedInsert_cons, List.orderedInsert_cons, rowLe_congr ha hb hseen]
      split
      · exact .cons ha (.cons hb hrs)
      · exact .cons hb ih
  induction h with
  | nil => exact .nil
  | cons ha _ ih => exact hinsert ha ih

theorem orderClause_seen {sort : List SortSpec} (hsort : ∀ s ∈ sort, hidden schema s.field = false)
    (hfirst : sort = [] → ∀ c ∈ columns.head?, hidden schema c = false) (hcolumns : columns = [] → ∀ c, hidden schema c = false) :
    ∀ s ∈ orderClause t columns sort, hidden schema s.field = false := by
  unfold orderClause selectList
  intro s hs
  split at hs
  next hnil =>
    obtain ⟨c, hc, rfl⟩ := Option.map_eq_some_iff.mp (Option.mem_toList.mp hs)
    split at hc
    next hempty => exact hcolumns hempty c
    next => exact hfirst hnil c hc
  next => exact hsort s hs

/-! ## The two reads -/

variable {tables tables' : String → Option Table} {tablePath : String} {β : Type} {f : Row → β}

theorem openTable_alike (h : Option.Rel (TablesAlike schema) (tables tablePath) (tables' tablePath)) (names : List String) :
    (∃ e, openTable tables tablePath names = .error e ∧ openTable tables' tablePath names = .error e) ∨
      ∃ t t', TablesAlike schema t t' ∧ openTable tables tablePath names = .ok t ∧
        openTable tables' tablePath names = .ok t' := by
  unfold openTable
  generalize tables tablePath = found, tables' tablePath = found' at h
  cases h with
  | none => exact .inl ⟨_, rfl, rfl⟩
  | @some t t' h =>
    dsimp only
    rw [h.columns]
    split
    · exact .inr ⟨t, t', h, rfl, rfl⟩
    · exact .inl ⟨_, rfl, rfl⟩

/-- What a query makes of the rows of alike tables is the same, when it is of single rows that are alike. -/
theorem executeQuery_alike (pg : Postgres) (h : Option.Rel (TablesAlike schema) (tables tablePath) (tables' tablePath))
    (hf : ∀ t t' row row', t.columns = t'.columns → RowsAlike schema row row' →
      f (project (selectList t columns) row) = f (project (selectList t' columns) row'))
    {filters : List Filter} (hfilters : ∀ f ∈ filters, hidden schema f.field = false)
    {sort : List SortSpec} (hsort : ∀ s ∈ sort, hidden schema s.field = false)
    (hfirst : sort = [] → ∀ c ∈ columns.head?, hidden schema c = false)
    (hcolumns : columns = [] → ∀ c, hidden schema c = false) (offset limit : ℕ) :
    (executeQuery pg tables tablePath columns filters sort offset limit).map (fun r => (r.rows.map f, r.total)) =
      (executeQuery pg tables' tablePath columns filters sort offset limit).map fun r => (r.rows.map f, r.total) := by
  unfold executeQuery
  cases validateIdentifiers "table_path" [tablePath] with
  | error e => rfl
  | ok _ =>
  cases validateIdentifiers "column" columns with
  | error e => rfl
  | ok _ =>
  cases validateIdentifiers "sort field" (sort.map SortSpec.field) with
  | error e => rfl
  | ok _ =>
  rcases openTable_alike h (columns ++ filters.map Filter.field ++ sort.map SortSpec.field) with
    ⟨e, hopen, hopen'⟩ | ⟨t, t', halike, hopen, hopen'⟩
  · rw [hopen, hopen']
  · rw [hopen, hopen']
    have hfiltered : List.Forall₂ (RowsAlike schema) (t.rows.filter (holds pg filters)) (t'.rows.filter (holds pg filters)) :=
      List.rel_filter (fun _ _ hrow => Bool.eq_iff_iff.mp (holds_congr hrow hfilters)) halike.rows
    have horder : orderClause t' columns sort = orderClause t columns sort := by
      unfold orderClause selectList
      rw [halike.columns]
    have hselected : List.Forall₂ (RowsAlike schema) (selectRows pg t columns filters sort offset limit)
        (selectRows pg t' columns filters sort offset limit) := by
      unfold selectRows
      rw [horder]
      exact List.forall₂_take _ (List.forall₂_drop _
        (forall₂_insertionSort (orderClause_seen hsort hfirst hcolumns) hfiltered))
    have hrows : ((selectRows pg t columns filters sort offset limit).map (project (selectList t columns))).map f =
        ((selectRows pg t' columns filters sort offset limit).map (project (selectList t' columns))).map f := by
      rw [List.map_map, List.map_map]
      exact List.forall₂_eq_eq_eq ▸ List.rel_map (fun _ _ hrow => hf _ _ _ _ halike.columns hrow) hselected
    show Except.ok (_, _) = Except.ok (_, _)
    rw [hrows, hfiltered.length_eq]

theorem rowOf_alike {t t' : Table} (h : TablesAlike schema t t') {primaryKey : Row}
    (hkey : ∀ c ∈ primaryKey.keys, hidden schema c = false) :
    Option.Rel (RowsAlike schema) (rowOf pg t primaryKey) (rowOf pg t' primaryKey) := by
  unfold rowOf
  have hrows := h.rows
  generalize t.rows = rows, t'.rows = rows' at hrows
  induction hrows with
  | nil => exact .none
  | @cons row row' rows rows' hrow _ ih =>
    have htest : (primaryKey.all fun e => pg.test .eq (field row e.1) e.2) =
        primaryKey.all fun e => pg.test .eq (field row' e.1) e.2 := by
      rw [Bool.eq_iff_iff, List.all_eq_true, List.all_eq_true]
      exact forall₂_congr fun e he => by rw [hrow.seen _ (hkey e.1 (List.mem_map_of_mem he))]
    rw [List.find?_cons, List.find?_cons, htest]
    split
    · exact .some hrow
    · exact ih

/-- A row is looked up the same way, when the key has no hidden column. -/
theorem getRow_alike (pg : Postgres) (h : Option.Rel (TablesAlike schema) (tables tablePath) (tables' tablePath))
    (hf : ∀ t t' row row', t.columns = t'.columns → RowsAlike schema row row' →
      f (project (selectList t columns) row) = f (project (selectList t' columns) row'))
    {primaryKey : Row} (hkey : ∀ c ∈ primaryKey.keys, hidden schema c = false) :
    (getRow pg tables tablePath primaryKey columns).map (Option.map f) =
      (getRow pg tables' tablePath primaryKey columns).map (Option.map f) := by
  unfold getRow
  cases validateIdentifiers "table_path" [tablePath] with
  | error e => rfl
  | ok _ =>
  cases validateIdentifiers "column" columns with
  | error e => rfl
  | ok _ =>
  cases validateIdentifiers "primary key column" primaryKey.keys with
  | error e => rfl
  | ok _ =>
  by_cases hnil : primaryKey = []
  · rw [if_pos hnil, if_pos hnil]
  · rw [if_neg hnil, if_neg hnil]
    rcases openTable_alike h (columns ++ primaryKey.keys) with ⟨e, hopen, hopen'⟩ | ⟨t, t', halike, hopen, hopen'⟩
    · rw [hopen, hopen']
    · rw [hopen, hopen']
      have hrow : Option.Rel (RowsAlike schema) (rowOf pg t primaryKey) (rowOf pg t' primaryKey) := rowOf_alike halike hkey
      show Except.ok (((rowOf pg t primaryKey).map (project (selectList t columns))).map f) =
        Except.ok (((rowOf pg t' primaryKey).map (project (selectList t' columns))).map f)
      generalize rowOf pg t primaryKey = found, rowOf pg t' primaryKey = found' at hrow ⊢
      cases hrow with
      | none => rfl
      | some hrow => exact congrArg (fun x => Except.ok (some x)) (hf _ _ _ _ halike.columns hrow)

/-! ## Requests that name no hidden property -/

theorem not_hidden_of_unmasked {name column : String} (hname : name ∉ maskedFields schema)
    (hcolumn : (buildColumnMap schema).lookup name = some column) : hidden schema column = false := by
  cases hhidden : hidden schema column with
  | false => rfl
  | true =>
    obtain ⟨strategy, hrule, -⟩ := hidesAll_of_hidden hhidden (Assoc.mem_of_lookup hcolumn)
    exact absurd (Assoc.mem_keys_of_lookup hrule) hname

theorem translateFilters_seen {filters translated : List Filter}
    (h : translateFilters schema filters = .ok translated) : ∀ f ∈ translated, hidden schema f.field = false := by
  unfold translateFilters at h
  split at h
  · cases h
  next hnone =>
    obtain rfl := Except.ok.inj h
    intro f hf
    obtain ⟨g, hg, hmap⟩ := List.mem_filterMap.mp hf
    obtain ⟨column, hcolumn, rfl⟩ := Option.map_eq_some_iff.mp hmap
    exact not_hidden_of_unmasked (by simpa using List.find?_eq_none.mp hnone g hg) hcolumn

theorem translateSort_seen {sort translated : List SortSpec} (h : translateSort schema sort = .ok translated) :
    ∀ s ∈ translated, hidden schema s.field = false := by
  unfold translateSort at h
  split at h
  · cases h
  next hnone =>
    obtain rfl := Except.ok.inj h
    intro s hs
    obtain ⟨g, hg, hmap⟩ := List.mem_filterMap.mp hs
    obtain ⟨column, hcolumn, rfl⟩ := Option.map_eq_some_iff.mp hmap
    exact not_hidden_of_unmasked (by simpa using List.find?_eq_none.mp hnone g hg) hcolumn

theorem translateSort_ne_nil {sort translated : List SortSpec} (h : translateSort schema sort = .ok translated)
    {s : SortSpec} (hs : s ∈ sort) (hcolumn : s.field ∈ (buildColumnMap schema).keys) : translated ≠ [] := by
  unfold translateSort at h
  split at h
  · cases h
  · obtain rfl := Except.ok.inj h
    obtain ⟨column, hcolumn⟩ := Assoc.exists_lookup_of_mem hcolumn
    exact List.ne_nil_of_mem (List.mem_filterMap.mpr ⟨s, hs, Option.map_eq_some_iff.mpr ⟨column, hcolumn, rfl⟩⟩)

theorem physicalPk_seen {primaryKey : Assoc Value} (h : ∀ name ∈ primaryKey.keys, name ∉ hiddenNames schema) :
    ∀ c ∈ (physicalPk (buildColumnMap schema) primaryKey).keys, hidden schema c = false := by
  intro c hc
  rw [physicalPk, Assoc.keys_ofEntries, Assoc.mem_keysOf] at hc
  obtain ⟨e, he, rfl⟩ := List.mem_map.mp hc
  obtain ⟨k, hk, hmap⟩ := List.mem_filterMap.mp he
  obtain ⟨column, hcolumn, rfl⟩ := Option.map_eq_some_iff.mp hmap
  refine Bool.eq_false_iff.mpr fun hhidden => h k.1 (List.mem_map_of_mem hk) ?_
  exact List.mem_map.mpr ⟨(k.1, column), List.mem_filter.mpr ⟨Assoc.mem_of_lookup hcolumn, hhidden⟩, rfl⟩

end Lemmas

/-- What `get_instance` makes of a row that the connector found. -/
def shownRow (row : Row) : Option Row := if row = [] then none else some (toInstance py schema row)

theorem getInstance_eq (pg : Postgres) (sources : Sources) (s : DataState) (typeRid tenantId : String)
    (primaryKey : Assoc Value) :
    getInstance pg py sources s schema typeRid tenantId primaryKey =
      (s.readConnector typeRid tenantId schema.assetMapping).mapError .app >>= fun connector =>
        (getRow pg (sources connector) (schema.assetMapping.getD {}).readAssetPath
          (physicalPk (buildColumnMap schema) primaryKey) (buildColumnMap schema).values).map fun found =>
            found.bind (shownRow py schema) := by
  unfold getInstance
  refine bind_congr fun connector => ?_
  dsimp only
  cases getRow pg (sources connector) (schema.assetMapping.getD {}).readAssetPath
      (physicalPk (buildColumnMap schema) primaryKey) (buildColumnMap schema).values with
  | error e => rfl
  | ok found =>
    cases found with
    | none => rfl
    | some row => cases row <;> rfl

/-- The order of a page does not come from a hidden column: a sort by a mapped property is asked for, or the first
mapped column is not hidden. -/
def OrderSeen (sort : List SortSpec) : Prop :=
  (∃ s ∈ sort, s.field ∈ (buildColumnMap schema).keys) ∨
    ∀ c ∈ (buildColumnMap schema).values.head?, hidden schema c = false

/-- A page without some fields of its instances. -/
def QueryResult.without (page : QueryResult) (names : List String) : QueryResult :=
  { page with rows := page.rows.map fun row => row.without names }

/-- **The masks of a type hide what is under them**, but for the fields that are computed from it. -/
theorem reads_agree_under_masks {sources sources' : Sources} (h : SourcesAlike schema sources sources')
    (pg : Postgres) (s : DataState) (typeRid tenantId : String) :
    (∀ (filters : List Filter) (sort : List SortSpec) (offset limit : ℕ), OrderSeen schema sort →
      (queryInstances pg py sources s schema typeRid tenantId filters sort offset limit).map
          (fun page => page.without (exposed py schema)) =
        (queryInstances pg py sources' s schema typeRid tenantId filters sort offset limit).map
          fun page => page.without (exposed py schema)) ∧
    ∀ primaryKey : Assoc Value, (∀ name ∈ primaryKey.keys, name ∉ hiddenNames schema) →
      (getInstance pg py sources s schema typeRid tenantId primaryKey).map
          (Option.map fun row => row.without (exposed py schema)) =
        (getInstance pg py sources' s schema typeRid tenantId primaryKey).map
          (Option.map fun row => row.without (exposed py schema)) := by
  -- what is shown of a row that a query returns
  let shown : Row → Row := fun row => (toInstance py schema row).without (exposed py schema)
  have halike : ∀ (t t' : Table) (row row' : Row), t.columns = t'.columns → RowsAlike schema row row' →
      shown (project (selectList t (buildColumnMap schema).values) row) =
        shown (project (selectList t' (buildColumnMap schema).values) row') := by
    intro t t' row row' hcolumns hrow
    have hselect : selectList t' (buildColumnMap schema).values = selectList t (buildColumnMap schema).values := by
      unfold selectList
      rw [hcolumns]
    rw [hselect]
    exact instanceOf_congr hrow
  have hempty : (buildColumnMap schema).values = [] → ∀ c, hidden schema c = false := fun hnil c =>
    Bool.eq_false_iff.mpr fun hhidden => columnMap_ne_nil hhidden (List.map_eq_nil_iff.mp hnil)
  constructor
  · intro filters sort offset limit horder
    have hshape : ∀ x : Except ReadError QueryResult,
        (x >>= fun result => pure {
            rows := result.rows.map (toInstance py schema)
            total := result.total
            columns := (buildColumnMap schema).keys } : Except ReadError QueryResult).map
          (fun page => page.without (exposed py schema)) =
        (x.map fun r => (r.rows.map shown, r.total)).map fun p =>
          { rows := p.1, total := p.2, columns := (buildColumnMap schema).keys } := by
      intro x
      cases x with
      | error e => rfl
      | ok r =>
        have hrows : (r.rows.map (toInstance py schema)).map (fun row => row.without (exposed py schema)) =
            r.rows.map shown := List.map_map
        exact congrArg (fun rows => Except.ok (QueryResult.mk rows r.total (buildColumnMap schema).keys)) hrows
    unfold queryInstances
    cases s.readConnector typeRid tenantId schema.assetMapping with
    | error e => rfl
    | ok connector =>
    cases hfs : translateFilters schema filters with
    | error e => rfl
    | ok fs =>
    cases hss : translateSort schema sort with
    | error e => rfl
    | ok ss =>
    have hfirst : ss = [] → ∀ c ∈ (buildColumnMap schema).values.head?, hidden schema c = false := by
      intro hnil
      rcases horder with ⟨s, hs, hcolumn⟩ | hfirst
      · exact absurd hnil (translateSort_ne_nil hss hs hcolumn)
      · exact hfirst
    have hresult := executeQuery_alike pg (h connector (schema.assetMapping.getD {}).readAssetPath) halike
      (translateFilters_seen hfs) (translateSort_seen hss) hfirst hempty offset limit
    exact (hshape _).trans ((congrArg _ hresult).trans (hshape _).symm)
  · intro primaryKey hkey
    let shownFound : Row → Option Row := fun row => (shownRow py schema row).map (·.without (exposed py schema))
    have hrow : ∀ (t t' : Table) (row row' : Row), t.columns = t'.columns → RowsAlike schema row row' →
        shownFound (project (selectList t (buildColumnMap schema).values) row) =
          shownFound (project (selectList t' (buildColumnMap schema).values) row') := by
      intro t t' row row' hcolumns hrow
      have hshown := halike t t' row row' hcolumns hrow
      have hselect : selectList t' (buildColumnMap schema).values = selectList t (buildColumnMap schema).values := by
        unfold selectList
        rw [hcolumns]
      rw [hselect] at hshown ⊢
      unfold shownFound shownRow
      by_cases hnil : selectList t (buildColumnMap schema).values = []
      · rw [hnil]
        rfl
      · rw [if_neg (project_ne_nil hnil row), if_neg (project_ne_nil hnil row')]
        exact congrArg some hshown
    have hshape : ∀ x : Except ReadError (Option Row),
        (x.map fun found => found.bind (shownRow py schema)).map (Option.map (·.without (exposed py schema))) =
        (x.map (Option.map shownFound)).map Option.join := by
      intro x
      cases x with
      | error e => rfl
      | ok found => cases found <;> rfl
    rw [getInstance_eq, getInstance_eq]
    cases s.readConnector typeRid tenantId schema.assetMapping with
    | error e => rfl
    | ok connector =>
      have hfound := getRow_alike pg (h connector (schema.assetMapping.getD {}).readAssetPath) hrow
        (physicalPk_seen hkey)
      exact (hshape _).trans ((congrArg _ hfound).trans (hshape _).symm)

/-! ### Contacts -/

/-- Python as far as it parses a name. -/
def Python.names : Python :=
  { Python.plain with parse := fun source => if source = "phone" then some (.name "phone") else none }

/-- The phone is masked as a whole; the label is computed from it. -/
def contacts : SchemaInfo :=
  loadSchema [
      { apiName := "id", physicalColumn := some "id" },
      { apiName := "phone", physicalColumn := some "phone"
        compliance := some { sensitivity := "CONFIDENTIAL", maskingStrategy := "MASK_REDACT_FULL" } },
      { apiName := "label", virtualExpression := some "phone" }]
    (some { readConnectionId := "ri.conn.1", readAssetPath := "contacts" })

def contactTable (phone : String) : Table := ⟨["id", "phone"], [[("id", .int 1), ("phone", .str phone)]]⟩

/-- A service with a connector. -/
def contactService : DataState where
  connections := [{
    rid := "ri.conn.1", tenantId := "t", displayName := "Contacts", type := "postgresql", config := []
    credentials := none }]
  connectors := [("ri.conn.1", ⟨[]⟩)]

theorem contacts_alike (phone phone' : String) :
    SourcesAlike contacts (fun _ _ => some (contactTable phone)) fun _ _ => some (contactTable phone') := by
  have hrow : RowsAlike contacts [("id", .int 1), ("phone", .str phone)] [("id", .int 1), ("phone", .str phone')] := by
    constructor
    · intro c
      simp only [field, Assoc.lookup_cons]
      by_cases hid : c = "id"
      · simp [hid]
      · by_cases hphone : c = "phone" <;> simp [hid, hphone]
    · intro c hc
      have hphone : c ≠ "phone" := by
        rintro rfl
        exact absurd hc (by decide)
      simp only [field, Assoc.lookup_cons, if_neg hphone]
  intro _ _
  exact .some ⟨rfl, .cons hrow .nil⟩

theorem reads_agree_under_masks_contacts :
    (getInstance .plain .names (fun _ _ => some (contactTable "1")) contactService contacts "ri.obj.1" "t"
        [("id", .int 1)]).map (Option.map fun row => row.without (exposed .names contacts)) =
      (getInstance .plain .names (fun _ _ => some (contactTable "2")) contactService contacts "ri.obj.1" "t"
        [("id", .int 1)]).map (Option.map fun row => row.without (exposed .names contacts)) ∧
    (queryInstances .plain .names (fun _ _ => some (contactTable "1")) contactService contacts "ri.obj.1" "t"
        [] [] 0 10).map (fun page => page.without (exposed .names contacts)) =
      (queryInstances .plain .names (fun _ _ => some (contactTable "2")) contactService contacts "ri.obj.1" "t"
        [] [] 0 10).map fun page => page.without (exposed .names contacts) := by
  have hagree := reads_agree_under_masks .names contacts (contacts_alike "1" "2") .plain contactService "ri.obj.1" "t"
  exact ⟨hagree.2 [("id", .int 1)] (by decide), hagree.1 [] [] 0 10 (.inr (by decide))⟩

/-- The label shows the phone. -/
theorem not_reads_agree_computed :
    SourcesAlike contacts (fun _ _ => some (contactTable "1")) (fun _ _ => some (contactTable "2")) ∧
    getInstance .plain .names (fun _ _ => some (contactTable "1")) contactService contacts "ri.obj.1" "t"
        [("id", .int 1)] ≠
      getInstance .plain .names (fun _ _ => some (contactTable "2")) contactService contacts "ri.obj.1" "t"
        [("id", .int 1)] := by
  refine ⟨contacts_alike "1" "2", ?_⟩
  decide

end Lingshu.Data
