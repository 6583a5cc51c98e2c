import Lingshu.Data.Backends
import Lingshu.Data.Instances
import Lingshu.Data.Merge

/-! # Reads after writes

`write_editlog` on a service, and when the reads of the service show what it wrote: they read the base table, so
exactly when the entries change nothing that is shown. -/
namespace Lingshu.Data
open Json
set_option autoImplicit false

/-! ## Writing -/

/-- The arguments of `write_editlog`, with what it takes from its surroundings. -/
structure WriteCall where
  tenantId : String
  typeRid : String
  primaryKey : Assoc Value
  operation : String
  fieldValues : Assoc Value
  userId : String
  actionTypeRid : Option String := none
  branch : String := "main"
  entryId : String
  now : DateTime

/-- `make_entry`; an operation that is none of the three is refused. -/
def WriteCall.entry (call : WriteCall) : Option EditLogEntry :=
  (EditOperation.ofString call.operation).map fun operation =>
    { entryId := call.entryId
      tenantId := call.tenantId
      typeRid := call.typeRid
      primaryKey := call.primaryKey
      operation := operation
      fieldValues := call.fieldValues
      userId := call.userId
      actionTypeRid := call.actionTypeRid
      branch := call.branch
      createdAt := call.now }

/-- A service with its edit log, kept by whichever back end. -/
structure DataService (Store : Type) where
  state : DataState
  editLog : Store

section Service
variable {Store : Type} (write : Store → EditLogEntry → Option Store)

/-- `write_editlog`; `none` is a raised exception. -/
def DataService.writeEditlog (w : DataService Store) (call : WriteCall) : Option (DataService Store) := do
  let entry ← call.entry
  let editLog ← write w.editLog entry
  return { w with editLog }

/-! ## What the reads should show -/

variable (pg : Postgres) (py : Python) (sources : Sources) (schema : SchemaInfo)
variable (typeRid tenantId branch : String) (keyNames : List String) (written : List EditLogEntry) (t : Table)

/-- The row of the table that a primary key finds, under the names of the properties. -/
def baseRow (primaryKey : Assoc Value) : Option Row :=
  (rowOf pg t (physicalPk (buildColumnMap schema) primaryKey)).map (mapped schema t)

/-- A row with the entries of a key applied to it. -/
def edited (primaryKey : Assoc Value) (row : Option Row) : Option Row :=
  (written.filter (ReadKey.isOf ⟨tenantId, typeRid, primaryKey, branch⟩)).foldl replayEntry row

/-- The primary key of a row of the table. -/
def tableKey (row : Row) : Assoc Value := keyNames.map fun name => (name, field (mapped schema t row) name)

/-- An instance shows a row: the two agree on every field that is neither masked nor computed. -/
def ShowsRow (row inst : Row) : Prop :=
  ∀ name column, Plain schema name column → inst.lookup name = some (field row name)

def Shows : (row found : Option Row) → Prop
  | none, found => found = none
  | some row, found => ∃ inst, found = some inst ∧ ShowsRow schema row inst

/-- All reads show the entries written for the type and branch. -/
structure Reflects (s : DataState) : Prop where
  get : ∀ primaryKey found, getInstance pg py sources s schema typeRid tenantId primaryKey = .ok found →
    ∀ t, tableOf sources s schema typeRid tenantId = some t →
    Shows schema (edited typeRid tenantId branch written primaryKey (baseRow pg schema t primaryKey)) found
  /-- Every row of a page is that of its key. -/
  page : ∀ filters sort offset limit page,
    queryInstances pg py sources s schema typeRid tenantId filters sort offset limit = .ok page →
    ∀ t, tableOf sources s schema typeRid tenantId = some t → ∀ fs ss, translateFilters schema filters = .ok fs →
    translateSort schema sort = .ok ss →
    List.Forall₂ (fun row inst => Shows schema
        (edited typeRid tenantId branch written (tableKey schema keyNames t row) (some (mapped schema t row)))
        (some inst))
      (selectRows pg t (buildColumnMap schema).values fs ss offset limit) page.rows
  /-- A page that is long enough has every key. -/
  listed : ∀ limit page, queryInstances pg py sources s schema typeRid tenantId [] [] 0 limit = .ok page →
    ∀ t, tableOf sources s schema typeRid tenantId = some t → t.rows.length ≤ limit →
    ∀ primaryKey row, physicalPk (buildColumnMap schema) primaryKey ≠ [] →
    edited typeRid tenantId branch written primaryKey (baseRow pg schema t primaryKey) = some row →
    ∃ inst ∈ page.rows, ShowsRow schema row inst

/-! ## When they do -/

/-- Editing leaves a row's fields that are neither masked nor computed, or leaves no row where there is none. -/
def Unchanged : (row base : Option Row) → Prop
  | none, base => base = none
  | some row, base => ∃ b, base = some b ∧ ∀ name column, Plain schema name column → field b name = field row name

/-- The entries change nothing in the table that is shown. -/
structure Idle : Prop where
  keyed : ∀ primaryKey, physicalPk (buildColumnMap schema) primaryKey ≠ [] →
    Unchanged schema (edited typeRid tenantId branch written primaryKey (baseRow pg schema t primaryKey))
      (baseRow pg schema t primaryKey)
  rows : ∀ row ∈ t.rows, Unchanged schema
    (edited typeRid tenantId branch written (tableKey schema keyNames t row) (some (mapped schema t row)))
    (some (mapped schema t row))

section Lemmas
variable {pg py sources schema typeRid tenantId branch keyNames written t}

theorem lookup_instanceOf {name column : String} (h : Plain schema name column) (row : Row) :
    (instanceOf py schema t row).lookup name = some (field (mapped schema t row) name) := by
  have hmapped := lookup_mapped (h.mem_baseNames (t := t)) row
  rw [columnOf, h.stands, Option.getD_some] at hmapped
  rw [field, hmapped]
  exact h.lookup_toInstance row

variable (py) in
/-- An instance of a base row shows the edited row exactly when editing changed nothing of it. -/
theorem shows_iff {row : Option Row} (base : Option Row) :
    Shows schema row (base.map (instanceOf py schema t)) ↔ Unchanged schema row (base.map (mapped schema t)) := by
  cases row with
  | none => simp [Shows, Unchanged]
  | some row =>
    cases base with
    | none => simp [Shows, Unchanged]
    | some b =>
      have hfields : ShowsRow schema row (instanceOf py schema t b) ↔
          ∀ name column, Plain schema name column → field (mapped schema t b) name = field row name := by
        refine forall_congr' fun name => forall_congr' fun column => forall_congr' fun h => ?_
        rw [lookup_instanceOf h, Option.some.injEq]
      simp only [Shows, Unchanged, Option.map_some, Option.some.injEq, exists_eq_left', hfields]

/-- The rows of a page are rows of the table. -/
theorem mem_of_selectRows {columns : List String} {filters : List Filter} {sort : List SortSpec} {offset limit : ℕ}
    {row : Row} (h : row ∈ selectRows pg t columns filters sort offset limit) : row ∈ t.rows := by
  have hsorted := List.mem_of_mem_drop (List.mem_of_mem_take h)
  exact (List.mem_filter.mp ((List.mem_insertionSort _).mp hsorted)).1

/-- A page of everything has them all. -/
theorem mem_selectRows_all {columns : List String} {limit : ℕ} (hlimit : t.rows.length ≤ limit) {row : Row}
    (h : row ∈ t.rows) : row ∈ selectRows pg t columns [] [] 0 limit := by
  have hall : t.rows.filter (holds pg []) = t.rows := List.filter_eq_self.mpr fun _ _ => rfl
  unfold selectRows
  dsimp only
  rw [hall, List.drop_zero, List.take_of_length_le (by rw [List.length_insertionSort]; exact hlimit)]
  exact (List.mem_insertionSort _).mpr h

theorem reflects_iff {s : DataState} :
    Reflects pg py sources schema typeRid tenantId branch keyNames written s ↔
      ∀ t, tableOf sources s schema typeRid tenantId = some t → Readable schema t →
        Idle pg schema typeRid tenantId branch keyNames written t := by
  constructor
  · intro h t ht hreadable
    refine ⟨fun primaryKey hne => ?_, fun row hrow => ?_⟩
    · have hget : getInstance pg py sources s schema typeRid tenantId primaryKey = .ok _ :=
        getInstance_ok_iff.mpr ⟨hne, t, ht, hreadable, rfl⟩
      exact (shows_iff py _).mp (h.get primaryKey _ hget t ht)
    · have hpage : queryInstances pg py sources s schema typeRid tenantId [] [] 0 t.rows.length = .ok _ :=
        queryInstances_ok_iff.mpr ⟨t, [], [], ht, hreadable, rfl, rfl, rfl⟩
      have hrows := h.page [] [] 0 t.rows.length _ hpage t ht [] [] rfl rfl
      rw [List.forall₂_map_right_iff, List.forall₂_same] at hrows
      have hshows := hrows row (mem_selectRows_all (Nat.le_refl _) hrow)
      exact (shows_iff py (some row)).mp hshows
  · intro h
    refine ⟨fun primaryKey found hget t ht => ?_, fun filters sort offset limit page hpage t ht fs ss hfs hss => ?_,
      fun limit page hpage t ht hlimit primaryKey row hne hrow => ?_⟩
    · obtain ⟨hne, t', ht', hreadable, rfl⟩ := getInstance_ok_iff.mp hget
      obtain rfl := Option.some.inj (ht.symm.trans ht')
      exact (shows_iff py _).mpr ((h t ht hreadable).keyed primaryKey hne)
    · obtain ⟨t', fs', ss', ht', hreadable, hfs', hss', rfl⟩ := queryInstances_ok_iff.mp hpage
      obtain rfl := Option.some.inj (ht.symm.trans ht')
      obtain rfl := Except.ok.inj (hfs.symm.trans hfs')
      obtain rfl := Except.ok.inj (hss.symm.trans hss')
      rw [List.forall₂_map_right_iff, List.forall₂_same]
      intro row hrow
      exact (shows_iff py (some row)).mpr ((h t ht hreadable).rows row (mem_of_selectRows hrow))
    · obtain ⟨t', fs', ss', ht', hreadable, hfs', hss', rfl⟩ := queryInstances_ok_iff.mp hpage
      obtain rfl := Option.some.inj (ht.symm.trans ht')
      obtain rfl := Except.ok.inj (hfs'.symm.trans (rfl : translateFilters schema [] = .ok []))
      obtain rfl := Except.ok.inj (hss'.symm.trans (rfl : translateSort schema [] = .ok []))
      have hunchanged := (h t ht hreadable).keyed primaryKey hne
      have hshows := (shows_iff py _).mpr hunchanged
      rw [hrow] at hshows
      obtain ⟨inst, hinst, hfields⟩ := hshows
      obtain ⟨found, hfound, rfl⟩ := Option.map_eq_some_iff.mp hinst
      refine ⟨_, List.mem_map_of_mem (mem_selectRows_all hlimit ?_), hfields⟩
      exact List.mem_of_find?_eq_some hfound

end Lemmas

variable {write}

/-- Writing touches the log only. -/
theorem state_of_writes {calls : List WriteCall} {start w : DataService Store}
    (h : calls.foldlM (DataService.writeEditlog write) start = some w) : w.state = start.state := by
  induction calls generalizing start with
  | nil => exact congrArg DataService.state (Option.some.inj h).symm
  | cons call calls ih =>
    rw [List.foldlM_cons] at h
    obtain ⟨next, hnext, hrest⟩ := Option.bind_eq_some_iff.mp h
    obtain ⟨entry, -, hentry⟩ := Option.bind_eq_some_iff.mp hnext
    obtain ⟨editLog, -, heq⟩ := Option.bind_eq_some_iff.mp hentry
    rw [ih hrest, ← Option.some.inj heq]

/-- For every back end, service, type, data source and sequence of writes that return: the reads that follow show all
entries written for the type and branch exactly when these change nothing in its table that is shown. -/
theorem read_after_write_iff {calls : List WriteCall} {start w : DataService Store}
    (hwritten : calls.foldlM (DataService.writeEditlog write) start = some w) :
    Reflects pg py sources schema typeRid tenantId branch keyNames (calls.filterMap WriteCall.entry) w.state ↔
      ∀ t, tableOf sources start.state schema typeRid tenantId = some t → Readable schema t →
        Idle pg schema typeRid tenantId branch keyNames (calls.filterMap WriteCall.entry) t := by
  rw [state_of_writes hwritten]
  exact reflects_iff

end Service

/-! ### Orders -/

def orders : SchemaInfo :=
  loadSchema [{ apiName := "id", physicalColumn := some "id" }, { apiName := "status", physicalColumn := some "status" }]
    (some { readConnectionId := "ri.conn.1", readAssetPath := "orders" })

def orderTable : Table := ⟨["id", "status"], [[("id", .int 1), ("status", .str "new")]]⟩

/-- A service with a connector, and an edit log in PostgreSQL. -/
def orderService : DataService EditLogTable where
  state :=
    { connections := [{
        rid := "ri.conn.1", tenantId := "t", displayName := "Orders", type := "postgresql", config := [],
        credentials := none }]
      connectors := [("ri.conn.1", ⟨[]⟩)] }
  editLog := []

def orderWrite (operation : String) (id : ℤ) (fieldValues : Row) : WriteCall where
  tenantId := "t"
  typeRid := "ri.obj.1"
  primaryKey := [("id", .int id)]
  operation := operation
  fieldValues := fieldValues
  userId := "u"
  entryId := "e"
  now := .ofInstant 0

theorem read_after_write_iff_update :
    Reflects .plain .plain (fun _ _ => some orderTable) orders "ri.obj.1" "t" "main" ["id"]
        ([orderWrite "update" 1 [("status", .str "new")]].filterMap WriteCall.entry) orderService.state ↔
      ∀ t, tableOf (fun _ _ => some orderTable) orderService.state orders "ri.obj.1" "t" = some t →
        Readable orders t → Idle .plain orders "ri.obj.1" "t" "main" ["id"]
          ([orderWrite "update" 1 [("status", .str "new")]].filterMap WriteCall.entry) t := by
  have hwritten : [orderWrite "update" 1 [("status", .str "new")]].foldlM
      (DataService.writeEditlog (EditLogTable.write .plain)) orderService = some
        { orderService with editLog := [orderWrite "update" 1 [("status", .str "new")]].filterMap WriteCall.entry } := rfl
  have hiff := read_after_write_iff .plain .plain (fun _ _ => some orderTable) orders "ri.obj.1" "t" "main" ["id"]
    hwritten
  exact hiff

/-- A second order is created, and not found. -/
theorem not_read_created :
    [orderWrite "create" 2 [("id", .int 2)]].foldlM (DataService.writeEditlog (EditLogTable.write .plain))
      orderService = some
        { orderService with editLog := [orderWrite "create" 2 [("id", .int 2)]].filterMap WriteCall.entry } ∧
    ¬Reflects .plain .plain (fun _ _ => some orderTable) orders "ri.obj.1" "t" "main" ["id"]
      ([orderWrite "create" 2 [("id", .int 2)]].filterMap WriteCall.entry) orderService.state := by
  refine ⟨rfl, fun h => ?_⟩
  have hget : getInstance .plain .plain (fun _ _ => some orderTable) orderService.state orders "ri.obj.1" "t"
      [("id", .int 2)] = .ok none := by decide
  have hedited : edited "ri.obj.1" "t" "main" ([orderWrite "create" 2 [("id", .int 2)]].filterMap WriteCall.entry)
      [("id", .int 2)] (baseRow .plain orders orderTable [("id", .int 2)]) = some [("id", .int 2)] := by decide
  have hshows := h.get _ _ hget orderTable rfl
  rw [hedited] at hshows
  obtain ⟨inst, hinst, -⟩ := hshows
  cases hinst

end Lingshu.Data
