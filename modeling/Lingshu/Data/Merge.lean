import Lingshu.Data.EditLog
import Lingshu.Log.Keyed

/-! # The log merged into rows

`EditLogMerger`, and when the rows it yields are those of the log folded over the base rows. -/
namespace Lingshu.Data
open Json
set_option autoImplicit false

/-- `{**row, **values}`. -/
def overlay (row values : Row) : Row := values.foldl (fun row e => row.set e.1 e.2) row

/-- What the merge uses of an `EditLogBackend`. -/
structure EditLogBackend where
  readByKey : (tenantId typeRid : String) → (primaryKey : Assoc Value) → (branch : String) → List EditLogEntry

/-! ## The merge -/

/-- One entry on the row of its key. -/
def replayEntry (row : Option Row) (entry : EditLogEntry) : Option Row :=
  match entry.operation with
  | .create => some entry.fieldValues
  | .update =>
    match row with
    | none => some entry.fieldValues
    | some row => some (overlay row entry.fieldValues)
  | .delete => none

/-- `merge_row`. -/
def mergeRow (store : EditLogBackend) (baseRow : Option Row) (tenantId typeRid : String) (primaryKey : Assoc Value)
    (branch : String) : Option Row :=
  let entries := store.readByKey tenantId typeRid primaryKey branch
  if entries = [] then baseRow else entries.foldl replayEntry baseRow

/-- `merge_rows`. -/
def mergeRows (store : EditLogBackend) (baseRows : List Row) (tenantId typeRid primaryKeyField branch : String) :
    List Row :=
  baseRows.foldl (fun merged baseRow =>
    let pkValue := field baseRow primaryKeyField
    if pkValue = .null then merged ++ [baseRow]
    else
      match mergeRow store (some baseRow) tenantId typeRid [(primaryKeyField, pkValue)] branch with
      | some row => merged ++ [row]
      | none => merged) []

/-! ## The view -/

/-- The primary key that a row holds, for a type whose only key field is `name`. -/
def keyOf (name : String) (row : Row) : Assoc Value := [(name, field row name)]

section View
variable (same : Setoid (Assoc Value)) [DecidableRel same.r] (name : String)

/-- The base rows as a map. -/
def baseView (rows : List Row) (k : Assoc Value) : Option Row := rows.find? fun row => same.r (keyOf name row) k

/-- Every entry, in order, applied to its own key. -/
def foldedView (rows : List Row) (log : List EditLogEntry) : Assoc Value → Option Row :=
  Log.view (fun k e => decide (same.r e.primaryKey k)) replayEntry (baseView same name rows) log

/-- The rows that hold a key. -/
def rowsAt (rows : List Row) (k : Assoc Value) : List Row := rows.filter fun row => same.r (keyOf name row) k

variable {same name}

omit [DecidableRel same.r] in
theorem same_congr {k k' : Assoc Value} (h : same.r k k') (j : Assoc Value) : same.r j k ↔ same.r j k' :=
  ⟨fun hk => same.trans hk h, fun hk => same.trans hk (same.symm h)⟩

theorem foldedView_congr (rows : List Row) (log : List EditLogEntry) {k k' : Assoc Value} (h : same.r k k') :
    foldedView same name rows log k = foldedView same name rows log k' := by
  unfold foldedView
  rw [Log.view_apply, Log.view_apply]
  unfold baseView
  simp only [same_congr h]

variable {base : List Row} {log : List EditLogEntry} {store : EditLogBackend} {tenantId typeRid branch : String}

/-- What has to be said about base rows: each has a key, and no two have the same. -/
structure Keyed (same : Setoid (Assoc Value)) (name : String) (base : List Row) : Prop where
  present : ∀ b ∈ base, field b name ≠ .null
  distinct : base.Pairwise fun b b' => ¬same.r (keyOf name b) (keyOf name b')

omit [DecidableRel same.r] in
theorem Keyed.tail {b : Row} (h : Keyed same name (b :: base)) : Keyed same name base :=
  ⟨fun b' hb' => h.present b' (List.mem_cons_of_mem b hb'), (List.pairwise_cons.mp h.distinct).2⟩

theorem Keyed.rowsAt_eq (h : Keyed same name base) (k : Assoc Value) :
    rowsAt same name base k = (baseView same name base k).toList := by
  unfold rowsAt baseView
  induction base with
  | nil => rfl
  | cons b base ih =>
    by_cases hb : same.r (keyOf name b) k
    · have hrest : ∀ b' ∈ base, ¬same.r (keyOf name b') k := fun b' hb' hk =>
        (List.pairwise_cons.mp h.distinct).1 b' hb' (same.trans hb (same.symm hk))
      rw [List.filter_cons_of_pos (by simpa using hb), List.find?_cons_of_pos (by simpa using hb),
        List.filter_eq_nil_iff.mpr (by simpa using hrest)]
      rfl
    · rw [List.filter_cons_of_neg (by simpa using hb), List.find?_cons_of_neg (by simpa using hb)]
      exact ih h.tail

theorem Keyed.baseView_keyOf (h : Keyed same name base) {b : Row} (hb : b ∈ base) :
    baseView same name base (keyOf name b) = some b := by
  have hmem : b ∈ rowsAt same name base (keyOf name b) :=
    List.mem_filter.mpr ⟨hb, decide_eq_true (same.refl (keyOf name b))⟩
  rw [h.rowsAt_eq] at hmem
  exact Option.mem_toList.mp hmem

section Store
variable (hstore : ∀ k, store.readByKey tenantId typeRid k branch = log.filter fun e => same.r e.primaryKey k)
include hstore

theorem mergeRow_eq (row : Option Row) (k : Assoc Value) :
    mergeRow store row tenantId typeRid k branch = (log.filter fun e => same.r e.primaryKey k).foldl replayEntry row := by
  unfold mergeRow
  rw [hstore]
  dsimp only
  split
  next hnil => rw [hnil, List.foldl_nil]
  next => rfl

theorem mergeRow_base (h : Keyed same name base) {b : Row} (hb : b ∈ base) :
    mergeRow store (some b) tenantId typeRid (keyOf name b) branch = foldedView same name base log (keyOf name b) := by
  rw [mergeRow_eq hstore, foldedView, Log.view_apply, h.baseView_keyOf hb]

/-- The walk over the base rows reads the view at their keys and nowhere else. -/
theorem mergeRows_eq (h : Keyed same name base) :
    mergeRows store base tenantId typeRid name branch =
      base.filterMap fun b => foldedView same name base log (keyOf name b) := by
  have hwalk : ∀ rows merged : List Row, (∀ b ∈ rows, b ∈ base) →
      rows.foldl (fun merged baseRow =>
        let pkValue := field baseRow name
        if pkValue = .null then merged ++ [baseRow]
        else
          match mergeRow store (some baseRow) tenantId typeRid [(name, pkValue)] branch with
          | some row => merged ++ [row]
          | none => merged) merged =
        merged ++ rows.filterMap fun b => foldedView same name base log (keyOf name b) := by
    intro rows
    induction rows with
    | nil => intro merged _; exact (List.append_nil merged).symm
    | cons b rows ih =>
      intro merged hmem
      have hb := hmem b List.mem_cons_self
      have hrow := mergeRow_base hstore h hb
      unfold keyOf at hrow
      rw [List.foldl_cons, ih _ fun b' hb' => hmem b' (List.mem_cons_of_mem b hb'), List.filterMap_cons]
      simp only [if_neg (h.present b hb), hrow, keyOf]
      split <;> simp_all
  exact hwalk base [] fun _ hb => hb

/-- For every store, type, branch, log and base rows with distinct keys: the rows that the merge yields are the log
folded over the base rows exactly when every row of the folded view has a base row and still holds its own key. -/
theorem merged_iff (h : Keyed same name base) :
    (∀ k, rowsAt same name (mergeRows store base tenantId typeRid name branch) k =
        (foldedView same name base log k).toList) ↔
      ∀ k row, foldedView same name base log k = some row →
        (∃ b ∈ base, same.r (keyOf name b) k) ∧ same.r (keyOf name row) k := by
  rw [mergeRows_eq hstore h]
  constructor
  · intro hrows k row hrow
    have hmem : row ∈ rowsAt same name (base.filterMap fun b => foldedView same name base log (keyOf name b)) k := by
      rw [hrows, hrow]
      exact List.mem_singleton_self row
    obtain ⟨hmem, hkey⟩ := List.mem_filter.mp hmem
    have hkey : same.r (keyOf name row) k := by simpa using hkey
    obtain ⟨b, hb, hfrom⟩ := List.mem_filterMap.mp hmem
    have hown : row ∈ rowsAt same name (base.filterMap fun b => foldedView same name base log (keyOf name b))
        (keyOf name b) := by
      rw [hrows, hfrom]
      exact List.mem_singleton_self row
    have hkey' : same.r (keyOf name row) (keyOf name b) := by simpa using (List.mem_filter.mp hown).2
    exact ⟨⟨b, hb, same.trans (same.symm hkey') hkey⟩, hkey⟩
  · intro hview k
    have hfilter : rowsAt same name (base.filterMap fun b => foldedView same name base log (keyOf name b)) k =
        (rowsAt same name base k).filterMap fun b => foldedView same name base log (keyOf name b) := by
      unfold rowsAt
      rw [List.filter_filterMap, List.filterMap_filter]
      refine List.filterMap_congr fun b hb => ?_
      cases hrow : foldedView same name base log (keyOf name b) with
      | none => simp
      | some row =>
        have hkey := (hview _ row hrow).2
        have hiff : same.r (keyOf name row) k ↔ same.r (keyOf name b) k :=
          ⟨fun hk => same.trans (same.symm hkey) hk, fun hk => same.trans hkey hk⟩
        simp [Option.filter, hiff]
    rw [hfilter, h.rowsAt_eq]
    cases hbase : baseView same name base k with
    | none =>
      cases hrow : foldedView same name base log k with
      | none => rfl
      | some row =>
        obtain ⟨⟨b, hb, hk⟩, -⟩ := hview k row hrow
        have hfound := h.baseView_keyOf hb
        unfold baseView at hfound hbase
        simp only [same_congr hk] at hfound
        rw [hbase] at hfound
        cases hfound
    | some b =>
      have hk : same.r (keyOf name b) k := by simpa using List.find?_some hbase
      rw [Option.toList_some, List.filterMap_cons, foldedView_congr base log hk]
      cases foldedView same name base log k <;> rfl

end Store
end View

/-! ### One order -/

/-- Keys that are equal as they stand. -/
def literally : Setoid (Assoc Value) := ⟨Eq, ⟨fun _ => rfl, Eq.symm, Eq.trans⟩⟩

instance : DecidableRel literally.r := fun a b => inferInstanceAs (Decidable (a = b))

/-- A store of the entries of one type and branch. -/
def EditLogBackend.holding (log : List EditLogEntry) : EditLogBackend where
  readByKey _ _ k _ := log.filter fun e => literally.r e.primaryKey k

def orderEdit (operation : EditOperation) (id : ℤ) (fieldValues : Row) : EditLogEntry where
  entryId := "e"
  tenantId := "t"
  typeRid := "ri.obj.1"
  primaryKey := [("id", .int id)]
  operation := operation
  fieldValues := fieldValues
  userId := "u"
  createdAt := .ofInstant 0

def firstOrder : Row := [("id", .int 1), ("status", .str "new")]

theorem firstOrder_keyed : Keyed literally "id" [firstOrder] :=
  ⟨by decide, List.pairwise_singleton _ _⟩

theorem merged_iff_update :
    (∀ k, rowsAt literally "id" (mergeRows (.holding [orderEdit .update 1 [("status", .str "paid")]]) [firstOrder]
        "t" "ri.obj.1" "id" "main") k =
      (foldedView literally "id" [firstOrder] [orderEdit .update 1 [("status", .str "paid")]] k).toList) ↔
    ∀ k row, foldedView literally "id" [firstOrder] [orderEdit .update 1 [("status", .str "paid")]] k = some row →
      (∃ b ∈ [firstOrder], literally.r (keyOf "id" b) k) ∧ literally.r (keyOf "id" row) k := by
  have hstore : ∀ k, (EditLogBackend.holding [orderEdit .update 1 [("status", .str "paid")]]).readByKey "t" "ri.obj.1" k
      "main" = [orderEdit .update 1 [("status", .str "paid")]].filter fun e => literally.r e.primaryKey k := fun _ => rfl
  exact @merged_iff literally _ _ _ _ _ _ _ _ hstore firstOrder_keyed

/-- A second order is created; the merge does not yield it. -/
theorem not_merged_create : Keyed literally "id" [firstOrder] ∧
    ¬∀ k, rowsAt literally "id" (mergeRows (.holding [orderEdit .create 2 [("id", .int 2)]]) [firstOrder]
        "t" "ri.obj.1" "id" "main") k =
      (foldedView literally "id" [firstOrder] [orderEdit .create 2 [("id", .int 2)]] k).toList := by
  refine ⟨firstOrder_keyed, fun h => ?_⟩
  have hlost : rowsAt literally "id" (mergeRows (.holding [orderEdit .create 2 [("id", .int 2)]]) [firstOrder]
      "t" "ri.obj.1" "id" "main") [("id", .int 2)] = [] := by decide
  have hcreated : foldedView literally "id" [firstOrder] [orderEdit .create 2 [("id", .int 2)]] [("id", .int 2)] =
      some [("id", .int 2)] := by decide
  have hnone := h [("id", .int 2)]
  rw [hlost, hcreated] at hnone
  cases hnone

end Lingshu.Data
