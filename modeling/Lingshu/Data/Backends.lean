import Lingshu.Data.EditLog
import Lingshu.Log.Keyed
import Mathlib.Data.String.Basic

/-! # The two back ends of the edit log

`EditLogStore` keeps rows of a PostgreSQL table, `FdbEditLogStore` one value for each FoundationDB key, and when
both hold what was written. -/
namespace Lingshu.Data
open Json
set_option autoImplicit false

/-! ## Keys as text -/

mutual

/-- The value as `json.dumps(..., sort_keys=True)` walks it. -/
def sortKeys : Value → Value
  | .list items => .list (sortKeysItems items)
  | .dict entries => .dict (Log.sortBy Prod.fst (sortKeysEntries entries))
  | v => v

def sortKeysItems : List Value → List Value
  | [] => []
  | v :: vs => sortKeys v :: sortKeysItems vs

def sortKeysEntries : List (String × Value) → List (String × Value)
  | [] => []
  | (k, v) :: es => (k, sortKeys v) :: sortKeysEntries es

end

def canonical (primaryKey : Assoc Value) : String := dumps (sortKeys (.dict primaryKey))

/-- What the two stores rest on: the first digits of SHA-256, `=` on JSONB, and the time zone in which the driver
reads a naive datetime. -/
structure Platform where
  digest : String → String
  jsonbEq : Assoc Value → Assoc Value → Bool
  localOffset : ℤ → ℤ

variable (pf : Platform)

/-- `_pk_hash`. -/
def pkHash (primaryKey : Assoc Value) : String := pf.digest (canonical primaryKey)

/-! ## PostgreSQL -/

/-- What a `timestamptz` column makes of a datetime: an instant, read back in UTC. -/
def timestamptz (t : DateTime) : DateTime := .ofInstant (t.clock - t.offset.getD (pf.localOffset t.clock))

/-- The row of an entry, as `_to_entry` reads it back. -/
def toRow (entry : EditLogEntry) : EditLogEntry := { entry with createdAt := timestamptz pf entry.createdAt }

/-- The rows of `edit_logs`, whose primary key is `entry_id`. -/
abbrev EditLogTable : Type := List EditLogEntry

/-- `EditLogStore.write`; a second row with the same `entry_id` is refused. -/
def EditLogTable.write (table : EditLogTable) (entry : EditLogEntry) : Option EditLogTable :=
  if entry.entryId ∈ table.map EditLogEntry.entryId then none else some (table ++ [toRow pf entry])

/-- `EditLogStore.read_by_key`. -/
def EditLogTable.readByKey (table : EditLogTable) (tenantId typeRid : String) (primaryKey : Assoc Value)
    (branch : String) : List EditLogEntry :=
  Log.sortBy (fun e => e.createdAt.instant) <| table.filter fun e =>
    e.tenantId = tenantId ∧ e.typeRid = typeRid ∧ pf.jsonbEq e.primaryKey primaryKey ∧ e.branch = branch

/-! ## FoundationDB -/

/-- The tuple that `_key` packs. -/
structure FdbKey where
  tenantId : String
  typeRid : String
  pkHash : String
  timestamp : String
  deriving DecidableEq

def fdbKey (entry : EditLogEntry) : FdbKey where
  tenantId := entry.tenantId
  typeRid := entry.typeRid
  pkHash := pkHash pf entry.primaryKey
  timestamp := entry.createdAt.isoformat

/-- The values under the prefix `("edit",)`; the key of a value is that of its entry. -/
abbrev FdbStore : Type := List EditLogEntry

/-- `FdbEditLogStore.write`: `tr[key] = value`. -/
def FdbStore.write (store : FdbStore) (entry : EditLogEntry) : FdbStore := Log.put (fdbKey pf) store entry

/-- `_data_to_entry`. -/
def dataToEntry (data : EditLogEntry) : EditLogEntry := { data with createdAt := data.createdAt.assumeUtc }

/-- `FdbEditLogStore.read_by_key`: the range of a prefix, in the order of the keys. -/
def FdbStore.readByKey (store : FdbStore) (tenantId typeRid : String) (primaryKey : Assoc Value) (branch : String) :
    List EditLogEntry :=
  let range := Log.sortBy (fun e => (fdbKey pf e).timestamp) <| store.filter fun e =>
    (fdbKey pf e).tenantId = tenantId ∧ (fdbKey pf e).typeRid = typeRid ∧
      (fdbKey pf e).pkHash = pkHash pf primaryKey
  (range.filter fun data => data.branch = branch).map dataToEntry

/-! ## What was written -/

/-- The entry up to the spelling of its datetime. -/
def EditLogEntry.normal (entry : EditLogEntry) : EditLogEntry := { entry with createdAt := entry.createdAt.normal }

/-- What a read is asked for. -/
structure ReadKey where
  tenantId : String
  typeRid : String
  primaryKey : Assoc Value
  branch : String

/-- The entry was written for exactly that tenant, type, primary key and branch. -/
def ReadKey.isOf (key : ReadKey) (e : EditLogEntry) : Bool :=
  e.tenantId = key.tenantId ∧ e.typeRid = key.typeRid ∧ canonical e.primaryKey = canonical key.primaryKey ∧
    e.branch = key.branch

/-- Each such entry is read exactly once, no other entry is, and they come in the order of their times. -/
structure Returned (key : ReadKey) (written read : List EditLogEntry) : Prop where
  entries : (read.map EditLogEntry.normal).Perm ((written.filter key.isOf).map EditLogEntry.normal)
  sorted : read.Pairwise fun a b => a.createdAt.instant ≤ b.createdAt.instant

/-- What the entries that a read is about must have in common, and apart. -/
structure Told (key : ReadKey) (written : List EditLogEntry) : Prop where
  /-- No key that JSONB takes for the one asked for has another text. -/
  spelled : ∀ e ∈ written, e.tenantId = key.tenantId → e.typeRid = key.typeRid → e.branch = key.branch →
    pf.jsonbEq e.primaryKey key.primaryKey → canonical e.primaryKey = canonical key.primaryKey
  aware : ∀ e ∈ written, key.isOf e → e.createdAt.aware
  /-- No later entry, of whatever branch, has its type, key and time text. -/
  apart : written.Pairwise fun e e' => key.isOf e → fdbKey pf e' ≠ fdbKey pf e
  /-- The time texts sort as the times do. -/
  ordered : ∀ e ∈ written.filter key.isOf, ∀ e' ∈ written.filter key.isOf,
    e.createdAt.isoformat < e'.createdAt.isoformat → e.createdAt.instant ≤ e'.createdAt.instant

/-- The rows that JSONB takes for those of the key. -/
def selects (key : ReadKey) (e : EditLogEntry) : Bool :=
  e.tenantId = key.tenantId ∧ e.typeRid = key.typeRid ∧ pf.jsonbEq e.primaryKey key.primaryKey ∧ e.branch = key.branch

section Reads
variable {pf} {key : ReadKey} {written : List EditLogEntry}

theorem DateTime.normal_aware (t : DateTime) : t.normal.aware = t.aware := by
  unfold normal
  split
  next h => rw [h]; rfl
  next => rfl

theorem normal_toRow {e : EditLogEntry} (h : e.createdAt.aware) : (toRow pf e).normal = e.normal := by
  rcases hdate : e.createdAt with ⟨clock, offset⟩
  rw [hdate] at h
  cases offset with
  | none => cases h
  | some offset => simp [toRow, EditLogEntry.normal, hdate, timestamptz, DateTime.normal, DateTime.aware,
      DateTime.ofInstant, DateTime.instant]

theorem normal_dataToEntry {e : EditLogEntry} (h : e.createdAt.aware) : (dataToEntry e).normal = e.normal := by
  rcases hdate : e.createdAt with ⟨clock, offset⟩
  rw [hdate] at h
  cases offset with
  | none => cases h
  | some offset => simp [dataToEntry, EditLogEntry.normal, hdate, DateTime.assumeUtc]

/-- Entries that are read back with an offset were written with one. -/
theorem aware_of_perm {read : List EditLogEntry} (hread : ∀ e ∈ read, e.createdAt.aware)
    (h : (read.map EditLogEntry.normal).Perm (written.map EditLogEntry.normal)) {e : EditLogEntry}
    (he : e ∈ written) : e.createdAt.aware := by
  have hmem : e.normal ∈ read.map EditLogEntry.normal := h.mem_iff.mpr (List.mem_map_of_mem he)
  obtain ⟨r, hr, heq⟩ := List.mem_map.mp hmem
  have hawake := hread r hr
  rw [← DateTime.normal_aware] at hawake ⊢
  have hdate : r.createdAt.normal = e.createdAt.normal := congrArg EditLogEntry.createdAt heq
  rwa [← hdate]

/-! ### PostgreSQL -/

theorem write_all {table : EditLogTable} (h : written.foldlM (EditLogTable.write pf) [] = some table) :
    table = written.map (toRow pf) := by
  have hfrom : ∀ (entries : List EditLogEntry) (start : EditLogTable),
      entries.foldlM (EditLogTable.write pf) start = some table → table = start ++ entries.map (toRow pf) := by
    intro entries
    induction entries with
    | nil =>
      intro start hstart
      rw [List.map_nil, List.append_nil]
      exact (Option.some.inj hstart).symm
    | cons e entries ih =>
      intro start hstart
      rw [List.foldlM_cons] at hstart
      obtain ⟨next, hnext, hrest⟩ := Option.bind_eq_some_iff.mp hstart
      unfold EditLogTable.write at hnext
      split at hnext
      · cases hnext
      · obtain rfl := Option.some.inj hnext
        rw [ih _ hrest, List.append_assoc]
        rfl
  exact hfrom written [] h

variable (pf key written) in
theorem readByKey_table_perm :
    (EditLogTable.readByKey pf (written.map (toRow pf)) key.tenantId key.typeRid key.primaryKey key.branch).Perm
      ((written.filter (selects pf key)).map (toRow pf)) := by
  refine (Log.sortBy_perm _ _).trans ?_
  rw [List.filter_map]
  exact List.Perm.refl _

/-- The filter that lets more through lets nothing more through. -/
theorem filter_eq_of_length {α : Type} {p q : α → Bool} (hpq : ∀ a, p a → q a) {l : List α}
    (h : (l.filter q).length = (l.filter p).length) : ∀ a ∈ l, q a → p a := by
  have hsub : (l.filter p).Sublist (l.filter q) := by
    have heq : (l.filter q).filter p = l.filter p := by
      rw [List.filter_filter]
      refine List.filter_congr fun a _ => ?_
      cases hp : p a with
      | false => rfl
      | true => rw [hpq a hp]; rfl
    rw [← heq]
    exact List.filter_sublist
  have heq := hsub.eq_of_length h.symm
  intro a ha hqa
  have hmem : a ∈ l.filter q := List.mem_filter.mpr ⟨ha, hqa⟩
  rw [← heq] at hmem
  exact (List.mem_filter.mp hmem).2

section Jsonb
variable (hjsonb : ∀ a b, canonical a = canonical b → pf.jsonbEq a b)
include hjsonb

theorem selects_of_isOf (e : EditLogEntry) (h : key.isOf e) : selects pf key e := by
  simp only [ReadKey.isOf, selects, decide_eq_true_eq] at h ⊢
  exact ⟨h.1, h.2.1, hjsonb _ _ h.2.2.1, h.2.2.2⟩

theorem returned_table_iff :
    Returned key written (EditLogTable.readByKey pf (written.map (toRow pf)) key.tenantId key.typeRid key.primaryKey
        key.branch) ↔
      (∀ e ∈ written, selects pf key e → key.isOf e) ∧ ∀ e ∈ written, key.isOf e → e.createdAt.aware := by
  have hperm := readByKey_table_perm pf key written
  constructor
  · intro h
    have hlength : (written.filter (selects pf key)).length = (written.filter key.isOf).length := by
      have hread := h.entries.length_eq
      rw [List.length_map, List.length_map, hperm.length_eq, List.length_map] at hread
      exact hread
    refine ⟨filter_eq_of_length (selects_of_isOf hjsonb) hlength, fun e he hkey => ?_⟩
    refine aware_of_perm (fun r hr => ?_) h.entries (List.mem_filter.mpr ⟨he, hkey⟩)
    obtain ⟨w, -, rfl⟩ := List.mem_map.mp (hperm.mem_iff.mp hr)
    rfl
  · rintro ⟨hspelled, haware⟩
    refine ⟨?_, Log.sortBy_pairwise _ _⟩
    have hfilter : written.filter (selects pf key) = written.filter key.isOf :=
      List.filter_congr fun e he => Bool.eq_iff_iff.mpr ⟨hspelled e he, selects_of_isOf hjsonb e⟩
    rw [hfilter] at hperm
    refine (hperm.map _).trans ?_
    rw [List.map_map]
    refine List.Perm.of_eq (List.map_congr_left fun e he => ?_)
    obtain ⟨he, hkey⟩ := List.mem_filter.mp he
    exact normal_toRow (haware e he hkey)

end Jsonb

/-! ### FoundationDB -/

theorem write_all_fdb : written.foldl (FdbStore.write pf) [] = Log.lasting (fdbKey pf) written :=
  Log.puts_eq_lasting (fdbKey pf) written

section Hash
variable (hhash : ∀ e ∈ written, pkHash pf e.primaryKey = pkHash pf key.primaryKey →
  canonical e.primaryKey = canonical key.primaryKey)
include hhash

/-- What the prefix and the branch let through are the entries of the key. -/
theorem fdb_filter_iff {e : EditLogEntry} (he : e ∈ written) :
    (((fdbKey pf e).tenantId = key.tenantId ∧ (fdbKey pf e).typeRid = key.typeRid ∧
      (fdbKey pf e).pkHash = pkHash pf key.primaryKey) ∧ e.branch = key.branch) ↔ key.isOf e := by
  have hkey : pkHash pf e.primaryKey = pkHash pf key.primaryKey ↔ canonical e.primaryKey = canonical key.primaryKey :=
    ⟨hhash e he, fun h => congrArg pf.digest h⟩
  simp only [ReadKey.isOf, decide_eq_true_eq, fdbKey, hkey, and_assoc]

/-- The lasting entries of the key, in the order of their time texts. -/
theorem readByKey_fdb :
    ∃ read : List EditLogEntry, FdbStore.readByKey pf (Log.lasting (fdbKey pf) written) key.tenantId key.typeRid key.primaryKey key.branch =
        read.map dataToEntry ∧
      read.Perm ((Log.lasting (fdbKey pf) written).filter key.isOf) ∧
      read.Pairwise fun a b => a.createdAt.isoformat ≤ b.createdAt.isoformat := by
  refine ⟨_, rfl, ?_, (Log.sortBy_pairwise _ _).filter _⟩
  refine ((Log.sortBy_perm _ _).filter _).trans ?_
  rw [List.filter_filter]
  refine List.Perm.of_eq (List.filter_congr fun e he => Bool.eq_iff_iff.mpr ?_)
  rw [Bool.and_eq_true, decide_eq_true_eq, decide_eq_true_eq, and_comm]
  exact fdb_filter_iff hhash ((Log.lasting_sublist _ _).subset he)

theorem returned_fdb_iff :
    Returned key written (FdbStore.readByKey pf (Log.lasting (fdbKey pf) written) key.tenantId key.typeRid
        key.primaryKey key.branch) ↔
      (∀ e ∈ written, key.isOf e → e.createdAt.aware) ∧
      (written.Pairwise fun e e' => key.isOf e → fdbKey pf e' ≠ fdbKey pf e) ∧
      ∀ e ∈ written.filter key.isOf, ∀ e' ∈ written.filter key.isOf,
        e.createdAt.isoformat < e'.createdAt.isoformat → e.createdAt.instant ≤ e'.createdAt.instant := by
  obtain ⟨read, hread, hperm, hsorted⟩ := readByKey_fdb hhash
  rw [hread, ← Log.filter_lasting_iff]
  have hlabels : read.Pairwise fun a b => a.createdAt.isoformat ≠ b.createdAt.isoformat := by
    refine (hperm.pairwise_iff Ne.symm).mpr ?_
    refine ((Log.lasting_pairwise (fdbKey pf) written).filter key.isOf).imp_of_mem fun {a b} ha hb hne htext => hne ?_
    have ha := (List.mem_filter.mp ha).2
    have hb := (List.mem_filter.mp hb).2
    simp only [ReadKey.isOf, decide_eq_true_eq] at ha hb
    simp only [fdbKey, pkHash, ha.1, hb.1, ha.2.1, hb.2.1, ha.2.2.1, hb.2.2.1, htext]
  have htimes := Log.pairwise_iff_of_labels (fun e : EditLogEntry => e.createdAt.isoformat)
    (fun e : EditLogEntry => e.createdAt.instant) hsorted hlabels
  have hback : ((read.map dataToEntry).Pairwise fun a b => a.createdAt.instant ≤ b.createdAt.instant) ↔
      read.Pairwise fun a b => a.createdAt.instant ≤ b.createdAt.instant := List.pairwise_map
  constructor
  · intro h
    have hlength : read.length = (written.filter key.isOf).length := by
      have hentries := h.entries.length_eq
      rwa [List.length_map, List.length_map, List.length_map] at hentries
    have hall : (Log.lasting (fdbKey pf) written).filter key.isOf = written.filter key.isOf := by
      refine ((Log.lasting_sublist (fdbKey pf) written).filter key.isOf).eq_of_length ?_
      rw [← hperm.length_eq, hlength]
    refine ⟨fun e he hkey => ?_, hall, ?_⟩
    · refine aware_of_perm (fun r hr => ?_) h.entries (List.mem_filter.mpr ⟨he, hkey⟩)
      obtain ⟨w, -, rfl⟩ := List.mem_map.mp hr
      rfl
    · intro e he e' he'
      rw [hall] at hperm
      exact htimes.mp (hback.mp h.sorted) e (hperm.mem_iff.mpr he) e' (hperm.mem_iff.mpr he')
  · rintro ⟨haware, hall, hordered⟩
    rw [hall] at hperm
    constructor
    · rw [List.map_map]
      have hnormal : read.map (EditLogEntry.normal ∘ dataToEntry) = read.map EditLogEntry.normal := by
        refine List.map_congr_left fun e he => ?_
        obtain ⟨hmem, hkey⟩ := List.mem_filter.mp (hperm.mem_iff.mp he)
        exact normal_dataToEntry (haware e hmem hkey)
      rw [hnormal]
      exact hperm.map _
    · refine hback.mpr (htimes.mpr fun e he e' he' => ?_)
      exact hordered e (hperm.mem_iff.mp he) e' (hperm.mem_iff.mp he')

end Hash
end Reads

/-- For every platform, history and read, where equal texts are equal JSONB and no two of the keys in use share a
hash: both back ends return the entries of the key exactly when the history tells them apart. -/
theorem stored_iff (key : ReadKey) (written : List EditLogEntry) {table : EditLogTable}
    (hwritten : written.foldlM (EditLogTable.write pf) [] = some table)
    (hjsonb : ∀ a b, canonical a = canonical b → pf.jsonbEq a b)
    (hhash : ∀ e ∈ written, pkHash pf e.primaryKey = pkHash pf key.primaryKey →
      canonical e.primaryKey = canonical key.primaryKey) :
    (Returned key written (EditLogTable.readByKey pf table key.tenantId key.typeRid key.primaryKey key.branch) ∧
      Returned key written (FdbStore.readByKey pf (written.foldl (FdbStore.write pf) []) key.tenantId key.typeRid
        key.primaryKey key.branch)) ↔
      Told pf key written := by
  rw [write_all hwritten, write_all_fdb, returned_table_iff hjsonb, returned_fdb_iff hhash]
  constructor
  · rintro ⟨⟨hspelled, haware⟩, -, hapart, hordered⟩
    refine ⟨fun e he htenant htype hbranch hjson => ?_, haware, hapart, hordered⟩
    have hkey := hspelled e he (by simp [selects, htenant, htype, hbranch, hjson])
    simp only [ReadKey.isOf, decide_eq_true_eq] at hkey
    exact hkey.2.2.1
  · intro h
    refine ⟨⟨fun e he hsel => ?_, h.aware⟩, h.aware, h.apart, h.ordered⟩
    simp only [selects, decide_eq_true_eq] at hsel
    simp only [ReadKey.isOf, decide_eq_true_eq]
    exact ⟨hsel.1, hsel.2.1, h.spelled e he hsel.1 hsel.2.1 hsel.2.2.2 hsel.2.2.1, hsel.2.2.2⟩

/-! ### Edits of one order -/

/-- Hashes that keep what they hash. -/
def Platform.plain : Platform where
  digest text := text
  jsonbEq a b := canonical a = canonical b
  localOffset _ := 0

theorem Platform.plain_jsonbEq (a b : Assoc Value) (h : canonical a = canonical b) :
    Platform.plain.jsonbEq a b = true :=
  decide_eq_true h

/-- An edit of order 1, at the given second. -/
def edit (entryId branch : String) (second : ℤ) : EditLogEntry where
  entryId := entryId
  tenantId := "t"
  typeRid := "ri.obj.1"
  primaryKey := [("id", .int 1)]
  operation := .update
  fieldValues := [("status", .str entryId)]
  userId := "u"
  branch := branch
  createdAt := .ofInstant (63908992800000000 + second * 1000000)

def orderKey : ReadKey := ⟨"t", "ri.obj.1", [("id", .int 1)], "main"⟩

theorem stored_iff_edits :
    (Returned orderKey [edit "a" "main" 0, edit "b" "main" 1]
        (EditLogTable.readByKey .plain [edit "a" "main" 0, edit "b" "main" 1] "t" "ri.obj.1" [("id", .int 1)] "main") ∧
      Returned orderKey [edit "a" "main" 0, edit "b" "main" 1]
        (FdbStore.readByKey .plain ([edit "a" "main" 0, edit "b" "main" 1].foldl (FdbStore.write .plain) []) "t"
          "ri.obj.1" [("id", .int 1)] "main")) ↔
      Told .plain orderKey [edit "a" "main" 0, edit "b" "main" 1] :=
  stored_iff .plain orderKey _ (by decide) Platform.plain_jsonbEq fun _ _ h => h

/-- Two edits at one time: the second takes the place of the first. -/
theorem not_stored_at_once :
    [edit "a" "main" 0, edit "b" "main" 0].foldlM (EditLogTable.write .plain) [] =
      some [edit "a" "main" 0, edit "b" "main" 0] ∧
    ¬(Returned orderKey [edit "a" "main" 0, edit "b" "main" 0]
        (EditLogTable.readByKey .plain [edit "a" "main" 0, edit "b" "main" 0] "t" "ri.obj.1" [("id", .int 1)] "main") ∧
      Returned orderKey [edit "a" "main" 0, edit "b" "main" 0]
        (FdbStore.readByKey .plain ([edit "a" "main" 0, edit "b" "main" 0].foldl (FdbStore.write .plain) []) "t"
          "ri.obj.1" [("id", .int 1)] "main")) := by
  refine ⟨by decide, fun h => ?_⟩
  have hfdb := h.2
  rw [write_all_fdb] at hfdb
  have hhash : ∀ e ∈ [edit "a" "main" 0, edit "b" "main" 0],
      pkHash .plain e.primaryKey = pkHash .plain orderKey.primaryKey →
        canonical e.primaryKey = canonical orderKey.primaryKey := fun _ _ h => h
  have hapart := ((returned_fdb_iff hhash).mp hfdb).2.1
  exact (List.pairwise_cons.mp hapart).1 (edit "b" "main" 0) List.mem_cons_self (by decide) rfl

end Lingshu.Data
