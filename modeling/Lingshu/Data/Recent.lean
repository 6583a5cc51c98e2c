import Lingshu.Data.Backends
import Lingshu.Log.Newest
import Mathlib.Data.Prod.Lex

/-! # The recent entries of the edit log

`read_recent` of the two back ends: a sorted table, and a range of keys that is cut before the branch is looked at. -/
namespace Lingshu.Data
open Json
set_option autoImplicit false

variable (pf : Platform)

/-! ## Reading -/

/-- `EditLogStore.read_recent`. -/
def EditLogTable.readRecent (table : EditLogTable) (tenantId branch : String) (limit : ℕ) : List EditLogEntry :=
  let rows := table.filter fun e => e.tenantId = tenantId ∧ e.branch = branch
  (Log.sortBy (fun e => e.createdAt.instant) rows).reverse.take limit

/-- Packed tuples are in the order of their parts. -/
def FdbKey.packed (key : FdbKey) : String ×ₗ String ×ₗ String ×ₗ String :=
  toLex (key.tenantId, toLex (key.typeRid, toLex (key.pkHash, key.timestamp)))

/-- The entries of a tenant, the last key first. -/
def FdbStore.range (store : FdbStore) (tenantId : String) : List EditLogEntry :=
  let entries := store.filter fun e => (fdbKey pf e).tenantId = tenantId
  (Log.sortBy (fun e => (fdbKey pf e).packed) entries).reverse

/-- `tr.get_range_startswith(prefix, reverse=True, limit=limit)`; the limit 0 is none. -/
def FdbStore.getRange (store : FdbStore) (tenantId : String) (limit : ℕ) : List EditLogEntry :=
  if limit = 0 then store.range pf tenantId else (store.range pf tenantId).take limit

/-- The loop over the range; the first argument is `entries`. -/
def collect (branch : String) (limit : ℕ) : List EditLogEntry → List EditLogEntry → List EditLogEntry
  | entries, [] => entries
  | entries, data :: range =>
    if data.branch = branch then
      let entries := entries ++ [dataToEntry data]
      if limit ≤ entries.length then entries else collect branch limit entries range
    else collect branch limit entries range

/-- `FdbEditLogStore.read_recent`. -/
def FdbStore.readRecent (store : FdbStore) (tenantId branch : String) (limit : ℕ) : List EditLogEntry :=
  collect branch limit [] (store.getRange pf tenantId (limit * 2))

/-! ## What should be read -/

/-- The newest entries of a tenant and branch, newest first. -/
def newestEntries (tenantId branch : String) (limit : ℕ) (written : List EditLogEntry) : List EditLogEntry :=
  let entries := written.filter fun e => e.tenantId = tenantId ∧ e.branch = branch
  (Log.sortBy (fun e => e.createdAt.instant) entries).reverse.take limit

/-- They are what is read, up to the spelling of datetimes. -/
def Recent (tenantId branch : String) (limit : ℕ) (written read : List EditLogEntry) : Prop :=
  read.map EditLogEntry.normal = (newestEntries tenantId branch limit written).map EditLogEntry.normal

/-- Where the newest entries stand in the order of the keys. -/
structure InReach (tenantId branch : String) (limit : ℕ) (written : List EditLogEntry) (store : FdbStore) : Prop where
  unlimited : limit = 0 → ∀ e ∈ store, e.tenantId = tenantId → e.branch ≠ branch
  fetched : ∀ e ∈ newestEntries tenantId branch limit written, e ∈ store ∧
    (store.filter fun e' => e'.tenantId = tenantId ∧ (fdbKey pf e).packed < (fdbKey pf e').packed).length < limit * 2
  inTurn : ∀ e ∈ newestEntries tenantId branch limit written, ∀ e' ∈ store, e'.tenantId = tenantId → e'.branch = branch →
    (fdbKey pf e).packed < (fdbKey pf e').packed → e.createdAt.instant < e'.createdAt.instant

section Recent
variable {pf} {tenantId branch : String} {limit : ℕ} {written : List EditLogEntry}

theorem collect_eq (entries range : List EditLogEntry) : collect branch limit entries range =
    entries ++ ((range.filter fun data => data.branch = branch).take (max 1 (limit - entries.length))).map dataToEntry := by
  induction range generalizing entries with
  | nil => simp [collect]
  | cons data range ih =>
    unfold collect
    split
    next h =>
      simp only [List.filter_cons, h, decide_true, if_true]
      rw [List.length_append, List.length_singleton]
      split
      next hfull =>
        have hone : max 1 (limit - entries.length) = 1 := by omega
        rw [hone]
        rfl
      next hmore =>
        have hsucc : max 1 (limit - entries.length) = max 1 (limit - (entries.length + 1)) + 1 := by omega
        rw [ih, hsucc, List.length_append, List.length_singleton, List.take_succ_cons, List.map_cons, List.append_assoc]
        rfl
    next h =>
      simp only [List.filter_cons, h, decide_false, Bool.false_eq_true, if_false]
      exact ih entries

theorem FdbKey.packed_injective : Function.Injective FdbKey.packed := by
  rintro ⟨a, b, c, d⟩ ⟨a', b', c', d'⟩ h
  simpa [FdbKey.packed] using h

theorem falling_range : Log.Falling (fun e => (fdbKey pf e).packed)
    (FdbStore.range pf (Log.lasting (fdbKey pf) written) tenantId) := by
  refine Log.falling_reverse_sortBy (((Log.lasting_pairwise (fdbKey pf) written).filter _).imp fun hne heq => hne ?_)
  exact FdbKey.packed_injective heq

theorem mem_range {store : FdbStore} {e : EditLogEntry} :
    e ∈ store.range pf tenantId ↔ e ∈ store ∧ e.tenantId = tenantId := by
  rw [FdbStore.range, List.mem_reverse, (Log.sortBy_perm _ _).mem_iff, List.mem_filter, decide_eq_true_eq]
  rfl

theorem ahead_range (store : FdbStore) (e : EditLogEntry) :
    (Log.ahead (fun e => (fdbKey pf e).packed) (store.range pf tenantId) e).length =
      (store.filter fun e' => e'.tenantId = tenantId ∧ (fdbKey pf e).packed < (fdbKey pf e').packed).length := by
  refine ((((List.reverse_perm _).trans (Log.sortBy_perm _ _)).filter _).length_eq).trans ?_
  rw [List.filter_filter]
  refine congrArg List.length (List.filter_congr fun e' _ => ?_)
  rw [← Bool.decide_and]
  exact decide_eq_decide.mpr and_comm

theorem falling_newest (hdistinct : written.Pairwise fun e e' => e.createdAt.instant ≠ e'.createdAt.instant) :
    Log.Falling (fun e => e.createdAt.instant) (Log.sortBy (fun e => e.createdAt.instant)
      (written.filter fun e => e.tenantId = tenantId ∧ e.branch = branch)).reverse :=
  Log.falling_reverse_sortBy (hdistinct.filter _)

/-- Entries of different times are told apart by their normal forms. -/
theorem eq_of_map_normal (hdistinct : written.Pairwise fun e e' => e.createdAt.instant ≠ e'.createdAt.instant)
    (haware : ∀ e ∈ written, e.createdAt.aware) {a b : List EditLogEntry} (ha : ∀ e ∈ a, e ∈ written)
    (hb : ∀ e ∈ b, e ∈ written) (h : a.map EditLogEntry.normal = b.map EditLogEntry.normal) : a = b := by
  induction a generalizing b with
  | nil => exact (List.map_eq_nil_iff.mp h.symm).symm
  | cons e a ih =>
    obtain ⟨e', b', rfl, he, hrest⟩ := List.map_eq_cons_iff.mp h.symm
    have hmem := ha e List.mem_cons_self
    have hmem' := hb e' List.mem_cons_self
    have hinstant : e'.createdAt.instant = e.createdAt.instant := by
      have hdate := congrArg EditLogEntry.createdAt he
      simp only [EditLogEntry.normal, DateTime.normal, haware e hmem, haware e' hmem', if_true] at hdate
      exact congrArg DateTime.clock hdate
    have hnodup : (written.map fun e => e.createdAt.instant).Nodup := List.pairwise_map.mpr hdistinct
    rw [List.inj_on_of_nodup_map hnodup hmem' hmem hinstant, ih (fun c hc => ha c (List.mem_cons_of_mem _ hc))
      (fun c hc => hb c (List.mem_cons_of_mem _ hc)) hrest.symm]

/-- The table is right about all histories. -/
theorem recent_table (haware : ∀ e ∈ written, e.createdAt.aware) :
    Recent tenantId branch limit written (EditLogTable.readRecent (written.map (toRow pf)) tenantId branch limit) := by
  have hrows : ((written.map (toRow pf)).filter fun e => e.tenantId = tenantId ∧ e.branch = branch) =
      (written.filter fun e => e.tenantId = tenantId ∧ e.branch = branch).map (toRow pf) := List.filter_map
  have hinstant : ∀ e ∈ written, (toRow pf e).createdAt.instant = e.createdAt.instant := fun e he => by
    have hdate := congrArg EditLogEntry.createdAt (@normal_toRow pf e (haware e he))
    simp only [EditLogEntry.normal, DateTime.normal, haware e he, if_true] at hdate
    exact congrArg DateTime.clock hdate
  have hsort : Log.sortBy (fun e => e.createdAt.instant)
      ((written.filter fun e => e.tenantId = tenantId ∧ e.branch = branch).map (toRow pf)) =
      (Log.sortBy (fun e => e.createdAt.instant)
        (written.filter fun e => e.tenantId = tenantId ∧ e.branch = branch)).map (toRow pf) := by
    refine (List.map_insertionSort _ _ _ _ fun e he e' he' => ?_).symm
    beta_reduce
    rw [hinstant e (List.mem_filter.mp he).1, hinstant e' (List.mem_filter.mp he').1]
  simp only [Recent, EditLogTable.readRecent, hrows, hsort, newestEntries]
  rw [← List.map_reverse, ← List.map_take, List.map_map]
  refine List.map_congr_left fun e he => normal_toRow (haware e ?_)
  have hmem := List.mem_reverse.mp (List.mem_of_mem_take he)
  exact (List.mem_filter.mp ((Log.sortBy_perm _ _).mem_iff.mp hmem)).1

/-- With the limit 0 the whole range is fetched, and the first entry of the branch is returned. -/
theorem readRecent_zero (store : FdbStore) : store.readRecent pf tenantId branch 0 =
    (((store.range pf tenantId).filter fun data => data.branch = branch).take 1).map dataToEntry :=
  collect_eq [] _

theorem readRecent_pos (store : FdbStore) (hpos : 0 < limit) : store.readRecent pf tenantId branch limit =
    ((((store.range pf tenantId).take (limit * 2)).filter fun data => data.branch = branch).take limit).map
      dataToEntry := by
  have hlimit : limit * 2 ≠ 0 := by omega
  have hmax : max 1 (limit - 0) = limit := by omega
  rw [FdbStore.readRecent, collect_eq, List.nil_append, List.length_nil, hmax, FdbStore.getRange, if_neg hlimit]

theorem recent_zero_iff (store : FdbStore) :
    Recent tenantId branch 0 written (store.readRecent pf tenantId branch 0) ↔
      InReach pf tenantId branch 0 written store := by
  have hnone : newestEntries tenantId branch 0 written = [] := rfl
  rw [Recent, readRecent_zero, hnone, List.map_nil, List.map_eq_nil_iff, List.map_eq_nil_iff, List.take_eq_nil_iff]
  simp only [one_ne_zero, false_or, List.filter_eq_nil_iff, mem_range, decide_eq_true_eq]
  refine ⟨fun h => ⟨fun _ e he htenant => h e ⟨he, htenant⟩, ?_, ?_⟩, fun h e he => h.unlimited rfl e he.1 he.2⟩
  · rw [hnone]
    exact fun _ he => absurd he List.not_mem_nil
  · rw [hnone]
    exact fun _ he => absurd he List.not_mem_nil

theorem recent_fdb_iff (hdistinct : written.Pairwise fun e e' => e.createdAt.instant ≠ e'.createdAt.instant)
    (haware : ∀ e ∈ written, e.createdAt.aware) :
    Recent tenantId branch limit written
        (FdbStore.readRecent pf (Log.lasting (fdbKey pf) written) tenantId branch limit) ↔
      InReach pf tenantId branch limit written (Log.lasting (fdbKey pf) written) := by
  rcases Nat.eq_zero_or_pos limit with rfl | hpos
  · exact recent_zero_iff _
  have hstored : ∀ e ∈ Log.lasting (fdbKey pf) written, e ∈ written := fun e he =>
    (Log.lasting_sublist _ _).subset he
  have hnewest : ∀ e ∈ newestEntries tenantId branch limit written, e ∈ written ∧ e.tenantId = tenantId ∧
      e.branch = branch := fun e he => by
    have hmem := List.mem_reverse.mp (List.mem_of_mem_take he)
    simpa using List.mem_filter.mp ((Log.sortBy_perm _ _).mem_iff.mp hmem)
  have hfetched : ∀ e ∈ (((FdbStore.range pf (Log.lasting (fdbKey pf) written) tenantId).take (limit * 2)).filter
      fun data => data.branch = branch).take limit, e ∈ written := fun e he =>
    hstored e (mem_range.mp (List.mem_of_mem_take (List.mem_filter.mp (List.mem_of_mem_take he)).1)).1
  have hback : ∀ l : List EditLogEntry, (∀ e ∈ l, e ∈ written) →
      (l.map dataToEntry).map EditLogEntry.normal = l.map EditLogEntry.normal := fun l hl => by
    rw [List.map_map]
    exact List.map_congr_left fun e he => normal_dataToEntry (haware e (hl e he))
  have hread : Recent tenantId branch limit written
      (FdbStore.readRecent pf (Log.lasting (fdbKey pf) written) tenantId branch limit) ↔
      (((FdbStore.range pf (Log.lasting (fdbKey pf) written) tenantId).take (limit * 2)).filter
        fun data => data.branch = branch).take limit = newestEntries tenantId branch limit written := by
    rw [Recent, readRecent_pos _ hpos, hback _ hfetched]
    exact ⟨eq_of_map_normal hdistinct haware hfetched fun e he => (hnewest e he).1, congrArg _⟩
  rw [hread]
  refine (Log.take_filter_eq_iff falling_range (falling_newest hdistinct) (fun e he => ?_) (fun e he hbranch => ?_)
    _ _).trans ?_
  · have hmem := List.mem_filter.mp ((Log.sortBy_perm _ _).mem_iff.mp (List.mem_reverse.mp he))
    exact decide_eq_true (of_decide_eq_true hmem.2).2
  · obtain ⟨hmem, htenant⟩ := mem_range.mp he
    rw [List.mem_reverse, (Log.sortBy_perm _ _).mem_iff, List.mem_filter]
    exact ⟨hstored e hmem, decide_eq_true ⟨htenant, of_decide_eq_true hbranch⟩⟩
  simp only [Log.mem_take_iff falling_range, mem_range, ahead_range, decide_eq_true_eq]
  constructor
  · intro h
    refine ⟨fun hzero => absurd hzero hpos.ne', fun e he => ?_, fun e he e' he' htenant hbranch => ?_⟩
    · exact ⟨(h e he).1.1.1, (h e he).1.2⟩
    · exact (h e he).2 e' ⟨he', htenant⟩ hbranch
  · intro h e he
    refine ⟨⟨⟨(h.fetched e he).1, (hnewest e he).2.1⟩, (h.fetched e he).2⟩, fun e' he' hbranch => ?_⟩
    exact h.inTurn e he e' he'.1 he'.2 hbranch

end Recent

/-- Back ends that both hold all that was written. -/
theorem recent_iff (tenantId branch : String) (limit : ℕ) (written : List EditLogEntry) {table : EditLogTable}
    (hwritten : written.foldlM (EditLogTable.write pf) [] = some table)
    (hdistinct : written.Pairwise fun e e' => e.createdAt.instant ≠ e'.createdAt.instant)
    (haware : ∀ e ∈ written, e.createdAt.aware) :
    (Recent tenantId branch limit written (table.readRecent tenantId branch limit) ∧
      Recent tenantId branch limit written
        ((written.foldl (FdbStore.write pf) []).readRecent pf tenantId branch limit)) ↔
      InReach pf tenantId branch limit written (written.foldl (FdbStore.write pf) []) := by
  rw [write_all hwritten, write_all_fdb, recent_fdb_iff hdistinct haware]
  exact and_iff_right (recent_table haware)

/-- An edit of the given type. -/
def editOf (typeRid entryId : String) (second : ℤ) : EditLogEntry := { edit entryId "main" second with typeRid := typeRid }

theorem recent_iff_types :
    (Recent "t" "main" 2 [editOf "ri.obj.2" "b" 0, editOf "ri.obj.1" "a" 1]
        (EditLogTable.readRecent [editOf "ri.obj.2" "b" 0, editOf "ri.obj.1" "a" 1] "t" "main" 2) ∧
      Recent "t" "main" 2 [editOf "ri.obj.2" "b" 0, editOf "ri.obj.1" "a" 1]
        (([editOf "ri.obj.2" "b" 0, editOf "ri.obj.1" "a" 1].foldl (FdbStore.write .plain) []).readRecent .plain "t"
          "main" 2)) ↔
      InReach .plain "t" "main" 2 [editOf "ri.obj.2" "b" 0, editOf "ri.obj.1" "a" 1]
        ([editOf "ri.obj.2" "b" 0, editOf "ri.obj.1" "a" 1].foldl (FdbStore.write .plain) []) :=
  recent_iff .plain "t" "main" 2 _ (by decide) (by decide) (by decide)

/-- The newer entry has the smaller type. -/
theorem older_returned :
    (EditLogTable.readRecent [editOf "ri.obj.2" "b" 0, editOf "ri.obj.1" "a" 1] "t" "main" 1).map
      EditLogEntry.entryId = ["a"] ∧
    (([editOf "ri.obj.2" "b" 0, editOf "ri.obj.1" "a" 1].foldl (FdbStore.write .plain) []).readRecent .plain "t"
      "main" 1).map EditLogEntry.entryId = ["b"] ∧
    ¬ Recent "t" "main" 1 [editOf "ri.obj.2" "b" 0, editOf "ri.obj.1" "a" 1]
      (([editOf "ri.obj.2" "b" 0, editOf "ri.obj.1" "a" 1].foldl (FdbStore.write .plain) []).readRecent .plain "t"
        "main" 1) := by
  refine ⟨by decide, by decide, ?_⟩
  unfold Recent
  decide

end Lingshu.Data
