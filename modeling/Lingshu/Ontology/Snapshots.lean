import Lingshu.Ontology.ActiveVersions
import Mathlib.Data.List.Find

/-! # Snapshots and tenants

Rows of snapshots are looked up by id alone. `get_snapshot` and `get_snapshot_diff` come to the calls, and a call is
compared with the same call in stores that hold no row of another tenant. -/
namespace Lingshu.Ontology
open Json Interaction
set_option autoImplicit false

/-! ## Reading snapshots -/

def snapshotResponse (snap : Snapshot) : SnapshotResponse :=
  ⟨snap.snapshotId, snap.parentSnapshotId, snap.tenantId, snap.commitMessage, snap.author, snap.entityChanges,
    snap.createdAt⟩

def getSnapshot (snapshotId : String) : Program SnapshotResponse := do
  let snap ← getById snapshotId
  match snap with
  | none => .throw (appError .ontologyNotFound ("Snapshot " ++ snapshotId ++ " not found") [])
  | some snap => return snapshotResponse snap

structure SnapshotDiffResponse where
  snapshotChanges : String → Option Change := fun _ => none
  currentChanges : String → Option Change := fun _ => none

/-- The changes of the current snapshot. -/
def currentChanges : Option String → Program (String → Option Change)
  | none | some "" => return fun _ => none
  | some currentSnapshotId => do
    let current ← getById currentSnapshotId
    return match current with
      | some current => current.entityChanges
      | none => fun _ => none

/-- `get_diff`; of a snapshot that does not exist it returns a key that the response does not have. -/
def getDiff (snapshotId : String) (currentSnapshotId : Option String) : Program SnapshotDiffResponse := do
  let snap ← getById snapshotId
  match snap with
  | none => return {}
  | some snap =>
    let current ← currentChanges currentSnapshotId
    return ⟨snap.entityChanges, current⟩

def getSnapshotDiff (ctx : Ctx) (snapshotId : String) : Program SnapshotDiffResponse := do
  let pointer ← getActivePointer ctx.tenantId
  getDiff snapshotId pointer

/-! ## Tenants -/

/-- The stores without the snapshots of other tenants. -/
def World.only (w : World) (tenantId : String) : World :=
  { w with snapshots := w.snapshots.filter fun s => s.tenantId = tenantId }

/-- Every tenant's pointer refers to a snapshot of the tenant. -/
def PointersInside (w : World) : Prop :=
  ∀ tenantId snapshotId, w.pointers tenantId = some snapshotId →
    ∃ s ∈ w.snapshots, s.snapshotId = snapshotId ∧ s.tenantId = tenantId

/-- The program returns, and leaves behind, what it does where other tenants have no snapshots. -/
def Independent {α : Type} (tenantId : String) (p : Program α) (w : World) : Prop :=
  p.run exec (w.only tenantId) = ((p.run exec w).1, (p.run exec w).2.only tenantId)

/-- The rows with the id are the tenant's. -/
def Owns (w : World) (tenantId snapshotId : String) : Prop :=
  ∀ s ∈ w.snapshots, s.snapshotId = snapshotId → s.tenantId = tenantId

inductive SnapshotRead where
  | snapshot (snapshotId : String)
  | diff (snapshotId : String)

def SnapshotRead.target : SnapshotRead → String
  | .snapshot snapshotId | .diff snapshotId => snapshotId

inductive SnapshotEvent where
  | serial (e : SerialEvent)
  | read (ctx : Ctx) (r : SnapshotRead)

def SnapshotEvent.next (s : Serial) : SnapshotEvent → Serial
  | .serial e => s.next e
  | .read .. => s

def SnapshotEvent.Admitted (s : Serial) : SnapshotEvent → Prop
  | .serial e => s.Admits e
  | .read .. => True

instance (s : Serial) : (e : SnapshotEvent) → Decidable (e.Admitted s)
  | .serial e => inferInstanceAs (Decidable (s.Admits e))
  | .read .. => isTrue trivial

/-- The calls that work on snapshots depend on no snapshot of another tenant. -/
def SnapshotEvent.Independent (s : Serial) : SnapshotEvent → Prop
  | .serial (.call ⟨ctx, .commitStaging m⟩) => Ontology.Independent ctx.tenantId (commitStaging ctx m) s.world
  | .serial (.call ⟨ctx, .rollbackToSnapshot target⟩) => Ontology.Independent ctx.tenantId (rollbackToSnapshot ctx target) s.world
  | .serial _ => True
  | .read ctx (.snapshot snapshotId) => Ontology.Independent ctx.tenantId (getSnapshot snapshotId) s.world
  | .read ctx (.diff snapshotId) => Ontology.Independent ctx.tenantId (getSnapshotDiff ctx snapshotId) s.world

/-- The snapshots that are read, or restored, are the tenant's own. -/
def SnapshotEvent.Own (s : Serial) : SnapshotEvent → Prop
  | .serial (.call ⟨ctx, .rollbackToSnapshot target⟩) =>
    s.world.graph.hasUncommittedChanges ctx.tenantId = false → Owns s.world ctx.tenantId target
  | .serial _ => True
  | .read ctx r => Owns s.world ctx.tenantId r.target

/-- After the step the pointers refer to the tenants' own snapshots, and the call depended on no other. -/
def SnapshotEvent.StaysInside (s : Serial) (e : SnapshotEvent) : Prop :=
  PointersInside (SnapshotEvent.next s e).world ∧ e.Independent s

/-! ## Programs that read their own rows -/

section Local
variable {ids : String → Prop} {tenantId : String}

def PgWrite.Local (ids : String → Prop) (tenantId : String) : PgWrite → Prop
  | .insertSnapshot s => ids s.snapshotId ∧ s.tenantId = tenantId
  | _ => True

/-- The command reads and writes only rows with an id in `ids`. -/
def Cmd.Local (ids : String → Prop) (tenantId : String) : Cmd → Prop
  | .pgGetSnapshot snapshotId => ids snapshotId
  | .pgFlush row => row.Local ids tenantId
  | .pgCommit rows => ∀ row ∈ rows, row.Local ids tenantId
  | _ => True

/-- The rows with an id in `ids` are the tenant's. -/
def OwnsAll (ids : String → Prop) (tenantId : String) (w : World) : Prop :=
  ∀ s ∈ w.snapshots, ids s.snapshotId → s.tenantId = tenantId

theorem violates_only {row : PgWrite} {w : World} (hrow : row.Local ids tenantId) (hw : OwnsAll ids tenantId w) :
    row.violates (w.only tenantId) = row.violates w := by
  cases row with
  | insertPointer | updatePointer => rfl
  | insertSnapshot s =>
    simp only [PgWrite.violates, World.only, List.any_filter]
    rw [Bool.eq_iff_iff, List.any_eq_true, List.any_eq_true]
    refine exists_congr fun s' => and_congr_right fun hs' => ?_
    simp only [Bool.and_eq_true, decide_eq_true_eq, and_iff_right_iff_imp]
    intro hid
    exact hw s' hs' (hid ▸ hrow.1)

theorem apply_only {row : PgWrite} (w : World) (hrow : row.Local ids tenantId) :
    row.apply (w.only tenantId) = (row.apply w).only tenantId := by
  cases row with
  | insertPointer | updatePointer => rfl
  | insertSnapshot s =>
    have htenant : s.tenantId = tenantId := hrow.2
    simp [PgWrite.apply, World.only, htenant]

theorem foldl_apply_only {rows : List PgWrite} (w : World) (hrows : ∀ row ∈ rows, row.Local ids tenantId) :
    rows.foldl PgWrite.apply (w.only tenantId) = (rows.foldl PgWrite.apply w).only tenantId := by
  induction rows generalizing w with
  | nil => rfl
  | cons row rows ih =>
    rw [List.foldl_cons, List.foldl_cons, apply_only w (hrows row List.mem_cons_self)]
    exact ih _ fun r hr => hrows r (List.mem_cons_of_mem _ hr)

theorem ownsAll_apply {row : PgWrite} {w : World} (hrow : row.Local ids tenantId) (hw : OwnsAll ids tenantId w) :
    OwnsAll ids tenantId (row.apply w) := by
  cases row with
  | insertPointer | updatePointer => exact hw
  | insertSnapshot s =>
    intro s' hs' hid
    rcases List.mem_cons.mp hs' with rfl | hs'
    · exact hrow.2
    · exact hw s' hs' hid

theorem ownsAll_foldl {rows : List PgWrite} {w : World} (hrows : ∀ row ∈ rows, row.Local ids tenantId)
    (hw : OwnsAll ids tenantId w) : OwnsAll ids tenantId (rows.foldl PgWrite.apply w) := by
  induction rows generalizing w with
  | nil => exact hw
  | cons row rows ih =>
    exact ih (fun r hr => hrows r (List.mem_cons_of_mem _ hr)) (ownsAll_apply (hrows row List.mem_cons_self) hw)

theorem find_only {w : World} {snapshotId : String} (hid : ids snapshotId) (hw : OwnsAll ids tenantId w) :
    (w.only tenantId).snapshots.find? (fun s => s.snapshotId = snapshotId) =
      w.snapshots.find? fun s => s.snapshotId = snapshotId := by
  rw [World.only, List.find?_filter]
  refine List.find?_congr fun s hs => ?_
  by_cases h : s.snapshotId = snapshotId
  · simp [h, hw s hs (h ▸ hid)]
  · simp [h]

/-- A local command does the same without the rows of other tenants. -/
theorem exec_only {c : Cmd} {w : World} (hc : c.Local ids tenantId) (hw : OwnsAll ids tenantId w) :
    exec c (w.only tenantId) = ((exec c w).1, (exec c w).2.only tenantId) ∧ OwnsAll ids tenantId (exec c w).2 := by
  cases c with
  | pgGetSnapshot snapshotId =>
    have hfind := find_only hc hw
    exact ⟨congrArg (fun a => (Except.ok a, w.only tenantId)) hfind, hw⟩
  | pgFlush row =>
    have hviolates := violates_only hc hw
    simp only [exec, hviolates]
    split
    · exact ⟨rfl, hw⟩
    · exact ⟨rfl, hw⟩
  | pgCommit rows =>
    have hviolates : rows.any (PgWrite.violates (w.only tenantId)) = rows.any (PgWrite.violates w) := by
      rw [Bool.eq_iff_iff, List.any_eq_true, List.any_eq_true]
      exact exists_congr fun row => and_congr_right fun hrow => by rw [violates_only (hc row hrow) hw]
    simp only [exec, hviolates]
    split
    · exact ⟨rfl, hw⟩
    · exact ⟨congrArg (Prod.mk _) (foldl_apply_only w hc), ownsAll_foldl hc hw⟩
  | createNode | updateNode =>
    simp only [exec]
    split
    · exact ⟨rfl, hw⟩
    · exact ⟨rfl, hw⟩
  | redisSetNx key value =>
    have hkey : (w.only tenantId).redis key = w.redis key := rfl
    simp only [exec, hkey]
    split
    · exact ⟨rfl, hw⟩
    · exact ⟨rfl, hw⟩
  | _ => exact ⟨rfl, hw⟩

/-- So does a program of local commands. -/
theorem run_only {α : Type} {Q : α → Prop} {p : Program α} {w : World}
    (hp : p.Meets (Cmd.Local ids tenantId) (fun _ _ => True) Q) (hw : OwnsAll ids tenantId w) :
    Independent tenantId p w := by
  unfold Independent
  induction p generalizing w with
  | pure a => rfl
  | throw e => rfl
  | call c k ih =>
    obtain ⟨hexec, hnext⟩ := exec_only hp.1 hw
    rw [Prog.run_call, Prog.run_call, hexec]
    exact ih _ (hp.next fun _ _ => trivial) hnext

end Local

/-! ## The calls -/

section Calls
variable {ctx : Ctx} {w : World}

theorem local_issue {ids : String → Prop} {tenantId : String} {c : Cmd} (h : c.Local ids tenantId) :
    Sends (Cmd.Local ids tenantId) (fun _ _ => True) (issue c) := Sends.issue h

theorem local_setActivePointer (ids : String → Prop) (tenantId snapshotId : String) :
    (setActivePointer tenantId snapshotId).Meets (Cmd.Local ids tenantId) (fun _ _ => True)
      fun row => row.Local ids tenantId := by
  have hrow : ∀ existing : Option String, (if existing.isSome then PgWrite.updatePointer tenantId snapshotId
      else .insertPointer tenantId snapshotId).Local ids tenantId := by
    intro existing
    split <;> trivial
  refine Prog.Meets.bind (local_issue (c := .pgGetPointer tenantId) trivial) fun existing _ => ?_
  exact Prog.Meets.bind (local_issue (hrow existing)) fun _ _ => hrow existing

theorem local_promote (ids : String → Prop) (tenantId snapshotId : String) :
    Sends (Cmd.Local ids tenantId) (fun _ _ => True) (promoteStagingToActive tenantId snapshotId) := by
  refine Sends.bind (Sends.issue trivial) fun _ => ?_
  refine Sends.bind (Sends.issue trivial) fun _ => ?_
  exact Sends.bind (Sends.issue trivial) fun _ => Sends.pure _

theorem local_onSchemaPublished (ids : String → Prop) (tenantId snapshotId : String) :
    Sends (Cmd.Local ids tenantId) (fun _ _ => True) (onSchemaPublished tenantId snapshotId) := by
  refine Sends.bind (Sends.issue trivial) fun found => ?_
  refine Sends.bind ?_ fun _ => Sends.issue trivial
  induction found with
  | nil => exact Sends.pure _
  | cons keys found ih => exact Sends.ite ih (Sends.bind (Sends.issue trivial) fun _ => ih)

theorem local_entityChangesLoop (ids : String → Prop) (tenantId : String) (nodes : List Node)
    (changes : String → Option Change) :
    Sends (Cmd.Local ids tenantId) (fun _ _ => True) (entityChangesLoop tenantId nodes changes) := by
  induction nodes generalizing changes with
  | nil => exact Sends.pure _
  | cons node nodes ih => exact Sends.ite (Sends.bind (Sends.issue trivial) fun _ => ih _) (ih _)

/-- A commit works on no row but its own. -/
theorem local_commitStaging (m : Option String) :
    Sends (Cmd.Local (· = ctx.snapshotId) ctx.tenantId) (fun _ _ => True) (commitStaging ctx m) := by
  refine Sends.bind (Sends.issue trivial) fun acquired => Sends.ite ?_ (Sends.throw _)
  refine Prog.Meets.tryFinally ?_ (local_issue (c := .redisDelete (.commitLock ctx.tenantId)) trivial)
  refine Sends.bind (Sends.issue trivial) fun nodes => Sends.ite (Sends.throw _) ?_
  refine Sends.bind (local_entityChangesLoop _ _ _ _) fun changes => ?_
  refine Sends.bind (Sends.issue trivial) fun parent => ?_
  let snapshot : Snapshot := ⟨ctx.snapshotId, parent, ctx.tenantId, m, ctx.userId, changes, entityDataOf nodes fun _ => none, ctx.now⟩
  have hrow : (PgWrite.insertSnapshot snapshot).Local (· = ctx.snapshotId) ctx.tenantId := ⟨rfl, rfl⟩
  have hinserted : (createSnapshot snapshot).Meets (Cmd.Local (· = ctx.snapshotId) ctx.tenantId) (fun _ _ => True)
      (· = .insertSnapshot snapshot) := Prog.Meets.bind (Sends.issue hrow) fun _ _ => rfl
  refine Prog.Meets.bind hinserted fun inserted hi => ?_
  subst hi
  refine Sends.bind (Sends.retry (local_promote _ _ _) _) fun _ => ?_
  refine Prog.Meets.bind (local_setActivePointer _ _ _) fun pointed hp => ?_
  have hrows : (Cmd.pgCommit [.insertSnapshot snapshot, pointed]).Local (· = ctx.snapshotId) ctx.tenantId := by
    intro row hmem
    simp only [List.mem_cons, List.not_mem_nil, or_false] at hmem
    rcases hmem with rfl | rfl
    · exact hrow
    · exact hp
  refine Sends.bind (Sends.issue hrows) fun _ => ?_
  exact Sends.bind (local_onSchemaPublished _ _ _) fun _ => Sends.pure _

theorem local_rollbackToSnapshot (target : String) :
    Sends (Cmd.Local (· = target) ctx.tenantId) (fun _ _ => True) (rollbackToSnapshot ctx target) := by
  refine Sends.bind (Sends.issue trivial) fun hasChanges => Sends.ite (Sends.throw _) ?_
  refine Sends.bind (Sends.issue rfl) fun snap => ?_
  cases snap with
  | none => exact Sends.throw _
  | some snap =>
    refine Sends.bind (Sends.issue trivial) fun pointer => ?_
    refine Sends.bind (Sends.bind (Sends.issue trivial) fun _ => Sends.issue trivial) fun _ => ?_
    refine Prog.Meets.bind (local_setActivePointer _ _ _) fun pointed hp => ?_
    have hrows : (Cmd.pgCommit [pointed]).Local (· = target) ctx.tenantId := by
      intro row hmem
      rw [List.mem_singleton.mp hmem]
      exact hp
    exact Sends.bind (Sends.issue hrows) fun _ => Sends.pure _

theorem local_getSnapshot (snapshotId : String) :
    Sends (Cmd.Local (· = snapshotId) ctx.tenantId) (fun _ _ => True) (getSnapshot snapshotId) := by
  refine Sends.bind (Sends.issue rfl) fun snap => ?_
  cases snap with
  | none => exact Sends.throw _
  | some snap => exact Sends.pure _

/-! ## What the calls return -/

/-- The snapshot with the id. -/
def World.snapshot (w : World) (snapshotId : String) : Option Snapshot := w.snapshots.find? fun s => s.snapshotId = snapshotId

def snapshotNotFound (snapshotId : String) : Exc :=
  appError .ontologyNotFound ("Snapshot " ++ snapshotId ++ " not found") []

/-- The changes of the snapshot that a pointer refers to. -/
def World.changesAt (w : World) : Option String → String → Option Change
  | none | some "" => fun _ => none
  | some current => ((w.snapshot current).map Snapshot.entityChanges).getD fun _ => none

/-- What `get_snapshot_diff` returns. -/
def diffOf (w : World) (tenantId snapshotId : String) : SnapshotDiffResponse :=
  ((w.snapshot snapshotId).map fun snap => ⟨snap.entityChanges, w.changesAt (w.pointers tenantId)⟩).getD {}

theorem run_getSnapshot (snapshotId : String) : (getSnapshot snapshotId).run exec w =
    (((w.snapshot snapshotId).map snapshotResponse).elim (.error (snapshotNotFound snapshotId)) .ok, w) := by
  refine (Prog.run_bind_ok exec (run_getById w snapshotId) _).trans ?_
  unfold World.snapshot
  cases w.snapshots.find? fun s => s.snapshotId = snapshotId <;> rfl

theorem run_currentChanges (pointer : Option String) :
    (currentChanges pointer).run exec w = (.ok (w.changesAt pointer), w) := by
  unfold currentChanges
  split
  · rfl
  · rfl
  · rename_i current hcurrent
    refine (Prog.run_bind_ok exec (run_getById w current) _).trans ?_
    have hchanges : w.changesAt (some current) = ((w.snapshot current).map Snapshot.entityChanges).getD fun _ => none := by
      unfold World.changesAt
      split
      · contradiction
      · rename_i heq
        exact absurd (Option.some.inj heq) hcurrent
      · rename_i heq
        rw [Option.some.inj heq]
    rw [hchanges]
    unfold World.snapshot
    cases w.snapshots.find? fun s => s.snapshotId = current <;> rfl

theorem run_getSnapshotDiff (snapshotId : String) :
    (getSnapshotDiff ctx snapshotId).run exec w = (.ok (diffOf w ctx.tenantId snapshotId), w) := by
  refine (Prog.run_bind_ok exec (run_getActivePointer w ctx.tenantId) _).trans ?_
  refine (Prog.run_bind_ok exec (run_getById w snapshotId) _).trans ?_
  unfold diffOf World.snapshot
  cases w.snapshots.find? fun s => s.snapshotId = snapshotId with
  | none => rfl
  | some snap => exact Prog.run_bind_ok exec (run_currentChanges (w.pointers ctx.tenantId)) _

end Calls

/-! ## Invariants of a sequence of calls -/

/-- What a call of another kind leaves alone. -/
theorem after_rows {call : Call} (h : ¬ call.op.Publishes) (w : World) :
    (after call w).snapshots = w.snapshots ∧ (after call w).pointers = w.pointers := by
  refine after_inv (G := fun _ => True) (J := fun w' => w'.snapshots = w.snapshots ∧ w'.pointers = w.pointers)
    (fun _ _ _ _ => trivial) ?_ ⟨rfl, rfl⟩
  rintro c w' hc ⟨hs, hp⟩
  suffices hsame : (exec c w').2.snapshots = w'.snapshots ∧ (exec c w').2.pointers = w'.pointers from
    ⟨hsame.1.trans hs, hsame.2.trans hp⟩
  cases hc with
  | new | clone | edit | submit | cascade | unstage => simp only [exec]; split <;> exact ⟨rfl, rfl⟩
  | dropDraft | dropStaging | belongsTo | basedOn => exact ⟨rfl, rfl⟩
  | deactivateStaged | promoteStaged | cleanupDeleted | publish | deactivateSnapshot | reactivateSnapshot | repoint =>
    exact absurd trivial h
  | quiet hq => exact (exec_quiet hq w').2

theorem changesOf_ne_none {g : Graph} {tenantId : String} {nodes : List Node} {changes : String → Option Change}
    (h : nodes ≠ [] ∨ ∃ rid, (changes rid).isSome) : ∃ rid, (changesOf g tenantId nodes changes rid).isSome := by
  induction nodes generalizing changes with
  | nil => exact h.resolve_left fun hne => hne rfl
  | cons node nodes ih =>
    refine ih (.inr ⟨node.rid, ?_⟩)
    rw [Function.update_self]
    rfl

/-- The rows have distinct ids and are no empty commits, and every pointer refers to a row of its tenant. -/
structure World.Kept (w : World) : Prop where
  ids : (w.snapshots.map Snapshot.snapshotId).Nodup
  changes : ∀ s ∈ w.snapshots, ∃ rid, (s.entityChanges rid).isSome
  inside : PointersInside w

theorem World.Kept.congr {w w' : World} (h : w.Kept) (hs : w'.snapshots = w.snapshots) (hp : w'.pointers = w.pointers) :
    w'.Kept where
  ids := hs ▸ h.ids
  changes := hs ▸ h.changes
  inside := by
    intro tenantId snapshotId hpointer
    rw [hs]
    rw [hp] at hpointer
    exact h.inside tenantId snapshotId hpointer

section Step
variable {w : World} {ctx : Ctx} {calls : List Call} {snapshotId : String}

theorem kept_commit {m : Option String} (h : w.Kept) (hw : w.Sound calls) (hctx : ∀ call ∈ calls, call.ctx.uuid ≠ ctx.uuid) :
    (after ⟨ctx, .commitStaging m⟩ w).Kept := by
  by_cases hrefused : w.redis (.commitLock ctx.tenantId) ≠ none ∨ w.graph.getStagingNodes ctx.tenantId = []
  · obtain ⟨_, hsame⟩ := commit_refused (m := m) hrefused
    exact h.congr hsame.snapshots hsame.pointers
  · rw [not_or, not_not] at hrefused
    obtain ⟨_, k, _, _, hstored⟩ := commit_accepted (m := m) hrefused.1 hrefused.2 (hw.fresh_snapshot hctx)
    obtain ⟨s, hs, hid, htenant, _, hchanges⟩ := hstored.snapshot
    constructor
    · rw [hs, List.map_cons, List.nodup_cons]
      refine ⟨fun hmem => ?_, h.ids⟩
      obtain ⟨s', hs', hid'⟩ := List.mem_map.mp hmem
      exact hstored.fresh s' hs' (hid'.trans hid)
    · rw [hs]
      intro s' hs'
      rcases List.mem_cons.mp hs' with rfl | hs'
      · rw [hchanges]
        exact changesOf_ne_none (.inl hrefused.2)
      · exact h.changes s' hs'
    · intro tenantId snapshotId hpointer
      rw [hs]
      rw [hstored.pointers] at hpointer
      by_cases ht : tenantId = ctx.tenantId
      · rw [ht, Function.update_self] at hpointer
        exact ⟨s, List.mem_cons_self, hid.trans (Option.some.inj hpointer), htenant.trans ht.symm⟩
      · rw [Function.update_of_ne ht] at hpointer
        obtain ⟨s', hs', h'⟩ := h.inside tenantId snapshotId hpointer
        exact ⟨s', List.mem_cons_of_mem _ hs', h'⟩

theorem kept_rollback (h : w.Kept) (hown : w.graph.hasUncommittedChanges ctx.tenantId = false → Owns w ctx.tenantId snapshotId) :
    (after ⟨ctx, .rollbackToSnapshot snapshotId⟩ w).Kept := by
  by_cases hrolls : RollsBack w ctx.tenantId snapshotId
  · rw [(rollback_accepted hrolls).2]
    refine ⟨h.ids, h.changes, fun tenantId current hpointer => ?_⟩
    by_cases ht : tenantId = ctx.tenantId
    · obtain ⟨hchanges, s, hs, hid⟩ := hrolls
      rw [ht] at hpointer
      change Function.update w.pointers ctx.tenantId (some snapshotId) ctx.tenantId = some current at hpointer
      rw [Function.update_self] at hpointer
      exact ⟨s, hs, hid.trans (Option.some.inj hpointer), (hown hchanges s hs hid).trans ht.symm⟩
    · change Function.update w.pointers ctx.tenantId (some snapshotId) tenantId = some current at hpointer
      rw [Function.update_of_ne ht] at hpointer
      exact h.inside tenantId current hpointer
  · rw [(rollback_refused hrolls).2]
    exact h

/-- Without other tenants' rows, another tenant's snapshot is not there. -/
theorem snapshot_only_none (h : w.Kept) (hown : ¬ Owns w ctx.tenantId snapshotId) :
    (∃ s, w.snapshot snapshotId = some s) ∧ (w.only ctx.tenantId).snapshot snapshotId = none := by
  unfold Owns at hown
  push Not at hown
  obtain ⟨s, hs, hid, htenant⟩ := hown
  constructor
  · exact Option.isSome_iff_exists.mp (List.find?_isSome.mpr ⟨s, hs, decide_eq_true hid⟩)
  · refine List.find?_eq_none.mpr fun s' hs' hid' => ?_
    obtain ⟨hs', htenant'⟩ := List.mem_filter.mp hs'
    obtain rfl : s' = s := List.inj_on_of_nodup_map h.ids hs' hs ((of_decide_eq_true hid').trans hid.symm)
    exact htenant (of_decide_eq_true htenant')

theorem independent_getSnapshot_iff (h : w.Kept) :
    Independent ctx.tenantId (getSnapshot snapshotId) w ↔ Owns w ctx.tenantId snapshotId := by
  refine ⟨fun hind => ?_, run_only (local_getSnapshot snapshotId)⟩
  by_contra hown
  obtain ⟨⟨s, hs⟩, hnone⟩ := snapshot_only_none h hown
  rw [Independent, run_getSnapshot, run_getSnapshot, hs, hnone] at hind
  cases congrArg Prod.fst hind

theorem independent_getSnapshotDiff_iff (h : w.Kept) :
    Independent ctx.tenantId (getSnapshotDiff ctx snapshotId) w ↔ Owns w ctx.tenantId snapshotId := by
  rw [Independent, run_getSnapshotDiff, run_getSnapshotDiff]
  constructor
  · intro hind
    by_contra hown
    obtain ⟨⟨s, hs⟩, hnone⟩ := snapshot_only_none h hown
    have hdiff : diffOf (w.only ctx.tenantId) ctx.tenantId snapshotId = diffOf w ctx.tenantId snapshotId :=
      Except.ok.inj (congrArg Prod.fst hind)
    have hchanges := congrArg SnapshotDiffResponse.snapshotChanges hdiff
    rw [diffOf, diffOf, hs, hnone] at hchanges
    obtain ⟨rid, hrid⟩ := h.changes s (List.mem_of_find?_eq_some hs)
    have hnochange : none = s.entityChanges rid := congrFun hchanges rid
    rw [← hnochange] at hrid
    cases hrid
  · intro hown
    have hfind : ∀ id, Owns w ctx.tenantId id → (w.only ctx.tenantId).snapshot id = w.snapshot id :=
      fun id hid => @find_only (· = id) ctx.tenantId w id rfl hid
    have hcurrent : (w.only ctx.tenantId).changesAt (w.pointers ctx.tenantId) = w.changesAt (w.pointers ctx.tenantId) := by
      unfold World.changesAt
      split
      · rfl
      · rfl
      · rename_i current _ hpointer
        obtain ⟨s, hs, hid, htenant⟩ := h.inside ctx.tenantId current hpointer
        rw [hfind current fun s' hs' hid' => ?_]
        rw [List.inj_on_of_nodup_map h.ids hs' hs (hid'.trans hid.symm)]
        exact htenant
    have hdiff : diffOf (w.only ctx.tenantId) ctx.tenantId snapshotId = diffOf w ctx.tenantId snapshotId := by
      rw [diffOf, diffOf, hfind snapshotId hown]
      exact congrArg (fun changes => ((w.snapshot snapshotId).map fun snap =>
        SnapshotDiffResponse.mk snap.entityChanges changes).getD {}) hcurrent
    rw [hdiff]

theorem independent_rollback_iff (h : w.Kept) :
    Independent ctx.tenantId (rollbackToSnapshot ctx snapshotId) w ↔
      (w.graph.hasUncommittedChanges ctx.tenantId = false → Owns w ctx.tenantId snapshotId) := by
  constructor
  · intro hind hsettled
    by_contra hown
    obtain ⟨⟨s, hs⟩, hnone⟩ := snapshot_only_none h hown
    have hid : s.snapshotId = snapshotId := by simpa using List.find?_some (p := fun s => decide (Snapshot.snapshotId s = snapshotId)) hs
    have hrolls : RollsBack w ctx.tenantId snapshotId := ⟨hsettled, s, List.mem_of_find?_eq_some hs, hid⟩
    have hrefused : ¬ RollsBack (w.only ctx.tenantId) ctx.tenantId snapshotId := by
      rintro ⟨-, s', hs', hid'⟩
      exact absurd (List.find?_eq_none.mp hnone s' hs') (by simp [hid'])
    obtain ⟨hnot, -⟩ | ⟨-, a, hrun⟩ := run_rollback w ctx snapshotId
    · exact hnot hrolls
    obtain ⟨-, e, hrun'⟩ | ⟨hrolls', -⟩ := run_rollback (w.only ctx.tenantId) ctx snapshotId
    · rw [Independent, hrun, hrun'] at hind
      cases congrArg Prod.fst hind
    · exact hrefused hrolls'
  · intro hown
    cases hsettled : w.graph.hasUncommittedChanges ctx.tenantId with
    | false => exact run_only (local_rollbackToSnapshot snapshotId) (hown hsettled)
    | true =>
      have hchecked : (hasUncommittedChanges ctx.tenantId).run exec w = (.ok true, w) := by
        rw [run_hasUncommittedChanges, hsettled]
      have hchecked' : (hasUncommittedChanges ctx.tenantId).run exec (w.only ctx.tenantId) = (.ok true, w.only ctx.tenantId) := by
        rw [run_hasUncommittedChanges]
        exact congrArg (fun b => (Except.ok b, w.only ctx.tenantId)) hsettled
      unfold Independent rollbackToSnapshot
      rw [Prog.bind_eq, Prog.run_bind_ok exec hchecked, Prog.run_bind_ok exec hchecked']
      rfl

theorem independent_commit {m : Option String} (hw : w.Sound calls) (hctx : ∀ call ∈ calls, call.ctx.uuid ≠ ctx.uuid) :
    Independent ctx.tenantId (commitStaging ctx m) w :=
  run_only (local_commitStaging m) fun s hs hid => absurd hid (hw.fresh_snapshot hctx s hs)

end Step

/-! ## Sequences of calls -/

structure Serial.Kept (s : Serial) : Prop where
  sound : s.world.Sound s.calls
  kept : s.world.Kept

theorem Serial.Kept.next {s : Serial} {e : SnapshotEvent} (h : s.Kept) (ha : e.Admitted s) (hown : e.Own s) :
    (SnapshotEvent.next s e).Kept := by
  cases e with
  | read ctx r => exact h
  | serial e =>
    refine ⟨Serial.sound_world h.sound ha, ?_⟩
    cases e with
    | env v => exact h.kept.congr (v.apply_snapshots s.world) (v.apply_pointers s.world)
    | call call =>
      obtain ⟨ctx, op⟩ := call
      by_cases hp : op.Publishes
      · obtain ⟨m, rfl⟩ | ⟨target, rfl⟩ := Op.Publishes.cases hp
        · exact kept_commit h.kept h.sound (ha _ rfl).2
        · exact kept_rollback h.kept hown
      · obtain ⟨hs, hpointers⟩ := @after_rows ⟨ctx, op⟩ hp s.world
        exact h.kept.congr hs hpointers

theorem Serial.Kept.independent_iff {s : Serial} {e : SnapshotEvent} (h : s.Kept) (ha : e.Admitted s) :
    e.Independent s ↔ e.Own s := by
  cases e with
  | read ctx r =>
    cases r with
    | snapshot snapshotId => exact independent_getSnapshot_iff h.kept
    | diff snapshotId => exact independent_getSnapshotDiff_iff h.kept
  | serial e =>
    cases e with
    | env v => exact Iff.rfl
    | call call =>
      obtain ⟨ctx, op⟩ := call
      cases op with
      | commitStaging m => exact iff_of_true (independent_commit h.sound (ha _ rfl).2) trivial
      | rollbackToSnapshot target => exact independent_rollback_iff h.kept
      | _ => exact Iff.rfl

/-- In a sequence of calls every pointer stays on a snapshot of its tenant, and no call depends on a snapshot of another
tenant, exactly when every call that reads a snapshot, or restores one, is given a snapshot of its tenant. -/
theorem snapshots_stay_inside_iff {es : List SnapshotEvent}
    (ha : StepsMeet SnapshotEvent.next (fun s e => e.Admitted s) .empty es) :
    StepsMeet SnapshotEvent.next (fun s e => e.StaysInside s) .empty es ↔
      StepsMeet SnapshotEvent.next (fun s e => e.Own s) .empty es := by
  refine StepsMeet.iff_of_inv (K := Serial.Kept) ?_ ?_ ?_ ha
  · intro s e h he
    constructor
    · exact fun hin => (h.independent_iff he).mp hin.2
    · exact fun hown => ⟨(h.next he hown).kept.inside, (h.independent_iff he).mpr hown⟩
  · exact fun s e h he hown => h.next he hown
  · refine ⟨empty_sound [], List.nodup_nil, fun s hs => (nomatch hs), fun tenantId snapshotId h => ?_⟩
    cases h

/-- Each of two tenants publishes an entity, and looks at its own snapshot. -/
def twoPublished : List SnapshotEvent :=
  [.serial (.call ⟨⟨"t1", "u", "1", "a"⟩, .create .objectType [(.apiName, .str "Order")]⟩),
    .serial (.call ⟨⟨"t1", "u", "2", "b"⟩, .submitToStaging .objectType "ri.obj.a"⟩),
    .serial (.call ⟨⟨"t1", "u", "3", "s1"⟩, .commitStaging none⟩),
    .serial (.call ⟨⟨"t2", "v", "4", "c"⟩, .create .objectType [(.apiName, .str "Client")]⟩),
    .serial (.call ⟨⟨"t2", "v", "5", "d"⟩, .submitToStaging .objectType "ri.obj.c"⟩),
    .serial (.call ⟨⟨"t2", "v", "6", "s2"⟩, .commitStaging none⟩),
    .read ⟨"t1", "u", "7", "e"⟩ (.diff "ri.snap.s1"),
    .serial (.call ⟨⟨"t2", "v", "8", "f"⟩, .rollbackToSnapshot "ri.snap.s2"⟩)]

theorem snapshots_stay_inside_twoPublished :
    StepsMeet SnapshotEvent.next (fun s e => e.StaysInside s) .empty twoPublished ↔
      StepsMeet SnapshotEvent.next (fun s e => e.Own s) .empty twoPublished :=
  snapshots_stay_inside_iff (by decide)

/-- A tenant restores the snapshot of another. -/
def restoreForeign : List SnapshotEvent :=
  twoPublished ++ [.serial (.call ⟨⟨"t2", "v", "9", "g"⟩, .rollbackToSnapshot "ri.snap.s1"⟩)]

theorem pointer_to_foreign : ¬ ∀ es, StepsMeet SnapshotEvent.next (fun s e => e.Admitted s) .empty es →
    PointersInside (runFrom SnapshotEvent.next .empty es).world := by
  intro h
  have hadmitted : StepsMeet SnapshotEvent.next (fun s e => e.Admitted s) .empty restoreForeign := by decide
  have hpointer : (runFrom SnapshotEvent.next .empty restoreForeign).world.pointers "t2" = some "ri.snap.s1" := by
    decide
  have htenant : ∀ s ∈ (runFrom SnapshotEvent.next .empty restoreForeign).world.snapshots, s.snapshotId = "ri.snap.s1" →
      s.tenantId ≠ "t2" := by
    decide
  obtain ⟨s, hs, hid, ht⟩ := h restoreForeign hadmitted "t2" "ri.snap.s1" hpointer
  exact htenant s hs hid ht

end Lingshu.Ontology
