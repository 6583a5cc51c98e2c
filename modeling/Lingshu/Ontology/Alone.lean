import Lingshu.Ontology.Commit

/-! # Commits and rollbacks that run alone

Run from its start to its end with nothing in between, a commit either raises and leaves graph and rows
as they are, or it completes its promotion and stores its rows; a rollback raises, or completes its two
updates and moves the pointer. -/
namespace Lingshu.Ontology
open Json Interaction
set_option autoImplicit false

/-- The call returns when it runs alone. -/
def Succeeds (call : Call) (w : World) : Prop := ((service call).run exec w).1.isOk = true

/-- Nothing that the calls of a tenant share through Neo4j and PostgreSQL has changed. -/
structure SameStores (w w' : World) : Prop where
  graph : w'.graph = w.graph
  snapshots : w'.snapshots = w.snapshots
  pointers : w'.pointers = w.pointers

theorem run_map_result {α β : Type} (f : α → β) (p : Program α) (w : World) :
    ((f <$> p).run exec w).1.isOk = (p.run exec w).1.isOk := by
  show ((p.bind fun a => .pure (f a)).run exec w).1.isOk = _
  rw [Prog.run_bind]
  split <;> simp_all [Except.isOk, Except.toBool]

/-! ## Commits -/

section Commit
variable {w : World} {ctx : Ctx} {m : Option String}

theorem commit_succeeds_iff :
    Succeeds ⟨ctx, .commitStaging m⟩ w ↔ ((commitStaging ctx m).run exec w).1.isOk = true := by
  rw [Succeeds, service, run_map_result]

theorem after_commit : after ⟨ctx, .commitStaging m⟩ w = ((commitStaging ctx m).run exec w).2 :=
  run_map _ _ _

/-- A commit without the lock, or without anything to publish. -/
theorem commit_refused
    (h : w.redis (.commitLock ctx.tenantId) ≠ none ∨ w.graph.getStagingNodes ctx.tenantId = []) :
    ¬ Succeeds ⟨ctx, .commitStaging m⟩ w ∧ SameStores w (after ⟨ctx, .commitStaging m⟩ w) := by
  rw [commit_succeeds_iff, after_commit]
  rcases hlock : w.redis (.commitLock ctx.tenantId) with _ | owner
  · obtain ⟨done, hx⟩ := Exec.of_run (h := exec) (commitStaging ctx m) w
    obtain ⟨k, hg, _, hstaged, hrows, hok⟩ := exec_commit hx
    have hempty := h.resolve_left (fun hne => hne hlock)
    have hk : ¬ 1 ≤ k := fun hk => hstaged hk hempty
    obtain rfl : k = 0 := by omega
    have hpg := hrows.resolve_left (by omega)
    refine ⟨fun hs => ?_, hg, hpg.1, hpg.2⟩
    cases hr : ((commitStaging ctx m).run exec w).1 with
    | ok a => exact absurd (hok a hr).1 (by omega)
    | error e =>
      rw [hr] at hs
      cases hs
  · have hset : (redisSetNx (.commitLock ctx.tenantId) ctx.userId).run exec w = (.ok false, w) :=
      (run_issue w _).trans (by simp only [exec, hlock]; rfl)
    have hrun : (commitStaging ctx m).run exec w =
        (.error (appError .ontologyLockConflict "Another commit is in progress" []), w) :=
      Prog.run_bind_ok exec hset _
    rw [hrun]
    refine ⟨?_, rfl, rfl, rfl⟩
    intro hs
    cases hs

/-- A commit with the lock and something to publish. -/
theorem commit_accepted (hlock : w.redis (.commitLock ctx.tenantId) = none)
    (hstaged : w.graph.getStagingNodes ctx.tenantId ≠ [])
    (hfresh : ∀ s ∈ w.snapshots, s.snapshotId ≠ ctx.snapshotId) :
    Succeeds ⟨ctx, .commitStaging m⟩ w ∧ ∃ k, 3 ≤ k ∧
      (after ⟨ctx, .commitStaging m⟩ w).graph = w.graph.promotion ctx.tenantId ctx.snapshotId k ∧
      Stored ctx (changesOf w.graph ctx.tenantId (w.graph.getStagingNodes ctx.tenantId) fun _ => none) w
        (after ⟨ctx, .commitStaging m⟩ w) := by
  rw [commit_succeeds_iff, after_commit]
  have hnone : ([] : List Attempt).length ≤ defaultMaxRetries := Nat.zero_le _
  obtain ⟨a, w', hrun⟩ := commit_returns (m := m) hnone (by simp) hlock hstaged hfresh
  rw [List.flatMap_nil, runFaulty_nil] at hrun
  have hresult : ((commitStaging ctx m).run exec w).1 = .ok a := congrArg Prod.fst hrun
  obtain ⟨done, hx⟩ := Exec.of_run (h := exec) (commitStaging ctx m) w
  obtain ⟨k, hg, _, _, _, hok⟩ := exec_commit hx
  obtain ⟨hk, hstored⟩ := hok a hresult
  exact ⟨by rw [hresult]; rfl, k, hk, hg, hstored⟩

end Commit

/-! ## Rollbacks -/

namespace Graph
variable {g : Graph} {tenantId target current : String}

/-- The graph after both queries of a rollback. -/
def rolledBack (g : Graph) (tenantId target current : String) : Graph :=
  (g.deactivateSnapshot tenantId current).reactivateSnapshot tenantId target

/-- What a rollback makes of a node. -/
def rolledBackNode (tenantId target current : String) (n : Node) : Node :=
  if n.ofTenant tenantId && n.stamped target then n.set [(.isActive, .bool true)]
  else if n.ofTenant tenantId && n.stamped current && n.has .isActive (.bool true) then
    n.set [(.isActive, .bool false)]
  else n

theorem set_isActive_twice (n : Node) (v v' : Value) :
    (n.set [(.isActive, v)]).set [(.isActive, v')] = n.set [(.isActive, v')] := by
  have hprops : (n.props.update [(.isActive, v)]).update [(.isActive, v')] =
      n.props.update [(.isActive, v')] := by
    funext f
    simp only [Props.update_cons, Props.update_nil]
    split <;> rfl
  simp only [Node.set, hprops]

theorem rolledBack_nodes :
    (g.rolledBack tenantId target current).nodes = g.nodes.map (rolledBackNode tenantId target current) := by
  simp only [rolledBack, reactivateSnapshot, deactivateSnapshot, setWhere, List.map_map]
  refine List.map_congr_left fun n _ => ?_
  have htenant : (n.set [(.isActive, .bool false)]).ofTenant tenantId = n.ofTenant tenantId :=
    Node.has_set_of_notMem (by simp [Dict.keys]) _
  have hstamp : (n.set [(.isActive, .bool false)]).stamped target = n.stamped target :=
    Node.has_set_of_notMem (by simp [Dict.keys]) _
  simp only [Function.comp_apply, rolledBackNode]
  by_cases hc : (n.ofTenant tenantId && n.stamped current && n.has .isActive (.bool true)) = true
  · simp only [hc, if_true, htenant, hstamp, set_isActive_twice]
  · simp only [hc]
    rfl

end Graph

section Rollback
variable {w : World} {ctx : Ctx} {target : String}

/-- The rollback gets past its checks. -/
def RollsBack (w : World) (tenantId target : String) : Prop :=
  w.graph.hasUncommittedChanges tenantId = false ∧ ∃ s ∈ w.snapshots, s.snapshotId = target

theorem run_setActivePointer (w : World) (tenantId snapshotId : String) :
    (setActivePointer tenantId snapshotId).run exec w = (.ok (pointerRow w tenantId snapshotId), w) := by
  have hrun := runFaulty_setActivePointer w tenantId snapshotId []
  rw [runFaulty_nil] at hrun
  obtain ⟨hresult, hrest⟩ := Prod.mk.inj hrun
  exact Prod.ext hresult (Prod.mk.inj hrest).1

theorem run_repoint (w : World) (tenantId snapshotId : String) :
    (sessionCommit [pointerRow w tenantId snapshotId]).run exec w =
      (.ok (), { w with pointers := Function.update w.pointers tenantId (some snapshotId) }) := by
  refine (run_issue w _).trans ?_
  have happly := apply_pointer w tenantId snapshotId
  simp only [exec, List.any_cons, List.any_nil, Bool.or_false, pointerRow_fresh, Bool.false_eq_true, if_false,
    List.foldl_cons, List.foldl_nil]
  rw [← happly]
  rfl

/-- What a rollback returns, and the stores afterwards. -/
theorem run_rollback (w : World) (ctx : Ctx) (target : String) :
    (¬ RollsBack w ctx.tenantId target ∧
      ∃ e, (rollbackToSnapshot ctx target).run exec w = (.error e, w)) ∨
    (RollsBack w ctx.tenantId target ∧ ∃ a, (rollbackToSnapshot ctx target).run exec w =
      (.ok a, { w with
        graph := w.graph.rolledBack ctx.tenantId target ((w.pointers ctx.tenantId).getD "")
        pointers := Function.update w.pointers ctx.tenantId (some target) })) := by
  have hcheck := run_hasUncommittedChanges w ctx.tenantId
  cases hc : w.graph.hasUncommittedChanges ctx.tenantId with
  | true =>
    rw [hc] at hcheck
    refine .inl ⟨fun h => by simp [h.1] at hc, ?_⟩
    exact ⟨_, Prog.run_bind_ok exec hcheck _⟩
  | false =>
    rw [hc] at hcheck
    have hfound := run_getById w target
    cases hs : w.snapshots.find? fun s => s.snapshotId = target with
    | none =>
      rw [hs] at hfound
      refine .inl ⟨?_, _, (Prog.run_bind_ok exec hcheck _).trans (Prog.run_bind_ok exec hfound _)⟩
      rintro ⟨_, s, hmem, hid⟩
      have hnone := List.find?_eq_none.mp hs s hmem
      simp [hid] at hnone
    | some snap =>
      rw [hs] at hfound
      refine .inr ⟨⟨hc, snap, List.mem_of_find?_eq_some hs, by simpa using List.find?_some hs⟩, ?_⟩
      let current := (w.pointers ctx.tenantId).getD ""
      let w1 := w.onGraph fun g => g.rolledBack ctx.tenantId target current
      have hgraph : ∃ n, (rollbackGraph ctx.tenantId target current).run exec w = (.ok n, w1) := ⟨_, rfl⟩
      obtain ⟨n, hgraph⟩ := hgraph
      refine ⟨⟨snap.snapshotId, snap.parentSnapshotId, snap.tenantId, snap.commitMessage, snap.author,
        snap.entityChanges, snap.createdAt⟩, ?_⟩
      refine (Prog.run_bind_ok exec hcheck _).trans ?_
      refine (Prog.run_bind_ok exec hfound _).trans ?_
      refine (Prog.run_bind_ok exec (run_getActivePointer w ctx.tenantId) _).trans ?_
      refine (Prog.run_bind_ok exec hgraph _).trans ?_
      refine (Prog.run_bind_ok exec (run_setActivePointer w1 ctx.tenantId target) _).trans ?_
      exact Prog.run_bind_ok exec (run_repoint w1 ctx.tenantId target) _

theorem rollback_refused (h : ¬ RollsBack w ctx.tenantId target) :
    ¬ Succeeds ⟨ctx, .rollbackToSnapshot target⟩ w ∧ after ⟨ctx, .rollbackToSnapshot target⟩ w = w := by
  have hafter : after ⟨ctx, .rollbackToSnapshot target⟩ w = ((rollbackToSnapshot ctx target).run exec w).2 :=
    run_map _ _ _
  rw [Succeeds, service, run_map_result, hafter]
  obtain ⟨_, e, hrun⟩ | ⟨hrolls, _⟩ := run_rollback w ctx target
  · rw [hrun]
    exact ⟨fun hs => (nomatch hs), rfl⟩
  · exact absurd hrolls h

theorem rollback_accepted (h : RollsBack w ctx.tenantId target) :
    Succeeds ⟨ctx, .rollbackToSnapshot target⟩ w ∧ after ⟨ctx, .rollbackToSnapshot target⟩ w = { w with
      graph := w.graph.rolledBack ctx.tenantId target ((w.pointers ctx.tenantId).getD "")
      pointers := Function.update w.pointers ctx.tenantId (some target) } := by
  have hafter : after ⟨ctx, .rollbackToSnapshot target⟩ w = ((rollbackToSnapshot ctx target).run exec w).2 :=
    run_map _ _ _
  rw [Succeeds, service, run_map_result, hafter]
  obtain ⟨hnot, _⟩ | ⟨_, a, hrun⟩ := run_rollback w ctx target
  · exact absurd h hnot
  · rw [hrun]
    exact ⟨rfl, rfl⟩

end Rollback
end Lingshu.Ontology
