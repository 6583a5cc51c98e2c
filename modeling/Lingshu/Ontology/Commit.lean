import Lingshu.Ontology.Promotion

/-! # commit_staging

What a commit leaves behind, whichever of its commands fail: the stage that its promotion has reached,
and the rows of the snapshot when PostgreSQL has committed them. -/
namespace Lingshu.Ontology
open Json Interaction
set_option autoImplicit false

/-! ## Commands that fail -/

section Faults
variable {α : Type} {w w' : World} {done : List Cmd}

theorem exec_issue {c : Cmd} {r : Except Exc c.Answer} (hx : Exec exec (issue c) w done r w') :
    (done = [c] ∧ w' = (exec c w).2) ∨ (done = [] ∧ w' = w ∧ ∃ e, r = .error e) := by
  obtain ⟨hd, hw, _⟩ | h := exec_perform hx
  · exact .inl ⟨hd, hw⟩
  · exact .inr h

theorem exec_issue_ok {c : Cmd} {a : c.Answer} (hx : Exec exec (issue c) w done (.ok a) w') :
    done = [c] ∧ w' = (exec c w).2 ∧ (exec c w).1 = .ok a := by
  obtain ⟨hd, hw, hr | ⟨e, he⟩⟩ | ⟨_, _, e, he⟩ := exec_perform hx
  · exact ⟨hd, hw, hr.symm⟩
  · cases he
  · cases he

/-- A program of quiet commands leaves the graph and PostgreSQL alone, whatever fails. -/
theorem exec_of_quiet {p : Program α} {Q : α → Prop} {r : Except Exc α}
    (hp : p.Meets (fun c => c.quiet = true) (fun _ _ => True) Q) (hx : Exec exec p w done r w') :
    (w'.graph = w.graph ∧ w'.snapshots = w.snapshots ∧ w'.pointers = w.pointers) ∧
      (∀ c ∈ done, c.quiet = true) ∧ ∀ a, r = .ok a → Q a := by
  refine ⟨Prog.Meets.exec (J := fun s : World => s.graph = w.graph ∧ s.snapshots = w.snapshots ∧
    s.pointers = w.pointers) hp ?_ ⟨rfl, rfl, rfl⟩ hx, hp.exec_done hx⟩
  rintro c s ⟨h1, h2, h3⟩ hc _
  obtain ⟨h1', h2', h3'⟩ := exec_quiet hc s
  exact ⟨⟨h1'.trans h1, h2'.trans h2, h3'.trans h3⟩, fun _ _ => trivial⟩

end Faults

/-! ## Promotion -/

/-- The stores when the first `k` queries of a promotion have been executed. -/
def World.promoted (tenantId snapshotId : String) (w : World) (k : ℕ) : World :=
  w.onGraph fun g => g.promotion tenantId snapshotId k

/-- The commands `done` take a promotion from stage `k` to stage `k'`. -/
structure Advances (tenantId snapshotId : String) (done : List Cmd) (k k' : ℕ) : Prop where
  le : k ≤ k'
  deactivated : 1 ≤ k' ↔ 1 ≤ k ∨ .deactivateStaged tenantId ∈ done
  promoted : 2 ≤ k' ↔ 2 ≤ k ∨ .promoteStaged tenantId snapshotId ∈ done

namespace Advances
variable {tenantId snapshotId : String} {done done' : List Cmd} {i j k : ℕ}

theorem nil : Advances tenantId snapshotId [] k k := ⟨Nat.le_refl k, by simp, by simp⟩

theorem of_notMem (hd : .deactivateStaged tenantId ∉ done) (hp : .promoteStaged tenantId snapshotId ∉ done) :
    Advances tenantId snapshotId done k k :=
  ⟨Nat.le_refl k, by simp [hd], by simp [hp]⟩

theorem of_quiet (h : ∀ c ∈ done, c.quiet = true) : Advances tenantId snapshotId done k k :=
  of_notMem (fun hc => nomatch h _ hc) fun hc => nomatch h _ hc

theorem append (h : Advances tenantId snapshotId done i j) (h' : Advances tenantId snapshotId done' j k) :
    Advances tenantId snapshotId (done ++ done') i k := by
  refine ⟨h.le.trans h'.le, ?_, ?_⟩
  · rw [h'.deactivated, h.deactivated, List.mem_append, or_assoc]
  · rw [h'.promoted, h.promoted, List.mem_append, or_assoc]

theorem deactivate (k : ℕ) : Advances tenantId snapshotId [.deactivateStaged tenantId] k (max k 1) :=
  ⟨Nat.le_max_left k 1, by simp, by simp⟩

theorem promote (h : 1 ≤ k) : Advances tenantId snapshotId [.promoteStaged tenantId snapshotId] k (max k 2) :=
  ⟨Nat.le_max_left k 2, by simp; omega, by simp⟩

theorem cleanup (h : 2 ≤ k) : Advances tenantId snapshotId [.cleanupDeleted tenantId snapshotId] k (max k 3) :=
  ⟨Nat.le_max_left k 3, by simp; omega, by simp; omega⟩

end Advances

section Promote
variable {tenantId snapshotId : String} {w w' : World} {done : List Cmd} {r : Except Exc ℕ} {k : ℕ}

/-- One attempt, from whatever stage the last one has reached. -/
theorem exec_promote
    (hx : Exec exec (promoteStagingToActive tenantId snapshotId) (w.promoted tenantId snapshotId k) done r w') :
    ∃ k', w' = w.promoted tenantId snapshotId k' ∧ Advances tenantId snapshotId done k k' ∧
      ∀ n, r = .ok n → 3 ≤ k' := by
  have hdeactivate : (exec (.deactivateStaged tenantId) (w.promoted tenantId snapshotId k)).2 =
      w.promoted tenantId snapshotId (max k 1) :=
    congrArg (fun g => w.onGraph fun _ => g) (Graph.deactivateStaged_promotion k)
  have hpromote : (exec (.promoteStaged tenantId snapshotId) (w.promoted tenantId snapshotId (max k 1))).2 =
      w.promoted tenantId snapshotId (max (max k 1) 2) :=
    congrArg (fun g => w.onGraph fun _ => g) (Graph.promoteStaged_promotion (Nat.le_max_right k 1))
  have hcleanup : (exec (.cleanupDeleted tenantId snapshotId)
      (w.promoted tenantId snapshotId (max (max k 1) 2))).2 =
      w.promoted tenantId snapshotId (max (max (max k 1) 2) 3) :=
    congrArg (fun g => w.onGraph fun _ => g) (Graph.cleanupDeleted_promotion (Nat.le_max_right _ 2))
  obtain ⟨e, rfl, h1⟩ | ⟨a, w1, d1, d2, h1, hx, rfl⟩ := exec_bind hx
  · obtain ⟨rfl, rfl⟩ | ⟨rfl, rfl, _⟩ := exec_issue h1
    · exact ⟨_, hdeactivate, .deactivate k, fun n hn => nomatch hn⟩
    · exact ⟨k, rfl, .nil, fun n hn => nomatch hn⟩
  obtain ⟨rfl, rfl, _⟩ := exec_issue_ok h1
  rw [hdeactivate] at hx
  obtain ⟨e, rfl, h2⟩ | ⟨a, w2, d2, d3, h2, hx, rfl⟩ := exec_bind hx
  · obtain ⟨rfl, rfl⟩ | ⟨rfl, rfl, _⟩ := exec_issue h2
    · exact ⟨_, hpromote, (Advances.deactivate k).append (.promote (Nat.le_max_right k 1)),
        fun n hn => nomatch hn⟩
    · exact ⟨_, rfl, (Advances.deactivate k).append .nil, fun n hn => nomatch hn⟩
  obtain ⟨rfl, rfl, _⟩ := exec_issue_ok h2
  rw [hpromote] at hx
  have hstart : Advances tenantId snapshotId ([.deactivateStaged tenantId] ++
      [.promoteStaged tenantId snapshotId]) k (max (max k 1) 2) :=
    (Advances.deactivate k).append (.promote (Nat.le_max_right k 1))
  obtain ⟨e, rfl, h3⟩ | ⟨a, w3, d3, d4, h3, hx, rfl⟩ := exec_bind hx
  · obtain ⟨rfl, rfl⟩ | ⟨rfl, rfl, _⟩ := exec_issue h3
    · refine ⟨_, hcleanup, ?_, fun n hn => nomatch hn⟩
      rw [← List.append_assoc]
      exact hstart.append (.cleanup (Nat.le_max_right _ 2))
    · refine ⟨_, rfl, ?_, fun n hn => nomatch hn⟩
      rw [← List.append_assoc]
      exact hstart.append .nil
  obtain ⟨rfl, rfl, _⟩ := exec_issue_ok h3
  obtain ⟨rfl, rfl, rfl⟩ := exec_pure.mp hx
  refine ⟨_, hcleanup, ?_, fun n _ => Nat.le_max_right _ 3⟩
  rw [List.append_nil, ← List.append_assoc]
  exact hstart.append (.cleanup (Nat.le_max_right _ 2))

/-- Any number of attempts. -/
theorem exec_retry (maxRetries : ℕ)
    (hx : Exec exec (retryNeo4jOperation (promoteStagingToActive tenantId snapshotId) maxRetries)
      (w.promoted tenantId snapshotId k) done r w') :
    ∃ k', w' = w.promoted tenantId snapshotId k' ∧ Advances tenantId snapshotId done k k' ∧
      ∀ n, r = .ok n → 3 ≤ k' := by
  induction maxRetries generalizing k done with
  | zero => exact exec_promote hx
  | succ maxRetries ih =>
    obtain ⟨n, rfl, h1⟩ | ⟨e, w1, d1, d2, h1, h2, rfl⟩ := exec_tryCatch hx
    · exact exec_promote h1
    · obtain ⟨k1, rfl, hadv, _⟩ := exec_promote h1
      split at h2
      · obtain ⟨k2, hw, hadv', hok⟩ := ih h2
        exact ⟨k2, hw, hadv.append hadv', hok⟩
      · obtain ⟨rfl, rfl, rfl⟩ := exec_throw.mp h2
        exact ⟨k1, rfl, hadv.append .nil, fun n hn => nomatch hn⟩

end Promote

/-! ## The rows -/

/-- The entry of `entity_changes` for a staged node. -/
def changeOf (g : Graph) (tenantId : String) (n : Node) : Change :=
  if truthy (n.props .isActive) then
    if (g.getActiveNode n.label n.rid tenantId).isSome then .update else .create
  else .delete

/-- What the loop of `commit_staging` computes when nothing fails. -/
def changesOf (g : Graph) (tenantId : String) :
    List Node → (String → Option Change) → String → Option Change
  | [], changes => changes
  | node :: rest, changes =>
    changesOf g tenantId rest (Function.update changes node.rid (some (changeOf g tenantId node)))

/-- The rows that a commit from `w` stores. -/
structure Stored (ctx : Ctx) (changes : String → Option Change) (w w' : World) : Prop where
  snapshot : ∃ s, w'.snapshots = s :: w.snapshots ∧ s.snapshotId = ctx.snapshotId ∧
    s.tenantId = ctx.tenantId ∧ s.parentSnapshotId = w.pointers ctx.tenantId ∧ s.entityChanges = changes
  fresh : ∀ s ∈ w.snapshots, s.snapshotId ≠ ctx.snapshotId
  pointers : w'.pointers = Function.update w.pointers ctx.tenantId (some ctx.snapshotId)

section Rows
variable {w w' : World} {done : List Cmd} {tenantId snapshotId : String}

theorem exec_entityChangesLoop {nodes : List Node} {changes out : String → Option Change}
    (hx : Exec exec (entityChangesLoop tenantId nodes changes) w done (.ok out) w') :
    w' = w ∧ out = changesOf w.graph tenantId nodes changes := by
  induction nodes generalizing changes done with
  | nil =>
    obtain ⟨_, hout, hw⟩ := exec_pure.mp hx
    cases hout
    exact ⟨hw, rfl⟩
  | cons node rest ih =>
    simp only [entityChangesLoop] at hx
    split at hx
    · rename_i ht
      obtain ⟨e, he, _⟩ | ⟨a, w1, d1, d2, h1, h2, _⟩ := exec_bind hx
      · cases he
      · obtain ⟨_, rfl, ha⟩ := exec_issue_ok h1
        cases ha
        obtain ⟨hw, hout⟩ := ih h2
        refine ⟨hw, ?_⟩
        rw [hout]
        simp only [changesOf, changeOf, ht, if_true]
    · rename_i ht
      obtain ⟨hw, hout⟩ := ih hx
      refine ⟨hw, ?_⟩
      rw [hout]
      simp [changesOf, changeOf, ht]

theorem flush_state (row : PgWrite) (w : World) : (exec (.pgFlush row) w).2 = w := by
  simp only [exec]
  split <;> rfl

theorem exec_createSnapshot {snapshot : Snapshot} {row : PgWrite}
    (hx : Exec exec (createSnapshot snapshot) w done (.ok row) w') :
    w' = w ∧ row = .insertSnapshot snapshot := by
  obtain ⟨e, he, _⟩ | ⟨a, w1, d1, d2, h1, h2, _⟩ := exec_bind hx
  · cases he
  · obtain ⟨_, rfl, ha⟩ := exec_issue_ok h1
    obtain ⟨_, hrow, rfl⟩ := exec_pure.mp h2
    cases hrow
    exact ⟨flush_state _ w, rfl⟩

theorem exec_setActivePointer {row : PgWrite}
    (hx : Exec exec (setActivePointer tenantId snapshotId) w done (.ok row) w') :
    w' = w ∧ row = if (w.pointers tenantId).isSome then .updatePointer tenantId snapshotId
      else .insertPointer tenantId snapshotId := by
  obtain ⟨e, he, _⟩ | ⟨existing, w1, d1, d2, h1, hx, _⟩ := exec_bind hx
  · cases he
  obtain ⟨_, rfl, ha⟩ := exec_issue_ok h1
  cases ha
  obtain ⟨e, he, _⟩ | ⟨u, w2, d3, d4, h2, h3, _⟩ := exec_bind hx
  · cases he
  obtain ⟨_, rfl, _⟩ := exec_issue_ok h2
  obtain ⟨_, hrow, rfl⟩ := exec_pure.mp h3
  cases hrow
  exact ⟨flush_state _ _, rfl⟩

theorem exec_pgCommit_graph (rows : List PgWrite) (w : World) : (exec (.pgCommit rows) w).2.graph = w.graph := by
  simp only [exec]
  split
  · rfl
  · exact foldl_apply_graph rows w

theorem exec_pgCommit_ok {rows : List PgWrite} (h : (exec (.pgCommit rows) w).1 = .ok ()) :
    (∀ row ∈ rows, row.violates w = false) ∧ (exec (.pgCommit rows) w).2 = rows.foldl PgWrite.apply w := by
  simp only [exec] at h ⊢
  split at h
  · cases h
  · rename_i hv
    rw [if_neg hv]
    refine ⟨fun row hrow => ?_, rfl⟩
    by_contra hne
    exact hv (List.any_eq_true.mpr ⟨row, hrow, by simpa using hne⟩)

/-- The pointer row, however it is written. -/
theorem apply_pointer (w : World) (tenantId snapshotId : String) :
    (if (w.pointers tenantId).isSome then PgWrite.updatePointer tenantId snapshotId
      else .insertPointer tenantId snapshotId).apply w =
        { w with pointers := Function.update w.pointers tenantId (some snapshotId) } := by
  cases h : w.pointers tenantId with
  | none => rfl
  | some current => simp [PgWrite.apply, h]

/-- A commit's rows, once PostgreSQL has committed them. -/
theorem stored_of_pgCommit {ctx : Ctx} {snapshot : Snapshot} {changes : String → Option Change}
    {row : PgWrite} (hid : snapshot.snapshotId = ctx.snapshotId) (htenant : snapshot.tenantId = ctx.tenantId)
    (hparent : snapshot.parentSnapshotId = w.pointers ctx.tenantId) (hchanges : snapshot.entityChanges = changes)
    (hrow : row = if (w.pointers ctx.tenantId).isSome then .updatePointer ctx.tenantId ctx.snapshotId
      else .insertPointer ctx.tenantId ctx.snapshotId)
    (h : (exec (.pgCommit [.insertSnapshot snapshot, row]) w).1 = .ok ()) :
    Stored ctx changes w (exec (.pgCommit [.insertSnapshot snapshot, row]) w).2 := by
  obtain ⟨hv, hstate⟩ := exec_pgCommit_ok h
  have hpointer := apply_pointer (PgWrite.apply w (.insertSnapshot snapshot)) ctx.tenantId ctx.snapshotId
  have hfinal : (exec (.pgCommit [.insertSnapshot snapshot, row]) w).2 =
      row.apply (PgWrite.apply w (.insertSnapshot snapshot)) := hstate
  rw [hfinal, hrow]
  rw [show (PgWrite.apply w (.insertSnapshot snapshot)).pointers = w.pointers from rfl] at hpointer
  rw [hpointer]
  refine ⟨⟨snapshot, rfl, hid, htenant, hparent, hchanges⟩, ?_, rfl⟩
  intro s hs he
  have hfresh := hv (.insertSnapshot snapshot) (List.mem_cons_self ..)
  have hviolated : PgWrite.violates w (.insertSnapshot snapshot) = true :=
    List.any_eq_true.mpr ⟨s, hs, decide_eq_true (he.trans hid.symm)⟩
  rw [hviolated] at hfresh
  cases hfresh

end Rows

/-! ## The whole commit -/

section Whole
variable {ctx : Ctx} {m : Option String} {maxRetries : ℕ} {w w' : World} {done : List Cmd}

/-- What the part of a commit after its reads leaves behind. -/
theorem exec_publishStaging {nodes : List Node} {changes : String → Option Change}
    {r : Except Exc SnapshotResponse}
    (hx : Exec exec (publishStaging maxRetries ctx m nodes changes) w done r w') :
    ∃ k, w'.graph = w.graph.promotion ctx.tenantId ctx.snapshotId k ∧
      Advances ctx.tenantId ctx.snapshotId done 0 k ∧
      (2 ≤ k ∨ w'.snapshots = w.snapshots ∧ w'.pointers = w.pointers) ∧
      ∀ a, r = .ok a → 3 ≤ k ∧ Stored ctx changes w w' := by
  obtain ⟨e, rfl, h1⟩ | ⟨parent, w1, d1, d2, h1, hx, rfl⟩ := exec_bind hx
  · obtain ⟨⟨hg, hs, hp⟩, hd, _⟩ := exec_of_quiet (reads_issue rfl) h1
    exact ⟨0, hg, .of_quiet hd, .inr ⟨hs, hp⟩, fun a ha => nomatch ha⟩
  obtain ⟨rfl, rfl, hparent⟩ := exec_issue_ok h1
  cases hparent
  obtain ⟨e, rfl, h2⟩ | ⟨inserted, w2, d3, d4, h2, hx, rfl⟩ := exec_bind hx
  · obtain ⟨⟨hg, hs, hp⟩, hd, _⟩ := exec_of_quiet (meets_createSnapshot _) h2
    exact ⟨0, hg, (Advances.of_quiet (by simp [Cmd.quiet])).append (.of_quiet hd), .inr ⟨hs, hp⟩,
      fun a ha => nomatch ha⟩
  obtain ⟨_, hd3, _⟩ := exec_of_quiet (meets_createSnapshot _) h2
  obtain ⟨rfl, rfl⟩ := exec_createSnapshot h2
  have hreads : Advances ctx.tenantId ctx.snapshotId ([Cmd.pgGetPointer ctx.tenantId] ++ d3) 0 0 :=
    (Advances.of_quiet (by simp [Cmd.quiet])).append (.of_quiet hd3)
  obtain ⟨e, rfl, h3⟩ | ⟨promoted, w3, d5, d6, h3, hx, rfl⟩ := exec_bind hx
  · obtain ⟨k, rfl, hadv, _⟩ := exec_retry (w := w2) (k := 0) maxRetries h3
    refine ⟨k, rfl, ?_, .inr ⟨rfl, rfl⟩, fun a ha => nomatch ha⟩
    rw [← List.append_assoc]
    exact hreads.append hadv
  obtain ⟨k, rfl, hadv, hk⟩ := exec_retry (w := w2) (k := 0) maxRetries h3
  have hk3 : 3 ≤ k := hk promoted rfl
  have hdone : Advances ctx.tenantId ctx.snapshotId ([Cmd.pgGetPointer ctx.tenantId] ++ d3 ++ d5) 0 k :=
    hreads.append hadv
  obtain ⟨e, rfl, h4⟩ | ⟨pointed, w4, d7, d8, h4, hx, rfl⟩ := exec_bind hx
  · obtain ⟨⟨hg, _⟩, hd, _⟩ := exec_of_quiet (meets_setActivePointer _ _) h4
    refine ⟨k, hg, ?_, .inl (by omega), fun a ha => nomatch ha⟩
    have := hdone.append (.of_quiet hd)
    simpa only [List.append_assoc] using this
  obtain ⟨_, hd7, _⟩ := exec_of_quiet (meets_setActivePointer _ _) h4
  obtain ⟨rfl, hrow⟩ := exec_setActivePointer h4
  have hpointed : Advances ctx.tenantId ctx.snapshotId ([Cmd.pgGetPointer ctx.tenantId] ++ d3 ++ d5 ++ d7) 0 k :=
    hdone.append (.of_quiet hd7)
  have hcommit : ∀ {rows : List PgWrite}, Advances ctx.tenantId ctx.snapshotId [.pgCommit rows] k k :=
    .of_notMem (by simp) (by simp)
  obtain ⟨e, rfl, h5⟩ | ⟨u, w5, d9, d10, h5, hx, rfl⟩ := exec_bind hx
  · obtain ⟨rfl, rfl⟩ | ⟨rfl, rfl, _⟩ := exec_issue h5
    · refine ⟨k, exec_pgCommit_graph _ _, ?_, .inl (by omega), fun a ha => nomatch ha⟩
      simpa only [List.append_assoc] using hpointed.append hcommit
    · refine ⟨k, rfl, ?_, .inl (by omega), fun a ha => nomatch ha⟩
      simpa only [List.append_assoc, List.append_nil] using hpointed
  obtain ⟨rfl, rfl, hu⟩ := exec_issue_ok h5
  have hstored := stored_of_pgCommit rfl rfl rfl rfl hrow hu
  have hpublish : ∀ a : SnapshotResponse,
      Reads ((onSchemaPublished ctx.tenantId ctx.snapshotId).bind fun _ => .pure a) :=
    fun a => Sends.bind (reads_onSchemaPublished _ _) fun _ => Sends.pure a
  obtain ⟨⟨hg, hs, hp⟩, hd, _⟩ := exec_of_quiet (hpublish _) hx
  refine ⟨k, hg.trans (exec_pgCommit_graph _ _), ?_, .inl (by omega), fun a _ => ⟨hk3, ?_⟩⟩
  · simpa only [List.append_assoc] using (hpointed.append hcommit).append (.of_quiet hd)
  · exact ⟨by rw [hs]; exact hstored.snapshot, hstored.fresh, by rw [hp]; exact hstored.pointers⟩

/-- How far a commit has come, and what it returns. -/
structure CommitOutcome (ctx : Ctx) (w w' : World) (done : List Cmd) (r : Except Exc SnapshotResponse)
    (k : ℕ) : Prop where
  graph : w'.graph = w.graph.promotion ctx.tenantId ctx.snapshotId k
  advances : Advances ctx.tenantId ctx.snapshotId done 0 k
  staged : 1 ≤ k → w.graph.getStagingNodes ctx.tenantId ≠ []
  rows : 2 ≤ k ∨ w'.snapshots = w.snapshots ∧ w'.pointers = w.pointers
  returned : ∀ a, r = .ok a → 3 ≤ k ∧ Stored ctx
    (changesOf w.graph ctx.tenantId (w.graph.getStagingNodes ctx.tenantId) fun _ => none) w w'

theorem CommitOutcome.of_quiet {r : Except Exc SnapshotResponse}
    (h : w'.graph = w.graph ∧ w'.snapshots = w.snapshots ∧ w'.pointers = w.pointers)
    (hd : ∀ c ∈ done, c.quiet = true) (hr : ∃ e, r = .error e) : CommitOutcome ctx w w' done r 0 := by
  obtain ⟨e, rfl⟩ := hr
  exact ⟨h.1, .of_quiet hd, by omega, .inr h.2, fun a ha => nomatch ha⟩

theorem exec_commitBody {r : Except Exc SnapshotResponse}
    (hx : Exec exec (commitBody maxRetries ctx m) w done r w') : ∃ k, CommitOutcome ctx w w' done r k := by
  obtain ⟨e, rfl, h1⟩ | ⟨nodes, w1, d1, d2, h1, hx, rfl⟩ := exec_bind hx
  · obtain ⟨hw, hd, _⟩ := exec_of_quiet (reads_issue rfl) h1
    exact ⟨0, .of_quiet hw hd ⟨e, rfl⟩⟩
  obtain ⟨rfl, rfl, hnodes⟩ := exec_issue_ok h1
  cases hnodes
  have hread : ∀ c ∈ [Cmd.getStagingNodes ctx.tenantId], c.quiet = true := by simp [Cmd.quiet]
  split at hx
  · obtain ⟨rfl, rfl, rfl⟩ := exec_throw.mp hx
    exact ⟨0, .of_quiet ⟨rfl, rfl, rfl⟩ (by simpa using hread) ⟨_, rfl⟩⟩
  rename_i hne
  have hstaged : w1.graph.getStagingNodes ctx.tenantId ≠ [] := by simpa using hne
  obtain ⟨e, rfl, h2⟩ | ⟨changes, w2, d3, d4, h2, hx, rfl⟩ := exec_bind hx
  · obtain ⟨hw, hd, _⟩ := exec_of_quiet (reads_entityChangesLoop _ _ _) h2
    refine ⟨0, .of_quiet hw ?_ ⟨e, rfl⟩⟩
    intro c hc
    exact (List.mem_append.mp hc).elim (hread c) (hd c)
  obtain ⟨_, hd3, _⟩ := exec_of_quiet (reads_entityChangesLoop _ _ _) h2
  obtain ⟨rfl, rfl⟩ := exec_entityChangesLoop h2
  obtain ⟨k, hg, hadv, hrows, hok⟩ := exec_publishStaging hx
  refine ⟨k, hg, ?_, fun _ => hstaged, hrows, hok⟩
  exact (Advances.of_quiet hread).append ((Advances.of_quiet hd3).append hadv)

/-- Whichever of its commands fail, a commit leaves a stage of its promotion. -/
theorem exec_commit {r : Except Exc SnapshotResponse}
    (hx : Exec exec (commitStagingWith maxRetries ctx m) w done r w') :
    ∃ k, CommitOutcome ctx w w' done r k := by
  obtain ⟨e, rfl, h1⟩ | ⟨acquired, w1, d1, d2, h1, hbody, rfl⟩ := exec_bind hx
  · obtain ⟨hw, hd, _⟩ := exec_of_quiet (reads_issue rfl) h1
    exact ⟨0, .of_quiet hw hd ⟨e, rfl⟩⟩
  obtain ⟨⟨hg, hs, hp⟩, hd1, _⟩ := exec_of_quiet (reads_issue rfl) h1
  split at hbody
  · obtain ⟨r1, r2, w2, d3, d4, htry, hfree, rfl, hr⟩ := exec_tryFinally hbody
    obtain ⟨⟨hg', hs', hp'⟩, hd4, _⟩ := exec_of_quiet (reads_issue rfl) hfree
    obtain ⟨k, hk⟩ := exec_commitBody htry
    refine ⟨k, ?_, ?_, ?_, ?_, ?_⟩
    · rw [hg', hk.graph, hg]
    · exact (Advances.of_quiet hd1).append (hk.advances.append (.of_quiet hd4))
    · rw [← hg]
      exact hk.staged
    · rw [hs', hp', ← hs, ← hp]
      exact hk.rows
    · rintro a rfl
      obtain ⟨_, hr1⟩ | ⟨e, _, he⟩ := hr
      · obtain ⟨hk3, hstored⟩ := hk.returned a hr1.symm
        rw [hg] at hstored
        refine ⟨hk3, ?_, ?_, ?_⟩
        · rw [hs', ← hs, ← hp]
          exact hstored.snapshot
        · rw [← hs]
          exact hstored.fresh
        · rw [hp', ← hp]
          exact hstored.pointers
      · cases he
  · obtain ⟨rfl, rfl, rfl⟩ := exec_throw.mp hbody
    exact ⟨0, .of_quiet ⟨hg, hs, hp⟩ (by simpa using hd1) ⟨_, rfl⟩⟩

end Whole

/-! ## A commit whose promotion is retried -/

def Cmd.promotes : Cmd → Bool
  | .deactivateStaged .. | .promoteStaged .. | .cleanupDeleted .. => true
  | _ => false

/-- An attempt at a promotion that fails after `answered` of its queries. -/
structure Attempt where
  answered : Fin 3
  fault : Fault Exc

def Attempt.outcomes (a : Attempt) : List (Option (Fault Exc)) :=
  List.replicate a.answered none ++ [some a.fault]

section Retried
variable {ctx : Ctx} {m : Option String} {maxRetries : ℕ} {w : World} {tenantId snapshotId : String}
variable {faults : List (Option (Fault Exc))}

theorem runFaulty_issue {c : Cmd} {a : c.Answer} {w' : World} (hc : c.promotes = false)
    (h : exec c w = (.ok a, w')) : (issue c).runFaulty exec Cmd.promotes faults w = (.ok a, w', faults) := by
  have hmet : (issue c).runFaulty exec Cmd.promotes faults w = ((exec c w).1, (exec c w).2, faults) :=
    (Prog.runFaulty_perform Cmd.promotes faults w c).trans (meet_infallible Cmd.promotes faults w hc)
  rwa [h] at hmet

variable (w tenantId snapshotId faults) in
theorem runFaulty_attempt (a : Attempt) : ∃ w', (promoteStagingToActive tenantId snapshotId).runFaulty exec
    Cmd.promotes (a.outcomes ++ faults) w = (.error a.fault.exc, w', faults) := by
  obtain ⟨answered, fault⟩ := a
  match answered, fault with
  | 0, .lost e | 0, .refused e => exact ⟨_, rfl⟩
  | 1, .lost e | 1, .refused e => exact ⟨_, rfl⟩
  | 2, .lost e | 2, .refused e => exact ⟨_, rfl⟩

theorem runFaulty_retry {attempts : List Attempt} (hlen : attempts.length ≤ maxRetries)
    (hretry : ∀ a ∈ attempts, a.fault.exc.retryable) :
    ∃ n w', (retryNeo4jOperation (promoteStagingToActive tenantId snapshotId) maxRetries).runFaulty exec
      Cmd.promotes (attempts.flatMap Attempt.outcomes) w = (.ok n, w', []) := by
  induction attempts generalizing maxRetries w with
  | nil =>
    cases maxRetries with
    | zero => exact ⟨_, _, rfl⟩
    | succ maxRetries => exact ⟨_, _, rfl⟩
  | cons a attempts ih =>
    cases maxRetries with
    | zero => simp at hlen
    | succ maxRetries =>
      have hrest : attempts.length ≤ maxRetries := by simpa using hlen
      obtain ⟨w1, h1⟩ := runFaulty_attempt w tenantId snapshotId (attempts.flatMap Attempt.outcomes) a
      obtain ⟨n, w2, h2⟩ := ih (w := w1) hrest fun b hb => hretry b (List.mem_cons_of_mem _ hb)
      refine ⟨n, w2, ?_⟩
      rw [retryNeo4jOperation, Prog.runFaulty_tryCatch, List.flatMap_cons, h1]
      simp only [hretry a (List.mem_cons_self ..), if_true]
      exact h2

theorem runFaulty_entityChangesLoop (nodes : List Node) (changes : String → Option Change) :
    (entityChangesLoop tenantId nodes changes).runFaulty exec Cmd.promotes faults w =
      (.ok (changesOf w.graph tenantId nodes changes), w, faults) := by
  induction nodes generalizing changes with
  | nil => rfl
  | cons node nodes ih =>
    simp only [entityChangesLoop, changesOf, changeOf]
    split
    · refine (Prog.runFaulty_bind_ok _ _ _ (runFaulty_issue rfl rfl) _).trans ?_
      exact ih _
    · exact ih _

theorem runFaulty_flush {row : PgWrite} (h : row.violates w = false) :
    (issue (.pgFlush row)).runFaulty exec Cmd.promotes faults w = (.ok (), w, faults) :=
  runFaulty_issue rfl (by simp [exec, h])

theorem insertSnapshot_fresh {snapshot : Snapshot} (h : ∀ s ∈ w.snapshots, s.snapshotId ≠ snapshot.snapshotId) :
    PgWrite.violates w (.insertSnapshot snapshot) = false := by
  simpa [PgWrite.violates] using h

theorem runFaulty_createSnapshot {snapshot : Snapshot}
    (h : ∀ s ∈ w.snapshots, s.snapshotId ≠ snapshot.snapshotId) :
    (createSnapshot snapshot).runFaulty exec Cmd.promotes faults w = (.ok (.insertSnapshot snapshot), w, faults) :=
  Prog.runFaulty_bind_ok _ _ _ (runFaulty_flush (insertSnapshot_fresh h)) _

/-- The row that points the tenant to a snapshot. -/
def pointerRow (w : World) (tenantId snapshotId : String) : PgWrite :=
  if (w.pointers tenantId).isSome then .updatePointer tenantId snapshotId
  else .insertPointer tenantId snapshotId

theorem pointerRow_fresh (w : World) (tenantId snapshotId : String) :
    (pointerRow w tenantId snapshotId).violates w = false := by
  unfold pointerRow
  split
  · rfl
  · rename_i h
    simpa [PgWrite.violates] using h

variable (w tenantId snapshotId faults) in
theorem runFaulty_setActivePointer : (setActivePointer tenantId snapshotId).runFaulty exec Cmd.promotes faults w =
    (.ok (pointerRow w tenantId snapshotId), w, faults) :=
  (Prog.runFaulty_bind_ok _ _ _ (runFaulty_issue rfl rfl) _).trans
    (Prog.runFaulty_bind_ok _ _ _ (runFaulty_flush (pointerRow_fresh w tenantId snapshotId)) _)

theorem runFaulty_deletePages (pages : List (List String)) : ∃ w', (deletePages tenantId pages).runFaulty exec
    Cmd.promotes faults w = (.ok (), w', faults) := by
  induction pages generalizing w with
  | nil => exact ⟨w, rfl⟩
  | cons keys pages ih =>
    simp only [deletePages]
    split
    · exact ih
    · obtain ⟨w', h⟩ := ih (w := (exec (.redisDeleteCached tenantId keys) w).2)
      exact ⟨w', (Prog.runFaulty_bind_ok _ _ _ (runFaulty_issue rfl rfl) _).trans h⟩

variable (w tenantId snapshotId faults) in
theorem runFaulty_onSchemaPublished : ∃ w', (onSchemaPublished tenantId snapshotId).runFaulty exec Cmd.promotes
    faults w = (.ok (), w', faults) := by
  have hdeleted : ∃ w', (deletePages tenantId (pages ((w.cache tenantId).length + 1) (w.cache tenantId))).runFaulty
      exec Cmd.promotes faults w = (.ok (), w', faults) := runFaulty_deletePages _
  obtain ⟨w', h⟩ := hdeleted
  refine ⟨(exec (.redisPublish tenantId snapshotId) w').2, ?_⟩
  refine (Prog.runFaulty_bind_ok _ _ _ (runFaulty_issue rfl rfl) _).trans ?_
  refine (Prog.runFaulty_bind_ok _ _ _ h _).trans ?_
  exact runFaulty_issue rfl rfl

variable (w tenantId snapshotId) in
/-- The stores after a retried promotion. -/
theorem runFaulty_promoted {attempts : List Attempt} (hlen : attempts.length ≤ maxRetries)
    (hretry : ∀ a ∈ attempts, a.fault.exc.retryable) :
    ∃ n k, 3 ≤ k ∧ (retryNeo4jOperation (promoteStagingToActive tenantId snapshotId) maxRetries).runFaulty exec
      Cmd.promotes (attempts.flatMap Attempt.outcomes) w = (.ok n, w.promoted tenantId snapshotId k, []) := by
  have hretried : ∃ n w', (retryNeo4jOperation (promoteStagingToActive tenantId snapshotId) maxRetries).runFaulty
      exec Cmd.promotes (attempts.flatMap Attempt.outcomes) w = (.ok n, w', []) := runFaulty_retry hlen hretry
  obtain ⟨n, w', h⟩ := hretried
  obtain ⟨done, hx⟩ := Exec.of_runFaulty (h := exec) Cmd.promotes (attempts.flatMap Attempt.outcomes) w
    (retryNeo4jOperation (promoteStagingToActive tenantId snapshotId) maxRetries)
  rw [h] at hx
  obtain ⟨k, rfl, _, hk⟩ := exec_retry (w := w) (k := 0) maxRetries hx
  exact ⟨n, k, hk n rfl, h⟩

variable (faults) in
theorem runFaulty_pgCommit {snapshot : Snapshot} {row : PgWrite}
    (hfresh : ∀ s ∈ w.snapshots, s.snapshotId ≠ snapshot.snapshotId)
    (hrow : row.violates w = false) :
    ∃ w', (sessionCommit [.insertSnapshot snapshot, row]).runFaulty exec Cmd.promotes faults w =
      (.ok (), w', faults) := by
  refine ⟨[.insertSnapshot snapshot, row].foldl PgWrite.apply w, runFaulty_issue rfl ?_⟩
  simp [exec, insertSnapshot_fresh hfresh, hrow]

theorem publishStaging_returns {attempts : List Attempt} (hlen : attempts.length ≤ maxRetries)
    (hretry : ∀ a ∈ attempts, a.fault.exc.retryable) (hfresh : ∀ s ∈ w.snapshots, s.snapshotId ≠ ctx.snapshotId)
    (nodes : List Node) (changes : String → Option Change) :
    ∃ a w', (publishStaging maxRetries ctx m nodes changes).runFaulty exec Cmd.promotes
      (attempts.flatMap Attempt.outcomes) w = (.ok a, w', []) := by
  obtain ⟨n, k, _, hpromote⟩ := runFaulty_promoted w ctx.tenantId ctx.snapshotId hlen hretry
  let snapshot : Snapshot := ⟨ctx.snapshotId, w.pointers ctx.tenantId, ctx.tenantId, m, ctx.userId, changes,
    entityDataOf nodes fun _ => none, ctx.now⟩
  have hunused : ∀ s ∈ (w.promoted ctx.tenantId ctx.snapshotId k).snapshots, s.snapshotId ≠ snapshot.snapshotId :=
    hfresh
  obtain ⟨w1, hcommit⟩ := runFaulty_pgCommit [] hunused
    (pointerRow_fresh (w.promoted ctx.tenantId ctx.snapshotId k) ctx.tenantId ctx.snapshotId)
  obtain ⟨w2, hpublished⟩ := runFaulty_onSchemaPublished w1 ctx.tenantId ctx.snapshotId []
  refine ⟨⟨ctx.snapshotId, w.pointers ctx.tenantId, ctx.tenantId, m, ctx.userId, changes, ctx.now⟩, w2, ?_⟩
  refine (Prog.runFaulty_bind_ok _ _ _ (runFaulty_issue rfl rfl) _).trans ?_
  refine (Prog.runFaulty_bind_ok _ _ _ (runFaulty_createSnapshot hfresh) _).trans ?_
  refine (Prog.runFaulty_bind_ok _ _ _ hpromote _).trans ?_
  refine (Prog.runFaulty_bind_ok _ _ _ (runFaulty_setActivePointer _ _ _ _) _).trans ?_
  refine (Prog.runFaulty_bind_ok _ _ _ hcommit _).trans ?_
  exact (Prog.runFaulty_bind_ok _ _ _ hpublished _).trans rfl

/-- A commit with something to publish succeeds when the attempts that fail are few enough. -/
theorem commit_returns {attempts : List Attempt} (hlen : attempts.length ≤ maxRetries)
    (hretry : ∀ a ∈ attempts, a.fault.exc.retryable) (hlock : w.redis (.commitLock ctx.tenantId) = none)
    (hstaged : w.graph.getStagingNodes ctx.tenantId ≠ [])
    (hfresh : ∀ s ∈ w.snapshots, s.snapshotId ≠ ctx.snapshotId) :
    ∃ a w', (commitStagingWith maxRetries ctx m).runFaulty exec Cmd.promotes
      (attempts.flatMap Attempt.outcomes) w = (.ok a, w', []) := by
  have hacquire : exec (.redisSetNx (.commitLock ctx.tenantId) ctx.userId) w =
      (.ok true, w.setKey (.commitLock ctx.tenantId) (some ctx.userId)) := by simp [exec, hlock]
  obtain ⟨a, w1, hpublish⟩ := publishStaging_returns (w := w.setKey (.commitLock ctx.tenantId) (some ctx.userId))
    (m := m) hlen hretry hfresh (w.graph.getStagingNodes ctx.tenantId)
    (changesOf w.graph ctx.tenantId (w.graph.getStagingNodes ctx.tenantId) fun _ => none)
  have hbody : (commitBody maxRetries ctx m).runFaulty exec Cmd.promotes (attempts.flatMap Attempt.outcomes)
      (w.setKey (.commitLock ctx.tenantId) (some ctx.userId)) = (.ok a, w1, []) := by
    refine (Prog.runFaulty_bind_ok _ _ _ (runFaulty_issue rfl rfl) _).trans ?_
    rw [if_neg (by simpa using hstaged)]
    exact (Prog.runFaulty_bind_ok _ _ _ (runFaulty_entityChangesLoop _ _) _).trans hpublish
  refine ⟨a, (exec (.redisDelete (.commitLock ctx.tenantId)) w1).2, ?_⟩
  have hlocked : (redisSetNx (.commitLock ctx.tenantId) ctx.userId).runFaulty exec Cmd.promotes
      (attempts.flatMap Attempt.outcomes) w =
      (.ok true, w.setKey (.commitLock ctx.tenantId) (some ctx.userId), attempts.flatMap Attempt.outcomes) :=
    runFaulty_issue rfl hacquire
  refine (Prog.runFaulty_bind_ok _ _ _ hlocked _).trans ?_
  rw [if_pos rfl, Prog.runFaulty_tryFinally, hbody]
  rfl

end Retried

/-! ## All or nothing -/

/-- What is published, staged and recorded is as before. -/
structure Untouched (w w' : World) : Prop where
  active : w'.graph.nodes.filter Node.active = w.graph.nodes.filter Node.active
  staging : w'.graph.nodes.filter Node.staging = w.graph.nodes.filter Node.staging
  snapshots : w'.snapshots = w.snapshots
  pointers : w'.pointers = w.pointers

/-- A commit that raises has changed nothing exactly when its promotion has not got to the second query,
nor to the first with an Active version to replace. -/
theorem commit_untouched_iff {ctx : Ctx} {m : Option String} {maxRetries : ℕ} {w w' : World} {done : List Cmd}
    {e : Exc} (hx : Exec exec (commitStagingWith maxRetries ctx m) w done (.error e) w') :
    Untouched w w' ↔ .promoteStaged ctx.tenantId ctx.snapshotId ∉ done ∧
      (.deactivateStaged ctx.tenantId ∈ done → ∀ n ∈ w.graph.nodes, w.graph.replacedBy ctx.tenantId n = false) := by
  obtain ⟨k, hg, hadv, hstaged, hrows, _⟩ := exec_commit hx
  have hdeactivated : 1 ≤ k ↔ .deactivateStaged ctx.tenantId ∈ done := by simpa using hadv.deactivated
  have hpromoted : 2 ≤ k ↔ .promoteStaged ctx.tenantId ctx.snapshotId ∈ done := by simpa using hadv.promoted
  match k, hg with
  | 0, hg =>
    have hpg := hrows.resolve_left (by omega)
    refine iff_of_true ⟨by rw [hg]; rfl, by rw [hg]; rfl, hpg.1, hpg.2⟩ ⟨?_, fun hd => ?_⟩
    · intro hp
      exact absurd (hpromoted.mpr hp) (by omega)
    · exact absurd (hdeactivated.mpr hd) (by omega)
  | 1, hg =>
    have hpg := hrows.resolve_left (by omega)
    have hnodes : w'.graph.nodes = w.graph.nodes.map fun n =>
        if w.graph.replacedBy ctx.tenantId n then n.set [(.isActive, .bool false)] else n := by
      rw [hg]
      rfl
    have hstaging : w'.graph.nodes.filter Node.staging = w.graph.nodes.filter Node.staging := by
      rw [hnodes]
      refine Effect.Spares.filter_eq (e := .set (w.graph.replacedBy ctx.tenantId) [(.isActive, .bool false)]) ?_
      intro n hn
      have hs := Graph.not_staging_of_replacedBy hn
      exact ⟨hs, (Node.has_set_of_notMem (by simp [Dict.keys]) _).trans hs⟩
    have hactive : w'.graph.nodes.filter Node.active = w.graph.nodes.filter Node.active ↔
        ∀ n ∈ w.graph.nodes, w.graph.replacedBy ctx.tenantId n = false := by
      rw [hnodes, filter_leave_iff w.graph.nodes fun n _ => Graph.deactivated_not_active]
      refine forall_congr' fun n => imp_congr_right fun _ => ?_
      constructor
      · intro h
        by_contra hr
        rw [Bool.not_eq_false] at hr
        have ha := h hr
        simp [Graph.replacedBy, ha] at hr
      · intro h hr
        rw [h] at hr
        cases hr
    constructor
    · intro hu
      exact ⟨fun hp => absurd (hpromoted.mpr hp) (by omega), fun _ => hactive.mp hu.active⟩
    · rintro ⟨_, hd⟩
      exact ⟨hactive.mpr (hd (hdeactivated.mp (by omega))), hstaging, hpg.1, hpg.2⟩
  | k + 2, hg =>
    refine iff_of_false ?_ fun h => h.1 (hpromoted.mp (by omega))
    intro hu
    obtain ⟨n, hn⟩ := List.exists_mem_of_ne_nil _ (hstaged (by omega))
    obtain ⟨hn, ht, hs⟩ := Graph.mem_getStagingNodes.mp hn
    have hn' : n ∈ w'.graph.nodes.filter Node.staging := by
      rw [hu.staging]
      exact List.mem_filter.mpr ⟨hn, hs⟩
    have hmem : n ∈ w'.graph.getStagingNodes ctx.tenantId :=
      Graph.mem_getStagingNodes.mpr ⟨(List.mem_filter.mp hn').1, ht, hs⟩
    rw [hg, Graph.getStagingNodes_promotion (by omega)] at hmem
    cases hmem

/-- A new entity is staged. -/
def stagedOnce : List CallEvent :=
  inTurn [⟨⟨"t", "u", "1", "a"⟩, .create .objectType [(.apiName, .str "Order")]⟩,
    ⟨⟨"t", "u", "2", "b"⟩, .submitToStaging .objectType "ri.obj.a"⟩]

def stagedOnceState : World := (runFrom concurrent.next noCalls stagedOnce).state

def Cmd.commitsRows : Cmd → Bool
  | .pgCommit .. => true
  | _ => false

/-- `session.commit()` fails. -/
def refusedCommit : Except Exc SnapshotResponse × World × List (Option (Fault Exc)) :=
  (commitStaging ⟨"t", "u", "3", "c"⟩ none).runFaulty exec Cmd.commitsRows
    [some (.refused (.other "OperationalError"))] stagedOnceState

theorem refusedCommit_raises : ∃ e done,
    Exec exec (commitStaging ⟨"t", "u", "3", "c"⟩ none) stagedOnceState done (.error e) refusedCommit.2.1 := by
  have hraises : refusedCommit.1.isOk = false := by decide
  obtain ⟨done, hx⟩ := Exec.of_runFaulty (h := exec) Cmd.commitsRows
    [some (.refused (.other "OperationalError"))] stagedOnceState (commitStaging ⟨"t", "u", "3", "c"⟩ none)
  change Exec exec _ _ done refusedCommit.1 refusedCommit.2.1 at hx
  cases hr : refusedCommit.1 with
  | ok a =>
    rw [hr] at hraises
    cases hraises
  | error e =>
    rw [hr] at hx
    exact ⟨e, done, hx⟩

theorem commit_untouched_iff_refused : ∃ done : List Cmd, Untouched stagedOnceState refusedCommit.2.1 ↔
    .promoteStaged "t" "ri.snap.c" ∉ done ∧ (.deactivateStaged "t" ∈ done →
      ∀ n ∈ stagedOnceState.graph.nodes, stagedOnceState.graph.replacedBy "t" n = false) := by
  obtain ⟨e, done, hx⟩ := refusedCommit_raises
  exact ⟨done, commit_untouched_iff hx⟩

theorem commit_torn : ¬ ∀ (es : List CallEvent) (ctx : Ctx) (m : Option String) (done : List Cmd) (e : Exc)
    (w' : World), (∀ call ∈ started es, call.op.Admitted) →
      FreshUuids (⟨ctx, .commitStaging m⟩ :: started es) →
      Exec exec (commitStaging ctx m) (runFrom concurrent.next noCalls es).state done (.error e) w' →
        Untouched (runFrom concurrent.next noCalls es).state w' := by
  intro h
  obtain ⟨e, done, hx⟩ := refusedCommit_raises
  have hu := h stagedOnce ⟨"t", "u", "3", "c"⟩ none done e _ (by decide)
    (by unfold FreshUuids; decide) hx
  have hstaging := congrArg List.length hu.staging
  revert hstaging
  decide

/-! ## The overlay -/

/-- The Active view overridden by what is staged. -/
def World.overlaid (w : World) (ctx : Ctx) (label : Label) (rid : String) : Set Props :=
  {content | (∃ s ∈ w.graph.nodes, s.keyed label rid ctx.tenantId ∧ s.staging ∧ s.has .isActive (.bool true) ∧
      Graph.publishedContent ctx.snapshotId s = content) ∨
    ((∀ s ∈ w.graph.nodes, s.keyed label rid ctx.tenantId → s.staging = false) ∧
      content ∈ w.activeView ctx.tenantId label rid)}

/-- The changes of a snapshot are those of the staged entities. -/
structure RecordsStaged (w : World) (tenantId : String) (changes : String → Option Change) : Prop where
  unstaged : ∀ rid, (∀ n ∈ w.graph.getStagingNodes tenantId, n.rid ≠ rid) → changes rid = none
  deleted : ∀ n ∈ w.graph.getStagingNodes tenantId, n.has .isActive (.bool false) →
    changes n.rid = some .delete
  updated : ∀ n ∈ w.graph.getStagingNodes tenantId, n.has .isActive (.bool true) →
    (w.activeView tenantId n.label n.rid).Nonempty → changes n.rid = some .update
  created : ∀ n ∈ w.graph.getStagingNodes tenantId, n.has .isActive (.bool true) →
    w.activeView tenantId n.label n.rid = ∅ → changes n.rid = some .create

/-- What a commit from `w` is to leave behind. -/
structure Overlays (ctx : Ctx) (w w' : World) : Prop where
  view : ∀ label rid, w'.activeView ctx.tenantId label rid = w.overlaid ctx label rid
  staging : w'.graph.getStagingNodes ctx.tenantId = []
  drafts : w'.graph.nodes.filter Node.draft = w.graph.nodes.filter Node.draft
  kept : ∀ n ∈ w.graph.nodes, n.published →
    n ∈ w'.graph.nodes ∨ n.set [(.isActive, .bool false)] ∈ w'.graph.nodes
  pointers : w'.pointers = Function.update w.pointers ctx.tenantId (some ctx.snapshotId)
  snapshot : ∃ s, w'.snapshots = s :: w.snapshots ∧ s.snapshotId = ctx.snapshotId ∧
    (∀ s' ∈ w.snapshots, s'.snapshotId ≠ ctx.snapshotId) ∧ s.parentSnapshotId = w.pointers ctx.tenantId ∧
    RecordsStaged w ctx.tenantId s.entityChanges

theorem changesOf_of_notMem {g : Graph} {tenantId rid : String} {nodes : List Node}
    {changes : String → Option Change} (h : ∀ n ∈ nodes, n.rid ≠ rid) :
    changesOf g tenantId nodes changes rid = changes rid := by
  induction nodes generalizing changes with
  | nil => rfl
  | cons n nodes ih =>
    rw [changesOf, ih fun m hm => h m (List.mem_cons_of_mem _ hm)]
    exact Function.update_of_ne (h n (List.mem_cons_self ..)).symm _ _

theorem changesOf_of_mem {g : Graph} {tenantId : String} {nodes : List Node} {changes : String → Option Change}
    (hnodup : (nodes.map Node.rid).Nodup) {n : Node} (hn : n ∈ nodes) :
    changesOf g tenantId nodes changes n.rid = some (changeOf g tenantId n) := by
  induction nodes generalizing changes with
  | nil => cases hn
  | cons m nodes ih =>
    rw [List.map_cons, List.nodup_cons] at hnodup
    rcases List.mem_cons.mp hn with rfl | hn
    · rw [changesOf, changesOf_of_notMem fun m hm he => hnodup.1 (List.mem_map.mpr ⟨m, hm, he⟩)]
      exact Function.update_self ..
    · exact ih hnodup.2 hn

/-- The rids of the staged entities are distinct. -/
theorem stagedRids_nodup {calls : List Call} {w : World} (hw : w.Sound calls)
    (hone : AtMostOne Node.staging w) (tenantId : String) :
    ((w.graph.getStagingNodes tenantId).map Node.rid).Nodup := by
  refine List.nodup_iff_count_le_one.mpr fun rid => ?_
  rw [List.count, List.countP_map]
  by_cases hex : ∃ n ∈ w.graph.getStagingNodes tenantId, n.rid = rid
  · obtain ⟨n, hn, hrid⟩ := hex
    obtain ⟨hn, _, _⟩ := Graph.mem_getStagingNodes.mp hn
    refine Nat.le_trans ?_ (hone n.label rid tenantId)
    rw [Graph.getStagingNodes, List.countP_filter]
    refine List.countP_mono_left fun m hm hp => ?_
    simp only [Function.comp_apply, Bool.and_eq_true, beq_iff_eq] at hp ⊢
    obtain ⟨hmrid, hmt, hms⟩ := hp
    have hmr := (hw.nodes m hm).rid
    have hnr := (hw.nodes n hn).rid
    have hlabel := (hw.nodes m hm).label_eq (hw.nodes n hn) (by rw [hmr, hnr, hmrid, hrid])
    refine ⟨Node.keyed_iff.mpr ⟨hlabel, by rw [hmr, hmrid], ?_⟩, hms⟩
    simpa [Node.ofTenant, Node.has] using hmt
  · have hzero : (w.graph.getStagingNodes tenantId).countP ((· == rid) ∘ Node.rid) = 0 := by
      refine List.countP_eq_zero.mpr fun n hn hp => hex ⟨n, hn, ?_⟩
      simpa using hp
    omega

theorem getActiveNode_isSome {w : World} {tenantId : String} {label : Label} {rid : String} :
    (w.graph.getActiveNode label rid tenantId).isSome ↔ (w.activeView tenantId label rid).Nonempty := by
  rw [Graph.getActiveNode, List.find?_isSome]
  constructor
  · rintro ⟨n, hn, hp⟩
    obtain ⟨hk, ha⟩ := Bool.and_eq_true_iff.mp hp
    exact ⟨n.props, n, hn, hk, ha, rfl⟩
  · rintro ⟨_, n, hn, hk, ha, _⟩
    exact ⟨n, hn, by simp [hk, ha]⟩

theorem changesOf_records {calls : List Call} {w : World} (hw : w.Sound calls)
    (hone : AtMostOne Node.staging w) (tenantId : String) : RecordsStaged w tenantId
      (changesOf w.graph tenantId (w.graph.getStagingNodes tenantId) fun _ => none) := by
  have hmem : ∀ {n : Node}, n ∈ w.graph.getStagingNodes tenantId →
      changesOf w.graph tenantId (w.graph.getStagingNodes tenantId) (fun _ => none) n.rid =
        some (changeOf w.graph tenantId n) := changesOf_of_mem (stagedRids_nodup hw hone tenantId)
  refine ⟨fun rid h => changesOf_of_notMem h, ?_, ?_, ?_⟩
  · intro n hn ha
    rw [hmem hn]
    simp [changeOf, of_decide_eq_true ha, truthy]
  · intro n hn ha hsome
    rw [hmem hn]
    simp [changeOf, of_decide_eq_true ha, truthy, getActiveNode_isSome.mpr hsome]
  · intro n hn ha hnone
    have hnot : (w.graph.getActiveNode n.label n.rid tenantId).isSome = false := by
      by_contra hsome
      rw [Bool.not_eq_false] at hsome
      have hne := getActiveNode_isSome.mp hsome
      rw [hnone] at hne
      exact Set.not_nonempty_empty hne
    rw [hmem hn]
    simp [changeOf, of_decide_eq_true ha, truthy, hnot]

/-- A commit that returns overlays what was staged. -/
theorem overlays_of_returned {calls : List Call} {ctx : Ctx} {m : Option String} {maxRetries : ℕ} {w w' : World}
    {done : List Cmd} {a : SnapshotResponse} (hw : w.Sound calls)
    (hctx : ∀ call ∈ calls, call.ctx.uuid ≠ ctx.uuid) (hone : AtMostOne Node.staging w)
    (hx : Exec exec (commitStagingWith maxRetries ctx m) w done (.ok a) w') : Overlays ctx w w' := by
  obtain ⟨k, hg, _, _, _, hok⟩ := exec_commit hx
  obtain ⟨hk, ⟨s, hs, hid, _, hparent, hchanges⟩, hfresh, hpointers⟩ := hok a rfl
  have hnodes : w'.graph.nodes = w.graph.nodes.filterMap (w.graph.promotedNode ctx.tenantId ctx.snapshotId) := by
    rw [hg]
    exact Graph.promotion_nodes (fun n hn => (hw.nodes n hn).not_stamped hctx) hk
  refine ⟨?_, ?_, Graph.drafts_promoted hw.nodes hnodes, fun n hn hp => Graph.published_promoted hnodes hn hp,
    hpointers, s, hs, hid, hfresh, hparent, ?_⟩
  · intro label rid
    exact Set.ext fun content => Graph.mem_activeView_promoted hw.nodes hnodes
  · rw [hg]
    exact Graph.getStagingNodes_promotion (by omega)
  · rw [hchanges]
    exact changesOf_records hw hone ctx.tenantId

/-- From every state that calls can reach with one Staging version per entity, a commit that gets the
lock, run alone and with few enough failed attempts at its promotion, overlays what is staged. -/
theorem commit_overlays {es : List CallEvent} {ctx : Ctx} {m : Option String} {maxRetries : ℕ}
    {attempts : List Attempt} (ha : ∀ call ∈ started es, call.op.Admitted)
    (hu : FreshUuids (⟨ctx, .commitStaging m⟩ :: started es))
    (hone : AtMostOne Node.staging (runFrom concurrent.next noCalls es).state)
    (hlock : (runFrom concurrent.next noCalls es).state.redis (.commitLock ctx.tenantId) = none)
    (hstaged : (runFrom concurrent.next noCalls es).state.graph.getStagingNodes ctx.tenantId ≠ [])
    (hlen : attempts.length ≤ maxRetries) (hretry : ∀ a ∈ attempts, a.fault.exc.retryable) :
    ∃ a w', (commitStagingWith maxRetries ctx m).runFaulty exec Cmd.promotes (attempts.flatMap Attempt.outcomes)
        (runFrom concurrent.next noCalls es).state = (.ok a, w', []) ∧
      Overlays ctx (runFrom concurrent.next noCalls es).state w' := by
  have hw := concurrent_sound ha
  have hctx : ∀ call ∈ started es, call.ctx.uuid ≠ ctx.uuid := by
    intro call hcall he
    exact (List.nodup_cons.mp hu).1 (List.mem_map.mpr ⟨call, hcall, he⟩)
  have hfresh : ∀ s ∈ (runFrom concurrent.next noCalls es).state.snapshots, s.snapshotId ≠ ctx.snapshotId := by
    intro s hs he
    obtain ⟨call, hcall, hid⟩ := hw.snapshots s hs
    exact hctx call hcall (snapshotId_injective (hid.symm.trans he))
  obtain ⟨a, w', hrun⟩ := commit_returns (m := m) hlen hretry hlock hstaged hfresh
  refine ⟨a, w', hrun, ?_⟩
  obtain ⟨done, hx⟩ := Exec.of_runFaulty (h := exec) Cmd.promotes (attempts.flatMap Attempt.outcomes)
    (runFrom concurrent.next noCalls es).state (commitStagingWith maxRetries ctx m)
  rw [hrun] at hx
  exact overlays_of_returned hw hctx hone hx

/-- Of two published entities one is edited and the other deleted, and a third one is new. -/
def stagedMixed : List CallEvent :=
  inTurn [⟨⟨"t", "u", "1", "a"⟩, .create .objectType [(.apiName, .str "Order")]⟩,
    ⟨⟨"t", "u", "2", "b"⟩, .create .objectType [(.apiName, .str "Item")]⟩,
    ⟨⟨"t", "u", "3", "c"⟩, .submitToStaging .objectType "ri.obj.a"⟩,
    ⟨⟨"t", "u", "4", "d"⟩, .submitToStaging .objectType "ri.obj.b"⟩,
    ⟨⟨"t", "u", "5", "e"⟩, .commitStaging none⟩,
    ⟨⟨"t", "u", "6", "f"⟩, .acquireLock "ri.obj.a"⟩,
    ⟨⟨"t", "u", "7", "g"⟩, .update .objectType "ri.obj.a" [(.displayName, .str "Orders")]⟩,
    ⟨⟨"t", "u", "8", "h"⟩, .submitToStaging .objectType "ri.obj.a"⟩,
    ⟨⟨"t", "u", "9", "i"⟩, .acquireLock "ri.obj.b"⟩,
    ⟨⟨"t", "u", "10", "j"⟩, .delete .objectType "ri.obj.b"⟩,
    ⟨⟨"t", "u", "11", "k"⟩, .submitToStaging .objectType "ri.obj.b"⟩,
    ⟨⟨"t", "u", "12", "l"⟩, .create .objectType [(.apiName, .str "Price")]⟩,
    ⟨⟨"t", "u", "13", "m"⟩, .submitToStaging .objectType "ri.obj.l"⟩]

def stagedMixedState : World := (runFrom concurrent.next noCalls stagedMixed).state

theorem stagedMixedState_staging : AtMostOne Node.staging stagedMixedState :=
  atMostOne_of_pairwise (by decide +kernel)

/-- The first attempt fails after its second query, with the answer to the third one lost. -/
theorem commit_overlays_stagedMixed : ∃ a w', (commitStagingWith 3 ⟨"t", "u", "14", "n"⟩ none).runFaulty exec
      Cmd.promotes ([⟨2, .lost .transientError⟩].flatMap Attempt.outcomes) stagedMixedState = (.ok a, w', []) ∧
    Overlays ⟨"t", "u", "14", "n"⟩ stagedMixedState w' :=
  commit_overlays (by decide) (by unfold FreshUuids; decide) stagedMixedState_staging
    (by decide +kernel) (by decide +kernel) (by decide) (by decide)

end Lingshu.Ontology
