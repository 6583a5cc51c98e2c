import Lingshu.Ontology.EditLocks
import Lingshu.Ontology.Identity
import Lingshu.Ontology.Tenants

/-! # Each tenant on its own

Every command of a call names the tenant of its context, so that a tenant's calls run among those of all the others as
they would with the stores for themselves. A rollback to another tenant's snapshot is the exception, for `get_by_id` asks
for no tenant. -/
namespace Lingshu.Ontology
open Json Interaction Interaction.Prog
set_option autoImplicit false

/-! ## What a call may name -/

/-- The snapshot that the call rolls back to. -/
def Op.target : Op → Option String
  | .rollbackToSnapshot snapshotId => some snapshotId
  | _ => none

/-- The command takes or drops a commit lock. -/
def Cmd.locksCommit : Cmd → Bool
  | .redisSetNx (.commitLock _) _ | .redisDelete (.commitLock _) => true
  | _ => false

def Op.commits : Op → Bool
  | .commitStaging _ => true
  | _ => false

/-- The command stays inside the tenant of the call, with the lock and the snapshot that are the call's own. -/
structure Stays (call : Call) (c : Cmd) : Prop where
  within : c.Within call.ctx.tenantId
  lock : ∀ rid, c.lockRid = some rid → call.op.lockRid = some rid
  snapshot : ∀ id ∈ c.snapshotIds, call.op.target = some id ∨ id = call.ctx.snapshotId
  commit : c.locksCommit = true → call.op.commits = true

/-- The reads, keys and flushed rows of a call stay inside its tenant. -/
def Asks (call : Call) (c : Cmd) : Prop := c.quiet = true → Stays call c

theorem stays_plain {call : Call} {c : Cmd} (h : c.Within call.ctx.tenantId) (hlock : c.lockRid = none)
    (hids : c.snapshotIds = []) (hcommit : c.locksCommit = false) : Stays call c where
  within := h
  lock := by
    intro rid hrid
    rw [hlock] at hrid
    cases hrid
  snapshot := by
    intro id hid
    rw [hids] at hid
    cases hid
  commit := by
    intro hc
    rw [hcommit] at hc
    cases hc

section Rows
variable {tenantId snapshotId : String} {row : PgWrite}

theorem PgWrite.PointsTo.owner (h : row.PointsTo tenantId snapshotId) : row.owner = tenantId := by
  obtain rfl | rfl := h <;> rfl

theorem PgWrite.PointsTo.adds_none (h : row.PointsTo tenantId snapshotId) : row.snapshotId = none := by
  obtain rfl | rfl := h <;> rfl

end Rows

theorem tenantId_guarded {label : Label} {d : Dict} (h : ∀ f ∈ allImmutable label, f ∉ d.keys) :
    .tenantId ∉ d.keys := h .tenantId (by cases label <;> decide)

/-- A write of a call stays inside its tenant. -/
theorem stays_of_issues {G : Node → Prop} {call : Call} {c : Cmd} (h : Issues G call c) (hq : c.quiet = false) :
    Stays call c := by
  cases h with
  | new hnew =>
    have htenant := (lookup_newNode hnew).2.1
    refine stays_plain ?_ rfl rfl rfl
    simp [Cmd.Within, Props.update, htenant]
  | clone good key guarded marks =>
    have hsource := (Node.keyed_iff.mp key).2.2
    refine stays_plain ?_ rfl rfl rfl
    rw [Cmd.Within, Props.update_of_notMem (tenantId_guarded guarded), hsource]
  | edit guarded plain => exact stays_plain ⟨rfl, tenantId_guarded guarded⟩ rfl rfl rfl
  | submit => exact stays_plain ⟨rfl, by simp [submitProps, Dict.keys]⟩ rfl rfl rfl
  | cascade content =>
    refine stays_plain ⟨rfl, fun hmem => ?_⟩ rfl rfl rfl
    exact absurd (content _ hmem) (by decide)
  | unstage => exact stays_plain ⟨rfl, by simp [unstageProps, Dict.keys]⟩ rfl rfl rfl
  | dropDraft | dropStaging | belongsTo | basedOn | deactivateStaged | promoteStaged | cleanupDeleted
  | deactivateSnapshot | reactivateSnapshot => exact stays_plain rfl rfl rfl rfl
  | @publish ctx m snapshot row id tenant points =>
    refine ⟨?_, ?_, ?_, ?_⟩
    · intro r hr
      rcases List.mem_cons.mp hr with rfl | hr
      · exact tenant
      · rw [List.mem_singleton.mp hr]
        exact points.owner
    · rintro rid ⟨⟩
    · intro i hi
      have hids : (Cmd.pgCommit [.insertSnapshot snapshot, row]).snapshotIds = [snapshot.snapshotId] := by
        obtain rfl | rfl := points <;> rfl
      rw [hids] at hi
      rw [List.mem_singleton.mp hi]
      exact .inr id
    · rintro ⟨⟩
  | @repoint ctx target row points =>
    refine stays_plain ?_ rfl ?_ rfl
    · intro r hr
      rw [List.mem_singleton.mp hr]
      exact points.owner
    · simp [Cmd.snapshotIds, points.adds_none]
  | quiet hquiet =>
    rw [hq] at hquiet
    cases hquiet

/-! ## Each method asks for its tenant's own -/

section Methods
variable {α : Type} {call : Call}

/-- A program whose reads stay inside the tenant of `call`. -/
abbrev AsksOnly (call : Call) (p : Program α) : Prop := Sends (Asks call) (fun _ _ => True) p

theorem asks_write {c : Cmd} (h : c.quiet = false) : AsksOnly call (issue c) :=
  Sends.issue fun hq => by rw [h] at hq; cases hq

theorem asks_read {c : Cmd} (h : c.Within call.ctx.tenantId) (hlock : c.lockRid = none) (hids : c.snapshotIds = [])
    (hcommit : c.locksCommit = false) : AsksOnly call (issue c) :=
  Sends.issue fun _ => stays_plain h hlock hids hcommit

theorem asks_lock {c : Cmd} {rid : String} (h : c.Within call.ctx.tenantId) (hlock : c.lockRid = some rid)
    (hop : call.op.lockRid = some rid) (hids : c.snapshotIds = []) (hcommit : c.locksCommit = false) :
    AsksOnly call (issue c) := by
  refine Sends.issue fun _ => ⟨h, fun r hr => ?_, fun id hid => ?_, fun hc => ?_⟩
  · rw [hlock] at hr
    exact hop.trans hr
  · rw [hids] at hid
    cases hid
  · rw [hcommit] at hc
    cases hc

theorem asks_commitLock {c : Cmd} (hop : call.op.commits = true) (h : c.Within call.ctx.tenantId) (hlock : c.lockRid = none)
    (hids : c.snapshotIds = []) : AsksOnly call (issue c) := by
  refine Sends.issue fun _ => ⟨h, fun r hr => ?_, fun id hid => ?_, fun _ => hop⟩
  · rw [hlock] at hr
    cases hr
  · rw [hids] at hid
    cases hid

theorem asks_requireLock (rid : String) : AsksOnly call (requireLock rid call.ctx.userId) :=
  Sends.bind (asks_read rfl rfl rfl rfl) fun _ => Sends.ite (Sends.pure _) (Sends.throw _)

theorem asks_anyReach {reach : String → List String → Program (Bool × List String)}
    (h : ∀ c v, AsksOnly call (reach c v)) (children : List Node) (visited : List String) :
    AsksOnly call (anyReach reach children visited) := by
  induction children generalizing visited with
  | nil => exact Sends.pure _
  | cons child children ih => exact Sends.bind (h _ _) fun r => Sends.ite (Sends.pure _) (ih _)

theorem asks_canReach (target : String) (depth : ℕ) (current : String) (visited : List String) :
    AsksOnly call (canReach target call.ctx.tenantId depth current visited) := by
  induction depth generalizing current visited with
  | zero => exact Sends.throw _
  | succ depth ih =>
    refine Sends.ite (Sends.pure _) (Sends.ite (Sends.pure _) ?_)
    exact Sends.bind (asks_read rfl rfl rfl rfl) fun children => asks_anyReach ih children _

theorem asks_checkInterfaceCycle (limit : ℕ) (rid : String) (parents : List String) :
    AsksOnly call (checkInterfaceCycle limit rid call.ctx.tenantId parents) := by
  induction parents with
  | nil => exact Sends.pure _
  | cons parent parents ih => exact Sends.bind (asks_canReach _ _ _ _) fun r => Sends.ite (Sends.throw _) ih

theorem asks_contractViolations (required : List Value) (nodes : List Node) :
    AsksOnly call (contractViolations call.ctx.tenantId required nodes) := by
  induction nodes with
  | nil => exact Sends.pure _
  | cons node nodes ih =>
    refine Sends.bind (asks_read rfl rfl rfl rfl) fun props => ?_
    exact Sends.bind ih fun vs => Sends.ite (Sends.pure _) (Sends.pure _)

theorem asks_checkContractSatisfaction (rid : String) (required : List Value) :
    AsksOnly call (checkContractSatisfaction rid call.ctx.tenantId required) := by
  refine Sends.ite (Sends.pure _) ?_
  refine Sends.bind (asks_read rfl rfl rfl rfl) fun implementors => ?_
  exact Sends.bind (asks_contractViolations _ _) fun vs => Sends.ite (Sends.pure _) (Sends.throw _)

theorem asks_checkDeleteDependencies (label : Label) (rid : String) :
    AsksOnly call (checkDeleteDependencies label rid call.ctx.tenantId) := by
  have hloop : ∀ rules, AsksOnly call (referencingRids label rid call.ctx.tenantId rules) := by
    intro rules
    induction rules with
    | nil => exact Sends.pure _
    | cons r rules ih => exact Sends.bind (asks_read rfl rfl rfl rfl) fun _ => Sends.bind ih fun _ => Sends.pure _
  exact Sends.bind (hloop _) fun rids => Sends.ite (Sends.pure _) (Sends.throw _)

theorem asks_createEntity (label : Label) (props : Dict) : AsksOnly call (createEntity call.ctx label props) := by
  refine Sends.bind (asks_read rfl rfl rfl rfl) fun isUnique => Sends.ite ?_ (Sends.throw _)
  exact Sends.bind (asks_write rfl) fun _ => Sends.pure _

theorem asks_cloneSource (label : Label) (rid : String) :
    AsksOnly call (cloneSource label rid call.ctx.tenantId) := by
  refine Sends.bind (asks_read rfl rfl rfl rfl) fun staging => ?_
  cases staging with
  | some s => exact Sends.pure _
  | none => exact asks_read rfl rfl rfl rfl

theorem asks_updateEntity (label : Label) (rid : String) (updates : Dict) :
    AsksOnly call (updateEntity call.ctx label rid updates) := by
  refine Sends.bind (asks_requireLock rid) fun _ => ?_
  dsimp only
  cases checkImmutableFields label updates with
  | some e => exact Sends.throw e
  | none =>
    refine Sends.bind (asks_read rfl rfl rfl rfl) fun draft => ?_
    cases draft with
    | some _ =>
      refine Sends.bind (asks_write rfl) fun updated => ?_
      cases updated with
      | none => exact Sends.throw _
      | some node => exact Sends.pure _
    | none =>
      refine Sends.bind (asks_cloneSource label rid) fun source => ?_
      cases source with
      | none => exact Sends.throw _
      | some source => exact Sends.bind (asks_write rfl) fun _ => Sends.pure _

theorem asks_updateInterfaceType (rid : String) (updates : Dict) :
    AsksOnly call (updateInterfaceType call.ctx rid updates) := by
  refine Sends.bind (asks_checkInterfaceCycle _ _ _) fun _ => ?_
  refine Sends.bind ?_ fun _ => asks_updateEntity _ _ _
  exact Sends.ite (Sends.pure _) (asks_checkContractSatisfaction _ _)

theorem asks_cascade (rid : String) (updates : Dict) (old : Option Props) :
    AsksOnly call (cascadeSharedPropertyUpdate rid call.ctx.tenantId updates old) := by
  refine Sends.ite (Sends.pure _) ?_
  refine Sends.bind (asks_read rfl rfl rfl rfl) fun inheritors => ?_
  induction inheritors with
  | nil => exact Sends.pure _
  | cons node nodes ih =>
    refine Sends.ite ih ?_
    exact Sends.bind (asks_write rfl) fun _ => Sends.bind ih fun _ => Sends.pure _

theorem asks_updateSharedPropertyType (rid : String) (updates : Dict) :
    AsksOnly call (updateSharedPropertyType call.ctx rid updates) := by
  refine Sends.bind (asks_read rfl rfl rfl rfl) fun oldNode => ?_
  refine Sends.bind (asks_updateEntity _ _ _) fun result => ?_
  exact Sends.bind (asks_cascade _ _ _) fun _ => Sends.pure _

theorem asks_deleteEntity (label : Label) (rid : String) : AsksOnly call (deleteEntity call.ctx label rid) := by
  refine Sends.bind (asks_checkDeleteDependencies _ _) fun _ => ?_
  refine Sends.bind (asks_requireLock _) fun _ => ?_
  refine Sends.bind (asks_read rfl rfl rfl rfl) fun active => ?_
  cases active with
  | some active => exact Sends.bind (asks_write rfl) fun _ => Sends.pure _
  | none =>
    refine Sends.bind (asks_write rfl) fun deleted => Sends.ite (Sends.pure _) ?_
    exact Sends.bind (asks_write rfl) fun _ => Sends.pure _

theorem asks_createPropertyType (parentRid : String) (parentLabel : Label) (props : Dict) :
    AsksOnly call (createPropertyType call.ctx parentRid parentLabel props) := by
  refine Sends.bind (asks_requireLock _) fun _ => ?_
  refine Sends.bind (asks_read rfl rfl rfl rfl) fun existing => Sends.ite (Sends.throw _) ?_
  refine Sends.bind (asks_write rfl) fun node => ?_
  refine Sends.bind (asks_write rfl) fun _ => ?_
  dsimp only
  split
  · exact Sends.bind (asks_write rfl) fun _ => Sends.pure _
  · exact Sends.bind (Sends.pure _) fun _ => Sends.pure _

theorem asks_acquireLock (ctx : Ctx) (rid : String) : AsksOnly ⟨ctx, .acquireLock rid⟩ (acquireLock ctx rid) := by
  refine Sends.bind (asks_lock rfl rfl rfl rfl rfl) fun acquired => Sends.ite (Sends.pure _) ?_
  refine Sends.bind (asks_read rfl rfl rfl rfl) fun owner => Sends.ite ?_ (Sends.throw _)
  exact Sends.bind (asks_read rfl rfl rfl rfl) fun _ => Sends.pure _

theorem asks_releaseLock (ctx : Ctx) (rid : String) : AsksOnly ⟨ctx, .releaseLock rid⟩ (releaseLock ctx rid) := by
  refine Sends.bind (asks_read rfl rfl rfl rfl) fun owner => ?_
  dsimp only
  split
  · exact Sends.bind (asks_lock rfl rfl rfl rfl rfl) fun _ => Sends.pure _
  · exact Sends.bind (Sends.pure _) fun _ => Sends.pure _

theorem asks_refreshLock (ctx : Ctx) (rid : String) : AsksOnly ⟨ctx, .refreshLock rid⟩ (refreshLock ctx rid) := by
  refine Sends.bind (asks_read rfl rfl rfl rfl) fun owner => Sends.ite ?_ (Sends.throw _)
  refine Sends.bind (asks_read rfl rfl rfl rfl) fun _ => ?_
  exact Sends.bind (asks_read rfl rfl rfl rfl) fun _ => Sends.pure _

theorem asks_submitToStaging (ctx : Ctx) (label : Label) (rid : String) :
    AsksOnly ⟨ctx, .submitToStaging label rid⟩ (submitToStaging ctx label rid) := by
  refine Sends.bind (asks_read rfl rfl rfl rfl) fun draft => ?_
  cases draft with
  | none => exact Sends.throw _
  | some _ =>
    refine Sends.bind (asks_write rfl) fun node => ?_
    cases node with
    | none => exact Sends.throw _
    | some node => exact Sends.bind (asks_lock rfl rfl rfl rfl rfl) fun _ => Sends.pure _

theorem asks_discardDraft (ctx : Ctx) (label : Label) (rid : String) :
    AsksOnly ⟨ctx, .discardDraft label rid⟩ (discardDraft ctx label rid) := by
  refine Sends.bind (asks_write rfl) fun deleted => ?_
  exact Sends.ite (asks_lock rfl rfl rfl rfl rfl) (Sends.throw _)

theorem asks_discardStaging (label : Label) (rid : String) : AsksOnly call (discardStaging call.ctx label rid) := by
  refine Sends.bind (asks_read rfl rfl rfl rfl) fun active => ?_
  cases active with
  | some _ => exact Sends.bind (asks_write rfl) fun deleted => Sends.ite (Sends.pure _) (Sends.throw _)
  | none =>
    refine Sends.bind (asks_read rfl rfl rfl rfl) fun staging => ?_
    cases staging with
    | none => exact Sends.throw _
    | some _ => exact Sends.bind (asks_write rfl) fun _ => Sends.pure _

theorem asks_discardAllStaging : AsksOnly call (discardAllStaging call.ctx) := by
  refine Sends.bind (asks_read rfl rfl rfl rfl) fun nodes => ?_
  induction nodes with
  | nil => exact Sends.pure _
  | cons node nodes ih =>
    refine Sends.ite ih ?_
    exact Sends.bind (asks_write rfl) fun _ => Sends.bind ih fun _ => Sends.pure _

theorem asks_setActivePointer (snapshotId : String) : AsksOnly call (setActivePointer call.ctx.tenantId snapshotId) := by
  refine Sends.bind (asks_read rfl rfl rfl rfl) fun existing => ?_
  have hpoints : PgWrite.PointsTo call.ctx.tenantId snapshotId (if existing.isSome then
      .updatePointer call.ctx.tenantId snapshotId else .insertPointer call.ctx.tenantId snapshotId) := by
    split
    · exact .inr rfl
    · exact .inl rfl
  refine Sends.bind (asks_read hpoints.owner rfl ?_ rfl) fun _ => Sends.pure _
  rw [Cmd.snapshotIds, hpoints.adds_none]
  rfl

theorem asks_createSnapshot {snapshot : Snapshot} (hid : snapshot.snapshotId = call.ctx.snapshotId)
    (htenant : snapshot.tenantId = call.ctx.tenantId) : AsksOnly call (createSnapshot snapshot) := by
  refine Sends.bind (Sends.issue fun _ => ⟨htenant, fun rid hrid => (nomatch hrid), fun i hi => ?_, fun hc => (nomatch hc)⟩) fun _ => Sends.pure _
  have hself : i = snapshot.snapshotId := List.mem_singleton.mp hi
  exact .inr (hself.trans hid)

theorem asks_onSchemaPublished (snapshotId : String) : AsksOnly call (onSchemaPublished call.ctx.tenantId snapshotId) := by
  refine Sends.bind (asks_read rfl rfl rfl rfl) fun found => ?_
  refine Sends.bind ?_ fun _ => asks_read rfl rfl rfl rfl
  induction found with
  | nil => exact Sends.pure _
  | cons keys found ih => exact Sends.ite ih (Sends.bind (asks_read rfl rfl rfl rfl) fun _ => ih)

theorem asks_entityChangesLoop (nodes : List Node) (changes : String → Option Change) :
    AsksOnly call (entityChangesLoop call.ctx.tenantId nodes changes) := by
  induction nodes generalizing changes with
  | nil => exact Sends.pure _
  | cons node nodes ih => exact Sends.ite (Sends.bind (asks_read rfl rfl rfl rfl) fun _ => ih _) (ih _)

theorem asks_commitStaging (hcommit : call.op.commits = true) (m : Option String) : AsksOnly call (commitStaging call.ctx m) := by
  refine Sends.bind (asks_commitLock hcommit (decide_eq_true rfl) rfl rfl) fun acquired => Sends.ite ?_ (Sends.throw _)
  refine Prog.Meets.tryFinally ?_ (asks_commitLock hcommit (decide_eq_true rfl) rfl rfl)
  refine Sends.bind (asks_read rfl rfl rfl rfl) fun nodes => Sends.ite (Sends.throw _) ?_
  refine Sends.bind (asks_entityChangesLoop _ _) fun changes => ?_
  refine Sends.bind (asks_read rfl rfl rfl rfl) fun parent => ?_
  refine Sends.bind (asks_createSnapshot rfl rfl) fun inserted => ?_
  have hpromote : AsksOnly call (promoteStagingToActive call.ctx.tenantId (generateRid "snap" call.ctx.uuid)) := by
    refine Sends.bind (asks_write rfl) fun _ => ?_
    exact Sends.bind (asks_write rfl) fun _ => Sends.bind (asks_write rfl) fun _ => Sends.pure _
  refine Sends.bind (Sends.retry hpromote _) fun _ => ?_
  refine Sends.bind (asks_setActivePointer _) fun pointed => ?_
  refine Sends.bind (asks_write rfl) fun _ => ?_
  exact Sends.bind (asks_onSchemaPublished _) fun _ => Sends.pure _

theorem asks_rollbackToSnapshot (ctx : Ctx) (snapshotId : String) :
    AsksOnly ⟨ctx, .rollbackToSnapshot snapshotId⟩ (rollbackToSnapshot ctx snapshotId) := by
  refine Sends.bind (asks_read rfl rfl rfl rfl) fun hasChanges => Sends.ite (Sends.throw _) ?_
  refine Sends.bind (Sends.issue fun _ => ⟨trivial, fun rid hrid => (nomatch hrid), fun i hi => ?_, fun hc => (nomatch hc)⟩) fun snap => ?_
  · rw [List.mem_singleton.mp hi]
    exact .inl rfl
  · cases snap with
    | none => exact Sends.throw _
    | some snap =>
      refine Sends.bind (asks_read rfl rfl rfl rfl) fun pointer => ?_
      refine Sends.bind (Sends.bind (asks_write rfl) fun _ => asks_write rfl) fun _ => ?_
      refine Sends.bind (@asks_setActivePointer ⟨ctx, .rollbackToSnapshot snapshotId⟩ _) fun pointed => ?_
      exact Sends.bind (asks_write rfl) fun _ => Sends.pure _

end Methods

theorem asks_service (call : Call) : AsksOnly call (service call) := by
  obtain ⟨ctx, op⟩ := call
  cases op with
  | create type props =>
    refine Sends.map _ ?_
    cases type with
    | interfaceType =>
      refine Sends.bind (asks_checkInterfaceCycle _ _ _) fun _ => ?_
      exact asks_createEntity _ props
    | _ => exact asks_createEntity _ props
  | update type rid updates =>
    refine Sends.map _ ?_
    cases type with
    | interfaceType => exact asks_updateInterfaceType rid updates
    | sharedPropertyType => exact asks_updateSharedPropertyType rid updates
    | _ => exact asks_updateEntity _ rid updates
  | delete type rid => cases type <;> exact Sends.map _ (asks_deleteEntity _ rid)
  | createPropertyType parentRid parentLabel props => exact Sends.map _ (asks_createPropertyType _ _ _)
  | acquireLock rid => exact Sends.map _ (asks_acquireLock ctx rid)
  | releaseLock rid => exact Sends.map _ (asks_releaseLock ctx rid)
  | refreshLock rid => exact Sends.map _ (asks_refreshLock ctx rid)
  | submitToStaging label rid => exact Sends.map _ (asks_submitToStaging ctx label rid)
  | discardDraft label rid => exact Sends.map _ (asks_discardDraft ctx label rid)
  | discardStaging label rid => exact Sends.map _ (asks_discardStaging label rid)
  | discardAllStaging => exact Sends.map _ asks_discardAllStaging
  | commitStaging m => exact Sends.map _ (asks_commitStaging rfl m)
  | rollbackToSnapshot snapshotId => exact Sends.map _ (asks_rollbackToSnapshot ctx snapshotId)

/-! ## Reads -/

section Reads
variable {g : Graph} {tenantId : String}

theorem listWhere_restrict {p : Node → Bool} (hp : Owned tenantId p) (offset limit : ℕ) :
    (g.restrict tenantId).listWhere p offset limit = g.listWhere p offset limit := by
  rw [Graph.listWhere, filter_restrict hp, countP_restrict hp, Graph.listWhere]

theorem listActiveNodes_restrict (label : Label) (search : Option String) (offset limit : ℕ) :
    (g.restrict tenantId).listActiveNodes label tenantId search offset limit =
      g.listActiveNodes label tenantId search offset limit := by
  refine listWhere_restrict (fun n hn => ?_) offset limit
  simp only [Bool.and_eq_true_iff] at hn
  exact hn.1.1.2

theorem listNodes_restrict (label : Label) (search lifecycleStatus : Option String) (offset limit : ℕ) :
    (g.restrict tenantId).listNodes label tenantId search lifecycleStatus offset limit =
      g.listNodes label tenantId search lifecycleStatus offset limit := by
  refine listWhere_restrict (fun n hn => ?_) offset limit
  simp only [Bool.and_eq_true_iff] at hn
  exact hn.1.1.2

theorem getActiveNode_restrict (label : Label) (rid : String) :
    (g.restrict tenantId).getActiveNode label rid tenantId = g.getActiveNode label rid tenantId :=
  find?_restrict ((owned_keyed label rid tenantId).and _)

theorem getEffectiveNode_restrict (label : Label) (rid userId : String) :
    (g.restrict tenantId).getEffectiveNode label rid tenantId userId =
      g.getEffectiveNode label rid tenantId userId := by
  have hdraft : (g.restrict tenantId).getDraftNode label rid tenantId userId = g.getDraftNode label rid tenantId userId :=
    find?_restrict ((owned_keyed label rid tenantId).and _)
  have hstaging : (g.restrict tenantId).getStagingNode label rid tenantId = g.getStagingNode label rid tenantId :=
    find?_restrict ((owned_keyed label rid tenantId).and _)
  simp only [Graph.getEffectiveNode, hdraft, hstaging, getActiveNode_restrict]

theorem mappedNode_restrict (rid : String) : mappedNode (g.restrict tenantId) tenantId rid = mappedNode g tenantId rid := by
  simp only [mappedNode, getActiveNode_restrict]

/-- An edge starts from a node of the tenant, and so ends in one. -/
theorem getTopology_restrict (hj : g.Partitioned) : (g.restrict tenantId).getTopology tenantId = g.getTopology tenantId := by
  have hnodes := filter_restrict (g := g) ((owned_ofTenant tenantId).and Node.active)
  have hsource : ∀ i : ℕ, Owned tenantId fun a => decide (a.id = i) && a.ofTenant tenantId && a.active := by
    intro i n hn
    simp only [Bool.and_eq_true_iff] at hn
    exact hn.1.2
  unfold Graph.getTopology
  rw [hnodes, Graph.Topology.mk.injEq]
  refine ⟨rfl, ?_⟩
  have hrels : (g.restrict tenantId).rels = g.rels.filter fun r =>
      g.nodes.any fun n => n.ofTenant tenantId && decide (n.id = r.source) := rfl
  rw [hrels, flatMap_filter_of_nil]
  · refine List.flatMap_congr fun r hr => ?_
    rw [filter_restrict (hsource r.source)]
    refine List.flatMap_congr fun a ha => ?_
    obtain ⟨ha, hmatch⟩ := List.mem_filter.mp ha
    simp only [Bool.and_eq_true_iff, decide_eq_true_eq] at hmatch
    congr 1
    rw [Graph.restrict, List.filter_filter]
    refine List.filter_congr fun b hb => ?_
    by_cases hid : b.id = r.target
    · have hsame : a.ofTenant tenantId = b.ofTenant tenantId := hj.ofTenant hr ha hb hmatch.1.1 hid
      rw [← hsame, hmatch.1.2, Bool.and_true]
    · rw [decide_eq_false hid, Bool.false_and, Bool.false_and]
  · intro r _ hnone
    rw [List.flatMap_eq_nil_iff]
    intro a ha
    obtain ⟨ha, hmatch⟩ := List.mem_filter.mp ha
    simp only [Bool.and_eq_true_iff, decide_eq_true_eq] at hmatch
    exact absurd (List.any_eq_false.mp hnone a (mem_restrict.mp ha).1) (by simp [hmatch.1.1, hmatch.1.2])

/-- A tenant's read finds in the tenant's part what it finds in the whole graph. -/
theorem read_restrict (hj : g.Partitioned) (op : ReadOp) (userId : String) :
    op.run tenantId userId (g.restrict tenantId) = op.run tenantId userId g := by
  have hproperties : ∀ label rid, propertyNodes (g.restrict tenantId) label rid tenantId =
      propertyNodes g label rid tenantId :=
    fun label rid => getRelatedNodes_restrict hj label rid .belongsTo .incoming
  have htypes : ∀ label rid, propertyTypesOf (g.restrict tenantId) label rid tenantId =
      propertyTypesOf g label rid tenantId := fun label rid => by simp only [propertyTypesOf, hproperties]
  have hentity : ∀ rid, getPropertyTypesForEntity (g.restrict tenantId) tenantId rid =
      getPropertyTypesForEntity g tenantId rid := fun rid => by simp only [getPropertyTypesForEntity, hproperties]
  have hmapping : ∀ rid, getAssetMapping (g.restrict tenantId) tenantId rid = getAssetMapping g tenantId rid :=
    fun rid => by simp only [getAssetMapping, mappedNode_restrict]
  cases op with
  | getEntity type rid => simp only [ReadOp.run, getEntity, getActiveNode_restrict, htypes]
  | getEntityDraft type rid => simp only [ReadOp.run, getEntityDraft, getEffectiveNode_restrict]
  | queryEntities type term status offset limit =>
    simp only [ReadOp.run, queryEntities, listNodes_restrict, htypes]
  | getPropertyTypesForEntity rid => simp only [ReadOp.run, hentity]
  | queryAllPropertyTypes term offset limit =>
    simp only [ReadOp.run, queryAllPropertyTypes, listActiveNodes_restrict]
  | getAssetMapping rid => simp only [ReadOp.run, hmapping]
  | queryAllAssetMappings term offset limit =>
    simp only [ReadOp.run, queryAllAssetMappings, listActiveNodes_restrict]
  | queryAssetMappingReferences rid =>
    simp only [ReadOp.run, queryAssetMappingReferences, mappedNode_restrict, hproperties]
  | loadSchema rid => simp only [ReadOp.run, loadSchema, hentity, hmapping]
  | getTopology => simp only [ReadOp.run, getTopology_restrict hj]
  | search query types limit =>
    have hfound : (g.restrict tenantId).searchNodes tenantId query (types.map fun ts => ts.map entityLabelName) limit =
        g.searchNodes tenantId query (types.map fun ts => ts.map entityLabelName) limit := by
      unfold Graph.searchNodes
      rw [filter_restrict]
      intro n hn
      simp only [Bool.and_eq_true_iff] at hn
      exact hn.1.1.1
    simp only [ReadOp.run, search, hfound]
  | getStagingSummary =>
    refine congrArg (fun counts => Except.ok (ReadResult.counts counts)) (funext fun label => ?_)
    refine countP_restrict fun n hn => ?_
    simp only [Bool.and_eq_true_iff] at hn
    exact hn.2.1
  | getDraftsSummary =>
    refine congrArg (fun counts => Except.ok (ReadResult.counts counts)) (funext fun label => ?_)
    refine countP_restrict fun n hn => ?_
    simp only [Bool.and_eq_true_iff] at hn
    exact hn.2.1

end Reads

/-! ## Runs -/

/-- A call of the tenant. -/
def Call.of (tenantId : String) (call : Call) : Bool := decide (call.ctx.tenantId = tenantId)

/-- The entities whose edit locks calls of other tenants may take or drop. -/
def locksElsewhere (tenantId : String) (calls : List Call) : List String :=
  (calls.filter fun call => !call.of tenantId).filterMap fun call => call.op.lockRid

/-- What a call in `calls` may send, with the tenant it stays in. -/
def Own (calls : List Call) (call : Call) (c : Cmd) : Prop :=
  call ∈ calls ∧ Issues (fun _ => True) call c ∧ Stays call c

theorem meets_own {calls : List Call} {call : Call} (h : call ∈ calls) :
    (service call).Meets (Own calls call) (Answers fun _ => True) fun _ => True := by
  have hasks : (service call).Meets (Asks call) (Answers fun _ => True) fun _ => True :=
    (asks_service call).mono (fun _ hc => hc) (fun _ _ _ => trivial) fun _ hq => hq
  refine ((keepsTo_service (fun _ => True) call).and hasks).mono ?_ (fun _ _ ha => ha) fun _ _ => trivial
  intro c hc
  refine ⟨h, hc.1, ?_⟩
  cases hquiet : c.quiet with
  | true => exact hc.2 hquiet
  | false => exact stays_of_issues hc.1 hquiet

/-- A row that a command adds is a snapshot of its call. -/
theorem mem_exec_snapshots {G : Node → Prop} {call : Call} {c : Cmd} (hc : Issues G call c) {w : World} {s : Snapshot}
    (hs : s ∈ (exec c w).2.snapshots) :
    s ∈ w.snapshots ∨ (s.tenantId = call.ctx.tenantId ∧ s.snapshotId = call.ctx.snapshotId) := by
  cases hc with
  | new | clone | edit | submit | cascade | unstage =>
    simp only [exec] at hs
    split at hs <;> exact .inl hs
  | dropDraft | dropStaging | cleanupDeleted | belongsTo | basedOn | deactivateStaged | promoteStaged
  | deactivateSnapshot | reactivateSnapshot => exact .inl hs
  | @publish ctx m snapshot row id tenant points =>
    simp only [exec] at hs
    split at hs
    · exact .inl hs
    · rw [List.foldl_cons, List.foldl_cons, List.foldl_nil, points.snapshots] at hs
      rcases List.mem_cons.mp hs with rfl | hs
      · exact .inr ⟨tenant, id⟩
      · exact .inl hs
  | repoint points =>
    simp only [exec] at hs
    split at hs
    · exact .inl hs
    · rw [List.foldl_cons, List.foldl_nil, points.snapshots] at hs
      exact .inl hs
  | quiet hq =>
    rw [(exec_quiet hq w).2.1] at hs
    exact .inl hs

/-- What is shared is kept apart: ids, relationships and snapshots tell whose they are. -/
structure Apart (calls : List Call) (w : World) : Prop where
  linked : w.graph.Linked
  partitioned : w.graph.Partitioned
  snapshots : ∀ s ∈ w.snapshots, ∃ call ∈ calls, call.ctx.tenantId = s.tenantId ∧ call.ctx.snapshotId = s.snapshotId

theorem kept_apart {calls : List Call} {call : Call} {c : Cmd} {w : World} (hc : Own calls call c)
    (hw : Apart calls w) : Apart calls (exec c w).2 where
  linked := linked_exec hc.2.1 hw.linked
  partitioned := partitioned_exec hc.2.2.within hw.linked hw.partitioned
  snapshots := by
    intro s hs
    rcases mem_exec_snapshots hc.2.1 hs with hs | ⟨htenant, hid⟩
    · exact hw.snapshots s hs
    · exact ⟨call, hc.1, htenant.symm, hid.symm⟩

theorem apart_env {calls : List Call} (v : Env) {w : World} (hw : Apart calls w) : Apart calls (v.apply w) where
  linked := hw.linked.perm (v.apply_nodes w) (v.apply_rels w) (v.apply_nextId w)
  partitioned := hw.partitioned.of_nodes (fun r hr => (v.apply_rels w).mem_iff.mp hr)
    fun n hn => ⟨n, (v.apply_nodes w).mem_iff.mp hn, rfl, rfl⟩
  snapshots := by
    rw [v.apply_snapshots]
    exact hw.snapshots

theorem concurrent_apart_holds {es fs : List CallEvent} (hfs : fs <+: es) :
    System.Holds (Own (started es)) (Answers fun _ => True) (Apart (started es)) (runFrom concurrent.next noCalls fs) := by
  refine calls_hold (fun _ hcall => meets_own hcall) (fun _ _ _ _ => trivial) (fun _ _ _ hc hw => kept_apart hc hw)
    (fun v _ hw => apart_env v hw) (stepsMeet_started.on_initial hfs) ⟨⟨Graph.Linked.empty, ?_, ?_⟩, ?_⟩
  · intro r hr
    cases hr
  · intro s hs
    cases hs
  · intro t ht
    cases ht

/-- No call of the tenant rolls back to a snapshot of another. -/
def RollsBackOwn (tenantId : String) (calls : List Call) : Prop :=
  ∀ call ∈ calls, call.of tenantId → ∀ other ∈ calls, other.of tenantId = false →
    call.op.target ≠ some other.ctx.snapshotId

theorem named_own {calls : List Call} {call : Call} {c : Cmd} {w : World} {tenantId : String} (hfresh : FreshUuids calls)
    (hown : RollsBackOwn tenantId calls) (hcall : call.of tenantId) (hc : Own calls call c) (hw : Apart calls w) :
    w.Named tenantId c.snapshotIds := by
  intro s hs hid
  obtain ⟨other, hother, htenant, hsnapshot⟩ := hw.snapshots s hs
  rw [← htenant]
  by_contra hne
  have hof : other.of tenantId = false := decide_eq_false hne
  rcases hc.2.2.snapshot _ hid with hop | hself
  · rw [← hsnapshot] at hop
    exact hown call hc.1 hcall other hother hof hop
  · have huuid : other.ctx.uuid = call.ctx.uuid := generateRid_injective "snap" (hsnapshot.trans hself)
    obtain rfl := hfresh.eq hother hc.1 huuid
    rw [hcall] at hof
    cases hof

/-- What a tenant sees of the stores is a run of its calls alone. -/
theorem isolates_tenant {calls : List Call} {tenantId : String} (hfresh : FreshUuids calls)
    (hown : RollsBackOwn tenantId calls) :
    System.Isolates concurrent (secluded (locksElsewhere tenantId calls)) (Call.of tenantId)
      (fun w => w.restrict tenantId) (Own calls) (Apart calls) where
  program := fun _ _ => rfl
  inside := by
    intro call c w hcall hc hw
    have hwithin : c.Within tenantId := of_decide_eq_true hcall ▸ hc.2.2.within
    exact exec_restrict hwithin hw.linked hw.partitioned (named_own hfresh hown hcall hc hw)
  outside := by
    intro call c w hcall hc hw
    refine exec_elsewhere hc.2.2.within (of_decide_eq_false hcall) hw.linked hw.partitioned fun rid hrid => ?_
    exact List.mem_filterMap.mpr ⟨call, List.mem_filter.mpr ⟨hc.1, by simp [hcall]⟩, hc.2.2.lock rid hrid⟩
  env := fun v w _ => env_restrict v w

/-- Whatever the other tenants do, a tenant's calls return and leave behind what they would with the stores for
themselves, where element ids may be missing and edit locks on the entities that others name may come and go; and so do
the tenant's reads. -/
theorem tenant_secluded {es : List CallEvent} {tenantId : String} (hfresh : FreshUuids (started es))
    (hown : RollsBackOwn tenantId (started es)) :
    ∃ fs, runFrom (secluded (locksElsewhere tenantId (started es))).next noCalls fs =
        (runFrom concurrent.next noCalls es).seen (Call.of tenantId) (fun w => w.restrict tenantId) ∧
      fs.filterMap Event.started = (started es).filter (Call.of tenantId) ∧
      ∀ (op : ReadOp) (userId : String), op.run tenantId userId (runFrom concurrent.next noCalls es).state.graph =
        op.run tenantId userId
          (runFrom (secluded (locksElsewhere tenantId (started es))).next noCalls fs).state.graph := by
  obtain ⟨fs, hrun, hcalls⟩ := (isolates_tenant hfresh hown).run fun _ hfs => concurrent_apart_holds hfs
  have hempty : noCalls.seen (Call.of tenantId) (fun w => w.restrict tenantId) = noCalls := by
    have hworld : World.empty.restrict tenantId = World.empty := by simp [World.restrict, World.empty, Graph.restrict, Graph.empty]
    exact congrArg (Pool.mk · []) hworld
  rw [hempty] at hrun
  have hstarted : es.filterMap Event.started = started es :=
    congrArg es.filterMap (funext fun e => by cases e <;> rfl)
  refine ⟨fs, hrun, hstarted ▸ hcalls, fun op userId => ?_⟩
  rw [hrun]
  exact (read_restrict (concurrent_apart_holds (List.prefix_refl es)).inv.partitioned op userId).symm

/-- Two tenants publish an ObjectType each in turns, and one rolls back. -/
def twoTenants : List CallEvent :=
  inTurn [⟨⟨"t", "u", "1", "a"⟩, .create .objectType [(.apiName, .str "Order")]⟩,
    ⟨⟨"s", "v", "2", "b"⟩, .create .objectType [(.apiName, .str "Order")]⟩,
    ⟨⟨"t", "u", "3", "c"⟩, .submitToStaging .objectType "ri.obj.a"⟩,
    ⟨⟨"s", "v", "4", "d"⟩, .submitToStaging .objectType "ri.obj.b"⟩,
    ⟨⟨"t", "u", "5", "e"⟩, .commitStaging none⟩,
    ⟨⟨"s", "v", "6", "f"⟩, .commitStaging none⟩,
    ⟨⟨"t", "u", "7", "g"⟩, .rollbackToSnapshot "ri.snap.e"⟩]

theorem tenant_secluded_twoTenants :
    (runFrom concurrent.next noCalls twoTenants).state.graph.nodes.countP Node.active = 2 ∧
    ∃ fs, runFrom (secluded (locksElsewhere "t" (started twoTenants))).next noCalls fs =
        (runFrom concurrent.next noCalls twoTenants).seen (Call.of "t") (fun w => w.restrict "t") ∧
      fs.filterMap Event.started = (started twoTenants).filter (Call.of "t") ∧
      ∀ (op : ReadOp) (userId : String), op.run "t" userId (runFrom concurrent.next noCalls twoTenants).state.graph =
        op.run "t" userId (runFrom (secluded (locksElsewhere "t" (started twoTenants))).next noCalls fs).state.graph :=
  ⟨by decide +kernel, tenant_secluded (by unfold FreshUuids; decide) (by unfold RollsBackOwn; decide)⟩

end Lingshu.Ontology
