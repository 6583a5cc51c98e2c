import Lingshu.Ontology.Store

/-! # The repositories

The methods of `GraphRepository` and `SnapshotRepository` that the service calls, and
`retry_neo4j_operation`. All but three of the graph methods are one query. -/
namespace Lingshu.Ontology
open Json Interaction
set_option autoImplicit false

def issue (c : Cmd) : Program c.Answer := Prog.perform c

/-! ## GraphRepository -/

def createNode (label : Label) (base : Props) (properties : Dict) : Program Node :=
  issue (.createNode label base properties)

def getActiveNode (label : Label) (rid tenantId : String) : Program (Option Node) :=
  issue (.getActiveNode label rid tenantId)

def getDraftNode (label : Label) (rid tenantId userId : String) : Program (Option Node) :=
  issue (.getDraftNode label rid tenantId userId)

def getStagingNode (label : Label) (rid tenantId : String) : Program (Option Node) :=
  issue (.getStagingNode label rid tenantId)

def updateNode (label : Label) (rid tenantId : String) (properties : Dict)
    (isDraft : Option Bool := none) (draftOwner : Option String := none) : Program (Option Node) :=
  issue (.updateNode label rid tenantId properties isDraft draftOwner)

def deleteNode (label : Label) (rid tenantId : String) (isDraft : Option Bool := none)
    (isStaging : Option Bool := none) (draftOwner : Option String := none) : Program Bool :=
  issue (.deleteNode label rid tenantId isDraft isStaging draftOwner)

def createRelationship (fromLabel : Label) (fromRid : String) (toLabel : Label) (toRid : String)
    (relType : RelType) (tenantId : String) : Program Bool :=
  issue (.createRelationship fromLabel fromRid toLabel toRid relType tenantId)

def getRelatedNodes (label : Label) (rid tenantId : String) (relType : RelType)
    (direction : Graph.Direction) : Program (List Node) :=
  issue (.getRelatedNodes label rid tenantId relType direction)

def getIncomingReferencingRids (label : Label) (rid tenantId : String) (relType : RelType) :
    Program (List Value) :=
  issue (.getIncomingReferencingRids label rid tenantId relType)

def getStagingNodes (tenantId : String) : Program (List Node) :=
  issue (.getStagingNodes tenantId)

def checkApiNameUnique (label : Label) (apiName : Value) (tenantId : String) : Program Bool :=
  issue (.checkApiNameUnique label apiName tenantId)

def hasUncommittedChanges (tenantId : String) : Program Bool :=
  issue (.hasUncommittedChanges tenantId)

/-- `promote_staging_to_active`: three queries, each committed by itself. -/
def promoteStagingToActive (tenantId snapshotId : String) : Program ℕ := do
  let _ ← (issue (.deactivateStaged tenantId) : Program ℕ)
  let promoted ← (issue (.promoteStaged tenantId snapshotId) : Program ℕ)
  let _ ← (issue (.cleanupDeleted tenantId snapshotId) : Program ℕ)
  return promoted

/-- `GraphRepository.rollback_to_snapshot`. -/
def rollbackGraph (tenantId targetSnapshotId currentSnapshotId : String) : Program ℕ := do
  let _ ← (issue (.deactivateSnapshot tenantId currentSnapshotId) : Program ℕ)
  issue (.reactivateSnapshot tenantId targetSnapshotId)

/-! ## Redis -/

def redisSetNx (key : RedisKey) (value : String) : Program Bool := issue (.redisSetNx key value)

def redisGet (key : RedisKey) : Program (Option String) := issue (.redisGet key)

def redisDelete (key : RedisKey) : Program Unit := issue (.redisDelete key)

def redisExpire (key : RedisKey) : Program Unit := issue (.redisExpire key)

def redisTtl (key : RedisKey) : Program Int := issue (.redisTtl key)

/-! ## SnapshotRepository -/

/-- `snap_repo.create`: add the row and flush. -/
def createSnapshot (snapshot : Snapshot) : Program PgWrite := do
  let _ ← (issue (.pgFlush (.insertSnapshot snapshot)) : Program Unit)
  return .insertSnapshot snapshot

def getById (snapshotId : String) : Program (Option Snapshot) := issue (.pgGetSnapshot snapshotId)

/-- The snapshot id of the tenant's `ActivePointer` row. -/
def getActivePointer (tenantId : String) : Program (Option String) := issue (.pgGetPointer tenantId)

/-- `set_active_pointer`; the row it flushes. -/
def setActivePointer (tenantId snapshotId : String) : Program PgWrite := do
  let existing ← getActivePointer tenantId
  let row := if existing.isSome then PgWrite.updatePointer tenantId snapshotId
    else .insertPointer tenantId snapshotId
  let _ ← (issue (.pgFlush row) : Program Unit)
  return row

/-- `session.commit()` of a session that has flushed `rows`. -/
def sessionCommit (rows : List PgWrite) : Program Unit := issue (.pgCommit rows)

/-! ## What the methods do alone -/

section Alone
variable (w : World) (label : Label) (rid tenantId userId : String)

theorem run_issue (c : Cmd) : (issue c).run exec w = exec c w := Prog.run_perform exec c w

@[simp] theorem run_getActiveNode :
    (getActiveNode label rid tenantId).run exec w = (.ok (w.graph.getActiveNode label rid tenantId), w) := rfl

@[simp] theorem run_getDraftNode : (getDraftNode label rid tenantId userId).run exec w =
    (.ok (w.graph.getDraftNode label rid tenantId userId), w) := rfl

@[simp] theorem run_getStagingNode :
    (getStagingNode label rid tenantId).run exec w = (.ok (w.graph.getStagingNode label rid tenantId), w) :=
  rfl

theorem run_createNode (base : Props) {d : Dict} (h : d.storable = true) :
    (createNode label base d).run exec w = (.ok ⟨w.graph.nextId, label, base.update d⟩,
      w.onGraph fun g => g.create label (base.update d)) :=
  (run_issue w _).trans (if_pos h)

theorem run_updateNode {d : Dict} (isDraft : Option Bool) (owner : Option String) (h : d.storable = true) :
    (updateNode label rid tenantId d isDraft owner).run exec w =
      (.ok ((w.graph.nodes.find? (Graph.filterOf label rid tenantId isDraft none owner)).map
          fun n => n.set d),
        w.onGraph fun g => g.setWhere (Graph.filterOf label rid tenantId isDraft none owner) d) :=
  (run_issue w _).trans (if_pos h)

theorem run_updateNode_refused {d : Dict} (isDraft : Option Bool) (owner : Option String)
    (h : d.storable = false) :
    (updateNode label rid tenantId d isDraft owner).run exec w = (.error typeError, w) :=
  (run_issue w _).trans (if_neg (by simp [h]))

theorem run_createNode_refused (base : Props) {d : Dict} (h : d.storable = false) :
    (createNode label base d).run exec w = (.error typeError, w) :=
  (run_issue w _).trans (if_neg (by simp [h]))

@[simp] theorem run_deleteNode (isDraft isStaging : Option Bool) (owner : Option String) :
    (deleteNode label rid tenantId isDraft isStaging owner).run exec w =
      (.ok (decide (0 < w.graph.count (Graph.filterOf label rid tenantId isDraft isStaging owner))),
        w.onGraph fun g => g.deleteWhere (Graph.filterOf label rid tenantId isDraft isStaging owner)) := rfl

@[simp] theorem run_getRelatedNodes (relType : RelType) (direction : Graph.Direction) :
    (getRelatedNodes label rid tenantId relType direction).run exec w =
      (.ok (w.graph.getRelatedNodes label rid tenantId relType direction), w) := rfl

@[simp] theorem run_getStagingNodes :
    (getStagingNodes tenantId).run exec w = (.ok (w.graph.getStagingNodes tenantId), w) := rfl

@[simp] theorem run_hasUncommittedChanges :
    (hasUncommittedChanges tenantId).run exec w = (.ok (w.graph.hasUncommittedChanges tenantId), w) := rfl

@[simp] theorem run_redisGet (key : RedisKey) : (redisGet key).run exec w = (.ok (w.redis key), w) := rfl

@[simp] theorem run_redisDelete (key : RedisKey) :
    (redisDelete key).run exec w = (.ok (), w.setKey key none) := rfl

@[simp] theorem run_getById (snapshotId : String) : (getById snapshotId).run exec w =
    (.ok (w.snapshots.find? fun s => s.snapshotId = snapshotId), w) := rfl

@[simp] theorem run_getActivePointer :
    (getActivePointer tenantId).run exec w = (.ok (w.pointers tenantId), w) := rfl

end Alone

/-! ## Retries -/

/-- `DEFAULT_MAX_RETRIES`. -/
def defaultMaxRetries : ℕ := 3

/-- `retry_neo4j_operation`, without its delays and log lines. -/
def retryNeo4jOperation {α : Type} (operation : Program α) : ℕ → Program α
  | 0 => operation
  | n + 1 => operation.tryCatch fun e =>
      if e.retryable then retryNeo4jOperation operation n else .throw e

end Lingshu.Ontology
