import Lingshu.Interaction.Run
import Lingshu.Ontology.Graph
import Mathlib.Logic.Function.Basic

/-! # The stores and the commands that reach them

`World` is what the service shares between calls: the Neo4j graph, the Redis keys, the committed
PostgreSQL rows. `Cmd` lists every query the service issues, each one an atomic step; `exec` answers
it. Rows that a session has flushed are the program's own until `pgCommit`. -/
namespace Lingshu.Ontology
open Json Interaction
set_option autoImplicit false

/-! ## Rows -/

inductive Change where
  | create
  | update
  | delete
  deriving DecidableEq, Repr

/-- A row of `snapshots`. -/
structure Snapshot where
  snapshotId : String
  parentSnapshotId : Option String
  tenantId : String
  commitMessage : Option String
  author : String
  entityChanges : String → Option Change
  entityData : String → Option Props
  createdAt : String

/-- A row that a session has flushed but not committed. -/
inductive PgWrite where
  | insertSnapshot (snapshot : Snapshot)
  | insertPointer (tenantId snapshotId : String)
  | updatePointer (tenantId snapshotId : String)

/-- `ontology:lock:{rid}` and `ontology:commit_lock:{tenant_id}`. -/
inductive RedisKey where
  | lock (rid : String)
  | commitLock (tenantId : String)
  deriving DecidableEq, Repr

structure World where
  graph : Graph
  redis : RedisKey → Option String
  /-- The keys that match `ontology:cache:{tenant_id}:*`. -/
  cache : String → List String
  /-- Messages published on `ontology:schema_published:{tenant_id}`, newest first. -/
  channel : List (String × String)
  snapshots : List Snapshot
  pointers : String → Option String

def World.empty : World := ⟨.empty, fun _ => none, fun _ => [], [], [], fun _ => none⟩

/-- Change the graph, and nothing else. -/
def World.onGraph (w : World) (f : Graph → Graph) : World := { w with graph := f w.graph }

def World.setKey (w : World) (key : RedisKey) (value : Option String) : World :=
  { w with redis := Function.update w.redis key value }

@[simp] theorem World.onGraph_graph (w : World) (f : Graph → Graph) : (w.onGraph f).graph = f w.graph := rfl
@[simp] theorem World.onGraph_redis (w : World) (f : Graph → Graph) : (w.onGraph f).redis = w.redis := rfl
@[simp] theorem World.onGraph_snapshots (w : World) (f : Graph → Graph) :
    (w.onGraph f).snapshots = w.snapshots := rfl
@[simp] theorem World.onGraph_pointers (w : World) (f : Graph → Graph) :
    (w.onGraph f).pointers = w.pointers := rfl
@[simp] theorem World.setKey_graph (w : World) (key : RedisKey) (v : Option String) :
    (w.setKey key v).graph = w.graph := rfl
@[simp] theorem World.setKey_snapshots (w : World) (key : RedisKey) (v : Option String) :
    (w.setKey key v).snapshots = w.snapshots := rfl
@[simp] theorem World.setKey_pointers (w : World) (key : RedisKey) (v : Option String) :
    (w.setKey key v).pointers = w.pointers := rfl

/-! ## Commands -/

inductive Cmd where
  -- Neo4j. `createNode` stores `{**base, **properties}`, where `base` was read from a node.
  | createNode (label : Label) (base : Props) (properties : Dict)
  | getActiveNode (label : Label) (rid tenantId : String)
  | getDraftNode (label : Label) (rid tenantId userId : String)
  | getStagingNode (label : Label) (rid tenantId : String)
  | updateNode (label : Label) (rid tenantId : String) (properties : Dict) (isDraft : Option Bool)
      (draftOwner : Option String)
  | deleteNode (label : Label) (rid tenantId : String) (isDraft isStaging : Option Bool)
      (draftOwner : Option String)
  | createRelationship (fromLabel : Label) (fromRid : String) (toLabel : Label) (toRid : String)
      (relType : RelType) (tenantId : String)
  | getRelatedNodes (label : Label) (rid tenantId : String) (relType : RelType)
      (direction : Graph.Direction)
  | getIncomingReferencingRids (label : Label) (rid tenantId : String) (relType : RelType)
  | getStagingNodes (tenantId : String)
  | deactivateStaged (tenantId : String)
  | promoteStaged (tenantId snapshotId : String)
  | cleanupDeleted (tenantId snapshotId : String)
  | deactivateSnapshot (tenantId currentSnapshotId : String)
  | reactivateSnapshot (tenantId targetSnapshotId : String)
  | checkApiNameUnique (label : Label) (apiName : Value) (tenantId : String)
  | hasUncommittedChanges (tenantId : String)
  -- Redis
  | redisSetNx (key : RedisKey) (value : String)
  | redisGet (key : RedisKey)
  | redisDelete (key : RedisKey)
  | redisExpire (key : RedisKey)
  | redisTtl (key : RedisKey)
  | redisScan (tenantId : String)
  | redisDeleteCached (tenantId : String) (keys : List String)
  | redisPublish (tenantId snapshotId : String)
  -- PostgreSQL
  | pgGetSnapshot (snapshotId : String)
  | pgGetPointer (tenantId : String)
  | pgFlush (row : PgWrite)
  | pgCommit (rows : List PgWrite)

def Cmd.Answer : Cmd → Type
  | .createNode .. => Node
  | .getActiveNode .. | .getDraftNode .. | .getStagingNode .. | .updateNode .. => Option Node
  | .deleteNode .. => Bool
  | .createRelationship .. => Bool
  | .getRelatedNodes .. | .getStagingNodes .. => List Node
  | .getIncomingReferencingRids .. => List Value
  | .deactivateStaged .. | .promoteStaged .. | .cleanupDeleted .. => ℕ
  | .deactivateSnapshot .. | .reactivateSnapshot .. => ℕ
  | .checkApiNameUnique .. | .hasUncommittedChanges .. => Bool
  | .redisSetNx .. => Bool
  | .redisGet .. => Option String
  | .redisDelete .. | .redisExpire .. | .redisDeleteCached .. | .redisPublish .. => Unit
  | .redisTtl .. => Int
  -- The pages of a full `SCAN` loop.
  | .redisScan .. => List (List String)
  | .pgGetSnapshot .. => Option Snapshot
  | .pgGetPointer .. => Option String
  | .pgFlush .. | .pgCommit .. => Unit

/-! ## PostgreSQL -/

/-- Two rows with one primary key: `IntegrityError`. -/
def PgWrite.violates (w : World) : PgWrite → Bool
  | .insertSnapshot s => w.snapshots.any fun s' => s'.snapshotId = s.snapshotId
  | .insertPointer tenantId _ => (w.pointers tenantId).isSome
  | .updatePointer .. => false

def PgWrite.apply (w : World) : PgWrite → World
  | .insertSnapshot s => { w with snapshots := s :: w.snapshots }
  | .insertPointer tenantId snapshotId =>
    { w with pointers := Function.update w.pointers tenantId (some snapshotId) }
  | .updatePointer tenantId snapshotId =>
    -- `UPDATE ... WHERE tenant_id` touches no row when there is none.
    { w with pointers := Function.update w.pointers tenantId ((w.pointers tenantId).map fun _ => snapshotId) }

/-! ## Answers -/

/-- `LOCK_TTL_SECONDS`. -/
def lockTtlSeconds : Int := 1800

def scanCount : ℕ := 100

/-- Consecutive pages of `scanCount` keys. -/
def pages : ℕ → List String → List (List String)
  | 0, _ => []
  | _ + 1, [] => []
  | n + 1, keys => keys.take scanCount :: pages n (keys.drop scanCount)

def integrityError : Exc := .other "IntegrityError"

/-- Neo4j refuses a map, or a list of maps, as a property value. -/
def typeError : Exc := .other "CypherTypeError"

def exec : (c : Cmd) → World → Except Exc c.Answer × World
  | .createNode label base properties, w =>
    if properties.storable then
      (.ok ⟨w.graph.nextId, label, base.update properties⟩,
        w.onGraph fun g => g.create label (base.update properties))
    else (.error typeError, w)
  | .getActiveNode label rid tenantId, w => (.ok (w.graph.getActiveNode label rid tenantId), w)
  | .getDraftNode label rid tenantId userId, w =>
    (.ok (w.graph.getDraftNode label rid tenantId userId), w)
  | .getStagingNode label rid tenantId, w => (.ok (w.graph.getStagingNode label rid tenantId), w)
  | .updateNode label rid tenantId properties isDraft draftOwner, w =>
    if properties.storable then
      (.ok ((w.graph.nodes.find? (Graph.filterOf label rid tenantId isDraft none draftOwner)).map
          fun n => n.set properties),
        w.onGraph fun g => g.setWhere (Graph.filterOf label rid tenantId isDraft none draftOwner) properties)
    else (.error typeError, w)
  | .deleteNode label rid tenantId isDraft isStaging draftOwner, w =>
    (.ok (decide (0 < w.graph.count (Graph.filterOf label rid tenantId isDraft isStaging draftOwner))),
      w.onGraph fun g => g.deleteWhere (Graph.filterOf label rid tenantId isDraft isStaging draftOwner))
  | .createRelationship fromLabel fromRid toLabel toRid relType tenantId, w =>
    (.ok (decide (0 < w.graph.count (Node.keyed fromLabel fromRid tenantId) ∧
        0 < w.graph.count (Node.keyed toLabel toRid tenantId))),
      w.onGraph fun g => g.createRelationship fromLabel fromRid toLabel toRid relType tenantId)
  | .getRelatedNodes label rid tenantId relType direction, w =>
    (.ok (w.graph.getRelatedNodes label rid tenantId relType direction), w)
  | .getIncomingReferencingRids label rid tenantId relType, w =>
    (.ok (w.graph.getIncomingReferencingRids label rid tenantId relType), w)
  | .getStagingNodes tenantId, w => (.ok (w.graph.getStagingNodes tenantId), w)
  | .deactivateStaged tenantId, w =>
    (.ok (w.graph.count (w.graph.replacedBy tenantId)), w.onGraph fun g => g.deactivateStaged tenantId)
  | .promoteStaged tenantId snapshotId, w =>
    (.ok (w.graph.getStagingNodes tenantId).length,
      w.onGraph fun g => g.promoteStaged tenantId snapshotId)
  | .cleanupDeleted tenantId snapshotId, w =>
    (.ok (w.graph.count fun n => n.ofTenant tenantId && n.stamped snapshotId && n.has .isActive (.bool false)),
      w.onGraph fun g => g.cleanupDeleted tenantId snapshotId)
  | .deactivateSnapshot tenantId currentSnapshotId, w =>
    (.ok (w.graph.count fun n => n.ofTenant tenantId && n.stamped currentSnapshotId &&
        n.has .isActive (.bool true)),
      w.onGraph fun g => g.deactivateSnapshot tenantId currentSnapshotId)
  | .reactivateSnapshot tenantId targetSnapshotId, w =>
    (.ok (w.graph.count fun n => n.ofTenant tenantId && n.stamped targetSnapshotId),
      w.onGraph fun g => g.reactivateSnapshot tenantId targetSnapshotId)
  | .checkApiNameUnique label apiName tenantId, w =>
    (.ok (w.graph.checkApiNameUnique label apiName tenantId), w)
  | .hasUncommittedChanges tenantId, w => (.ok (w.graph.hasUncommittedChanges tenantId), w)
  | .redisSetNx key value, w =>
    match w.redis key with
    | some _ => (.ok false, w)
    | none => (.ok true, w.setKey key (some value))
  | .redisGet key, w => (.ok (w.redis key), w)
  | .redisDelete key, w => (.ok (), w.setKey key none)
  -- Time is not kept: a key may expire at any moment, and `ttl` is only read right after `expire`.
  | .redisExpire _, w => (.ok (), w)
  | .redisTtl key, w => (.ok (if (w.redis key).isSome then lockTtlSeconds else (-2 : Int)), w)
  | .redisScan tenantId, w => (.ok (pages ((w.cache tenantId).length + 1) (w.cache tenantId)), w)
  | .redisDeleteCached tenantId keys, w =>
    (.ok (), { w with cache := Function.update w.cache tenantId ((w.cache tenantId).filter (· ∉ keys)) })
  | .redisPublish tenantId snapshotId, w =>
    (.ok (), { w with channel := (tenantId, snapshotId) :: w.channel })
  | .pgGetSnapshot snapshotId, w => (.ok (w.snapshots.find? fun s => s.snapshotId = snapshotId), w)
  | .pgGetPointer tenantId, w => (.ok (w.pointers tenantId), w)
  | .pgFlush row, w => if row.violates w then (.error integrityError, w) else (.ok (), w)
  | .pgCommit rows, w =>
    if rows.any (PgWrite.violates w) then (.error integrityError, w)
    else (.ok (), rows.foldl PgWrite.apply w)

abbrev Program (α : Type) := Prog Cmd Cmd.Answer Exc α

end Lingshu.Ontology
