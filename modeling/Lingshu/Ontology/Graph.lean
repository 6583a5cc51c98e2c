import Lingshu.Ontology.Schema
import Mathlib.Data.List.Count
import Mathlib.Tactic.Common

/-! # The graph and its Cypher queries

`Graph` is what Neo4j stores; each query of `graph_repo.py` that the service issues is a function
on it. A query that returns one record returns the first match in the store's order. -/
namespace Lingshu.Ontology
open Json
set_option autoImplicit false

structure Node where
  /-- The element id that Neo4j gives the node. -/
  id : ℕ
  label : Label
  props : Props

inductive RelType where
  | belongsTo
  | basedOn
  | implements
  | extends
  | connects
  | requires
  | operatesOn
  deriving DecidableEq, Repr

structure Rel where
  type : RelType
  source : ℕ
  target : ℕ
  deriving DecidableEq

structure Graph where
  nodes : List Node
  rels : List Rel
  nextId : ℕ

def Graph.empty : Graph := ⟨[], [], 0⟩

/-! ## Matching -/

namespace Node

/-- `n.f = v` for a non-null `v`. -/
def has (n : Node) (f : Field) (v : Value) : Bool := decide (n.props f = v)

/-- `node.get("rid", "")`. -/
def rid (n : Node) : String :=
  match n.props .rid with
  | .str s => s
  | _ => ""

/-- `SET n += d`. -/
def set (n : Node) (d : Dict) : Node := { n with props := n.props.update d }

@[simp] theorem set_id (n : Node) (d : Dict) : (n.set d).id = n.id := rfl
@[simp] theorem set_label (n : Node) (d : Dict) : (n.set d).label = n.label := rfl
@[simp] theorem set_props (n : Node) (d : Dict) : (n.set d).props = n.props.update d := rfl

theorem has_set_of_notMem {n : Node} {d : Dict} {f : Field} (h : f ∉ d.keys) (v : Value) :
    (n.set d).has f v = n.has f v := by
  simp [has, Props.update_of_notMem h]

/-- `(n:label {rid: $rid, tenant_id: $tenant_id})`. -/
def keyed (label : Label) (rid tenantId : String) (n : Node) : Bool :=
  decide (n.label = label) && n.has .rid (.str rid) && n.has .tenantId (.str tenantId)

theorem keyed_iff {label : Label} {rid tenantId : String} {n : Node} :
    n.keyed label rid tenantId ↔
      n.label = label ∧ n.props .rid = .str rid ∧ n.props .tenantId = .str tenantId := by
  simp [keyed, has, and_assoc]

theorem keyed_set {n : Node} {d : Dict} (hrid : .rid ∉ d.keys) (htenant : .tenantId ∉ d.keys)
    (label : Label) (rid tenantId : String) :
    (n.set d).keyed label rid tenantId = n.keyed label rid tenantId := by
  unfold keyed
  rw [has_set_of_notMem hrid, has_set_of_notMem htenant]
  rfl

def ofTenant (tenantId : String) (n : Node) : Bool := n.has .tenantId (.str tenantId)

/-- `is_draft: false, is_staging: false`: an Active or historical version. -/
def published (n : Node) : Bool := n.has .isDraft (.bool false) && n.has .isStaging (.bool false)

/-- `is_draft: false, is_staging: false, is_active: true`. -/
def active (n : Node) : Bool := n.published && n.has .isActive (.bool true)

def staging (n : Node) : Bool := n.has .isStaging (.bool true)

def draft (n : Node) : Bool := n.has .isDraft (.bool true)

def draftOf (userId : String) (n : Node) : Bool := n.draft && n.has .draftOwner (.str userId)

def stamped (snapshotId : String) (n : Node) : Bool := n.has .snapshotId (.str snapshotId)

/-- An optional condition of a `MATCH` pattern: `None` leaves it out. -/
def hasOpt (n : Node) (f : Field) (v : Option Value) : Bool := v.all (n.has f)

end Node

/-! ## Updates -/

/-- Values that Neo4j stores: null, scalars, and lists of scalars of one kind. -/
def storable : Value → Bool
  | .null | .bool _ | .int _ | .float _ | .str _ => true
  | .list items =>
    items.all (fun v => match v with | .str _ => true | _ => false) ||
    items.all (fun v => match v with | .bool _ => true | _ => false) ||
    items.all (fun v => match v with | .int _ | .float _ => true | _ => false)
  | .dict _ => false

def Dict.storable (d : Dict) : Bool := d.all fun e => Ontology.storable e.2

namespace Graph

/-- `CREATE (n:label $props)`. -/
def create (g : Graph) (label : Label) (props : Props) : Graph :=
  { g with nodes := g.nodes ++ [⟨g.nextId, label, props⟩], nextId := g.nextId + 1 }

/-- `MATCH (n) WHERE p SET n += d`. -/
def setWhere (g : Graph) (p : Node → Bool) (d : Dict) : Graph :=
  { g with nodes := g.nodes.map fun n => if p n then n.set d else n }

/-- `MATCH (n) WHERE p DETACH DELETE n`. -/
def deleteWhere (g : Graph) (p : Node → Bool) : Graph :=
  { g with
    nodes := g.nodes.filter fun n => !p n
    rels := g.rels.filter fun r => (g.nodes.filter p).all fun n => r.source ≠ n.id ∧ r.target ≠ n.id }

def count (g : Graph) (p : Node → Bool) : ℕ := g.nodes.countP p

/-! ## Node CRUD -/

def getActiveNode (g : Graph) (label : Label) (rid tenantId : String) : Option Node :=
  g.nodes.find? fun n => n.keyed label rid tenantId && n.active

def getDraftNode (g : Graph) (label : Label) (rid tenantId userId : String) : Option Node :=
  g.nodes.find? fun n => n.keyed label rid tenantId && n.draftOf userId

def getStagingNode (g : Graph) (label : Label) (rid tenantId : String) : Option Node :=
  g.nodes.find? fun n => n.keyed label rid tenantId && n.staging

/-- The pattern of `update_node` and `delete_node`. -/
def filterOf (label : Label) (rid tenantId : String) (isDraft isStaging : Option Bool)
    (draftOwner : Option String) (n : Node) : Bool :=
  n.keyed label rid tenantId && n.hasOpt .isDraft (isDraft.map .bool) &&
    n.hasOpt .isStaging (isStaging.map .bool) && n.hasOpt .draftOwner (draftOwner.map .str)

/-! ## Relationships -/

def createRelationship (g : Graph) (fromLabel : Label) (fromRid : String) (toLabel : Label)
    (toRid : String) (relType : RelType) (tenantId : String) : Graph :=
  let sources := g.nodes.filter (Node.keyed fromLabel fromRid tenantId)
  let targets := g.nodes.filter (Node.keyed toLabel toRid tenantId)
  { g with rels := g.rels ++ sources.flatMap fun a => targets.map fun b => ⟨relType, a.id, b.id⟩ }

inductive Direction where
  | outgoing
  | incoming
  deriving DecidableEq, Repr

/-- One record for each matching relationship of each matching node. -/
def getRelatedNodes (g : Graph) (label : Label) (rid tenantId : String) (relType : RelType)
    (direction : Direction) : List Node :=
  (g.nodes.filter (Node.keyed label rid tenantId)).flatMap fun n =>
    (g.rels.filter fun r => r.type = relType).flatMap fun r =>
      g.nodes.filter fun m =>
        match direction with
        | .outgoing => r.source = n.id ∧ r.target = m.id
        | .incoming => r.target = n.id ∧ r.source = m.id

theorem mem_of_getRelatedNodes {g : Graph} {label : Label} {rid tenantId : String} {relType : RelType}
    {direction : Direction} {n : Node} (h : n ∈ g.getRelatedNodes label rid tenantId relType direction) :
    n ∈ g.nodes := by
  obtain ⟨_, _, h⟩ := List.mem_flatMap.mp h
  obtain ⟨_, _, h⟩ := List.mem_flatMap.mp h
  exact (List.mem_filter.mp h).1

def getIncomingReferencingRids (g : Graph) (label : Label) (rid tenantId : String)
    (relType : RelType) : List Value :=
  (g.getRelatedNodes label rid tenantId relType .incoming).map fun m => m.props .rid

/-! ## Staging, publication and rollback -/

def getStagingNodes (g : Graph) (tenantId : String) : List Node :=
  g.nodes.filter fun n => n.ofTenant tenantId && n.staging

/-- `collect(staging.rid)`, which leaves out nulls. -/
def stagingRids (g : Graph) (tenantId : String) : List Value :=
  ((g.getStagingNodes tenantId).map fun n => n.props .rid).filter fun v => v ≠ .null

/-- What `deactivate_query` of `promote_staging_to_active` matches. -/
def replacedBy (g : Graph) (tenantId : String) (n : Node) : Bool :=
  n.ofTenant tenantId && n.active && decide (n.props .rid ∈ g.stagingRids tenantId)

/-- `deactivate_query` of `promote_staging_to_active`. -/
def deactivateStaged (g : Graph) (tenantId : String) : Graph :=
  g.setWhere (g.replacedBy tenantId) [(.isActive, .bool false)]

/-- `promote_query`. -/
def promoteStaged (g : Graph) (tenantId snapshotId : String) : Graph :=
  g.setWhere (fun n => n.ofTenant tenantId && n.staging)
    [(.isStaging, .bool false), (.snapshotId, .str snapshotId)]

/-- `cleanup_query`. -/
def cleanupDeleted (g : Graph) (tenantId snapshotId : String) : Graph :=
  g.deleteWhere fun n => n.ofTenant tenantId && n.stamped snapshotId && n.has .isActive (.bool false)

/-- `deactivate_query` of `rollback_to_snapshot`. -/
def deactivateSnapshot (g : Graph) (tenantId currentSnapshotId : String) : Graph :=
  g.setWhere (fun n => n.ofTenant tenantId && n.stamped currentSnapshotId && n.has .isActive (.bool true))
    [(.isActive, .bool false)]

/-- `reactivate_query`. -/
def reactivateSnapshot (g : Graph) (tenantId targetSnapshotId : String) : Graph :=
  g.setWhere (fun n => n.ofTenant tenantId && n.stamped targetSnapshotId) [(.isActive, .bool true)]

/-- `check_api_name_unique`, as the service calls it: without `exclude_rid`. -/
def checkApiNameUnique (g : Graph) (label : Label) (apiName : Value) (tenantId : String) : Bool :=
  g.nodes.countP (fun n => decide (n.label = label) && n.ofTenant tenantId && n.has .apiName apiName &&
    decide (apiName ≠ .null) && n.active) == 0

def hasUncommittedChanges (g : Graph) (tenantId : String) : Bool :=
  g.nodes.any fun n => n.ofTenant tenantId && (n.draft || n.staging)

end Graph
end Lingshu.Ontology
