import Lingshu.Interaction.Isolation
import Lingshu.Ontology.Published
import Lingshu.Ontology.Visibility

/-! # Tenants that share the stores

Every tenant's entities are in one graph, its snapshots in one table and its locks in one Redis. `World.restrict` is
what a tenant can tell of them; the calls of a tenant work on it as on the whole. Two things show through: the element
ids that Neo4j gives out, and the edit locks, whose keys name an entity and no tenant. -/
namespace Lingshu.Ontology
open Json Interaction
set_option autoImplicit false

/-! ## The part of one tenant -/

/-- The tenant's nodes, and the relationships that start from one. -/
def Graph.restrict (g : Graph) (tenantId : String) : Graph where
  nodes := g.nodes.filter (Node.ofTenant tenantId)
  rels := g.rels.filter fun r => g.nodes.any fun n => n.ofTenant tenantId && decide (n.id = r.source)
  nextId := g.nextId

theorem Graph.eq_of_parts {g g' : Graph} (hnodes : g.nodes = g'.nodes) (hrels : g.rels = g'.rels)
    (hid : g.nextId = g'.nextId) : g = g' := by
  cases g
  cases g'
  cases hnodes
  cases hrels
  cases hid
  rfl

/-- Edit locks are everyone's. -/
def RedisKey.seenBy (tenantId : String) : RedisKey → Bool
  | .lock _ => true
  | .commitLock owner => decide (owner = tenantId)

def World.restrict (w : World) (tenantId : String) : World where
  graph := w.graph.restrict tenantId
  redis := fun key => if key.seenBy tenantId then w.redis key else none
  cache := fun owner => if owner = tenantId then w.cache owner else []
  channel := w.channel.filter fun m => m.1 = tenantId
  snapshots := w.snapshots.filter fun s => s.tenantId = tenantId
  pointers := fun owner => if owner = tenantId then w.pointers owner else none

/-- A relationship joins versions of one tenant. -/
def Graph.Partitioned (g : Graph) : Prop :=
  ∀ r ∈ g.rels, ∀ a ∈ g.nodes, ∀ b ∈ g.nodes, a.id = r.source → b.id = r.target →
    a.props .tenantId = b.props .tenantId

/-- Nodes that match belong to the tenant. -/
def Owned (tenantId : String) (p : Node → Bool) : Prop := ∀ n, p n = true → n.ofTenant tenantId = true

section Queries
variable {g : Graph} {tenantId : String} {p : Node → Bool}

theorem Owned.and (h : Owned tenantId p) (q : Node → Bool) : Owned tenantId fun n => p n && q n :=
  fun n hn => h n (Bool.and_eq_true_iff.mp hn).1

theorem owned_ofTenant (tenantId : String) : Owned tenantId (Node.ofTenant tenantId) := fun _ hn => hn

theorem owned_keyed (label : Label) (rid tenantId : String) : Owned tenantId (Node.keyed label rid tenantId) :=
  fun _ hn => (Bool.and_eq_true_iff.mp hn).2

theorem owned_filterOf (label : Label) (rid tenantId : String) (isDraft isStaging : Option Bool)
    (draftOwner : Option String) : Owned tenantId (Graph.filterOf label rid tenantId isDraft isStaging draftOwner) :=
  (((owned_keyed label rid tenantId).and _).and _).and _

/-- Nodes of another tenant do not match. -/
theorem Owned.not (h : Owned tenantId p) {other : String} (hne : tenantId ≠ other) :
    ∀ n : Node, n.ofTenant other → p n = false := by
  intro n hn
  by_contra hp
  have hown : n.ofTenant tenantId = true := h n (by simpa using hp)
  exact hne (Value.str.inj ((of_decide_eq_true hown).symm.trans (of_decide_eq_true hn)))

theorem owned_replacedBy (g : Graph) (tenantId : String) : Owned tenantId (g.replacedBy tenantId) :=
  ((owned_ofTenant tenantId).and _).and _

/-- Queries for nodes of a tenant find the same in the tenant's part. -/
theorem filter_restrict (hp : Owned tenantId p) : (g.restrict tenantId).nodes.filter p = g.nodes.filter p := by
  rw [Graph.restrict, List.filter_filter]
  refine List.filter_congr fun n _ => ?_
  by_cases h : p n = true
  · rw [h, hp n h]
    rfl
  · rw [Bool.not_eq_true] at h
    rw [h]
    rfl

theorem find?_restrict (hp : Owned tenantId p) : (g.restrict tenantId).nodes.find? p = g.nodes.find? p := by
  rw [← List.head?_filter, filter_restrict hp, List.head?_filter]

theorem countP_restrict (hp : Owned tenantId p) : (g.restrict tenantId).nodes.countP p = g.nodes.countP p := by
  rw [List.countP_eq_length_filter, filter_restrict hp, List.countP_eq_length_filter]

theorem any_restrict (hp : Owned tenantId p) : (g.restrict tenantId).nodes.any p = g.nodes.any p := by
  rw [Bool.eq_iff_iff, List.any_eq_true, List.any_eq_true]
  constructor
  · rintro ⟨n, hn, h⟩
    exact ⟨n, (List.mem_filter.mp hn).1, h⟩
  · rintro ⟨n, hn, h⟩
    exact ⟨n, List.mem_filter.mpr ⟨hn, hp n h⟩, h⟩

theorem mem_restrict {n : Node} : n ∈ (g.restrict tenantId).nodes ↔ n ∈ g.nodes ∧ n.ofTenant tenantId :=
  List.mem_filter

theorem mem_restrict_rels {r : Rel} :
    r ∈ (g.restrict tenantId).rels ↔ r ∈ g.rels ∧ ∃ n ∈ g.nodes, n.ofTenant tenantId ∧ n.id = r.source := by
  simp [Graph.restrict, List.mem_filter]

theorem Graph.Partitioned.ofTenant (h : g.Partitioned) {r : Rel} (hr : r ∈ g.rels) {a b : Node} (ha : a ∈ g.nodes)
    (hb : b ∈ g.nodes) (hsource : a.id = r.source) (htarget : b.id = r.target) :
    a.ofTenant tenantId = b.ofTenant tenantId := by
  unfold Node.ofTenant Node.has
  rw [h r hr a ha b hb hsource htarget]

/-- The relationship leads from the one node to the other. -/
def Graph.Direction.Joins (r : Rel) (n m : Node) : Graph.Direction → Prop
  | .outgoing => r.source = n.id ∧ r.target = m.id
  | .incoming => r.target = n.id ∧ r.source = m.id

/-- What a step along a relationship finds is of the tenant. -/
theorem getRelatedNodes_restrict (h : g.Partitioned) (label : Label) (rid : String) (relType : RelType)
    (direction : Graph.Direction) :
    (g.restrict tenantId).getRelatedNodes label rid tenantId relType direction =
      g.getRelatedNodes label rid tenantId relType direction := by
  unfold Graph.getRelatedNodes
  rw [filter_restrict (owned_keyed label rid tenantId)]
  refine List.flatMap_congr fun n hn => ?_
  obtain ⟨hn, hkey⟩ := List.mem_filter.mp hn
  have htenant : n.ofTenant tenantId = true := owned_keyed label rid tenantId n hkey
  have hfound : ∀ r ∈ g.rels, ∀ m ∈ g.nodes, direction.Joins r n m →
      m.ofTenant tenantId ∧ r ∈ (g.restrict tenantId).rels := by
    intro r hr m hm hends
    cases direction with
    | outgoing =>
      have hsame : n.ofTenant tenantId = m.ofTenant tenantId := h.ofTenant hr hn hm hends.1.symm hends.2.symm
      exact ⟨hsame ▸ htenant, mem_restrict_rels.mpr ⟨hr, n, hn, htenant, hends.1.symm⟩⟩
    | incoming =>
      have hsame : m.ofTenant tenantId = n.ofTenant tenantId := h.ofTenant hr hm hn hends.2.symm hends.1.symm
      exact ⟨hsame ▸ htenant, mem_restrict_rels.mpr ⟨hr, m, hm, hsame ▸ htenant, hends.2.symm⟩⟩
  rw [Graph.restrict, List.filter_comm, flatMap_filter_of_nil]
  · refine List.flatMap_congr fun r hr => ?_
    rw [List.filter_filter]
    refine List.filter_congr fun m hm => ?_
    by_cases hends : direction.Joins r n m
    · have hown := (hfound r (List.mem_filter.mp hr).1 m hm hends).1
      cases direction <;> simp [hown]
    · cases direction <;> simp_all [Graph.Direction.Joins]
  · intro r hr hnone
    refine List.filter_eq_nil_iff.mpr fun m hm hends => ?_
    have hr := (List.mem_filter.mp hr).1
    have hjoins : direction.Joins r n m := by cases direction <;> simpa [Graph.Direction.Joins] using hends
    have hown := (mem_restrict_rels.mp (hfound r hr m (List.mem_filter.mp hm).1 hjoins).2).2
    obtain ⟨a, ha, hown, hid⟩ := hown
    rw [List.any_eq_false] at hnone
    exact hnone a ha (by simp [hown, hid])

end Queries

/-! ## Queries that write -/

namespace Graph
variable {g : Graph} {tenantId : String}

theorem ofTenant_set {n : Node} {d : Dict} (hd : .tenantId ∉ d.keys) (tenantId : String) :
    (n.set d).ofTenant tenantId = n.ofTenant tenantId := Node.has_set_of_notMem hd _

theorem restrict_setWhere (p : Node → Bool) {d : Dict} (hd : .tenantId ∉ d.keys) :
    (g.setWhere p d).restrict tenantId = (g.restrict tenantId).setWhere p d := by
  have hsame : ∀ n : Node, (if p n then n.set d else n).ofTenant tenantId = n.ofTenant tenantId := by
    intro n
    split
    · exact ofTenant_set hd tenantId
    · rfl
  have hid : ∀ n : Node, (if p n then n.set d else n).id = n.id := by
    intro n
    split <;> rfl
  simp only [restrict, setWhere, Graph.mk.injEq, and_true]
  constructor
  · rw [List.filter_map]
    congr 1
    exact List.filter_congr fun n _ => hsame n
  · refine List.filter_congr fun r _ => ?_
    rw [List.any_map]
    congr 1
    funext n
    simp only [Function.comp_apply, hsame, hid]

/-- An update of nodes that are not the tenant's. -/
theorem setWhere_restrict_of_not {p : Node → Bool} (hp : ∀ n, n.ofTenant tenantId → p n = false) (d : Dict) :
    (g.restrict tenantId).setWhere p d = g.restrict tenantId := by
  have hmap : (g.restrict tenantId).nodes.map (fun n => if p n then n.set d else n) = (g.restrict tenantId).nodes := by
    refine (List.map_congr_left fun n hn => ?_).trans (List.map_id _)
    rw [if_neg (by rw [hp n (mem_restrict.mp hn).2]; exact Bool.false_ne_true)]
    rfl
  rw [setWhere, hmap]

theorem Linked.eq_of_id (h : g.Linked) {a b : Node} (ha : a ∈ g.nodes) (hb : b ∈ g.nodes) (hid : a.id = b.id) : a = b :=
  List.inj_on_of_nodup_map h.ids ha hb hid

/-- What a deletion detaches from the tenant's nodes are ends of the tenant's own. -/
theorem restrict_deleteWhere (h : g.Linked) (hj : g.Partitioned) (p : Node → Bool) :
    (g.deleteWhere p).restrict tenantId = (g.restrict tenantId).deleteWhere p := by
  simp only [restrict, deleteWhere, Graph.mk.injEq, and_true]
  constructor
  · exact List.filter_comm ..
  · rw [List.filter_filter, List.filter_filter]
    refine List.filter_congr fun r hr => ?_
    rw [Bool.eq_iff_iff, Bool.and_eq_true_iff, Bool.and_eq_true_iff]
    simp only [List.any_eq_true, List.all_eq_true, List.mem_filter, Bool.and_eq_true_iff, decide_eq_true_eq,
      Bool.not_eq_true', and_imp]
    constructor
    · rintro ⟨⟨a, ⟨ha, _⟩, hown, hid⟩, hkept⟩
      exact ⟨fun n hn _ hp => hkept n hn hp, a, ha, hown, hid⟩
    · rintro ⟨hkept, a, ha, hown, hid⟩
      have hall : ∀ n ∈ g.nodes, p n = true → r.source ≠ n.id ∧ r.target ≠ n.id := by
        intro n hn hp
        refine ⟨fun hs => ?_, fun ht => ?_⟩
        · obtain rfl : a = n := h.eq_of_id ha hn (hid.trans hs)
          exact (hkept a hn hown hp).1 hs
        · have hown' : a.ofTenant tenantId = n.ofTenant tenantId := hj.ofTenant hr ha hn hid ht.symm
          exact (hkept n hn (hown' ▸ hown) hp).2 ht
      refine ⟨⟨a, ⟨ha, ?_⟩, hown, hid⟩, hall⟩
      by_contra hp
      exact (hall a ha (by simpa using hp)).1 hid.symm

theorem deleteWhere_restrict_of_not {p : Node → Bool} (hp : ∀ n, n.ofTenant tenantId → p n = false) :
    (g.restrict tenantId).deleteWhere p = g.restrict tenantId := by
  have hnone : (g.restrict tenantId).nodes.filter p = [] :=
    List.filter_eq_nil_iff.mpr fun n hn => by rw [hp n (mem_restrict.mp hn).2]; exact Bool.false_ne_true
  have hall : (g.restrict tenantId).nodes.filter (fun n => !p n) = (g.restrict tenantId).nodes :=
    List.filter_eq_self.mpr fun n hn => by rw [hp n (mem_restrict.mp hn).2]; rfl
  simp [deleteWhere, hnone, hall]

theorem restrict_create_rels (h : g.Linked) (label : Label) (props : Props) :
    ((g.create label props).restrict tenantId).rels = (g.restrict tenantId).rels := by
  refine List.filter_congr fun r hr => ?_
  have hnew : ¬g.nextId = r.source := Nat.ne_of_gt (h.ends r hr).1
  simp [create, List.any_append, hnew]

theorem restrict_create (h : g.Linked) (label : Label) {props : Props} (hp : props .tenantId = .str tenantId) :
    (g.create label props).restrict tenantId = (g.restrict tenantId).create label props := by
  have hnodes : ((g.create label props).restrict tenantId).nodes =
      (g.restrict tenantId).nodes ++ [⟨g.nextId, label, props⟩] := by
    simp [restrict, create, Node.ofTenant, Node.has, hp]
  exact Graph.eq_of_parts hnodes (restrict_create_rels h label props) rfl

/-- Of another tenant's node only its id is seen to be gone. -/
theorem restrict_create_of_ne (h : g.Linked) (label : Label) {props : Props} (hp : props .tenantId ≠ .str tenantId) :
    (g.create label props).restrict tenantId = { g.restrict tenantId with nextId := g.nextId + 1 } := by
  have hnodes : ((g.create label props).restrict tenantId).nodes = (g.restrict tenantId).nodes := by
    simp [restrict, create, Node.ofTenant, Node.has, hp]
  exact Graph.eq_of_parts hnodes (restrict_create_rels h label props) rfl

theorem restrict_createRelationship (fromLabel : Label) (fromRid : String) (toLabel : Label)
    (toRid : String) (relType : RelType) :
    (g.createRelationship fromLabel fromRid toLabel toRid relType tenantId).restrict tenantId =
      (g.restrict tenantId).createRelationship fromLabel fromRid toLabel toRid relType tenantId := by
  unfold createRelationship
  rw [filter_restrict (owned_keyed fromLabel fromRid tenantId), filter_restrict (owned_keyed toLabel toRid tenantId)]
  simp only [restrict, List.filter_append, Graph.mk.injEq, true_and, and_true]
  congr 1
  refine List.filter_eq_self.mpr fun r hr => ?_
  obtain ⟨a, ha, hr⟩ := List.mem_flatMap.mp hr
  obtain ⟨b, _, rfl⟩ := List.mem_map.mp hr
  obtain ⟨ha, hkey⟩ := List.mem_filter.mp ha
  exact List.any_eq_true.mpr ⟨a, ha, by simp [owned_keyed _ _ _ a hkey]⟩

/-- Relationships of another tenant start from no node of this one. -/
theorem restrict_createRelationship_of_ne (h : g.Linked) (fromLabel : Label) (fromRid : String) (toLabel : Label)
    (toRid : String) (relType : RelType) {other : String} (hne : other ≠ tenantId) :
    (g.createRelationship fromLabel fromRid toLabel toRid relType other).restrict tenantId = g.restrict tenantId := by
  unfold createRelationship
  simp only [restrict, List.filter_append, Graph.mk.injEq, true_and, and_true, List.append_right_eq_self]
  refine List.filter_eq_nil_iff.mpr fun r hr hown => ?_
  obtain ⟨a, ha, hr⟩ := List.mem_flatMap.mp hr
  obtain ⟨b, _, rfl⟩ := List.mem_map.mp hr
  obtain ⟨ha, hkey⟩ := List.mem_filter.mp ha
  obtain ⟨n, hn, hfirst⟩ := List.any_eq_true.mp hown
  obtain ⟨htenant, hid⟩ := Bool.and_eq_true_iff.mp hfirst
  obtain rfl : n = a := h.eq_of_id hn ha (of_decide_eq_true hid)
  have hother : n.ofTenant other = true := owned_keyed _ _ _ n hkey
  exact hne (Value.str.inj ((of_decide_eq_true hother).symm.trans (of_decide_eq_true htenant)))

end Graph

/-! ## Commands of a tenant -/

/-- The tenant whose row it is. -/
def PgWrite.owner : PgWrite → String
  | .insertSnapshot s => s.tenantId
  | .insertPointer tenantId _ | .updatePointer tenantId _ => tenantId

/-- The snapshot that a row adds. -/
def PgWrite.snapshotId : PgWrite → Option String
  | .insertSnapshot s => some s.snapshotId
  | _ => none

/-- The tenant is in every pattern, key and row of the command. -/
def Cmd.Within (tenantId : String) : Cmd → Prop
  | .createNode _ base properties => (base.update properties) .tenantId = .str tenantId
  | .updateNode _ _ owner properties _ _ => owner = tenantId ∧ .tenantId ∉ properties.keys
  | .getActiveNode _ _ owner | .getDraftNode _ _ owner _ | .getStagingNode _ _ owner
  | .deleteNode _ _ owner _ _ _ | .createRelationship _ _ _ _ _ owner | .getRelatedNodes _ _ owner _ _
  | .getIncomingReferencingRids _ _ owner _ | .getStagingNodes owner | .deactivateStaged owner
  | .promoteStaged owner _ | .cleanupDeleted owner _ | .deactivateSnapshot owner _ | .reactivateSnapshot owner _
  | .checkApiNameUnique _ _ owner | .hasUncommittedChanges owner | .redisScan owner | .redisDeleteCached owner _
  | .redisPublish owner _ | .pgGetPointer owner => owner = tenantId
  | .redisSetNx key _ | .redisGet key | .redisDelete key | .redisExpire key | .redisTtl key => key.seenBy tenantId
  | .pgGetSnapshot _ => True
  | .pgFlush row => row.owner = tenantId
  | .pgCommit rows => ∀ row ∈ rows, row.owner = tenantId

/-- The snapshots that the command asks for or adds. -/
def Cmd.snapshotIds : Cmd → List String
  | .pgGetSnapshot snapshotId => [snapshotId]
  | .pgFlush row => row.snapshotId.toList
  | .pgCommit rows => rows.filterMap PgWrite.snapshotId
  | _ => []

/-- The entity whose edit lock the command takes or drops. -/
def Cmd.lockRid : Cmd → Option String
  | .redisSetNx (.lock rid) _ | .redisDelete (.lock rid) => some rid
  | _ => none

namespace World
variable {w : World} {tenantId : String}

theorem restrict_onGraph {f : Graph → Graph} (h : (f w.graph).restrict tenantId = f (w.graph.restrict tenantId)) :
    (w.onGraph f).restrict tenantId = (w.restrict tenantId).onGraph f := by
  simp only [restrict, onGraph, h]

theorem restrict_onGraph_of_same {f : Graph → Graph} (h : (f w.graph).restrict tenantId = w.graph.restrict tenantId) :
    (w.onGraph f).restrict tenantId = w.restrict tenantId := by
  simp only [restrict, onGraph, h]

theorem restrict_setKey {key : RedisKey} (h : key.seenBy tenantId = true) (value : Option String) :
    (w.setKey key value).restrict tenantId = (w.restrict tenantId).setKey key value := by
  have hredis : (fun k => if k.seenBy tenantId then Function.update w.redis key value k else none) =
      Function.update (w.restrict tenantId).redis key value := by
    funext k
    by_cases hk : k = key
    · subst hk
      simp [h]
    · simp [Function.update_of_ne hk, restrict]
  simp only [restrict, setKey, hredis]

theorem restrict_setKey_of_not {key : RedisKey} (h : key.seenBy tenantId = false) (value : Option String) :
    (w.setKey key value).restrict tenantId = w.restrict tenantId := by
  have hredis : (fun k => if k.seenBy tenantId then Function.update w.redis key value k else none) =
      (w.restrict tenantId).redis := by
    funext k
    by_cases hk : k = key
    · subst hk
      simp [h, restrict]
    · simp [Function.update_of_ne hk, restrict]
  simp only [restrict, setKey] at hredis ⊢
  rw [hredis]

end World

theorem restrict_apply {row : PgWrite} {tenantId : String} (h : row.owner = tenantId) (w : World) :
    (row.apply w).restrict tenantId = row.apply (w.restrict tenantId) := by
  have hpointers : ∀ value : Option String,
      (fun owner => if owner = tenantId then Function.update w.pointers tenantId value owner else none) =
        Function.update (w.restrict tenantId).pointers tenantId value := by
    intro value
    funext owner
    by_cases ho : owner = tenantId
    · subst ho
      simp
    · simp [ho, World.restrict]
  cases row with
  | insertSnapshot s =>
    have hs : s.tenantId = tenantId := h
    simp [PgWrite.apply, World.restrict, hs]
  | insertPointer owner snapshotId =>
    obtain rfl : owner = tenantId := h
    exact congrArg (World.mk _ _ _ _ _) (hpointers _)
  | updatePointer owner snapshotId =>
    obtain rfl : owner = tenantId := h
    have hself : (w.restrict owner).pointers owner = w.pointers owner := if_pos rfl
    have hrow : (PgWrite.updatePointer owner snapshotId).apply (w.restrict owner) =
        { w.restrict owner with
          pointers := Function.update (w.restrict owner).pointers owner ((w.pointers owner).map fun _ => snapshotId) } := by
      rw [PgWrite.apply, hself]
    exact (congrArg (World.mk _ _ _ _ _) (hpointers _)).trans hrow.symm

theorem restrict_apply_of_ne {row : PgWrite} {tenantId : String} (h : row.owner ≠ tenantId) (w : World) :
    (row.apply w).restrict tenantId = w.restrict tenantId := by
  have hpointers : ∀ (owner : String) (value : Option String), owner ≠ tenantId →
      (fun t => if t = tenantId then Function.update w.pointers owner value t else none) =
        fun t => if t = tenantId then w.pointers t else none := by
    intro owner value ho
    funext t
    split
    · next ht => rw [Function.update_of_ne (ht ▸ ho.symm)]
    · rfl
  cases row with
  | insertSnapshot s =>
    have hs : s.tenantId ≠ tenantId := h
    simp [PgWrite.apply, World.restrict, hs]
  | insertPointer owner snapshotId | updatePointer owner snapshotId =>
    simp only [PgWrite.apply, World.restrict, hpointers owner _ h]

/-- Snapshots that go by one of these ids are the tenant's. -/
def World.Named (w : World) (tenantId : String) (snapshotIds : List String) : Prop :=
  ∀ s ∈ w.snapshots, s.snapshotId ∈ snapshotIds → s.tenantId = tenantId

theorem restrict_violates {row : PgWrite} {tenantId : String} {w : World} (h : row.owner = tenantId)
    (hn : w.Named tenantId row.snapshotId.toList) : row.violates (w.restrict tenantId) = row.violates w := by
  cases row with
  | insertSnapshot s =>
    rw [Bool.eq_iff_iff]
    simp only [PgWrite.violates, World.restrict, List.any_eq_true, List.mem_filter, decide_eq_true_eq]
    constructor
    · rintro ⟨s', ⟨hs, _⟩, hid⟩
      exact ⟨s', hs, hid⟩
    · rintro ⟨s', hs, hid⟩
      exact ⟨s', ⟨hs, hn s' hs (by simp [PgWrite.snapshotId, hid])⟩, hid⟩
  | insertPointer owner snapshotId =>
    have hown : owner = tenantId := h
    simp [PgWrite.violates, World.restrict, hown]
  | updatePointer owner snapshotId => rfl

theorem restrict_foldl {tenantId : String} {rows : List PgWrite} (h : ∀ row ∈ rows, row.owner = tenantId) (w : World) :
    (rows.foldl PgWrite.apply w).restrict tenantId = rows.foldl PgWrite.apply (w.restrict tenantId) := by
  induction rows generalizing w with
  | nil => rfl
  | cons row rows ih =>
    rw [List.foldl_cons, List.foldl_cons, ih fun r hr => h r (List.mem_cons_of_mem row hr),
      restrict_apply (h row List.mem_cons_self)]

theorem restrict_foldl_of_ne {tenantId : String} {rows : List PgWrite} (h : ∀ row ∈ rows, row.owner ≠ tenantId)
    (w : World) : (rows.foldl PgWrite.apply w).restrict tenantId = w.restrict tenantId := by
  induction rows generalizing w with
  | nil => rfl
  | cons row rows ih =>
    rw [List.foldl_cons, ih fun r hr => h r (List.mem_cons_of_mem row hr),
      restrict_apply_of_ne (h row List.mem_cons_self)]

theorem restrict_getSnapshot {tenantId snapshotId : String} {w : World} (hn : w.Named tenantId [snapshotId]) :
    ((w.restrict tenantId).snapshots.find? fun s => s.snapshotId = snapshotId) =
      w.snapshots.find? fun s => s.snapshotId = snapshotId := by
  rw [World.restrict, ← List.head?_filter, ← List.head?_filter, List.filter_filter]
  congr 1
  refine List.filter_congr fun s hs => ?_
  by_cases hid : s.snapshotId = snapshotId
  · simp [hid, hn s hs (by simp [hid])]
  · simp [hid]

theorem getStagingNodes_restrict (g : Graph) (tenantId : String) :
    (g.restrict tenantId).getStagingNodes tenantId = g.getStagingNodes tenantId :=
  filter_restrict ((owned_ofTenant tenantId).and _)

theorem replacedBy_restrict (g : Graph) (tenantId : String) :
    (g.restrict tenantId).replacedBy tenantId = g.replacedBy tenantId := by
  have hrids : (g.restrict tenantId).stagingRids tenantId = g.stagingRids tenantId := by
    rw [Graph.stagingRids, getStagingNodes_restrict, Graph.stagingRids]
  funext n
  rw [Graph.replacedBy, hrids, Graph.replacedBy]

section Commands
variable {w : World} {tenantId : String} {c : Cmd}

/-- A tenant's command does to the tenant's part what it does to the stores. -/
theorem exec_restrict (hw : c.Within tenantId) (hl : w.graph.Linked) (hj : w.graph.Partitioned)
    (hn : w.Named tenantId c.snapshotIds) :
    exec c (w.restrict tenantId) = ((exec c w).1, (exec c w).2.restrict tenantId) := by
  have hread : ∀ {A : Type} {a b : A}, a = b → ((Except.ok a : Except Exc A), w.restrict tenantId) = (.ok b, w.restrict tenantId) :=
    fun h => by rw [h]
  cases c with
  | createNode label base d =>
    simp only [exec]
    split
    · rw [World.restrict_onGraph (Graph.restrict_create hl label hw)]
      rfl
    · rfl
  | getActiveNode label rid owner =>
    obtain rfl : owner = tenantId := hw
    exact hread (find?_restrict ((owned_keyed label rid owner).and _))
  | getDraftNode label rid owner userId =>
    obtain rfl : owner = tenantId := hw
    exact hread (find?_restrict ((owned_keyed label rid owner).and _))
  | getStagingNode label rid owner =>
    obtain rfl : owner = tenantId := hw
    exact hread (find?_restrict ((owned_keyed label rid owner).and _))
  | updateNode label rid owner d isDraft draftOwner =>
    obtain ⟨rfl, hd⟩ : owner = tenantId ∧ Field.tenantId ∉ d.keys := hw
    have hfind : (w.restrict owner).graph.nodes.find? (Graph.filterOf label rid owner isDraft none draftOwner) = _ :=
      find?_restrict (owned_filterOf label rid owner isDraft none draftOwner)
    simp only [exec]
    split
    · rw [World.restrict_onGraph (Graph.restrict_setWhere _ hd), hfind]
    · rfl
  | deleteNode label rid owner isDraft isStaging draftOwner =>
    obtain rfl : owner = tenantId := hw
    have hcount : (w.restrict owner).graph.count (Graph.filterOf label rid owner isDraft isStaging draftOwner) = _ :=
      countP_restrict (owned_filterOf label rid owner isDraft isStaging draftOwner)
    simp only [exec]
    rw [World.restrict_onGraph (Graph.restrict_deleteWhere hl hj _), hcount]
    rfl
  | createRelationship fromLabel fromRid toLabel toRid relType owner =>
    obtain rfl : owner = tenantId := hw
    have hfrom : (w.restrict owner).graph.count (Node.keyed fromLabel fromRid owner) = _ :=
      countP_restrict (owned_keyed fromLabel fromRid owner)
    have hto : (w.restrict owner).graph.count (Node.keyed toLabel toRid owner) = _ :=
      countP_restrict (owned_keyed toLabel toRid owner)
    simp only [exec]
    rw [World.restrict_onGraph (Graph.restrict_createRelationship ..), hfrom, hto]
    rfl
  | getRelatedNodes label rid owner relType direction =>
    obtain rfl : owner = tenantId := hw
    exact hread (getRelatedNodes_restrict hj label rid relType direction)
  | getIncomingReferencingRids label rid owner relType =>
    obtain rfl : owner = tenantId := hw
    exact hread (congrArg _ (getRelatedNodes_restrict hj label rid relType .incoming))
  | getStagingNodes owner =>
    obtain rfl : owner = tenantId := hw
    exact hread (getStagingNodes_restrict w.graph owner)
  | deactivateStaged owner =>
    obtain rfl : owner = tenantId := hw
    have hset : (w.graph.deactivateStaged owner).restrict owner = (w.graph.restrict owner).deactivateStaged owner := by
      rw [Graph.deactivateStaged, Graph.deactivateStaged, replacedBy_restrict, Graph.restrict_setWhere _ (by decide)]
    have hcount : (w.restrict owner).graph.count ((w.restrict owner).graph.replacedBy owner) =
        w.graph.count (w.graph.replacedBy owner) := by
      rw [World.restrict, replacedBy_restrict]
      exact countP_restrict (owned_replacedBy w.graph owner)
    simp only [exec]
    rw [World.restrict_onGraph hset, hcount]
  | promoteStaged owner snapshotId =>
    obtain rfl : owner = tenantId := hw
    have hcount : ((w.restrict owner).graph.getStagingNodes owner).length = (w.graph.getStagingNodes owner).length :=
      congrArg List.length (getStagingNodes_restrict w.graph owner)
    have hset : (w.graph.promoteStaged owner snapshotId).restrict owner = _ := Graph.restrict_setWhere _ (by simp [Dict.keys])
    simp only [exec]
    rw [World.restrict_onGraph hset]
    exact Prod.ext (congrArg Except.ok hcount) rfl
  | cleanupDeleted owner snapshotId =>
    obtain rfl : owner = tenantId := hw
    have hcount := countP_restrict (g := w.graph)
      (((owned_ofTenant owner).and (Node.stamped snapshotId)).and fun n => n.has .isActive (.bool false))
    have hdrop : (w.graph.cleanupDeleted owner snapshotId).restrict owner = _ := Graph.restrict_deleteWhere hl hj _
    simp only [exec]
    rw [World.restrict_onGraph hdrop]
    exact Prod.ext (congrArg Except.ok hcount) rfl
  | deactivateSnapshot owner snapshotId =>
    obtain rfl : owner = tenantId := hw
    have hcount := countP_restrict (g := w.graph)
      (((owned_ofTenant owner).and (Node.stamped snapshotId)).and fun n => n.has .isActive (.bool true))
    have hset : (w.graph.deactivateSnapshot owner snapshotId).restrict owner = _ :=
      Graph.restrict_setWhere _ (by decide)
    simp only [exec]
    rw [World.restrict_onGraph hset]
    exact Prod.ext (congrArg Except.ok hcount) rfl
  | reactivateSnapshot owner snapshotId =>
    obtain rfl : owner = tenantId := hw
    have hcount := countP_restrict (g := w.graph) ((owned_ofTenant owner).and (Node.stamped snapshotId))
    have hset : (w.graph.reactivateSnapshot owner snapshotId).restrict owner = _ :=
      Graph.restrict_setWhere _ (by decide)
    simp only [exec]
    rw [World.restrict_onGraph hset]
    exact Prod.ext (congrArg Except.ok hcount) rfl
  | checkApiNameUnique label apiName owner =>
    obtain rfl : owner = tenantId := hw
    have howned : Owned owner fun n => decide (n.label = label) && n.ofTenant owner && n.has .apiName apiName &&
        decide (apiName ≠ .null) && n.active := by
      intro n hn
      simp only [Bool.and_eq_true_iff] at hn
      exact hn.1.1.1.2
    exact hread (congrArg (· == 0) (countP_restrict howned))
  | hasUncommittedChanges owner =>
    obtain rfl : owner = tenantId := hw
    exact hread (any_restrict ((owned_ofTenant owner).and _))
  | redisSetNx key value =>
    have hkey : (w.restrict tenantId).redis key = w.redis key := if_pos hw
    simp only [exec, hkey]
    split
    · rfl
    · rw [World.restrict_setKey hw]
  | redisGet key => exact hread (if_pos hw)
  | redisDelete key =>
    simp only [exec]
    rw [World.restrict_setKey hw]
  | redisExpire key => rfl
  | redisTtl key =>
    have hkey : (w.restrict tenantId).redis key = w.redis key := if_pos hw
    simp only [exec, hkey]
  | redisScan owner =>
    obtain rfl : owner = tenantId := hw
    have hcache : (w.restrict owner).cache owner = w.cache owner := if_pos rfl
    simp only [exec, hcache]
  | redisDeleteCached owner keys =>
    obtain rfl : owner = tenantId := hw
    have hcache : (fun t => if t = owner then
        Function.update w.cache owner ((w.cache owner).filter (· ∉ keys)) t else []) =
        Function.update (w.restrict owner).cache owner (((w.restrict owner).cache owner).filter (· ∉ keys)) := by
      funext t
      by_cases ht : t = owner
      · subst ht
        simp [World.restrict]
      · simp [World.restrict, ht]
    exact Prod.ext rfl (World.mk.injEq .. ▸ ⟨rfl, rfl, hcache.symm, rfl, rfl, rfl⟩)
  | redisPublish owner snapshotId =>
    obtain rfl : owner = tenantId := hw
    simp [exec, World.restrict]
  | pgGetSnapshot snapshotId => exact hread (restrict_getSnapshot hn)
  | pgGetPointer owner =>
    obtain rfl : owner = tenantId := hw
    exact hread (if_pos rfl)
  | pgFlush row =>
    simp only [exec, restrict_violates hw hn]
    split <;> rfl
  | pgCommit rows =>
    have hviolates : rows.any (PgWrite.violates (w.restrict tenantId)) = rows.any (PgWrite.violates w) := by
      rw [Bool.eq_iff_iff, List.any_eq_true, List.any_eq_true]
      refine exists_congr fun row => and_congr_right fun hrow => ?_
      rw [restrict_violates (hw row hrow)]
      intro s hs hid
      refine hn s hs (List.mem_filterMap.mpr ⟨row, hrow, ?_⟩)
      simpa using hid
    simp only [exec, hviolates]
    split
    · rfl
    · rw [restrict_foldl hw]

end Commands

/-! ## Commands of the others -/

/-- What happens around a tenant's calls. -/
inductive Around where
  | env (v : Env)
  /-- An element id has gone to a node that is not the tenant's. -/
  | created
  /-- An edit lock is taken or dropped. -/
  | locked (rid : String) (owner : Option String)

/-- Edit locks on `rids` are taken and dropped. -/
def Around.apply (rids : List String) : Around → World → World
  | .env v, w => v.apply w
  | .created, w => w.onGraph fun g => { g with nextId := g.nextId + 1 }
  | .locked rid owner, w => if rid ∈ rids then w.setKey (.lock rid) owner else w

/-- Calls whose tenant has the stores for itself, but for edit locks on `rids`. -/
def secluded (rids : List String) : System Cmd Cmd.Answer Exc World Result Call Around where
  handler := exec
  program := service
  env := Around.apply rids

section Elsewhere
variable {w : World} {tenantId other : String} {rids : List String} {c : Cmd}

theorem seen_setKey {key : RedisKey} (hw : key.seenBy other = true) (hne : other ≠ tenantId)
    (hrid : ∀ rid, key = .lock rid → rid ∈ rids) (value : Option String) :
    (secluded rids).Seen (w.restrict tenantId) ((w.setKey key value).restrict tenantId) := by
  cases key with
  | lock rid =>
    refine .inr ⟨.locked rid value, ?_⟩
    rw [World.restrict_setKey rfl]
    exact (if_pos (hrid rid rfl)).symm
  | commitLock owner =>
    obtain rfl : owner = other := of_decide_eq_true hw
    have hkey : RedisKey.seenBy tenantId (.commitLock owner) = false := decide_eq_false hne
    exact .inl (World.restrict_setKey_of_not hkey value)

/-- A command of another tenant is not seen, but for an element id or an edit lock. -/
theorem exec_elsewhere (hw : c.Within other) (hne : other ≠ tenantId) (hl : w.graph.Linked) (hj : w.graph.Partitioned)
    (hrids : ∀ rid, c.lockRid = some rid → rid ∈ rids) :
    (secluded rids).Seen (w.restrict tenantId) ((exec c w).2.restrict tenantId) := by
  have hset : ∀ {p : Node → Bool} {d : Dict}, Owned other p → .tenantId ∉ d.keys →
      (w.onGraph fun g => g.setWhere p d).restrict tenantId = w.restrict tenantId := by
    intro p d hp hd
    refine World.restrict_onGraph_of_same ?_
    rw [Graph.restrict_setWhere p hd, Graph.setWhere_restrict_of_not (hp.not hne) d]
  have hdrop : ∀ {p : Node → Bool}, Owned other p →
      (w.onGraph fun g => g.deleteWhere p).restrict tenantId = w.restrict tenantId := by
    intro p hp
    refine World.restrict_onGraph_of_same ?_
    rw [Graph.restrict_deleteWhere hl hj p, Graph.deleteWhere_restrict_of_not (hp.not hne)]
  have hstamped := fun snapshotId => (owned_ofTenant other).and (Node.stamped snapshotId)
  cases c with
  | createNode label base d =>
    simp only [exec]
    split
    · have hother : (base.update d) .tenantId ≠ .str tenantId := by
        rw [show (base.update d) .tenantId = .str other from hw]
        exact fun h => hne (Value.str.inj h)
      refine .inr ⟨.created, ?_⟩
      exact congrArg (fun g => { w.restrict tenantId with graph := g }) (Graph.restrict_create_of_ne hl label hother)
    · exact .inl rfl
  | updateNode label rid owner d isDraft draftOwner =>
    obtain ⟨rfl, hd⟩ : owner = other ∧ Field.tenantId ∉ d.keys := hw
    simp only [exec]
    split
    · exact .inl (hset (owned_filterOf label rid owner isDraft none draftOwner) hd)
    · exact .inl rfl
  | deleteNode label rid owner isDraft isStaging draftOwner =>
    obtain rfl : owner = other := hw
    exact .inl (hdrop (owned_filterOf label rid owner isDraft isStaging draftOwner))
  | createRelationship fromLabel fromRid toLabel toRid relType owner =>
    obtain rfl : owner = other := hw
    exact .inl (World.restrict_onGraph_of_same (Graph.restrict_createRelationship_of_ne hl _ _ _ _ _ hne))
  | deactivateStaged owner =>
    obtain rfl : owner = other := hw
    exact .inl (hset (owned_replacedBy w.graph owner) (by decide))
  | promoteStaged owner snapshotId =>
    obtain rfl : owner = other := hw
    exact .inl (hset ((owned_ofTenant owner).and _) (by simp [Dict.keys]))
  | cleanupDeleted owner snapshotId =>
    obtain rfl : owner = other := hw
    exact .inl (hdrop ((hstamped snapshotId).and _))
  | deactivateSnapshot owner snapshotId =>
    obtain rfl : owner = other := hw
    exact .inl (hset ((hstamped snapshotId).and _) (by decide))
  | reactivateSnapshot owner snapshotId =>
    obtain rfl : owner = other := hw
    exact .inl (hset (hstamped snapshotId) (by decide))
  | redisSetNx key value =>
    simp only [exec]
    split
    · exact .inl rfl
    · exact seen_setKey hw hne (fun rid hkey => hrids rid (by rw [hkey]; rfl)) _
  | redisDelete key => exact seen_setKey hw hne (fun rid hkey => hrids rid (by rw [hkey]; rfl)) _
  | redisDeleteCached owner keys =>
    obtain rfl : owner = other := hw
    have hcache : (fun t => if t = tenantId then
        Function.update w.cache owner ((w.cache owner).filter (· ∉ keys)) t else []) = (w.restrict tenantId).cache := by
      funext t
      by_cases ht : t = tenantId
      · simp [World.restrict, ht, Function.update_of_ne hne.symm]
      · simp [World.restrict, ht]
    exact .inl (World.mk.injEq .. ▸ ⟨rfl, rfl, hcache, rfl, rfl, rfl⟩)
  | redisPublish owner snapshotId =>
    obtain rfl : owner = other := hw
    exact .inl (by simp [exec, World.restrict, hne])
  | pgFlush row =>
    simp only [exec]
    split <;> exact .inl rfl
  | pgCommit rows =>
    simp only [exec]
    split
    · exact .inl rfl
    · exact .inl (restrict_foldl_of_ne (fun row hrow => by rw [hw row hrow]; exact hne) w)
  | getActiveNode | getDraftNode | getStagingNode | getRelatedNodes | getIncomingReferencingRids | getStagingNodes
  | checkApiNameUnique | hasUncommittedChanges | redisGet | redisExpire | redisTtl | redisScan | pgGetSnapshot
  | pgGetPointer => exact .inl rfl

/-! ## The surroundings -/

/-- Exchanging two entries is not seen unless both are kept. -/
theorem filter_swapAt {α : Type} (p : α → Bool) (l : List α) (i : ℕ) :
    (swapAt i l).filter p = l.filter p ∨ ∃ j, (swapAt i l).filter p = swapAt j (l.filter p) := by
  induction l generalizing i with
  | nil => exact .inl (by cases i <;> rfl)
  | cons a l ih =>
    cases i with
    | succ i =>
      cases ha : p a with
      | false =>
        simp only [swapAt, List.filter_cons, ha, Bool.false_eq_true, if_false]
        exact ih i
      | true =>
        simp only [swapAt, List.filter_cons, ha, if_true]
        obtain hsame | ⟨j, hj⟩ := ih i
        · exact .inl (by rw [hsame])
        · exact .inr ⟨j + 1, by rw [hj]; rfl⟩
    | zero =>
      cases l with
      | nil => exact .inl rfl
      | cons b l =>
        cases ha : p a with
        | false => exact .inl (by simp [swapAt, List.filter_cons, ha])
        | true =>
          cases hb : p b with
          | false => exact .inl (by simp [swapAt, ha, hb])
          | true => exact .inr ⟨0, by simp [swapAt, ha, hb]⟩

theorem env_restrict (v : Env) (w : World) :
    (secluded rids).Seen (w.restrict tenantId) ((v.apply w).restrict tenantId) := by
  cases v with
  | expire key =>
    cases hkey : key.seenBy tenantId with
    | true => exact .inr ⟨.env (.expire key), World.restrict_setKey hkey none⟩
    | false => exact .inl (World.restrict_setKey_of_not hkey none)
  | reorderNodes i =>
    have hrels : ((Graph.mk (swapAt i w.graph.nodes) w.graph.rels w.graph.nextId).restrict tenantId).rels =
        (w.graph.restrict tenantId).rels := by
      refine List.filter_congr fun r _ => ?_
      exact (swapAt_perm i w.graph.nodes).any_eq
    obtain hsame | ⟨j, hj⟩ := filter_swapAt (Node.ofTenant tenantId) w.graph.nodes i
    · exact .inl (World.restrict_onGraph_of_same (Graph.eq_of_parts hsame hrels rfl))
    · refine .inr ⟨.env (.reorderNodes j), ?_⟩
      have hgraph : (Graph.mk (swapAt i w.graph.nodes) w.graph.rels w.graph.nextId).restrict tenantId =
          { w.graph.restrict tenantId with nodes := swapAt j (w.graph.restrict tenantId).nodes } :=
        Graph.eq_of_parts hj hrels rfl
      exact congrArg (fun g => { w.restrict tenantId with graph := g }) hgraph
  | reorderRels i =>
    obtain hsame | ⟨j, hj⟩ := filter_swapAt
      (fun r : Rel => w.graph.nodes.any fun n => n.ofTenant tenantId && decide (n.id = r.source)) w.graph.rels i
    · exact .inl (World.restrict_onGraph_of_same (Graph.eq_of_parts rfl hsame rfl))
    · refine .inr ⟨.env (.reorderRels j), ?_⟩
      have hgraph : (Graph.mk w.graph.nodes (swapAt i w.graph.rels) w.graph.nextId).restrict tenantId =
          { w.graph.restrict tenantId with rels := swapAt j (w.graph.restrict tenantId).rels } :=
        Graph.eq_of_parts rfl hj rfl
      exact congrArg (fun g => { w.restrict tenantId with graph := g }) hgraph

end Elsewhere

/-! ## Relationships stay inside a tenant -/

namespace Graph.Partitioned
variable {g : Graph}

theorem of_nodes {g' : Graph} (h : g.Partitioned) (hrels : ∀ r ∈ g'.rels, r ∈ g.rels)
    (hnodes : ∀ n ∈ g'.nodes, ∃ m ∈ g.nodes, m.id = n.id ∧ m.props .tenantId = n.props .tenantId) : g'.Partitioned := by
  intro r hr a ha b hb hsource htarget
  obtain ⟨a', ha', hid, htenant⟩ := hnodes a ha
  obtain ⟨b', hb', hid', htenant'⟩ := hnodes b hb
  rw [← htenant, ← htenant']
  exact h r (hrels r hr) a' ha' b' hb' (hid.trans hsource) (hid'.trans htarget)

theorem create (h : g.Partitioned) (hl : g.Linked) (label : Label) (props : Props) : (g.create label props).Partitioned := by
  intro r hr a ha b hb hsource htarget
  have hold : ∀ n ∈ (g.create label props).nodes, n.id < g.nextId → n ∈ g.nodes := by
    intro n hn hid
    rcases List.mem_append.mp hn with hn | hn
    · exact hn
    · rw [List.mem_singleton.mp hn] at hid
      exact absurd hid (Nat.lt_irrefl _)
  obtain ⟨hs, ht⟩ := hl.ends r hr
  exact h r hr a (hold a ha (hsource ▸ hs)) b (hold b hb (htarget ▸ ht)) hsource htarget

theorem setWhere (h : g.Partitioned) (p : Node → Bool) {d : Dict} (hd : .tenantId ∉ d.keys) : (g.setWhere p d).Partitioned := by
  refine h.of_nodes (fun _ hr => hr) fun n hn => ?_
  obtain ⟨m, hm, rfl⟩ := List.mem_map.mp hn
  refine ⟨m, hm, ?_⟩
  split
  · exact ⟨rfl, (Props.update_of_notMem hd).symm⟩
  · exact ⟨rfl, rfl⟩

theorem deleteWhere (h : g.Partitioned) (p : Node → Bool) : (g.deleteWhere p).Partitioned :=
  h.of_nodes (fun _ hr => (List.mem_filter.mp hr).1) fun n hn => ⟨n, (List.mem_filter.mp hn).1, rfl, rfl⟩

theorem createRelationship (h : g.Partitioned) (hl : g.Linked) (fromLabel : Label) (fromRid : String) (toLabel : Label)
    (toRid : String) (relType : RelType) (tenantId : String) :
    (g.createRelationship fromLabel fromRid toLabel toRid relType tenantId).Partitioned := by
  intro r hr a ha b hb hsource htarget
  rcases List.mem_append.mp hr with hr | hr
  · exact h r hr a ha b hb hsource htarget
  · obtain ⟨a', ha', hr⟩ := List.mem_flatMap.mp hr
    obtain ⟨b', hb', rfl⟩ := List.mem_map.mp hr
    obtain ⟨ha', hkey⟩ := List.mem_filter.mp ha'
    obtain ⟨hb', hkey'⟩ := List.mem_filter.mp hb'
    obtain rfl : a = a' := hl.eq_of_id ha ha' hsource
    obtain rfl : b = b' := hl.eq_of_id hb hb' htarget
    exact (Node.keyed_iff.mp hkey).2.2.trans (Node.keyed_iff.mp hkey').2.2.symm

end Graph.Partitioned

theorem partitioned_exec {c : Cmd} {tenantId : String} {w : World} (hw : c.Within tenantId) (hl : w.graph.Linked)
    (hj : w.graph.Partitioned) : (exec c w).2.graph.Partitioned := by
  cases hquiet : c.quiet with
  | true =>
    rw [(exec_quiet hquiet w).1]
    exact hj
  | false =>
    cases c with
    | createNode label base d =>
      simp only [exec]
      split <;> [exact hj.create hl label _; exact hj]
    | updateNode label rid owner d isDraft draftOwner =>
      simp only [exec]
      split <;> [exact hj.setWhere _ hw.2; exact hj]
    | deleteNode | cleanupDeleted => exact hj.deleteWhere _
    | createRelationship => exact hj.createRelationship hl _ _ _ _ _ _
    | deactivateStaged | deactivateSnapshot | reactivateSnapshot => exact hj.setWhere _ (by decide)
    | promoteStaged owner snapshotId => exact hj.setWhere _ (by simp [Dict.keys])
    | pgCommit rows =>
      simp only [exec]
      split
      · exact hj
      · rw [foldl_apply_graph]
        exact hj
    | _ => cases hquiet

end Lingshu.Ontology
