import Lingshu.Ontology.Cycles
import Lingshu.Ontology.Properties
import Lingshu.Ontology.Secluded

/-! # Relationships and the guards that look for them

`create_property_type` is the only method that creates relationships: of a PropertyType, to its parent and to a
SharedPropertyType. What the validators and the topology look for besides is never there. -/
namespace Lingshu.Ontology
open Json Interaction Interaction.Prog
set_option autoImplicit false

/-- A PropertyType's relationship, to the entity it belongs to or to the SharedPropertyType it is based on. -/
structure Rel.Proper (r : Rel) (a b : Node) : Prop where
  source : a.id = r.source
  target : b.id = r.target
  property : a.label = .propertyType
  tenant : a.props .tenantId = b.props .tenantId
  type : r.type = .belongsTo ∨ (r.type = .basedOn ∧ b.label = .sharedPropertyType)

/-- Every relationship is proper, and both its ends are there. -/
def Graph.Proper (g : Graph) : Prop := ∀ r ∈ g.rels, ∃ a ∈ g.nodes, ∃ b ∈ g.nodes, r.Proper a b

namespace Graph.Proper
variable {g : Graph}

theorem create (h : g.Proper) (label : Label) (props : Props) : (g.create label props).Proper := by
  intro r hr
  obtain ⟨a, ha, b, hb, hproper⟩ := h r hr
  exact ⟨a, List.mem_append_left _ ha, b, List.mem_append_left _ hb, hproper⟩

theorem setWhere (h : g.Proper) (p : Node → Bool) {d : Dict} (hd : .tenantId ∉ d.keys) : (g.setWhere p d).Proper := by
  have hset : ∀ n : Node, (if p n then n.set d else n).id = n.id ∧ (if p n then n.set d else n).label = n.label ∧
      (if p n then n.set d else n).props .tenantId = n.props .tenantId := by
    intro n
    split
    · exact ⟨rfl, rfl, Props.update_of_notMem hd⟩
    · exact ⟨rfl, rfl, rfl⟩
  intro r hr
  obtain ⟨a, ha, b, hb, hproper⟩ := h r hr
  obtain ⟨hida, hlabela, htenanta⟩ := hset a
  obtain ⟨hidb, hlabelb, htenantb⟩ := hset b
  refine ⟨_, List.mem_map_of_mem ha, _, List.mem_map_of_mem hb, ?_⟩
  constructor
  · exact hida.trans hproper.source
  · exact hidb.trans hproper.target
  · exact hlabela.trans hproper.property
  · exact htenanta.trans (hproper.tenant.trans htenantb.symm)
  · rw [hlabelb]
    exact hproper.type

/-- `DETACH DELETE` leaves no relationship of a node it deletes. -/
theorem deleteWhere (h : g.Proper) (p : Node → Bool) : (g.deleteWhere p).Proper := by
  intro r hr
  obtain ⟨hr, hkept⟩ := List.mem_filter.mp hr
  obtain ⟨a, ha, b, hb, hproper⟩ := h r hr
  have hends : ∀ n ∈ g.nodes, p n = true → r.source ≠ n.id ∧ r.target ≠ n.id := by
    intro n hn hp
    exact of_decide_eq_true (List.all_eq_true.mp hkept n (List.mem_filter.mpr ⟨hn, hp⟩))
  have hstays : ∀ n ∈ g.nodes, n.id = r.source ∨ n.id = r.target → n ∈ (g.deleteWhere p).nodes := by
    intro n hn hend
    refine List.mem_filter.mpr ⟨hn, ?_⟩
    cases hp : p n with
    | false => rfl
    | true =>
      obtain ⟨hs, ht⟩ := hends n hn hp
      rcases hend with hend | hend
      · exact absurd hend.symm hs
      · exact absurd hend.symm ht
  exact ⟨a, hstays a ha (.inl hproper.source), b, hstays b hb (.inr hproper.target), hproper⟩

theorem createRelationship (h : g.Proper) {fromRid toRid tenantId : String} {toLabel : Label} {relType : RelType}
    (htype : relType = .belongsTo ∨ (relType = .basedOn ∧ toLabel = .sharedPropertyType)) :
    (g.createRelationship .propertyType fromRid toLabel toRid relType tenantId).Proper := by
  intro r hr
  rcases List.mem_append.mp hr with hr | hr
  · exact h r hr
  · obtain ⟨a, ha, hr⟩ := List.mem_flatMap.mp hr
    obtain ⟨b, hb, rfl⟩ := List.mem_map.mp hr
    obtain ⟨ha, hkey⟩ := List.mem_filter.mp ha
    obtain ⟨hb, hkey'⟩ := List.mem_filter.mp hb
    obtain ⟨hlabel, _, htenant⟩ := Node.keyed_iff.mp hkey
    obtain ⟨hlabel', _, htenant'⟩ := Node.keyed_iff.mp hkey'
    refine ⟨a, ha, b, hb, rfl, rfl, hlabel, htenant.trans htenant'.symm, ?_⟩
    rw [hlabel']
    exact htype

theorem perm {g' : Graph} (h : g.Proper) (hn : g'.nodes.Perm g.nodes) (hr : g'.rels.Perm g.rels) : g'.Proper := by
  intro r hmem
  obtain ⟨a, ha, b, hb, hproper⟩ := h r (hr.mem_iff.mp hmem)
  exact ⟨a, hn.mem_iff.mpr ha, b, hn.mem_iff.mpr hb, hproper⟩

end Graph.Proper

theorem proper_exec {G : Node → Prop} {call : Call} {c : Cmd} {w : World} (hc : Issues G call c)
    (h : w.graph.Proper) : (exec c w).2.graph.Proper := by
  cases hc with
  | new | clone => simp only [exec]; split <;> [exact h.create _ _; exact h]
  | edit guarded plain =>
    simp only [exec]
    split <;> [exact h.setWhere _ (tenantId_guarded guarded); exact h]
  | submit =>
    simp only [exec]
    split <;> [exact h.setWhere _ (by simp [submitProps, Dict.keys]); exact h]
  | cascade content =>
    simp only [exec]
    split <;> [exact h.setWhere _ fun hmem => absurd (content _ hmem) (by decide); exact h]
  | unstage =>
    simp only [exec]
    split <;> [exact h.setWhere _ (by simp [unstageProps, Dict.keys]); exact h]
  | dropDraft | dropStaging | cleanupDeleted => exact h.deleteWhere _
  | belongsTo => exact h.createRelationship (.inl rfl)
  | basedOn => exact h.createRelationship (.inr ⟨rfl, rfl⟩)
  | deactivateStaged | deactivateSnapshot | reactivateSnapshot => exact h.setWhere _ (by decide)
  | promoteStaged => exact h.setWhere _ (by simp [Dict.keys])
  | publish | repoint =>
    simp only [exec]
    split
    · exact h
    · rw [foldl_apply_graph]
      exact h
  | quiet hq =>
    rw [(exec_quiet hq w).1]
    exact h

theorem concurrent_proper (es : List CallEvent) : (runFrom concurrent.next noCalls es).state.graph.Proper := by
  refine (concurrent_holds (G := fun _ => True) (J := fun w => w.graph.Proper) (fun _ _ _ _ => trivial) ?_ ?_ ?_).inv
  · intro call _ c w hc hw
    exact proper_exec hc hw
  · intro v w hw
    exact hw.perm (v.apply_nodes w) (v.apply_rels w)
  · intro r hr
    cases hr

/-! ## What is never found -/

section Guards
variable {g : Graph} {w : World} {tenantId : String}

theorem getRelatedNodes_absent (h : g.Proper) {relType : RelType} (hother : relType ≠ .belongsTo)
    (hother' : relType ≠ .basedOn) (label : Label) (rid : String) (direction : Graph.Direction) :
    g.getRelatedNodes label rid tenantId relType direction = [] := by
  have hnone : (g.rels.filter fun r => r.type = relType) = [] := by
    refine List.filter_eq_nil_iff.mpr fun r hr htype => ?_
    obtain ⟨a, _, b, _, hproper⟩ := h r hr
    rw [← of_decide_eq_true htype] at hother hother'
    rcases hproper.type with ht | ⟨ht, _⟩
    · exact hother ht
    · exact hother' ht
  unfold Graph.getRelatedNodes
  rw [hnone]
  simp

/-- An edge of the topology would start from an Active PropertyType. -/
theorem topology_edges_nil (h : g.Proper) (hl : g.Linked)
    (hinactive : ∀ n ∈ g.nodes, n.label = .propertyType → n.active = false) : (g.getTopology tenantId).edges = [] := by
  refine List.flatMap_eq_nil_iff.mpr fun r hr => ?_
  have hnone : (g.nodes.filter fun a => decide (a.id = r.source) && a.ofTenant tenantId && a.active) = [] := by
    refine List.filter_eq_nil_iff.mpr fun n hn hmatch => ?_
    simp only [Bool.and_eq_true_iff, decide_eq_true_eq] at hmatch
    obtain ⟨a, ha, b, _, hproper⟩ := h r hr
    obtain rfl : n = a := hl.eq_of_id hn ha (hmatch.1.1.trans hproper.source.symm)
    rw [hinactive n hn hproper.property] at hmatch
    exact Bool.false_ne_true hmatch.2
  rw [hnone]
  rfl

theorem run_referencingRids (w : World) (label : Label) (rid : String) (rules : List RelType) :
    (referencingRids label rid tenantId rules).run exec w =
      (.ok (rules.flatMap fun relType => w.graph.getIncomingReferencingRids label rid tenantId relType), w) := by
  induction rules with
  | nil => rfl
  | cons relType rules ih =>
    have hfirst : (getIncomingReferencingRids label rid tenantId relType).run exec w =
        (.ok (w.graph.getIncomingReferencingRids label rid tenantId relType), w) := rfl
    rw [referencingRids, bind_eq, run_bind_ok _ hfirst, bind_eq, run_bind_ok _ ih]
    rfl

/-- A PropertyType of the tenant is based on the SharedPropertyType. -/
def Graph.BasedOn (g : Graph) (tenantId rid : String) : Prop :=
  ∃ r ∈ g.rels, ∃ a ∈ g.nodes, ∃ b ∈ g.nodes, r.Proper a b ∧ r.type = .basedOn ∧
    b.keyed .sharedPropertyType rid tenantId

theorem incoming_basedOn_iff (h : g.Proper) (hl : g.Linked) (rid : String) :
    g.getIncomingReferencingRids .sharedPropertyType rid tenantId .basedOn = [] ↔ ¬g.BasedOn tenantId rid := by
  rw [Graph.getIncomingReferencingRids, List.map_eq_nil_iff, Graph.getRelatedNodes]
  constructor
  · rintro hnone ⟨r, hr, a, ha, b, hb, hproper, htype, hkey⟩
    have hrel := List.flatMap_eq_nil_iff.mp hnone b (List.mem_filter.mpr ⟨hb, hkey⟩)
    have hend := List.flatMap_eq_nil_iff.mp hrel r (List.mem_filter.mpr ⟨hr, decide_eq_true htype⟩)
    exact List.filter_eq_nil_iff.mp hend a ha (by simp [hproper.source, hproper.target])
  · intro hnone
    refine List.flatMap_eq_nil_iff.mpr fun b hb => ?_
    refine List.flatMap_eq_nil_iff.mpr fun r hr => ?_
    obtain ⟨hb, hkey⟩ := List.mem_filter.mp hb
    obtain ⟨hr, htype⟩ := List.mem_filter.mp hr
    refine List.filter_eq_nil_iff.mpr fun n _ hends => hnone ?_
    obtain ⟨a, ha, b', hb', hproper⟩ := h r hr
    simp only [decide_eq_true_eq] at hends htype
    obtain rfl : b' = b := hl.eq_of_id hb' hb (hproper.target.trans hends.1)
    exact ⟨r, hr, a, ha, b', hb', hproper, htype, hkey⟩

/-- Only a SharedPropertyType that a PropertyType is based on is kept from being deleted. -/
theorem deletionGuard_iff (h : w.graph.Proper) (hl : w.graph.Linked) (label : Label) (rid : String) :
    (checkDeleteDependencies label rid tenantId).run exec w = (.ok (), w) ↔
      ¬(label = .sharedPropertyType ∧ w.graph.BasedOn tenantId rid) := by
  have habsent : ∀ relType, relType ≠ .belongsTo → relType ≠ .basedOn →
      w.graph.getIncomingReferencingRids label rid tenantId relType = [] := by
    intro relType hbelongs hbased
    rw [Graph.getIncomingReferencingRids, getRelatedNodes_absent h hbelongs hbased]
    rfl
  have hrun : (checkDeleteDependencies label rid tenantId).run exec w = (.ok (), w) ↔
      (dependencyRules label).flatMap (fun relType =>
        w.graph.getIncomingReferencingRids label rid tenantId relType) = [] := by
    rw [checkDeleteDependencies, bind_eq, run_bind_ok _ (run_referencingRids w label rid _)]
    split
    · next hnone => exact iff_of_true rfl hnone
    · next hsome => exact iff_of_false (fun he => nomatch (Prod.mk.inj he).1) hsome
  rw [hrun]
  cases label with
  | sharedPropertyType =>
    have hrequires := habsent .requires (by decide) (by decide)
    simp only [dependencyRules, List.flatMap_cons, List.flatMap_nil, hrequires, List.append_nil,
      incoming_basedOn_iff h hl, true_and]
  | interfaceType | objectType | linkType | actionType | propertyType =>
    simp [dependencyRules, habsent]

/-- No implementor is found, so that none violates a contract. -/
theorem run_contractGuard (h : w.graph.Proper) (rid : String) (required : List Value) :
    (checkContractSatisfaction rid tenantId required).run exec w = (.ok (), w) := by
  rw [checkContractSatisfaction]
  split
  · rfl
  · rw [bind_eq, run_bind, run_getRelatedNodes, getRelatedNodes_absent h (by decide) (by decide)]
    rfl

/-- Only an interface that extends itself is refused. -/
theorem cycleGuard_iff (h : w.graph.Proper) (rid : String) (parents : List String) :
    (checkInterfaceCycle recursionLimit rid tenantId parents).run exec w = (.ok (), w) ↔ rid ∉ parents := by
  have hextended : ∀ current, w.graph.extended tenantId current = [] := by
    intro current
    rw [Graph.extended, getRelatedNodes_absent h (by decide) (by decide)]
    rfl
  induction parents with
  | nil => exact iff_of_true rfl List.not_mem_nil
  | cons parent parents ih =>
    have hsearch : Search.canReach (w.graph.extended tenantId) rid recursionLimit parent [] =
        some (decide (parent = rid), if parent = rid then [] else [parent]) := by
      have hlimit : recursionLimit = 999 + 1 := rfl
      rw [hlimit, Search.canReach]
      by_cases hself : parent = rid
      · simp [hself]
      · simp [hself, hextended, Search.anyReach]
    rw [run_checkInterfaceCycle_cons, hsearch]
    by_cases hself : parent = rid
    · simp [hself]
    · simp only [hself, decide_false, List.mem_cons, not_or]
      exact ih.trans ⟨fun hrest => ⟨fun he => hself he.symm, hrest⟩, And.right⟩

end Guards

/-- In every state that the calls of the routes reach, relationships join versions of one tenant that are there, a
PropertyType's to its parent or its SharedPropertyType; so the topology has no edges, contracts are never found violated,
an interface is refused only if it lists itself, and a deletion only of a SharedPropertyType in use. -/
theorem relationships_proper {es : List CallEvent} (ha : ∀ call ∈ started es, call.op.Admitted ∧ call.op.Exposed) :
    (runFrom concurrent.next noCalls es).state.graph.Proper ∧ ∀ tenantId,
      ((runFrom concurrent.next noCalls es).state.graph.getTopology tenantId).edges = [] ∧
      (∀ label rid, (checkDeleteDependencies label rid tenantId).run exec (runFrom concurrent.next noCalls es).state =
          (.ok (), (runFrom concurrent.next noCalls es).state) ↔
        ¬(label = .sharedPropertyType ∧ (runFrom concurrent.next noCalls es).state.graph.BasedOn tenantId rid)) ∧
      (∀ rid required, (checkContractSatisfaction rid tenantId required).run exec
        (runFrom concurrent.next noCalls es).state = (.ok (), (runFrom concurrent.next noCalls es).state)) ∧
      ∀ rid parents, (checkInterfaceCycle recursionLimit rid tenantId parents).run exec
          (runFrom concurrent.next noCalls es).state = (.ok (), (runFrom concurrent.next noCalls es).state) ↔
        rid ∉ parents := by
  have hproper := concurrent_proper es
  have hlinked := concurrent_linked es
  exact ⟨hproper, fun tenantId => ⟨topology_edges_nil hproper hlinked (properties_inactive ha),
    deletionGuard_iff hproper hlinked, run_contractGuard hproper, cycleGuard_iff hproper⟩⟩

/-- The deletion of a SharedPropertyType that a PropertyType is based on. -/
def sharedInUse : List CallEvent :=
  inTurn [⟨⟨"t", "u", "1", "a"⟩, .create .objectType [(.apiName, .str "Order")]⟩,
    ⟨⟨"t", "u", "2", "b"⟩, .create .sharedPropertyType [(.apiName, .str "price")]⟩,
    ⟨⟨"t", "u", "3", "c"⟩, .acquireLock "ri.obj.a"⟩,
    ⟨⟨"t", "u", "4", "d"⟩, .createPropertyType "ri.obj.a" .objectType
      [(.apiName, .str "price"), (.inheritFromSharedPropertyTypeRid, .str "ri.shprop.b")]⟩,
    ⟨⟨"t", "u", "5", "e"⟩, .delete .sharedPropertyType "ri.shprop.b"⟩]

theorem relationships_proper_sharedInUse :
    (runFrom concurrent.next noCalls sharedInUse).state.graph.rels.length = 2 ∧
    ((runFrom concurrent.next noCalls sharedInUse).state.graph.getTopology "t").edges = [] :=
  ⟨by decide +kernel, ((@relationships_proper sharedInUse (by decide)).2 "t").1⟩

end Lingshu.Ontology
