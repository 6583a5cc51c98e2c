import Lingshu.Ontology.Names

/-! # Contracts of InterfaceTypes

`check_contract_satisfaction` looks for implementors along IMPLEMENTS relationships, which no query of the service
creates, and only when an interface is edited. The PropertyTypes that would satisfy a contract are never published. -/
namespace Lingshu.Ontology
open Json Interaction
set_option autoImplicit false

/-- A version of an ObjectType or LinkType of the tenant lists that InterfaceType among those it implements. -/
def Node.Implements (tenantId : String) (n m : Node) : Prop :=
  n.label ∈ [.objectType, .linkType] ∧ m.label = .interfaceType ∧ n.ofTenant tenantId ∧ m.ofTenant tenantId ∧
    m.props .rid ∈ itemsOf (n.props .implementsInterfaceTypeRids)

instance (tenantId : String) (n m : Node) : Decidable (n.Implements tenantId m) :=
  inferInstanceAs (Decidable (n.label ∈ [Label.objectType, .linkType] ∧ m.label = .interfaceType ∧ n.ofTenant tenantId ∧
    m.ofTenant tenantId ∧ m.props .rid ∈ itemsOf (n.props .implementsInterfaceTypeRids)))

def Node.required (m : Node) : List Value := itemsOf (m.props .requiredSharedPropertyTypeRids)

/-- Every SharedPropertyType that a published InterfaceType requires is inherited by a published PropertyType of every
published implementor. -/
def ContractsHold (g : Graph) : Prop :=
  ∀ tenantId, ∀ n ∈ g.nodes, ∀ m ∈ g.nodes, n.active → m.active → n.Implements tenantId m →
    ∀ shared ∈ m.required, ∃ p ∈ g.getRelatedNodes n.label n.rid tenantId .belongsTo .incoming,
      p.label = .propertyType ∧ p.active ∧ p.props .inheritFromSharedPropertyTypeRid = shared

/-- The first lists the second, which requires SharedPropertyTypes. -/
def Node.BoundBy (n m : Node) : Prop :=
  n.label ∈ [.objectType, .linkType] ∧ m.label = .interfaceType ∧ n.props .tenantId = m.props .tenantId ∧
    m.props .rid ∈ itemsOf (n.props .implementsInterfaceTypeRids) ∧ m.required ≠ []

instance (n m : Node) : Decidable (n.BoundBy m) :=
  inferInstanceAs (Decidable (n.label ∈ [Label.objectType, .linkType] ∧ m.label = .interfaceType ∧
    n.props .tenantId = m.props .tenantId ∧ m.props .rid ∈ itemsOf (n.props .implementsInterfaceTypeRids) ∧
      m.required ≠ []))

/-- The query writes no implementor of an InterfaceType with requirements, and requires nothing of an implementor:
Drafts, Staging and Active versions and those it writes are all looked at. -/
abbrev BindsNothing : World → Cmd → Prop := Cmd.WritesApart fun n m => ¬n.BoundBy m

theorem not_boundBy_onContent : OnContent fun n m => ¬n.BoundBy m := by
  intro n n' m m' hn hm hfree hbound
  obtain ⟨hlabel, hinterface, htenant, hlisted, hrequired⟩ := hbound
  refine hfree ⟨?_, ?_, ?_, ?_, ?_⟩
  · rw [← hn.label]
    exact hlabel
  · rw [← hm.label]
    exact hinterface
  · rw [← hn.props .tenantId (by decide), ← hm.props .tenantId (by decide)]
    exact htenant
  · rw [← hn.props .implementsInterfaceTypeRids (by decide), ← hm.props .rid (by decide)]
    exact hlisted
  · rw [Node.required, ← hm.props .requiredSharedPropertyTypeRids (by decide)]
    exact hrequired

theorem Node.Implements.boundBy {tenantId : String} {n m : Node} (h : n.Implements tenantId m) (hm : m.required ≠ []) :
    n.BoundBy m := by
  obtain ⟨hlabel, hinterface, hn, hm', hlisted⟩ := h
  refine ⟨hlabel, hinterface, ?_, hlisted, hm⟩
  exact (of_decide_eq_true hn).trans (of_decide_eq_true hm').symm

/-- Where no PropertyType is published, contracts hold just when no published InterfaceType with requirements has a
published implementor. -/
theorem contractsHold_iff {g : Graph} (h : ∀ n ∈ g.nodes, n.label = .propertyType → n.active = false) :
    ContractsHold g ↔ ∀ tenantId, ∀ n ∈ g.nodes, ∀ m ∈ g.nodes, n.active → m.active → n.Implements tenantId m →
      m.required = [] := by
  constructor
  · intro hholds tenantId n hn m hm hnactive hmactive himplements
    refine List.eq_nil_iff_forall_not_mem.mpr fun shared hshared => ?_
    obtain ⟨p, hp, hlabel, hactive, _⟩ := hholds tenantId n hn m hm hnactive hmactive himplements shared hshared
    rw [h p (Graph.mem_of_getRelatedNodes hp) hlabel] at hactive
    cases hactive
  · intro hnone tenantId n hn m hm hnactive hmactive himplements shared hshared
    rw [hnone tenantId n hn m hm hnactive hmactive himplements] at hshared
    cases hshared

/-- In the states of a run contracts hold just when they ask for nothing, and they ask for nothing all along a run whose
queries bind nothing. -/
theorem contracts_hold_unbound {es : List CallEvent} (ha : ∀ call ∈ started es, call.op.Admitted ∧ call.op.Exposed) :
    (∀ fs, fs <+: es → (ContractsHold (runFrom concurrent.next noCalls fs).state.graph ↔
      ∀ tenantId, ∀ n ∈ (runFrom concurrent.next noCalls fs).state.graph.nodes,
        ∀ m ∈ (runFrom concurrent.next noCalls fs).state.graph.nodes,
          n.active → m.active → n.Implements tenantId m → m.required = [])) ∧
      (StepsMeet concurrent.next (Pool.Allows BindsNothing) noCalls es →
        ∀ fs, fs <+: es → ContractsHold (runFrom concurrent.next noCalls fs).state.graph) := by
  have hiff : ∀ fs, fs <+: es → (ContractsHold (runFrom concurrent.next noCalls fs).state.graph ↔
      ∀ tenantId, ∀ n ∈ (runFrom concurrent.next noCalls fs).state.graph.nodes,
        ∀ m ∈ (runFrom concurrent.next noCalls fs).state.graph.nodes,
          n.active → m.active → n.Implements tenantId m → m.required = []) :=
    fun fs hfs => contractsHold_iff (properties_inactive fun call hcall => ha call (started_of_initial hfs hcall))
  refine ⟨hiff, fun hs fs hfs => (hiff fs hfs).mpr ?_⟩
  intro tenantId n hn m hm hnactive hmactive himplements
  by_contra hrequired
  exact concurrent_apart not_boundBy_onContent hs hfs n hn m hm (current_of_active hnactive) (current_of_active hmactive)
    (himplements.boundBy hrequired)

/-- An ObjectType implements an InterfaceType without requirements, next to one that has some. -/
def interfaceImplemented : List CallEvent :=
  inTurn [⟨⟨"t", "u", "1", "a"⟩, .create .interfaceType [(.apiName, .str "Named")]⟩,
    ⟨⟨"t", "u", "2", "b"⟩, .create .interfaceType
      [(.apiName, .str "Dated"), (.requiredSharedPropertyTypeRids, .list [.str "ri.shprop.c"])]⟩,
    ⟨⟨"t", "v", "3", "c"⟩, .create .sharedPropertyType [(.apiName, .str "date")]⟩,
    ⟨⟨"t", "v", "4", "d"⟩, .create .objectType
      [(.apiName, .str "Order"), (.implementsInterfaceTypeRids, .list [.str "ri.iface.a"])]⟩,
    ⟨⟨"t", "u", "5", "e"⟩, .submitToStaging .interfaceType "ri.iface.a"⟩,
    ⟨⟨"t", "u", "6", "f"⟩, .submitToStaging .interfaceType "ri.iface.b"⟩,
    ⟨⟨"t", "v", "7", "g"⟩, .submitToStaging .objectType "ri.obj.d"⟩,
    ⟨⟨"t", "u", "8", "h"⟩, .commitStaging none⟩]

theorem contracts_hold_implemented :
    (runFrom concurrent.next noCalls interfaceImplemented).state.graph.nodes.countP Node.active = 3 ∧
    ContractsHold (runFrom concurrent.next noCalls interfaceImplemented).state.graph :=
  ⟨by decide +kernel, (contracts_hold_unbound (by decide +kernel)).2 (by decide +kernel) interfaceImplemented
    (List.prefix_refl _)⟩

/-- An ObjectType is given the property that its InterfaceType requires, and both are published. -/
def contractMet : List CallEvent :=
  inTurn [⟨⟨"t", "u", "1", "a"⟩, .create .sharedPropertyType [(.apiName, .str "date")]⟩,
    ⟨⟨"t", "u", "2", "b"⟩, .create .interfaceType
      [(.apiName, .str "Dated"), (.requiredSharedPropertyTypeRids, .list [.str "ri.shprop.a"])]⟩,
    ⟨⟨"t", "u", "3", "c"⟩, .create .objectType
      [(.apiName, .str "Order"), (.implementsInterfaceTypeRids, .list [.str "ri.iface.b"])]⟩,
    ⟨⟨"t", "u", "4", "d"⟩, .acquireLock "ri.obj.c"⟩,
    ⟨⟨"t", "u", "5", "e"⟩, .createPropertyType "ri.obj.c" .objectType
      [(.apiName, .str "date"), (.inheritFromSharedPropertyTypeRid, .str "ri.shprop.a")]⟩,
    ⟨⟨"t", "u", "6", "f"⟩, .submitToStaging .sharedPropertyType "ri.shprop.a"⟩,
    ⟨⟨"t", "u", "7", "g"⟩, .submitToStaging .interfaceType "ri.iface.b"⟩,
    ⟨⟨"t", "u", "8", "h"⟩, .submitToStaging .objectType "ri.obj.c"⟩,
    ⟨⟨"t", "u", "9", "i"⟩, .commitStaging none⟩]

theorem contract_unmet_when_published : ¬∀ es : List CallEvent,
    (∀ call ∈ started es, call.op.Admitted ∧ call.op.Exposed) → FreshUuids (started es) →
      ∀ fs, fs <+: es → ContractsHold (runFrom concurrent.next noCalls fs).state.graph := by
  intro h
  have hholds := h contractMet (by decide) (by unfold FreshUuids; decide) contractMet
    (List.prefix_refl _)
  have hinactive : ∀ n ∈ (runFrom concurrent.next noCalls contractMet).state.graph.nodes, n.label = .propertyType →
      n.active = false := by decide +kernel
  have hbound : ¬∀ n ∈ (runFrom concurrent.next noCalls contractMet).state.graph.nodes,
      ∀ m ∈ (runFrom concurrent.next noCalls contractMet).state.graph.nodes,
        n.active → m.active → n.Implements "t" m → m.required = [] := by decide +kernel
  exact hbound ((contractsHold_iff hinactive).mp hholds "t")

end Lingshu.Ontology
