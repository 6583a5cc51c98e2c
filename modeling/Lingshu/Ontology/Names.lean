import Lingshu.Ontology.Current
import Lingshu.Ontology.Properties

/-! # Api names

`_create_entity` looks for its api_name among the Active versions only, before it writes the Draft, and no later step
looks again: two Drafts of one name are published together. -/
namespace Lingshu.Ontology
open Json Interaction
set_option autoImplicit false

/-- Versions of entities of one label and tenant with one api_name. -/
def Node.SharesName (n m : Node) : Prop :=
  n.label = m.label ∧ n.props .tenantId = m.props .tenantId ∧ n.props .apiName = m.props .apiName

instance (n m : Node) : Decidable (n.SharesName m) :=
  inferInstanceAs (Decidable (n.label = m.label ∧ n.props .tenantId = m.props .tenantId ∧
    n.props .apiName = m.props .apiName))

/-- Versions of two entities do not share a name. A PropertyType may have its name on any number of parents. -/
def Node.NamedApart (n m : Node) : Prop := n.label ≠ .propertyType → n.SharesName m → n.props .rid = m.props .rid

instance (n m : Node) : Decidable (n.NamedApart m) :=
  inferInstanceAs (Decidable (n.label ≠ .propertyType → n.SharesName m → n.props .rid = m.props .rid))

/-- The query gives no version the name of another entity that has a Draft, a Staging or an Active version. -/
abbrev TakesNoName : World → Cmd → Prop := Cmd.WritesApart Node.NamedApart

structure UniqueNames (g : Graph) : Prop where
  entities : ∀ n ∈ g.nodes, ∀ m ∈ g.nodes, n.active → m.active → n.SharesName m → n.props .rid = m.props .rid
  properties : ∀ (parent : Label) (rid tenantId : String),
    ∀ n ∈ g.getRelatedNodes parent rid tenantId .belongsTo .incoming,
    ∀ m ∈ g.getRelatedNodes parent rid tenantId .belongsTo .incoming,
      n.label = .propertyType → m.label = .propertyType → n.active → m.active →
        n.props .apiName = m.props .apiName → n.id = m.id

theorem namedApart_onContent : OnContent Node.NamedApart := by
  intro n n' m m' hn hm hapart hlabel hshares
  obtain ⟨hsame, htenant, hname⟩ := hshares
  have hkept : ∀ f ∈ [Field.tenantId, .apiName, .rid], n.props f = n'.props f ∧ m.props f = m'.props f := by
    intro f hf
    have hmark : f ∉ markFields := by revert hf f; decide
    exact ⟨hn.props f hmark, hm.props f hmark⟩
  obtain ⟨hntenant, hmtenant⟩ := hkept .tenantId (by decide)
  obtain ⟨hnname, hmname⟩ := hkept .apiName (by decide)
  obtain ⟨hnrid, hmrid⟩ := hkept .rid (by decide)
  rw [hnrid, hmrid]
  refine hapart (fun h => hlabel (hn.label.trans h)) ⟨?_, ?_, ?_⟩
  · exact (hn.label.symm.trans hsame).trans hm.label
  · exact (hntenant.symm.trans htenant).trans hmtenant
  · exact (hnname.symm.trans hname).trans hmname

/-- In a run whose queries take no name, published names are unique in every state. -/
theorem names_unique {es : List CallEvent} (ha : ∀ call ∈ started es, call.op.Admitted ∧ call.op.Exposed)
    (hs : StepsMeet concurrent.next (Pool.Allows TakesNoName) noCalls es) :
    ∀ fs, fs <+: es → UniqueNames (runFrom concurrent.next noCalls fs).state.graph := by
  intro fs hfs
  have hapart := concurrent_apart namedApart_onContent hs hfs
  have hunpublished := properties_inactive fun call hcall => ha call (started_of_initial hfs hcall)
  refine ⟨?_, ?_⟩
  · intro n hn m hm hnactive hmactive hshares
    refine hapart n hn m hm (current_of_active hnactive) (current_of_active hmactive) (fun hlabel => ?_) hshares
    rw [hunpublished n hn hlabel] at hnactive
    cases hnactive
  · intro parent rid tenantId n hn m _ hlabel _ hactive
    rw [hunpublished n (Graph.mem_of_getRelatedNodes hn) hlabel] at hactive
    cases hactive

/-- A name is used for two labels, and its entity is edited and published twice. -/
def namesApart : List CallEvent :=
  inTurn [⟨⟨"t", "u", "1", "a"⟩, .create .objectType [(.apiName, .str "Order")]⟩,
    ⟨⟨"t", "v", "2", "b"⟩, .create .actionType [(.apiName, .str "Order")]⟩,
    ⟨⟨"t", "u", "3", "c"⟩, .submitToStaging .objectType "ri.obj.a"⟩,
    ⟨⟨"t", "v", "4", "d"⟩, .submitToStaging .actionType "ri.action.b"⟩,
    ⟨⟨"t", "v", "5", "e"⟩, .commitStaging none⟩,
    ⟨⟨"t", "u", "6", "f"⟩, .acquireLock "ri.obj.a"⟩,
    ⟨⟨"t", "u", "7", "g"⟩, .update .objectType "ri.obj.a" [(.description, .str "sales")]⟩,
    ⟨⟨"t", "u", "8", "h"⟩, .submitToStaging .objectType "ri.obj.a"⟩,
    ⟨⟨"t", "v", "9", "i"⟩, .commitStaging none⟩]

theorem names_unique_apart : (runFrom concurrent.next noCalls namesApart).state.graph.nodes.countP Node.active = 2 ∧
    UniqueNames (runFrom concurrent.next noCalls namesApart).state.graph :=
  ⟨by decide +kernel, names_unique (by decide +kernel) (by decide +kernel) namesApart (List.prefix_refl _)⟩

/-- Two users create an ObjectType of one name, and both are published. -/
def sameName : List CallEvent :=
  inTurn [⟨⟨"t", "u", "1", "a"⟩, .create .objectType [(.apiName, .str "Order")]⟩,
    ⟨⟨"t", "v", "2", "b"⟩, .create .objectType [(.apiName, .str "Order")]⟩,
    ⟨⟨"t", "u", "3", "c"⟩, .submitToStaging .objectType "ri.obj.a"⟩,
    ⟨⟨"t", "v", "4", "d"⟩, .submitToStaging .objectType "ri.obj.b"⟩,
    ⟨⟨"t", "u", "5", "e"⟩, .commitStaging none⟩]

theorem names_published_twice : ¬∀ es : List CallEvent,
    (∀ call ∈ started es, call.op.Admitted ∧ call.op.Exposed) → FreshUuids (started es) →
      ∀ fs, fs <+: es → UniqueNames (runFrom concurrent.next noCalls fs).state.graph := by
  intro h
  have hunique := h sameName (by decide) (by unfold FreshUuids; decide) sameName (List.prefix_refl _)
  have htwice : ¬∀ n ∈ (runFrom concurrent.next noCalls sameName).state.graph.nodes,
      ∀ m ∈ (runFrom concurrent.next noCalls sameName).state.graph.nodes,
        n.active → m.active → n.SharesName m → n.props .rid = m.props .rid := by decide +kernel
  exact htwice hunique.entities

end Lingshu.Ontology
