import Lingshu.Relation.Acyclic
import Lingshu.Ontology.Current
import Lingshu.Ontology.Properties

/-! # Inheritance of InterfaceTypes

`check_interface_cycle` walks EXTENDS relationships, which no query of the service creates: it finds nothing but an
interface that lists itself. The lists of rids are what is published. -/
namespace Lingshu.Ontology
open Json Interaction Relation Chains
set_option autoImplicit false

/-- A version, in the tenant, of the InterfaceType with the first rid lists the second among those it extends. -/
def Node.Extends (tenantId : String) (n : Node) (a b : Value) : Prop :=
  n.label = .interfaceType ∧ n.ofTenant tenantId ∧ n.props .rid = a ∧ b ∈ itemsOf (n.props .extendsInterfaceTypeRids)

instance (tenantId : String) (n : Node) (a b : Value) : Decidable (n.Extends tenantId a b) :=
  inferInstanceAs (Decidable (n.label = .interfaceType ∧ n.ofTenant tenantId ∧ n.props .rid = a ∧
    b ∈ itemsOf (n.props .extendsInterfaceTypeRids)))

/-- What the versions among these nodes extend. -/
def Extends (tenantId : String) (nodes : List Node) (a b : Value) : Prop := ∃ n ∈ nodes, n.Extends tenantId a b

/-- The relation that is published. -/
def Graph.ActiveExtends (g : Graph) (tenantId : String) : Value → Value → Prop :=
  Extends tenantId (g.nodes.filter Node.active)

/-- With the versions that the query writes, no chain leads from a listed interface back to the one that lists it. -/
def ClosesNoCycle (w : World) (c : Cmd) : Prop :=
  ∀ tenantId a b, Extends tenantId (c.writes w.graph) a b →
    ¬ReflTransGen
      (Either (Extends tenantId (w.graph.nodes.filter Node.current)) (Extends tenantId (c.writes w.graph))) b a

section Cycles
variable {w : World} {c : Cmd} {es : List CallEvent} {tenantId : String} {a b : Value}

theorem extends_of_sameContent {n m : Node} (h : n.SameContent m) (hn : n.Extends tenantId a b) :
    m.Extends tenantId a b := by
  have hprops : ∀ f ∈ [Field.tenantId, .rid, .extendsInterfaceTypeRids], n.props f = m.props f := by
    intro f hf
    refine h.props f ?_
    revert hf f
    decide
  obtain ⟨hlabel, htenant, hrid, hlisted⟩ := hn
  refine ⟨h.label.symm.trans hlabel, ?_, ?_, ?_⟩
  · rw [← htenant]
    simp [Node.ofTenant, Node.has, hprops .tenantId (by decide)]
  · rw [← hrid, hprops .rid (by decide)]
  · rw [← hprops .extendsInterfaceTypeRids (by decide)]
    exact hlisted

/-- What current versions extend after a query, they extended before, or the query has written it. -/
theorem extends_after (h : Extends tenantId ((exec c w).2.graph.nodes.filter Node.current) a b) :
    Either (Extends tenantId (w.graph.nodes.filter Node.current)) (Extends tenantId (c.writes w.graph)) a b := by
  obtain ⟨n, hn, hextends⟩ := h
  obtain ⟨hmem, hcurrent⟩ := List.mem_filter.mp hn
  rw [exec_nodes] at hmem
  rcases current_after hmem hcurrent with hnew | ⟨m, hm, hmcurrent, hsame⟩
  · exact .inr ⟨n, hnew, hextends⟩
  · exact .inl ⟨m, List.mem_filter.mpr ⟨hm, hmcurrent⟩, extends_of_sameContent hsame hextends⟩

theorem extends_mono {nodes nodes' : List Node} (h : ∀ n ∈ nodes, n ∈ nodes') :
    Extends tenantId nodes a b → Extends tenantId nodes' a b := by
  rintro ⟨n, hn, hextends⟩
  exact ⟨n, h n hn, hextends⟩

/-- In a run whose queries close no cycle, inheritance has none in any state. -/
theorem inheritance_acyclic (hs : StepsMeet concurrent.next (Pool.Allows ClosesNoCycle) noCalls es) :
    ∀ fs, fs <+: es → ∀ tenantId,
      Acyclic ((runFrom concurrent.next noCalls fs).state.graph.ActiveExtends tenantId) := by
  intro fs hfs tenantId
  have hcurrent : Acyclic (Extends tenantId ((runFrom concurrent.next noCalls fs).state.graph.nodes.filter
      Node.current)) := by
    refine concurrent_holds_where (G := fun _ => True)
      (J := fun w => ∀ tenantId, Acyclic (Extends tenantId (w.graph.nodes.filter Node.current)))
      (fun _ _ _ _ => trivial) ?_ ?_ ?_ hs fs hfs tenantId
    · intro call _ c w _ hw hc tenantId
      refine (acyclic_either_iff.mpr ⟨hw tenantId, hc tenantId⟩).mono fun a b => extends_after
    · intro v w hw tenantId
      refine (hw tenantId).mono fun a b => extends_mono fun n hn => ?_
      obtain ⟨hmem, hcurrent⟩ := List.mem_filter.mp hn
      exact List.mem_filter.mpr ⟨(v.apply_nodes w).mem_iff.mp hmem, hcurrent⟩
    · intro tenantId a hcycle
      obtain ⟨b, ⟨n, hn, _⟩, _⟩ := (TransGen.head'_iff.mp hcycle)
      cases hn
  refine hcurrent.mono fun a b => extends_mono fun n hn => ?_
  obtain ⟨hmem, hactive⟩ := List.mem_filter.mp hn
  exact List.mem_filter.mpr ⟨hmem, current_of_active hactive⟩

/-! ## A rank -/

/-- Every listed interface ranks below the one that lists it. -/
def Ranked (rank : Value → ℕ) (w : World) (c : Cmd) : Prop :=
  ∀ n ∈ w.graph.nodes.filter Node.current ++ c.writes w.graph, n.label = .interfaceType →
    ∀ b ∈ itemsOf (n.props .extendsInterfaceTypeRids), rank b < rank (n.props .rid)

instance Ranked.decidable (rank : Value → ℕ) (w : World) (c : Cmd) : Decidable (Ranked rank w c) :=
  inferInstanceAs (Decidable (∀ n ∈ w.graph.nodes.filter Node.current ++ c.writes w.graph, n.label = .interfaceType →
    ∀ b ∈ itemsOf (n.props .extendsInterfaceTypeRids), rank b < rank (n.props .rid)))

theorem Ranked.closesNoCycle {rank : Value → ℕ} (h : Ranked rank w c) : ClosesNoCycle w c := by
  intro tenantId a b hwritten
  have hfalls : ∀ x y, Either (Extends tenantId (w.graph.nodes.filter Node.current))
      (Extends tenantId (c.writes w.graph)) x y → rank y < rank x := by
    rintro x y (⟨n, hn, hlabel, _, rfl, hlisted⟩ | ⟨n, hn, hlabel, _, rfl, hlisted⟩)
    · exact h n (List.mem_append_left _ hn) hlabel y hlisted
    · exact h n (List.mem_append_right _ hn) hlabel y hlisted
  exact not_back_of_rank hfalls (.inr hwritten)

end Cycles

/-- An InterfaceType extends another one, and is edited once they are published. -/
def interfacesExtended : List CallEvent :=
  inTurn [⟨⟨"t", "u", "1", "a"⟩, .create .interfaceType [(.apiName, .str "Named")]⟩,
    ⟨⟨"t", "v", "2", "b"⟩, .create .interfaceType
      [(.apiName, .str "Dated"), (.extendsInterfaceTypeRids, .list [.str "ri.iface.a"])]⟩,
    ⟨⟨"t", "u", "3", "c"⟩, .submitToStaging .interfaceType "ri.iface.a"⟩,
    ⟨⟨"t", "v", "4", "d"⟩, .submitToStaging .interfaceType "ri.iface.b"⟩,
    ⟨⟨"t", "u", "5", "e"⟩, .commitStaging none⟩,
    ⟨⟨"t", "v", "6", "f"⟩, .acquireLock "ri.iface.b"⟩,
    ⟨⟨"t", "v", "7", "g"⟩, .update .interfaceType "ri.iface.b"
      [(.extendsInterfaceTypeRids, .list [.str "ri.iface.a"]), (.description, .str "with a date")]⟩]

theorem inheritance_acyclic_extended :
    (runFrom concurrent.next noCalls interfacesExtended).state.graph.ActiveExtends "t"
      (.str "ri.iface.b") (.str "ri.iface.a") ∧
    Acyclic ((runFrom concurrent.next noCalls interfacesExtended).state.graph.ActiveExtends "t") := by
  have hranked : StepsMeet concurrent.next
      (Pool.Allows (Ranked fun v => if v = .str "ri.iface.b" then 1 else 0)) noCalls interfacesExtended := by
    decide +kernel
  have hcloses := hranked.mono fun _ _ h k c hissues => (h k c hissues).closesNoCycle
  refine ⟨?_, inheritance_acyclic hcloses _ (List.prefix_refl _) "t"⟩
  unfold Graph.ActiveExtends Extends
  decide +kernel

/-- Two InterfaceTypes that list each other are published together. -/
def interfacesInCircle : List CallEvent :=
  inTurn [⟨⟨"t", "u", "1", "a"⟩, .create .interfaceType [(.apiName, .str "Named")]⟩,
    ⟨⟨"t", "v", "2", "b"⟩, .create .interfaceType
      [(.apiName, .str "Dated"), (.extendsInterfaceTypeRids, .list [.str "ri.iface.a"])]⟩,
    ⟨⟨"t", "u", "3", "c"⟩, .acquireLock "ri.iface.a"⟩,
    ⟨⟨"t", "u", "4", "d"⟩, .update .interfaceType "ri.iface.a"
      [(.extendsInterfaceTypeRids, .list [.str "ri.iface.b"])]⟩,
    ⟨⟨"t", "u", "5", "e"⟩, .submitToStaging .interfaceType "ri.iface.a"⟩,
    ⟨⟨"t", "v", "6", "f"⟩, .submitToStaging .interfaceType "ri.iface.b"⟩,
    ⟨⟨"t", "u", "7", "g"⟩, .commitStaging none⟩]

theorem interfaces_extend_in_circle : ¬∀ es : List CallEvent,
    (∀ call ∈ started es, call.op.Admitted ∧ call.op.Exposed) → FreshUuids (started es) →
      ∀ fs, fs <+: es → ∀ tenantId,
        Acyclic ((runFrom concurrent.next noCalls fs).state.graph.ActiveExtends tenantId) := by
  intro h
  have hacyclic := h interfacesInCircle (by decide) (by unfold FreshUuids; decide) interfacesInCircle
    (List.prefix_refl _) "t"
  have hthere : (runFrom concurrent.next noCalls interfacesInCircle).state.graph.ActiveExtends "t"
      (.str "ri.iface.a") (.str "ri.iface.b") := by
    unfold Graph.ActiveExtends Extends
    decide +kernel
  have hback : (runFrom concurrent.next noCalls interfacesInCircle).state.graph.ActiveExtends "t"
      (.str "ri.iface.b") (.str "ri.iface.a") := by
    unfold Graph.ActiveExtends Extends
    decide +kernel
  exact hacyclic (.str "ri.iface.a") (.tail (.single hthere) hback)

end Lingshu.Ontology
