import Lingshu.Ontology.Runs

/-! # The identity of an entity

Every version of an entity descends from the one call that created it, and agrees with what that call
stored on every field that `check_immutable_fields` protects. -/
namespace Lingshu.Ontology
open Json Interaction
set_option autoImplicit false

/-! ## Rids -/

theorem generateRid_injective (resourceType : String) {u v : String}
    (h : generateRid resourceType u = generateRid resourceType v) : u = v := by
  unfold generateRid at h
  exact (String.append_right_inj _).mp h

theorem lookup_newNode {call : Call} {label : Label} {d : Dict} (h : call.newNode = some (label, d)) :
    d.lookup .rid = some (.str (generateRid (entityRidTypes label) call.ctx.uuid)) ∧
      d.lookup .tenantId = some (.str call.ctx.tenantId) ∧
      d.lookup .isDraft = some (.bool true) ∧ d.lookup .isStaging = some (.bool false) ∧
      d.lookup .isActive = some (.bool true) := by
  have hserialized : ∀ (props own : Dict) (f : Field) (v : Value), f ∉ jsonStoreFields →
      own.lookup f = some v → (serializeForNeo4j (Dict.update props own)).lookup f = some v := by
    intro props own f v hf hv
    rw [serializeForNeo4j_lookup hf, Dict.lookup_update_of_some hv]
  unfold Call.newNode at h
  split at h
  · cases h
    exact ⟨hserialized _ _ _ _ (by decide) rfl, hserialized _ _ _ _ (by decide) rfl,
      hserialized _ _ _ _ (by decide) rfl, hserialized _ _ _ _ (by decide) rfl,
      hserialized _ _ _ _ (by decide) rfl⟩
  · cases h
    exact ⟨hserialized _ _ _ _ (by decide) rfl, hserialized _ _ _ _ (by decide) rfl,
      hserialized _ _ _ _ (by decide) rfl, hserialized _ _ _ _ (by decide) rfl,
      hserialized _ _ _ _ (by decide) rfl⟩
  · cases h

/-! ## Descent -/

/-- The node agrees with what `call` created on every protected field. -/
def Node.DescendsFrom (call : Call) (n : Node) : Prop :=
  ∃ d, call.newNode = some (n.label, d) ∧ ∀ f ∈ allImmutable n.label, n.props f = (d.lookup f).getD .null

/-- The node descends from one of the calls. -/
def Node.Descends (calls : List Call) (n : Node) : Prop := ∃ call ∈ calls, n.DescendsFrom call

theorem Node.Descends.mono {calls calls' : List Call} {n : Node} (h : n.Descends calls)
    (hsub : ∀ call ∈ calls, call ∈ calls') : n.Descends calls' := by
  obtain ⟨call, hcall, hd⟩ := h
  exact ⟨call, hsub call hcall, hd⟩

theorem Node.DescendsFrom.rid {call : Call} {n : Node} (h : n.DescendsFrom call) :
    n.props .rid = .str (generateRid (entityRidTypes n.label) call.ctx.uuid) := by
  obtain ⟨d, hd, hf⟩ := h
  rw [hf .rid (by simp [allImmutable, immutableFields]), (lookup_newNode hd).1]
  rfl

theorem Node.DescendsFrom.tenantId {call : Call} {n : Node} (h : n.DescendsFrom call) :
    n.props .tenantId = .str call.ctx.tenantId := by
  obtain ⟨d, hd, hf⟩ := h
  rw [hf .tenantId (by simp [allImmutable, immutableFields]), (lookup_newNode hd).2.1]
  rfl

/-- Copying a node, or writing to it, without touching a protected field keeps the descent. -/
theorem Node.Descends.update {calls : List Call} {n m : Node} {d : Dict} (h : n.Descends calls)
    (hlabel : m.label = n.label) (hprops : m.props = n.props.update d)
    (hd : ∀ f ∈ allImmutable n.label, f ∉ d.keys) : m.Descends calls := by
  obtain ⟨call, hcall, base, hnew, hf⟩ := h
  refine ⟨call, hcall, base, by rw [hlabel]; exact hnew, ?_⟩
  intro f hm
  rw [hlabel] at hm
  rw [hprops, Props.update_of_notMem (hd f hm)]
  exact hf f hm

theorem label_of_filterOf {label : Label} {rid tenantId : String} {isDraft isStaging : Option Bool}
    {owner : Option String} {n : Node} (h : Graph.filterOf label rid tenantId isDraft isStaging owner n) :
    n.label = label := by
  simp only [Graph.filterOf, Node.keyed, Bool.and_eq_true, decide_eq_true_eq] at h
  exact h.1.1.1.1.1

theorem cascadeFields_unprotected : ∀ f ∈ cascadeFields, f ∉ allImmutable .propertyType := by decide

/-- Every command of a call keeps the descent of the nodes. -/
theorem keeps_descends {calls : List Call} {call : Call} (hcall : call ∈ calls) {c : Cmd} (g : Graph)
    (h : Issues (Node.Descends calls) call c) : (c.effect g).Keeps (Node.Descends calls) := by
  -- The flags and the stamps that the other methods write are not protected for any label.
  have hfree : ∀ fs : List Field, (∀ label, ∀ f ∈ allImmutable label, f ∉ fs) →
      ∀ (p : Node → Bool) (d : Dict), d.keys = fs → (Effect.set p d).Keeps (Node.Descends calls) := by
    intro fs hfs p d hd n hn _
    exact hn.update rfl rfl (by rw [hd]; exact hfs n.label)
  cases h with
  | @new _ label d hnew => exact effect_createNode ⟨call, hcall, d, hnew, fun f _ => rfl⟩ trivial
  | clone good key guarded marks =>
    simp only [Node.keyed, Bool.and_eq_true, decide_eq_true_eq] at key
    refine effect_createNode ?_ trivial
    exact good.update key.1.1.symm rfl (by rw [key.1.1]; exact guarded)
  | edit guarded plain =>
    refine effect_updateNode ?_ trivial
    intro n hn hp
    exact hn.update rfl rfl (by rw [label_of_filterOf hp]; exact guarded)
  | cascade content =>
    refine effect_updateNode ?_ trivial
    intro n hn hp
    refine hn.update rfl rfl fun f hf hk => ?_
    rw [label_of_filterOf hp] at hf
    exact cascadeFields_unprotected f (content f hk) hf
  | submit =>
    exact hfree [.isDraft, .isStaging, .draftOwner, .updatedAt] (by intro l; cases l <;> decide) _ _ rfl
  | unstage =>
    exact hfree [.isStaging, .isDraft, .draftOwner] (by intro l; cases l <;> decide) _ _ rfl
  | deactivateStaged => exact hfree [.isActive] (by intro l; cases l <;> decide) _ _ rfl
  | promoteStaged => exact hfree [.isStaging, .snapshotId] (by intro l; cases l <;> decide) _ _ rfl
  | deactivateSnapshot => exact hfree [.isActive] (by intro l; cases l <;> decide) _ _ rfl
  | reactivateSnapshot => exact hfree [.isActive] (by intro l; cases l <;> decide) _ _ rfl
  | dropDraft | dropStaging | belongsTo | basedOn | cleanupDeleted | publish | repoint => trivial
  | quiet hq => cases c <;> trivial

theorem concurrent_descends (es : List CallEvent) :
    ∀ n ∈ (runFrom concurrent.next noCalls es).state.graph.nodes, n.Descends (started es) :=
  concurrent_nodes fun _ hcall _ g hc => keeps_descends hcall g hc

/-- Two nodes that descend from the same entity agree on every protected field. -/
theorem Node.Descends.agree {calls : List Call} (hu : FreshUuids calls) {n m : Node}
    (hn : n.Descends calls) (hm : m.Descends calls) (hlabel : n.label = m.label)
    (hrid : n.props .rid = m.props .rid) : ∀ f ∈ allImmutable n.label, n.props f = m.props f := by
  obtain ⟨x, hx, hxn⟩ := hn
  obtain ⟨y, hy, hym⟩ := hm
  have huuid : x.ctx.uuid = y.ctx.uuid := by
    have h := hrid
    rw [hxn.rid, hym.rid, hlabel] at h
    injection h with h
    exact generateRid_injective _ h
  obtain rfl := hu.eq hx hy huuid
  obtain ⟨d, hd, hdf⟩ := hxn
  obtain ⟨d', hd', hdf'⟩ := hym
  rw [← hlabel, hd] at hd'
  cases hd'
  intro f hf
  rw [hdf f hf, hdf' f (by rw [← hlabel]; exact hf)]

/-- At any two moments of an interleaving, two nodes with one tenant, label and rid agree on every
field that `check_immutable_fields` protects for the label. -/
theorem identity_constant {es fs fs' : List CallEvent} (hu : FreshUuids (started es)) (hfs : fs <+: es)
    (hfs' : fs' <+: es) {n m : Node} (hn : n ∈ (runFrom concurrent.next noCalls fs).state.graph.nodes)
    (hm : m ∈ (runFrom concurrent.next noCalls fs').state.graph.nodes) (hlabel : n.label = m.label)
    (_htenant : n.props .tenantId = m.props .tenantId) (hrid : n.props .rid = m.props .rid) :
    ∀ f ∈ allImmutable n.label, n.props f = m.props f := by
  have hsub : ∀ {gs : List CallEvent}, gs <+: es → ∀ call ∈ started gs, call ∈ started es := by
    rintro gs ⟨rest, rfl⟩ call hcall
    rw [started, List.filterMap_append]
    exact List.mem_append_left _ hcall
  exact Node.Descends.agree hu ((concurrent_descends fs n hn).mono (hsub hfs))
    ((concurrent_descends fs' m hm).mono (hsub hfs')) hlabel hrid

/-- A user publishes an entity and edits it: the published version and the new Draft. -/
def editAfterCommit : List CallEvent :=
  inTurn [⟨⟨"t", "u", "1", "a"⟩, .create .objectType [(.apiName, .str "Order")]⟩,
    ⟨⟨"t", "u", "2", "b"⟩, .submitToStaging .objectType "ri.obj.a"⟩,
    ⟨⟨"t", "u", "3", "c"⟩, .commitStaging none⟩,
    ⟨⟨"t", "u", "4", "d"⟩, .acquireLock "ri.obj.a"⟩,
    ⟨⟨"t", "u", "5", "e"⟩, .update .objectType "ri.obj.a" [(.isActive, .bool true)]⟩]

theorem editAfterCommit_length :
    (runFrom concurrent.next noCalls editAfterCommit).state.graph.nodes.length = 2 := by decide +kernel

def editAfterCommitNode (i : Fin 2) : Node :=
  (runFrom concurrent.next noCalls editAfterCommit).state.graph.nodes.get (i.cast editAfterCommit_length.symm)

theorem editAfterCommitNode_mem (i : Fin 2) :
    editAfterCommitNode i ∈ (runFrom concurrent.next noCalls editAfterCommit).state.graph.nodes :=
  List.get_mem _ _

theorem identity_editAfterCommit :
    (editAfterCommitNode 0).active ∧ (editAfterCommitNode 1).draft ∧
      (editAfterCommitNode 0).props .createdAt = (editAfterCommitNode 1).props .createdAt := by
  refine ⟨by decide +kernel, by decide +kernel, ?_⟩
  have hfresh : FreshUuids (started editAfterCommit) := by unfold FreshUuids; decide
  exact identity_constant hfresh (List.prefix_refl _) (List.prefix_refl _)
    (editAfterCommitNode_mem 0) (editAfterCommitNode_mem 1) (by decide +kernel)
    (by decide +kernel) (by decide +kernel) .createdAt (by decide +kernel)

end Lingshu.Ontology
