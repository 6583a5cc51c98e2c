import Lingshu.Ontology.Alone
import Lingshu.Ontology.Flags
import Lingshu.Ontology.Reads

/-! # Who sees a Draft

Two states that differ only in the Drafts of one user, and what another user's reads return in them. A read
is blind when it asks for Active or Staging versions, or for the reader's own Drafts; `list_nodes` and
`get_related_nodes` ask for neither. -/
namespace Lingshu.Ontology
open Json Interaction
set_option autoImplicit false

/-! ## Pairs of states -/

/-- The stores that some interleaving of admitted calls reaches. -/
def Reachable (w : World) : Prop :=
  ∃ es, (∀ call ∈ started es, call.op.Admitted) ∧ FreshUuids (started es) ∧
    (runFrom concurrent.next noCalls es).state = w

/-- The relationship starts or ends at a Draft of the user. -/
def Graph.touchesDraftOf (g : Graph) (userId : String) (r : Rel) : Bool :=
  g.nodes.any fun n => n.draftOf userId && (decide (n.id = r.source) || decide (n.id = r.target))

/-- The graphs differ at most in Drafts of the user, and in relationships of those. -/
structure Graph.SameBut (userId : String) (g g' : Graph) : Prop where
  nodes : (g.nodes.filter fun n => !n.draftOf userId) = g'.nodes.filter fun n => !n.draftOf userId
  rels : (g.rels.filter fun r => !g.touchesDraftOf userId r) = g'.rels.filter fun r => !g'.touchesDraftOf userId r

/-- What is known of a graph that an interleaving reaches. -/
structure Graph.Lawful (g : Graph) : Prop where
  flags : ∀ n ∈ g.nodes, ¬ (n.draft ∧ n.staging)
  rids : ∀ n ∈ g.nodes, ∃ uuid, n.props .rid = .str (generateRid (entityRidTypes n.label) uuid)
  ids : (g.nodes.map Node.id).Nodup

theorem Reachable.lawful {w : World} (h : Reachable w) : w.graph.Lawful := by
  obtain ⟨es, ha, _, rfl⟩ := h
  have hflags := concurrent_nodes fun call hcall _ g hc => keeps_wellFlagged hcall (ha call hcall) g hc
  refine ⟨fun n hn => (hflags n hn).exclusive, fun n hn => ?_, (concurrent_linked es).ids⟩
  obtain ⟨call, _, hd⟩ := concurrent_descends es n hn
  exact ⟨call.ctx.uuid, hd.rid⟩

section Same
variable {g g' : Graph} {u v : String} {p : Node → Bool}

theorem not_draftOf_of_active {n : Node} (h : n.active) : n.draftOf u = false := by
  simp only [Node.active, Node.published, Node.has, Bool.and_eq_true, decide_eq_true_eq] at h
  simp [Node.draftOf, Node.draft, Node.has, h.1.1]

theorem not_draftOf_of_staging (hg : g.Lawful) {n : Node} (hn : n ∈ g.nodes) (h : n.staging) :
    n.draftOf u = false := by
  have hd : n.draft = false := by
    by_contra hd
    exact hg.flags n hn ⟨by simpa using hd, h⟩
  rw [Node.draftOf, hd, Bool.false_and]

theorem not_draftOf_of_other (hne : v ≠ u) {n : Node} (h : n.draftOf v) : n.draftOf u = false := by
  simp only [Node.draftOf, Node.has, Bool.and_eq_true, decide_eq_true_eq] at h
  simp [Node.draftOf, Node.has, h.2, hne]

/-- The nodes a query matches are the same when it matches no Draft of the user. -/
theorem Graph.SameBut.filter_eq (h : g.SameBut u g') (hp : ∀ n ∈ g.nodes, p n → n.draftOf u = false)
    (hp' : ∀ n ∈ g'.nodes, p n → n.draftOf u = false) : g.nodes.filter p = g'.nodes.filter p := by
  have hpass : ∀ l : List Node, (∀ n ∈ l, p n → n.draftOf u = false) →
      (l.filter fun n => !n.draftOf u).filter p = l.filter p := by
    intro l hl
    rw [List.filter_filter]
    refine List.filter_congr fun n hn => ?_
    cases hpn : p n with
    | false => rfl
    | true => rw [hl n hn hpn]; rfl
  rw [← hpass _ hp, ← hpass _ hp', h.nodes]

theorem Graph.SameBut.find?_eq (h : g.SameBut u g') (hp : ∀ n ∈ g.nodes, p n → n.draftOf u = false)
    (hp' : ∀ n ∈ g'.nodes, p n → n.draftOf u = false) : g.nodes.find? p = g'.nodes.find? p := by
  rw [← List.head?_filter, ← List.head?_filter, h.filter_eq hp hp']

theorem Graph.SameBut.countP_eq (h : g.SameBut u g') (hp : ∀ n ∈ g.nodes, p n → n.draftOf u = false)
    (hp' : ∀ n ∈ g'.nodes, p n → n.draftOf u = false) : g.nodes.countP p = g'.nodes.countP p := by
  rw [List.countP_eq_length_filter, List.countP_eq_length_filter, h.filter_eq hp hp']

/-- The same for a query about Active versions. -/
theorem Graph.SameBut.filter_active (h : g.SameBut u g') (hp : ∀ n, p n → n.active) :
    g.nodes.filter p = g'.nodes.filter p :=
  h.filter_eq (fun n _ hn => not_draftOf_of_active (hp n hn)) fun n _ hn => not_draftOf_of_active (hp n hn)

/-! ## Queries that match no Draft of another user -/

theorem getActiveNode_same (h : g.SameBut u g') (label : Label) (rid t : String) :
    g.getActiveNode label rid t = g'.getActiveNode label rid t := by
  refine h.find?_eq ?_ ?_ <;>
    exact fun n _ hn => not_draftOf_of_active (Bool.and_eq_true_iff.mp hn).2

theorem getStagingNode_same (hg : g.Lawful) (hg' : g'.Lawful) (h : g.SameBut u g') (label : Label)
    (rid t : String) : g.getStagingNode label rid t = g'.getStagingNode label rid t :=
  h.find?_eq (fun _ hm hn => not_draftOf_of_staging hg hm (Bool.and_eq_true_iff.mp hn).2)
    fun _ hm hn => not_draftOf_of_staging hg' hm (Bool.and_eq_true_iff.mp hn).2

theorem getDraftNode_same (hne : v ≠ u) (h : g.SameBut u g') (label : Label) (rid t : String) :
    g.getDraftNode label rid t v = g'.getDraftNode label rid t v := by
  refine h.find?_eq ?_ ?_ <;>
    exact fun n _ hn => not_draftOf_of_other hne (Bool.and_eq_true_iff.mp hn).2

theorem getEffectiveNode_same (hg : g.Lawful) (hg' : g'.Lawful) (hne : v ≠ u) (h : g.SameBut u g')
    (label : Label) (rid t : String) : g.getEffectiveNode label rid t v = g'.getEffectiveNode label rid t v := by
  unfold Graph.getEffectiveNode
  rw [getDraftNode_same hne h, getStagingNode_same hg hg' h, getActiveNode_same h]

theorem listActiveNodes_same (h : g.SameBut u g') (label : Label) (t : String) (term : Option String)
    (offset limit : ℕ) :
    g.listActiveNodes label t term offset limit = g'.listActiveNodes label t term offset limit := by
  have hactive : ∀ n : Node, (decide (n.label = label) && n.ofTenant t && n.active && matchesSearch term n) →
      n.active := by
    intro n hn
    simp only [Bool.and_eq_true] at hn
    exact hn.1.2
  unfold Graph.listActiveNodes Graph.listWhere
  rw [List.countP_eq_length_filter, List.countP_eq_length_filter, h.filter_active hactive]

theorem mappedNode_same (h : g.SameBut u g') (t rid : String) : mappedNode g t rid = mappedNode g' t rid := by
  unfold mappedNode
  rw [getActiveNode_same h, getActiveNode_same h]

/-- With ids of their own, no Active node is at the end of another's relationship. -/
theorem edges_of_touched (hg : g.Lawful) {r : Rel} (hr : g.touchesDraftOf u r) (t : String) :
    ((g.nodes.filter fun a => decide (a.id = r.source) && a.ofTenant t && a.active).flatMap fun a =>
      (g.nodes.filter fun b => decide (b.id = r.target) && b.active).map fun b =>
        (⟨a.props .rid, b.props .rid, r.type⟩ : Graph.TopologyEdge)) = [] := by
  obtain ⟨d, hd, hp⟩ := List.any_eq_true.mp hr
  obtain ⟨hdraft, hend⟩ := Bool.and_eq_true_iff.mp hp
  have hother : ∀ a ∈ g.nodes, a.active → a.id ≠ d.id := by
    intro a ha hactive hid
    obtain rfl := List.inj_on_of_nodup_map hg.ids ha hd hid
    rw [not_draftOf_of_active hactive] at hdraft
    cases hdraft
  refine List.flatMap_eq_nil_iff.mpr fun a ha => ?_
  obtain ⟨hmem, ha⟩ := List.mem_filter.mp ha
  simp only [Bool.and_eq_true, decide_eq_true_eq] at ha
  refine List.map_eq_nil_iff.mpr (List.filter_eq_nil_iff.mpr fun b hb hb' => ?_)
  simp only [Bool.and_eq_true, decide_eq_true_eq] at hb'
  rw [Bool.or_eq_true, decide_eq_true_eq, decide_eq_true_eq] at hend
  rcases hend with hs | ht
  · exact hother a hmem ha.2 (ha.1.1.trans hs.symm)
  · exact hother b hb hb'.2 (hb'.1.trans ht.symm)

theorem flatMap_filter_of_nil {α β : Type} (l : List α) (q : α → Bool) (f : α → List β)
    (h : ∀ a ∈ l, q a = false → f a = []) : (l.filter q).flatMap f = l.flatMap f := by
  induction l with
  | nil => rfl
  | cons a l ih =>
    have ih' := ih fun b hb => h b (List.mem_cons_of_mem _ hb)
    cases hq : q a with
    | true => rw [List.filter_cons_of_pos hq, List.flatMap_cons, List.flatMap_cons, ih']
    | false =>
      rw [List.filter_cons_of_neg (by simp [hq]), List.flatMap_cons, h a (List.mem_cons_self ..) hq, ih']
      rfl

theorem getTopology_same (hg : g.Lawful) (hg' : g'.Lawful) (h : g.SameBut u g') (t : String) :
    g.getTopology t = g'.getTopology t := by
  have hsource : ∀ i : ℕ, (g.nodes.filter fun a => decide (a.id = i) && a.ofTenant t && a.active) =
      g'.nodes.filter fun a => decide (a.id = i) && a.ofTenant t && a.active :=
    fun i => h.filter_active fun n hn => (Bool.and_eq_true_iff.mp hn).2
  have htarget : ∀ i : ℕ, (g.nodes.filter fun b => decide (b.id = i) && b.active) =
      g'.nodes.filter fun b => decide (b.id = i) && b.active :=
    fun i => h.filter_active fun n hn => (Bool.and_eq_true_iff.mp hn).2
  have hnodes : (g.nodes.filter fun n => n.ofTenant t && n.active) =
      g'.nodes.filter fun n => n.ofTenant t && n.active :=
    h.filter_active fun n hn => (Bool.and_eq_true_iff.mp hn).2
  unfold Graph.getTopology
  rw [hnodes, Graph.Topology.mk.injEq]
  refine ⟨rfl, ?_⟩
  rw [← flatMap_filter_of_nil g.rels fun r => !g.touchesDraftOf u r, h.rels,
    ← flatMap_filter_of_nil g'.rels fun r => !g'.touchesDraftOf u r]
  · refine List.flatMap_congr fun r _ => ?_
    rw [hsource, htarget]
  · intro r _ hr
    exact edges_of_touched hg' (by simpa using hr) t
  · intro r _ hr
    exact edges_of_touched hg (by simpa using hr) t

theorem search_same (h : g.SameBut u g') (t term : String) (types : Option (List String)) (limit : ℕ) :
    search g t term types limit = search g' t term types limit := by
  unfold search Graph.searchNodes
  rw [h.filter_active]
  intro n hn
  simp only [Bool.and_eq_true] at hn
  exact hn.1.1.2

theorem getStagingSummary_same (hg : g.Lawful) (hg' : g'.Lawful) (h : g.SameBut u g') (t : String) :
    g.getStagingSummary t = g'.getStagingSummary t := by
  funext label
  refine h.countP_eq (fun n hm hn => ?_) fun n hm hn => ?_
  · simp only [Bool.and_eq_true] at hn
    exact not_draftOf_of_staging hg hm hn.2.2
  · simp only [Bool.and_eq_true] at hn
    exact not_draftOf_of_staging hg' hm hn.2.2

theorem getDraftsSummary_same (hne : v ≠ u) (h : g.SameBut u g') (t : String) :
    g.getDraftsSummary t v = g'.getDraftsSummary t v := by
  funext label
  refine h.countP_eq (fun n _ hn => ?_) fun n _ hn => ?_
  all_goals
    simp only [Bool.and_eq_true] at hn
    exact not_draftOf_of_other hne hn.2.2

/-! ## Rids that no entity has -/

/-- A rid that `generate_rid` may return for the label. -/
def RidOf (label : Label) (rid : String) : Prop := ∃ uuid, rid = generateRid (entityRidTypes label) uuid

theorem not_keyed_of_foreign (hg : g.Lawful) {label : Label} {rid : String} (h : ¬ RidOf label rid) (t : String) :
    ∀ n ∈ g.nodes, n.keyed label rid t = false := by
  intro n hn
  by_contra hk
  rw [Bool.not_eq_false] at hk
  obtain ⟨hlabel, hrid, _⟩ := Node.keyed_iff.mp hk
  obtain ⟨uuid, hu⟩ := hg.rids n hn
  refine h ⟨uuid, ?_⟩
  rw [hrid, hlabel] at hu
  exact Value.str.inj hu

theorem getActiveNode_foreign (hg : g.Lawful) {label : Label} {rid : String} (h : ¬ RidOf label rid) (t : String) :
    g.getActiveNode label rid t = none := by
  refine List.find?_eq_none.mpr fun n hn => ?_
  simp [not_keyed_of_foreign hg h t n hn]

theorem propertyNodes_foreign (hg : g.Lawful) {label : Label} {rid : String} (h : ¬ RidOf label rid) (t : String) :
    propertyNodes g label rid t = [] := by
  have hnone : g.nodes.filter (Node.keyed label rid t) = [] := by
    refine List.filter_eq_nil_iff.mpr fun n hn => ?_
    simp [not_keyed_of_foreign hg h t n hn]
  unfold propertyNodes Graph.getRelatedNodes
  rw [hnone, List.flatMap_nil]

/-! ## Blind reads -/

/-- The labels whose responses list property types. -/
def Label.hasProperties (label : Label) : Prop := label = .objectType ∨ label = .linkType

/-- Reads that ask neither for all versions of a type nor for the property types of an ObjectType or
LinkType. -/
def ReadOp.Blind : ReadOp → Prop
  | .queryEntities .. => False
  | .getEntity type rid => ¬ (type.label.hasProperties ∧ RidOf type.label rid)
  | .getPropertyTypesForEntity rid | .loadSchema rid | .queryAssetMappingReferences rid =>
    ¬ ∃ label : Label, label.hasProperties ∧ RidOf label rid
  | _ => True

theorem getEntity_same (hg : g.Lawful) (hg' : g'.Lawful) (h : g.SameBut u g') {type : EntityType} {rid : String}
    (hb : ¬ (type.label.hasProperties ∧ RidOf type.label rid)) (t : String) :
    getEntity g t type.label rid = getEntity g' t type.label rid := by
  unfold getEntity
  by_cases hl : type.label.hasProperties
  · have hforeign : ¬ RidOf type.label rid := fun hr => hb ⟨hl, hr⟩
    rw [getActiveNode_foreign hg hforeign, getActiveNode_foreign hg' hforeign]
  · have hnone : type.label ∉ [.objectType, .linkType] := by
      simp only [List.mem_cons, List.not_mem_nil, or_false]
      exact hl
    simp only [getActiveNode_same h, propertyTypesOf, if_neg hnone]

theorem getPropertyTypesForEntity_foreign (hg : g.Lawful) {rid : String}
    (hb : ¬ ∃ label : Label, label.hasProperties ∧ RidOf label rid) (t : String) :
    getPropertyTypesForEntity g t rid = [] := by
  have hobject : ¬ RidOf .objectType rid := fun hr => hb ⟨_, .inl rfl, hr⟩
  have hlink : ¬ RidOf .linkType rid := fun hr => hb ⟨_, .inr rfl, hr⟩
  simp [getPropertyTypesForEntity, propertyNodes_foreign hg hobject, propertyNodes_foreign hg hlink]

theorem mappedNode_foreign (hg : g.Lawful) {rid : String}
    (hb : ¬ ∃ label : Label, label.hasProperties ∧ RidOf label rid) (t : String) :
    mappedNode g t rid = none := by
  have hobject : ¬ RidOf .objectType rid := fun hr => hb ⟨_, .inl rfl, hr⟩
  have hlink : ¬ RidOf .linkType rid := fun hr => hb ⟨_, .inr rfl, hr⟩
  simp [mappedNode, getActiveNode_foreign hg hobject, getActiveNode_foreign hg hlink]

/-- A blind read returns the same in both states. -/
theorem same_of_blind {op : ReadOp} (hb : op.Blind) (hg : g.Lawful) (hg' : g'.Lawful) (hne : v ≠ u)
    (h : g.SameBut u g') (t : String) : op.run t v g = op.run t v g' := by
  cases op with
  | getEntity type rid => simp only [ReadOp.run, getEntity_same hg hg' h hb]
  | getEntityDraft type rid => simp only [ReadOp.run, getEntityDraft, getEffectiveNode_same hg hg' hne h]
  | queryEntities => exact hb.elim
  | getPropertyTypesForEntity rid =>
    simp only [ReadOp.run, getPropertyTypesForEntity_foreign hg hb, getPropertyTypesForEntity_foreign hg' hb]
  | queryAllPropertyTypes term offset limit =>
    simp only [ReadOp.run, queryAllPropertyTypes, listActiveNodes_same h]
  | getAssetMapping rid => simp only [ReadOp.run, getAssetMapping, mappedNode_same h]
  | queryAllAssetMappings term offset limit =>
    simp only [ReadOp.run, queryAllAssetMappings, listActiveNodes_same h]
  | queryAssetMappingReferences rid =>
    simp only [ReadOp.run, queryAssetMappingReferences, mappedNode_foreign hg hb, mappedNode_foreign hg' hb]
  | loadSchema rid =>
    simp only [ReadOp.run, loadSchema, getPropertyTypesForEntity_foreign hg hb,
      getPropertyTypesForEntity_foreign hg' hb, getAssetMapping, mappedNode_same h]
  | getTopology => simp only [ReadOp.run, getTopology_same hg hg' h]
  | search query types limit => simp only [ReadOp.run, search_same h]
  | getStagingSummary => simp only [ReadOp.run, getStagingSummary_same hg hg' h]
  | getDraftsSummary => simp only [ReadOp.run, getDraftsSummary_same hne h]

end Same
end Lingshu.Ontology
