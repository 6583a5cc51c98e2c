import Lingshu.Ontology.ActiveVersions
import Mathlib.Data.List.Induction

/-! # References

Versions refer to entities by rid. No step looks at the rids that are written, a deletion is checked against
relationships of which only BASED_ON is ever created, and `commit_staging` makes no check of what it publishes. -/
namespace Lingshu.Ontology
open Json Interaction
set_option autoImplicit false

/-- An entity, by label and rid. -/
abbrev Ref := Label × String

/-- A value that holds a rid. -/
def ridsIn : Value → List String
  | .str s => if s = "" then [] else [s]
  | _ => []

def refs (label : Label) (v : Value) : List Ref := (ridsIn v).map fun rid => (label, rid)

def listedRefs (label : Label) (v : Value) : List Ref := (itemsOf v).flatMap (refs label)

/-- The type that a parameter of an ActionType takes its instances from. -/
def parameterRefs : Value → List Ref
  | .dict entries =>
    match entries.lookup "definition_source" with
    | some (.str "derived_from_object_type_rid") => refs .objectType ((entries.lookup "type_rid").getD .null)
    | some (.str "derived_from_link_type_rid") => refs .linkType ((entries.lookup "type_rid").getD .null)
    | _ => []
  | _ => []

/-- The fields that hold rids, and those that tell the entity. -/
def referenceFields : List Field :=
  [.rid, .tenantId, .sourceObjectTypeRid, .targetObjectTypeRid, .implementsInterfaceTypeRids, .extendsInterfaceTypeRids,
    .requiredSharedPropertyTypeRids, .inheritFromSharedPropertyTypeRid, .parameters]

/-- What a version refers to, with the label that is expected there. -/
def Node.refersTo (n : Node) : List Ref :=
  match n.label with
  | .objectType => listedRefs .interfaceType (n.props .implementsInterfaceTypeRids)
  | .linkType => refs .objectType (n.props .sourceObjectTypeRid) ++ refs .objectType (n.props .targetObjectTypeRid) ++
      listedRefs .interfaceType (n.props .implementsInterfaceTypeRids)
  | .interfaceType => listedRefs .interfaceType (n.props .extendsInterfaceTypeRids) ++
      listedRefs .sharedPropertyType (n.props .requiredSharedPropertyTypeRids)
  | .sharedPropertyType => []
  | .propertyType => refs .sharedPropertyType (n.props .inheritFromSharedPropertyTypeRid)
  | .actionType => (itemsOf (deserializeFromNeo4j n.props .parameters)).flatMap parameterRefs

/-- The references of published versions resolve to published versions. -/
def ReferencesResolve (g : Graph) : Prop :=
  ∀ tenantId, ∀ n ∈ g.nodes, n.ofTenant tenantId → n.active → ∀ ref ∈ n.refersTo,
    ∃ m ∈ g.nodes, m.keyed ref.1 ref.2 tenantId ∧ m.active

/-! ## What a commit has to check -/

/-- After a promotion the entity will have an Active version: one is staged, or it has one, and nothing is staged. -/
def Graph.Available (g : Graph) (tenantId : String) (ref : Ref) : Prop :=
  (∃ m ∈ g.nodes, m.keyed ref.1 ref.2 tenantId ∧ m.publishable) ∨
    (∃ m ∈ g.nodes, m.keyed ref.1 ref.2 tenantId ∧ m.active) ∧
      ∀ s ∈ g.nodes, s.keyed ref.1 ref.2 tenantId → s.staging = false

/-- The check of references before a publication: what is staged refers to what is there, and what is deleted is not
referred to by what stays. -/
structure Integrity (g : Graph) (tenantId : String) : Prop where
  staged : ∀ n ∈ g.nodes, n.ofTenant tenantId → n.publishable → ∀ ref ∈ n.refersTo, g.Available tenantId ref
  deleted : ∀ n ∈ g.nodes, n.ofTenant tenantId → n.active → g.replacedBy tenantId n = false → ∀ ref ∈ n.refersTo,
    (∃ s ∈ g.nodes, s.keyed ref.1 ref.2 tenantId ∧ s.staging) →
      ∃ s ∈ g.nodes, s.keyed ref.1 ref.2 tenantId ∧ s.publishable

/-- A commit that gets the lock meets the check. -/
def ChecksReferences (s : Serial) : SerialEvent → Prop
  | .call ⟨ctx, .commitStaging _⟩ => s.world.redis (.commitLock ctx.tenantId) = none → Integrity s.world.graph ctx.tenantId
  | _ => True

/-! ## Steps that publish nothing -/

/-- Versions of one entity with the same rids. -/
structure Node.SameReferences (n m : Node) : Prop where
  label : n.label = m.label
  props : ∀ f ∈ referenceFields, n.props f = m.props f

section Same
variable {n m k : Node} {nodes nodes' nodes'' : List Node}

theorem Node.SameReferences.refl (n : Node) : n.SameReferences n := ⟨rfl, fun _ _ => rfl⟩

theorem Node.SameReferences.symm (h : n.SameReferences m) : m.SameReferences n :=
  ⟨h.label.symm, fun f hf => (h.props f hf).symm⟩

theorem Node.SameReferences.trans (h : n.SameReferences m) (h' : m.SameReferences k) : n.SameReferences k :=
  ⟨h.label.trans h'.label, fun f hf => (h.props f hf).trans (h'.props f hf)⟩

theorem sameReferences_set (n : Node) {d : Dict} (hd : ∀ f ∈ referenceFields, f ∉ d.keys) :
    (n.set d).SameReferences n :=
  ⟨rfl, fun f hf => Props.update_of_notMem (hd f hf)⟩

theorem Node.SameReferences.refersTo (h : n.SameReferences m) : n.refersTo = m.refersTo := by
  have hparameters : deserializeFromNeo4j n.props .parameters = deserializeFromNeo4j m.props .parameters := by
    rw [deserializeFromNeo4j, deserializeFromNeo4j, h.props .parameters (by decide)]
  unfold Node.refersTo
  rw [h.label, hparameters, h.props .sourceObjectTypeRid (by decide), h.props .targetObjectTypeRid (by decide),
    h.props .implementsInterfaceTypeRids (by decide), h.props .extendsInterfaceTypeRids (by decide),
    h.props .requiredSharedPropertyTypeRids (by decide), h.props .inheritFromSharedPropertyTypeRid (by decide)]

theorem Node.SameReferences.keyed (h : n.SameReferences m) (label : Label) (rid tenantId : String) :
    n.keyed label rid tenantId = m.keyed label rid tenantId := by
  rw [Node.keyed, Node.keyed, Node.has, Node.has, Node.has, Node.has, h.label, h.props .rid (by decide),
    h.props .tenantId (by decide)]

theorem Node.SameReferences.ofTenant (h : n.SameReferences m) (tenantId : String) :
    n.ofTenant tenantId = m.ofTenant tenantId := by
  rw [Node.ofTenant, Node.ofTenant, Node.has, Node.has, h.props .tenantId (by decide)]

/-- Every Active version of the first store is one of the second, as far as rids go. -/
def KeepsActive (nodes nodes' : List Node) : Prop :=
  ∀ n ∈ nodes, n.active → ∃ m ∈ nodes', m.active ∧ m.SameReferences n

structure SameActive (nodes nodes' : List Node) : Prop where
  kept : KeepsActive nodes nodes'
  old : KeepsActive nodes' nodes

theorem SameActive.refl (nodes : List Node) : SameActive nodes nodes :=
  ⟨fun n hn ha => ⟨n, hn, ha, .refl n⟩, fun n hn ha => ⟨n, hn, ha, .refl n⟩⟩

theorem KeepsActive.trans (h : KeepsActive nodes nodes') (h' : KeepsActive nodes' nodes'') :
    KeepsActive nodes nodes'' := by
  intro n hn hactive
  obtain ⟨m, hm, hmactive, hsame⟩ := h n hn hactive
  obtain ⟨k, hk, hkactive, hsame'⟩ := h' m hm hmactive
  exact ⟨k, hk, hkactive, hsame'.trans hsame⟩

theorem SameActive.trans (h : SameActive nodes nodes') (h' : SameActive nodes' nodes'') : SameActive nodes nodes'' :=
  ⟨h.kept.trans h'.kept, h'.old.trans h.old⟩

theorem SameActive.of_mem (h : ∀ n, n ∈ nodes' ↔ n ∈ nodes) : SameActive nodes nodes' :=
  ⟨fun n hn ha => ⟨n, (h n).mpr hn, ha, .refl n⟩, fun n hn ha => ⟨n, (h n).mp hn, ha, .refl n⟩⟩

theorem ReferencesResolve.of_sameActive {g g' : Graph} (h : SameActive g.nodes g'.nodes) (hg : ReferencesResolve g) :
    ReferencesResolve g' := by
  intro tenantId n hn htenant hactive ref href
  obtain ⟨m, hm, hmactive, hsame⟩ := h.old n hn hactive
  rw [← hsame.refersTo] at href
  rw [← hsame.ofTenant] at htenant
  obtain ⟨k, hk, hkeyed, hkactive⟩ := hg tenantId m hm htenant hmactive ref href
  obtain ⟨k', hk', hkactive', hsame'⟩ := h.kept k hk hkactive
  refine ⟨k', hk', ?_, hkactive'⟩
  rw [hsame'.keyed]
  exact hkeyed

end Same

section Steps
variable {nodes : List Node} {call : Call} {c : Cmd} {ctx : Ctx} {w : World} {calls : List Call}

/-- The effect moves no version in or out of the Active ones, and leaves their rids alone. -/
def Effect.LeavesActive (nodes : List Node) : Effect → Prop
  | .keep => True
  | .add n => n.active = false
  | .set p d => ∀ n ∈ nodes, p n → (n.set d).active = n.active ∧ (n.active → (n.set d).SameReferences n)
  | .drop p => ∀ n ∈ nodes, p n → n.active = false

theorem Effect.LeavesActive.sameActive {e : Effect} (h : e.LeavesActive nodes) : SameActive nodes (e.on nodes) := by
  cases e with
  | keep => exact .refl nodes
  | add new =>
    refine ⟨fun n hn ha => ⟨n, List.mem_append_left _ hn, ha, .refl n⟩, fun n hn ha => ?_⟩
    rcases List.mem_append.mp hn with hn | hn
    · exact ⟨n, hn, ha, .refl n⟩
    · obtain rfl := List.mem_singleton.mp hn
      have hnew : n.active = false := h
      rw [hnew] at ha
      cases ha
  | set p d =>
    have hset : ∀ n ∈ nodes, (if p n then n.set d else n).active = n.active ∧
        (n.active → (if p n then n.set d else n).SameReferences n) := by
      intro n hn
      split
      next hp => exact h n hn hp
      next => exact ⟨rfl, fun _ => .refl n⟩
    constructor
    · intro n hn ha
      obtain ⟨hactive, hsame⟩ := hset n hn
      exact ⟨_, List.mem_map_of_mem hn, hactive.trans ha, hsame ha⟩
    · intro m hm ha
      obtain ⟨n, hn, rfl⟩ := List.mem_map.mp hm
      obtain ⟨hactive, hsame⟩ := hset n hn
      have hna : n.active := hactive.symm.trans ha
      exact ⟨n, hn, hna, (hsame hna).symm⟩
  | drop p =>
    refine ⟨fun n hn ha => ⟨n, List.mem_filter.mpr ⟨hn, ?_⟩, ha, .refl n⟩, fun n hn ha => ?_⟩
    · rw [Bool.not_eq_true']
      refine Bool.eq_false_iff.mpr fun hp => ?_
      rw [h n hn hp] at ha
      cases ha
    · exact ⟨n, (List.mem_filter.mp hn).1, ha, .refl n⟩

theorem active_false_of_unpublished {n : Node} (h : n.published = false) : n.active = false := by
  rw [Node.active, h, Bool.false_and]

/-- An update of Drafts or Staging versions that stay such. -/
theorem leavesActive_set {p : Node → Bool} {d : Dict} (h : ∀ n, p n → n.published = false ∧ (n.set d).published = false) :
    (Effect.set p d).LeavesActive nodes := by
  intro n _ hp
  have hbefore := active_false_of_unpublished (h n hp).1
  refine ⟨(active_false_of_unpublished (h n hp).2).trans hbefore.symm, fun ha => ?_⟩
  rw [hbefore] at ha
  cases ha

theorem leavesActive_cascade {p : Node → Bool} {d : Dict} (content : ∀ f ∈ d.keys, f ∈ cascadeFields) :
    (Effect.set p d).LeavesActive nodes := by
  intro n _ _
  have hflag : ∀ f ∈ [Field.isDraft, .isStaging, .isActive], ∀ v, (n.set d).has f v = n.has f v := by
    intro f hf v
    refine Node.has_set_of_notMem (cascade_plain content f ?_) v
    revert hf f
    decide
  refine ⟨?_, fun _ => sameReferences_set n fun f hf hmem => ?_⟩
  · rw [Node.active, Node.active, Node.published, Node.published, hflag .isDraft (by decide), hflag .isStaging (by decide),
      hflag .isActive (by decide)]
  · have hdisjoint : ∀ f ∈ referenceFields, f ∉ cascadeFields := by decide
    exact hdisjoint f hf (content f hmem)

/-- What a call that publishes nothing sends leaves the Active versions alone, but for one update of `discard_staging`. -/
theorem leavesActive {G : Node → Prop} (ha : call.op.Admitted) (hp : ¬call.op.Publishes)
    (hu : ∀ label rid, call.op ≠ .discardStaging label rid) (hc : Issues G call c) (g : Graph) :
    (c.effect g).LeavesActive nodes := by
  cases hc with
  | new hnew =>
    refine effect_createNode ?_ trivial
    refine active_false_of_unpublished (published_false_of_draft ?_)
    simp [Props.update, (lookup_newNode hnew).2.2.1]
  | clone good key guarded marks =>
    refine effect_createNode ?_ trivial
    refine active_false_of_unpublished (published_false_of_draft ?_)
    simp [Props.update, (marks ha).isDraft]
  | edit guarded plain =>
    refine effect_updateNode ?_ trivial
    refine leavesActive_set fun n hn => ?_
    have hdraft := filterOf_isDraft hn
    refine ⟨published_false_of_draft hdraft, published_false_of_draft ?_⟩
    exact (Props.update_of_notMem (plain ha _ (by decide))).trans hdraft
  | submit =>
    exact leavesActive_set fun n hn => ⟨published_false_of_draft (filterOf_isDraft hn), published_false_of_staging rfl⟩
  | cascade content => exact effect_updateNode (leavesActive_cascade content) trivial
  | unstage => exact absurd rfl (hu _ _)
  | dropDraft => exact fun n _ hn => active_false_of_unpublished (published_false_of_draft (filterOf_isDraft hn))
  | dropStaging => exact fun n _ hn => active_false_of_unpublished (published_false_of_staging (filterOf_isStaging hn))
  | belongsTo | basedOn => trivial
  | deactivateStaged | promoteStaged | cleanupDeleted | publish | deactivateSnapshot | reactivateSnapshot | repoint =>
    exact absurd trivial hp
  | quiet hq => cases c <;> trivial

/-- `discard_staging` converts versions of an entity that has no Active one. -/
theorem sameActive_discardStaging (ctx : Ctx) (label : Label) (rid : String) (w : World) :
    SameActive w.graph.nodes (after ⟨ctx, .discardStaging label rid⟩ w).graph.nodes := by
  obtain ⟨_, hrun⟩ | ⟨_, hrun⟩ | ⟨hactive, _, hrun⟩ := discardStaging_cases w ctx label rid
  · rw [hrun, exec_nodes]
    refine Effect.LeavesActive.sameActive fun n _ hn => ?_
    exact active_false_of_unpublished (published_false_of_staging (filterOf_isStaging hn))
  · rw [hrun]
    exact .refl _
  · have hstore : Dict.storable (unstageProps ctx) = true := rfl
    rw [hrun, exec_nodes]
    simp only [unstageCmd, Cmd.effect, hstore, if_true]
    refine Effect.LeavesActive.sameActive fun n hn hp => ?_
    have hbefore : n.active = false := by
      have hnone := List.find?_eq_none.mp hactive n hn
      rw [filterOf_all] at hp
      simpa [hp] using hnone
    refine ⟨(active_false_of_unpublished (unstaged_published n ctx)).trans hbefore.symm, fun ha => ?_⟩
    rw [hbefore] at ha
    cases ha

theorem sameActive_after (ha : call.op.Admitted) (hp : ¬call.op.Publishes) (w : World) :
    SameActive w.graph.nodes (after call w).graph.nodes := by
  by_cases hu : ∀ label rid, call.op ≠ .discardStaging label rid
  · refine after_inv (G := fun _ => True) (J := fun w' => SameActive w.graph.nodes w'.graph.nodes)
      (fun _ _ _ _ => trivial) ?_ (.refl _)
    intro c w' hc hw
    rw [exec_nodes]
    exact hw.trans (leavesActive ha hp hu hc w'.graph).sameActive
  · obtain ⟨ctx, op⟩ := call
    simp only [ne_eq, not_forall, not_not] at hu
    obtain ⟨label, rid, rfl⟩ := hu
    exact sameActive_discardStaging ctx label rid w

end Steps

/-! ## Commits -/

section Commit
variable {g : Graph} {nodes : List Node} {tenantId snapshotId : String} {calls : List Call} {n : Node} {ref : Ref}

/-- A promotion makes the version Active, or leaves it so. -/
def Graph.Remains (g : Graph) (tenantId : String) (n : Node) : Prop :=
  (n.ofTenant tenantId ∧ n.publishable) ∨ (n.active ∧ g.replacedBy tenantId n = false)

theorem remains_of_promoted (hg : ∀ n ∈ g.nodes, n.Sound calls)
    (hnodes : nodes = g.nodes.filterMap (g.promotedNode tenantId snapshotId)) {m : Node} (hm : m ∈ nodes)
    (hactive : m.active) : ∃ n ∈ g.nodes, m.SameReferences n ∧ g.Remains tenantId n := by
  rw [hnodes] at hm
  obtain ⟨n, hn, hnm⟩ := List.mem_filterMap.mp hm
  obtain ⟨ht, hs, ha, rfl⟩ | ⟨_, rfl⟩ | ⟨_, hr, rfl⟩ := Graph.promotedNode_cases (hg n hn) hnm
  · refine ⟨n, hn, sameReferences_set n (by simp [Dict.keys, referenceFields]), .inl ⟨ht, ?_⟩⟩
    rw [Node.publishable, hs, ha]
    rfl
  · rw [Graph.deactivated_not_active] at hactive
    cases hactive
  · exact ⟨m, hn, .refl m, .inr ⟨hactive, hr⟩⟩

theorem promoted_of_remains (hg : ∀ n ∈ g.nodes, n.Sound calls)
    (hnodes : nodes = g.nodes.filterMap (g.promotedNode tenantId snapshotId)) (hn : n ∈ g.nodes)
    (h : g.Remains tenantId n) : ∃ m ∈ nodes, m.active ∧ m.SameReferences n := by
  rw [hnodes]
  rcases h with ⟨ht, hpublishable⟩ | ⟨hactive, hr⟩
  · obtain ⟨hs, ha⟩ := Bool.and_eq_true_iff.mp hpublishable
    refine ⟨_, List.mem_filterMap.mpr ⟨n, hn, Graph.promotedNode_staging ⟨ht, hs⟩ ha⟩, Graph.promoted_active (hg n hn) hs ha, ?_⟩
    exact sameReferences_set n (by simp [Dict.keys, referenceFields])
  · refine ⟨n, List.mem_filterMap.mpr ⟨n, hn, ?_⟩, hactive, .refl n⟩
    have hunstaged : n.staging = false := by
      simp only [Node.active, Node.published, Node.has, Bool.and_eq_true, decide_eq_true_eq] at hactive
      simp [Node.staging, Node.has, hactive.1.2]
    simp [Graph.promotedNode, hr, hunstaged]

/-- References after a promotion, told from the versions before it. -/
theorem referencesResolve_promoted {g' : Graph} (hg : ∀ n ∈ g.nodes, n.Sound calls)
    (hnodes : g'.nodes = g.nodes.filterMap (g.promotedNode tenantId snapshotId)) :
    ReferencesResolve g' ↔ ∀ tenant, ∀ n ∈ g.nodes, n.ofTenant tenant → g.Remains tenantId n → ∀ ref ∈ n.refersTo,
      ∃ m ∈ g.nodes, m.keyed ref.1 ref.2 tenant ∧ g.Remains tenantId m := by
  constructor
  · intro h tenant n hn htenant hremains ref href
    obtain ⟨m, hm, hactive, hsame⟩ := promoted_of_remains hg hnodes hn hremains
    rw [← hsame.refersTo] at href
    obtain ⟨k, hk, hkeyed, hkactive⟩ := h tenant m hm ((hsame.ofTenant tenant).trans htenant) hactive ref href
    obtain ⟨k', hk', hsame', hremains'⟩ := remains_of_promoted hg hnodes hk hkactive
    refine ⟨k', hk', ?_, hremains'⟩
    rw [← hsame'.keyed]
    exact hkeyed
  · intro h tenant m hm htenant hactive ref href
    obtain ⟨n, hn, hsame, hremains⟩ := remains_of_promoted hg hnodes hm hactive
    rw [hsame.refersTo] at href
    obtain ⟨k, hk, hkeyed, hkremains⟩ := h tenant n hn ((hsame.ofTenant tenant).symm.trans htenant) hremains ref href
    obtain ⟨k', hk', hactive', hsame'⟩ := promoted_of_remains hg hnodes hk hkremains
    refine ⟨k', hk', ?_, hactive'⟩
    rw [hsame'.keyed]
    exact hkeyed

theorem remains_of_available (hg : ∀ n ∈ g.nodes, n.Sound calls) :
    g.Available tenantId ref ↔ ∃ m ∈ g.nodes, m.keyed ref.1 ref.2 tenantId ∧ g.Remains tenantId m := by
  constructor
  · rintro (⟨m, hm, hkeyed, hpublishable⟩ | ⟨⟨m, hm, hkeyed, hactive⟩, hunstaged⟩)
    · exact ⟨m, hm, hkeyed, .inl ⟨ofTenant_of_keyed hkeyed, hpublishable⟩⟩
    · refine ⟨m, hm, hkeyed, .inr ⟨hactive, Bool.eq_false_iff.mpr fun hr => ?_⟩⟩
      obtain ⟨s, hs, hskeyed, hstaging⟩ := (Graph.replacedBy_iff hg hm hkeyed hactive).mp hr
      rw [hunstaged s hs hskeyed] at hstaging
      cases hstaging
  · rintro ⟨m, hm, hkeyed, ⟨_, hpublishable⟩ | ⟨hactive, hr⟩⟩
    · exact .inl ⟨m, hm, hkeyed, hpublishable⟩
    · refine .inr ⟨⟨m, hm, hkeyed, hactive⟩, fun s hs hskeyed => Bool.eq_false_iff.mpr fun hstaging => ?_⟩
      rw [(Graph.replacedBy_iff hg hm hkeyed hactive).mpr ⟨s, hs, hskeyed, hstaging⟩] at hr
      cases hr

/-- When references resolve, they still do after a promotion exactly when the check before it passes. -/
theorem promoted_resolve_iff {g' : Graph} (hg : ∀ n ∈ g.nodes, n.Sound calls)
    (hnodes : g'.nodes = g.nodes.filterMap (g.promotedNode tenantId snapshotId)) (h : ReferencesResolve g) :
    ReferencesResolve g' ↔ Integrity g tenantId := by
  rw [referencesResolve_promoted hg hnodes]
  constructor
  · intro hremain
    refine ⟨fun n hn ht hpublishable ref href => ?_, fun n hn ht hactive hr ref href hstaged => ?_⟩
    · exact (remains_of_available hg).mpr (hremain tenantId n hn ht (.inl ⟨ht, hpublishable⟩) ref href)
    · obtain ⟨m, hm, hkeyed, ⟨_, hpublishable⟩ | ⟨hmactive, hmr⟩⟩ :=
        hremain tenantId n hn ht (.inr ⟨hactive, hr⟩) ref href
      · exact ⟨m, hm, hkeyed, hpublishable⟩
      · rw [(Graph.replacedBy_iff hg hm hkeyed hmactive).mpr hstaged] at hmr
        cases hmr
  · intro hcheck tenant n hn htenant hremains ref href
    by_cases hsame : tenant = tenantId
    · subst hsame
      rcases hremains with ⟨_, hpublishable⟩ | ⟨hactive, hr⟩
      · exact (remains_of_available hg).mp (hcheck.staged n hn htenant hpublishable ref href)
      · obtain ⟨m, hm, hkeyed, hmactive⟩ := h tenant n hn htenant hactive ref href
        cases hmr : g.replacedBy tenant m with
        | false => exact ⟨m, hm, hkeyed, .inr ⟨hmactive, hmr⟩⟩
        | true =>
          have hstaged := (Graph.replacedBy_iff hg hm hkeyed hmactive).mp hmr
          obtain ⟨s, hs, hskeyed, hpublishable⟩ := hcheck.deleted n hn htenant hactive hr ref href hstaged
          exact ⟨s, hs, hskeyed, .inl ⟨ofTenant_of_keyed hskeyed, hpublishable⟩⟩
    · -- the other tenants' versions are left alone
      have hother : ∀ m : Node, m.ofTenant tenant → m.ofTenant tenantId = false := by
        intro m hm
        refine Bool.eq_false_iff.mpr fun hm' => hsame ?_
        have h₁ : m.props .tenantId = .str tenant := of_decide_eq_true hm
        have h₂ : m.props .tenantId = .str tenantId := of_decide_eq_true hm'
        exact Value.str.inj (h₁.symm.trans h₂)
      rcases hremains with ⟨ht, _⟩ | ⟨hactive, _⟩
      · rw [hother n htenant] at ht
        cases ht
      · obtain ⟨m, hm, hkeyed, hmactive⟩ := h tenant n hn htenant hactive ref href
        refine ⟨m, hm, hkeyed, .inr ⟨hmactive, ?_⟩⟩
        rw [Graph.replacedBy, hother m (ofTenant_of_keyed hkeyed), Bool.false_and, Bool.false_and]

end Commit

/-! ## Runs -/

section Run
variable {calls : List Call} {w : World} {ctx : Ctx} {s : Serial} {e : SerialEvent} {es : List SerialEvent}

/-- The event is a commit that succeeds. -/
def Serial.Publishes (s : Serial) (e : SerialEvent) : Prop :=
  ∃ ctx m, e = .call ⟨ctx, .commitStaging m⟩ ∧ Succeeds ⟨ctx, .commitStaging m⟩ s.world

/-- Without Staging versions there is nothing to check. -/
theorem integrity_of_no_staging {g : Graph} {tenantId : String} (h : g.getStagingNodes tenantId = []) :
    Integrity g tenantId := by
  have hnone : ∀ n ∈ g.nodes, n.ofTenant tenantId → n.staging = false := by
    intro n hn ht
    refine Bool.eq_false_iff.mpr fun hs => ?_
    have hmem := Graph.mem_getStagingNodes.mpr ⟨hn, ht, hs⟩
    rw [h] at hmem
    cases hmem
  constructor
  · intro n hn ht hpublishable
    rw [Node.publishable, hnone n hn ht, Bool.false_and] at hpublishable
    cases hpublishable
  · rintro n _ _ _ _ ref _ ⟨s, hs, hkeyed, hstaging⟩
    rw [hnone s hs (ofTenant_of_keyed hkeyed)] at hstaging
    cases hstaging

/-- Only a commit that succeeds has anything to check. -/
theorem checksReferences_of_quiet (hs : s.world.Sound s.calls) (ha : s.Admits e) (h : ¬s.Publishes e) :
    ChecksReferences s e := by
  cases e with
  | env v => trivial
  | call call =>
    obtain ⟨ctx, op⟩ := call
    cases op with
    | commitStaging m =>
      intro hlock
      refine integrity_of_no_staging ?_
      by_contra hstaged
      exact h ⟨ctx, m, rfl, (commit_succeeds_sound hs (ha _ rfl).2).mpr ⟨hlock, hstaged⟩⟩
    | _ => trivial

/-- An event that publishes nothing, and is no rollback, leaves the Active versions as they are. -/
theorem sameActive_next (hs : s.world.Sound s.calls) (ha : s.Admits e)
    (hr : ∀ call, e = .call call → call.op.rollsBack = false) (h : ¬s.Publishes e) :
    SameActive s.world.graph.nodes (s.next e).world.graph.nodes := by
  cases e with
  | env v => exact .of_mem fun n => (v.apply_nodes s.world).mem_iff
  | call call =>
    by_cases hp : call.op.Publishes
    · obtain ⟨ctx, op⟩ := call
      obtain ⟨m, rfl⟩ | ⟨target, rfl⟩ := Op.Publishes.cases hp
      · have hrefused : ¬Succeeds ⟨ctx, .commitStaging m⟩ s.world := fun hok => h ⟨ctx, m, rfl, hok⟩
        rw [commit_succeeds_sound hs (ha _ rfl).2, not_and_or, not_not] at hrefused
        have hgraph : (s.next (.call ⟨ctx, .commitStaging m⟩)).world.graph = s.world.graph :=
          (commit_refused hrefused).2.graph
        rw [hgraph]
        exact .refl _
      · cases hr _ rfl
    · exact sameActive_after (ha call rfl).1 hp s.world

theorem resolve_step (hs : s.world.Sound s.calls) (ha : s.Admits e)
    (hr : ∀ call, e = .call call → call.op.rollsBack = false) (h : ReferencesResolve s.world.graph) :
    ReferencesResolve (s.next e).world.graph ↔ ChecksReferences s e := by
  by_cases hp : s.Publishes e
  · obtain ⟨ctx, m, rfl, hok⟩ := hp
    obtain ⟨hlock, hstaged⟩ := (commit_succeeds_sound hs (ha _ rfl).2).mp hok
    have hnodes : (s.next (.call ⟨ctx, .commitStaging m⟩)).world.graph.nodes = _ :=
      after_commit_nodes hs (ha _ rfl).2 hlock hstaged
    rw [promoted_resolve_iff hs.nodes hnodes h]
    exact ⟨fun hcheck _ => hcheck, fun hcheck => hcheck hlock⟩
  · refine iff_of_true (h.of_sameActive (sameActive_next hs ha hr hp)) (checksReferences_of_quiet hs ha hp)

/-- In a run without rollbacks, references resolve after every successful commit exactly when every commit that gets the
lock has passed the check. -/
theorem references_resolve_iff (ha : StepsMeet Serial.next Serial.Admits .empty es)
    (hr : ∀ call ∈ es.filterMap SerialEvent.made, call.op.rollsBack = false) :
    (∀ fs e, fs ++ [e] <+: es → (runFrom Serial.next .empty fs).Publishes e →
      ReferencesResolve (runFrom Serial.next .empty (fs ++ [e])).world.graph) ↔
      StepsMeet Serial.next ChecksReferences .empty es := by
  have hsteps : StepsMeet Serial.next (fun s e => s.Admits e ∧ ∀ call, e = .call call → call.op.rollsBack = false)
      .empty es := by
    refine ha.and (StepsMeet.of_mem fun e he call hcall => hr call (List.mem_filterMap.mpr ⟨e, he, ?_⟩))
    rw [hcall]
    rfl
  have hempty : ReferencesResolve Serial.empty.world.graph := fun _ n hn => nomatch hn
  have hall : (∀ fs, fs <+: es → ReferencesResolve (runFrom Serial.next .empty fs).world.graph) ↔
      StepsMeet Serial.next ChecksReferences .empty es := by
    refine steps_inv_iff (J := fun s : Serial => ReferencesResolve s.world.graph)
      (K := fun s : Serial => s.world.Sound s.calls) ?_ ?_ (empty_sound []) hempty hsteps
    · intro s e hs hJ he
      exact resolve_step hs he.1 he.2 hJ
    · intro s e hs _ he _
      exact Serial.sound_world hs he.1
  rw [← hall]
  constructor
  · intro hcommits fs
    -- along the run: between two commits the Active versions stay the same
    induction fs using List.reverseRecOn with
    | nil => exact fun _ => hempty
    | append_singleton fs e ih =>
      intro hfs
      have hbefore : fs <+: es := (List.prefix_append fs [e]).trans hfs
      by_cases hp : (runFrom Serial.next .empty fs).Publishes e
      · exact hcommits fs e hfs hp
      · have hsound : (runFrom Serial.next .empty fs).world.Sound (runFrom Serial.next .empty fs).calls :=
          steps_inv (J := fun s : Serial => s.world.Sound s.calls) (fun s e hs he => Serial.sound_world hs he.1)
            (empty_sound []) (hsteps.on_initial hbefore)
        obtain ⟨⟨hadmits, hno⟩, -⟩ := (stepsMeet_append.mp (hsteps.on_initial hfs)).2
        rw [runFrom_append]
        exact (ih hbefore).of_sameActive (sameActive_next hsound hadmits hno hp)
  · intro hresolve fs e hfs _
    exact hresolve _ hfs

end Run

/-- Two ObjectTypes and a LinkType between them are published, and one of them is edited. -/
def linkPublished : List SerialEvent :=
  [.call ⟨⟨"t", "u", "1", "a"⟩, .create .objectType [(.apiName, .str "Order")]⟩,
    .call ⟨⟨"t", "v", "2", "b"⟩, .create .objectType [(.apiName, .str "Customer")]⟩,
    .call ⟨⟨"t", "v", "3", "c"⟩, .create .linkType [(.apiName, .str "orderOf"),
      (.sourceObjectTypeRid, .str "ri.obj.a"), (.targetObjectTypeRid, .str "ri.obj.b")]⟩,
    .call ⟨⟨"t", "u", "4", "d"⟩, .submitToStaging .objectType "ri.obj.a"⟩,
    .call ⟨⟨"t", "v", "5", "e"⟩, .submitToStaging .objectType "ri.obj.b"⟩,
    .call ⟨⟨"t", "v", "6", "f"⟩, .submitToStaging .linkType "ri.link.c"⟩,
    .call ⟨⟨"t", "u", "7", "g"⟩, .commitStaging none⟩,
    .call ⟨⟨"t", "u", "8", "h"⟩, .acquireLock "ri.obj.a"⟩,
    .call ⟨⟨"t", "u", "9", "i"⟩, .update .objectType "ri.obj.a" [(.description, .str "sales")]⟩,
    .call ⟨⟨"t", "u", "10", "j"⟩, .submitToStaging .objectType "ri.obj.a"⟩,
    .call ⟨⟨"t", "u", "11", "k"⟩, .commitStaging none⟩]

theorem references_resolve_iff_linkPublished :
    (∀ fs e, fs ++ [e] <+: linkPublished → (runFrom Serial.next .empty fs).Publishes e →
      ReferencesResolve (runFrom Serial.next .empty (fs ++ [e])).world.graph) ↔
      StepsMeet Serial.next ChecksReferences .empty linkPublished :=
  references_resolve_iff (by decide) (by decide)

/-- An ObjectType is deleted, to which a published LinkType refers. -/
def endDeleted : List SerialEvent :=
  [.call ⟨⟨"t", "u", "1", "a"⟩, .create .objectType [(.apiName, .str "Order")]⟩,
    .call ⟨⟨"t", "v", "2", "b"⟩, .create .linkType [(.apiName, .str "replaces"),
      (.sourceObjectTypeRid, .str "ri.obj.a"), (.targetObjectTypeRid, .str "ri.obj.a")]⟩,
    .call ⟨⟨"t", "u", "3", "c"⟩, .submitToStaging .objectType "ri.obj.a"⟩,
    .call ⟨⟨"t", "v", "4", "d"⟩, .submitToStaging .linkType "ri.link.b"⟩,
    .call ⟨⟨"t", "u", "5", "e"⟩, .commitStaging none⟩,
    .call ⟨⟨"t", "u", "6", "f"⟩, .acquireLock "ri.obj.a"⟩,
    .call ⟨⟨"t", "u", "7", "g"⟩, .delete .objectType "ri.obj.a"⟩,
    .call ⟨⟨"t", "u", "8", "h"⟩, .submitToStaging .objectType "ri.obj.a"⟩]

def commitDeletion : SerialEvent := .call ⟨⟨"t", "u", "9", "i"⟩, .commitStaging none⟩

theorem references_left_dangling : ¬∀ es : List SerialEvent, StepsMeet Serial.next Serial.Admits .empty es →
    (∀ call ∈ es.filterMap SerialEvent.made, call.op.rollsBack = false) →
      ∀ fs e, fs ++ [e] <+: es → (runFrom Serial.next .empty fs).Publishes e →
        ReferencesResolve (runFrom Serial.next .empty (fs ++ [e])).world.graph := by
  intro h
  have hpublishes : (runFrom Serial.next .empty endDeleted).Publishes commitDeletion :=
    ⟨_, _, rfl, by unfold Succeeds; decide⟩
  have hresolve := h (endDeleted ++ [commitDeletion]) (by decide) (by decide) endDeleted commitDeletion
    (List.prefix_refl _) hpublishes "t"
  have hdangling : ¬∀ n ∈ (runFrom Serial.next .empty (endDeleted ++ [commitDeletion])).world.graph.nodes,
      n.ofTenant "t" → n.active → ∀ ref ∈ n.refersTo,
        ∃ m ∈ (runFrom Serial.next .empty (endDeleted ++ [commitDeletion])).world.graph.nodes,
          m.keyed ref.1 ref.2 "t" ∧ m.active := by decide
  exact hdangling hresolve

end Lingshu.Ontology
