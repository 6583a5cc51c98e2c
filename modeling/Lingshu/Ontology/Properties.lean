import Lingshu.Ontology.Alone

/-! # PropertyTypes

The routes create PropertyTypes, and have no operation that submits or discards one. Whatever happens to its parent, a
PropertyType stays the Draft that `create_property_type` made it. -/
namespace Lingshu.Ontology
open Json Interaction Interaction.Prog
set_option autoImplicit false

/-- The routes submit and discard only entities of the types in `_ENTITY_CONFIGS`. -/
def Op.Exposed : Op → Prop
  | .submitToStaging label _ | .discardDraft label _ | .discardStaging label _ => label ≠ .propertyType
  | _ => True

instance : DecidablePred Op.Exposed
  | .submitToStaging label _ | .discardDraft label _ | .discardStaging label _ =>
    inferInstanceAs (Decidable (label ≠ .propertyType))
  | .create .. | .update .. | .delete .. | .createPropertyType .. | .acquireLock .. | .releaseLock .. | .refreshLock ..
  | .discardAllStaging | .commitStaging .. | .rollbackToSnapshot .. => isTrue trivial

/-! ## Drafts that stay -/

structure Node.Unsubmitted (n : Node) : Prop where
  isDraft : n.props .isDraft = .bool true
  isStaging : n.props .isStaging = .bool false
  snapshotId : n.props .snapshotId = .null

/-- A PropertyType is an unsubmitted Draft. -/
def Node.StaysDraft (n : Node) : Prop := n.label = .propertyType → n.Unsubmitted

namespace Node.Unsubmitted
variable {n : Node}

theorem not_published (h : n.Unsubmitted) : n.published = false := published_false_of_draft h.isDraft

theorem not_staging (h : n.Unsubmitted) : n.staging = false := by simp [Node.staging, Node.has, h.isStaging]

theorem not_stamped (h : n.Unsubmitted) (snapshotId : String) : n.stamped snapshotId = false := by
  simp [Node.stamped, Node.has, h.snapshotId]

/-- Writing none of the flags and stamps. -/
theorem set (h : n.Unsubmitted) {d : Dict} (hd : ∀ f ∈ [Field.isDraft, .isStaging, .snapshotId], f ∉ d.keys) :
    (n.set d).Unsubmitted where
  isDraft := (Props.update_of_notMem (hd _ (by decide))).trans h.isDraft
  isStaging := (Props.update_of_notMem (hd _ (by decide))).trans h.isStaging
  snapshotId := (Props.update_of_notMem (hd _ (by decide))).trans h.snapshotId

end Node.Unsubmitted

/-- Every command of an exposed call keeps PropertyTypes Drafts. -/
theorem keeps_staysDraft {call : Call} (ha : call.op.Admitted) (he : call.op.Exposed) {c : Cmd} (g : Graph)
    (h : Issues Node.StaysDraft call c) : (c.effect g).Keeps Node.StaysDraft := by
  have hplain : ∀ {p : Node → Bool} {d : Dict}, (∀ f ∈ versionFields, f ∉ d.keys) →
      (Effect.set p d).Keeps Node.StaysDraft := by
    intro p d hd n hn _ hlabel
    refine (hn hlabel).set fun f hf => hd f ?_
    revert hf f
    decide
  have hactive : ∀ {p : Node → Bool} {b : Bool}, (Effect.set p [(.isActive, .bool b)]).Keeps Node.StaysDraft := by
    intro p b n hn _ hlabel
    exact (hn hlabel).set (by simp [Dict.keys])
  -- an update by a rid of another label
  have hother : ∀ {label : Label} {rid tenantId : String} {isDraft : Option Bool} {owner : Option String} {d : Dict},
      label ≠ .propertyType →
      (Effect.set (Graph.filterOf label rid tenantId isDraft none owner) d).Keeps Node.StaysDraft := by
    intro label rid tenantId isDraft owner d hlabel n _ hp hn
    exact absurd ((label_of_filterOf hp).symm.trans hn) hlabel
  cases h with
  | new hnew =>
    refine effect_createNode ?_ trivial
    intro _
    obtain ⟨_, _, hdraft, hstaging, _⟩ := lookup_newNode hnew
    exact ⟨by simp [Props.update, hdraft], by simp [Props.update, hstaging], created_stamp ha hnew⟩
  | @clone _ source _ _ _ good key guarded marks =>
    refine effect_createNode ?_ trivial
    intro hlabel
    have hsource := good ((Node.keyed_iff.mp key).1.trans hlabel)
    have hmarks := marks ha
    refine ⟨by simp [Props.update, hmarks.isDraft], by simp [Props.update, hmarks.isStaging], ?_⟩
    exact (Props.update_of_notMem hmarks.snapshotId).trans hsource.snapshotId
  | edit guarded plain => exact effect_updateNode (hplain (plain ha)) trivial
  | cascade content => exact effect_updateNode (hplain (cascade_plain content)) trivial
  | submit => exact hother he
  | unstage => exact hother he
  | deactivateStaged | deactivateSnapshot | reactivateSnapshot => exact hactive
  | promoteStaged =>
    intro n hn hp hlabel
    have hstaging := (Bool.and_eq_true_iff.mp hp).2
    rw [(hn hlabel).not_staging] at hstaging
    cases hstaging
  | dropDraft | dropStaging | belongsTo | basedOn | cleanupDeleted | publish | repoint => trivial
  | quiet hq => cases c <;> trivial

/-- All along an interleaving no PropertyType leaves its Draft. -/
theorem properties_stayDraft {es : List CallEvent}
    (ha : ∀ call ∈ started es, call.op.Admitted ∧ call.op.Exposed) :
    ∀ n ∈ (runFrom concurrent.next noCalls es).state.graph.nodes, n.StaysDraft :=
  concurrent_nodes fun call hcall _ g hc => keeps_staysDraft (ha call hcall).1 (ha call hcall).2 g hc

theorem properties_inactive {es : List CallEvent} (ha : ∀ call ∈ started es, call.op.Admitted ∧ call.op.Exposed) :
    ∀ n ∈ (runFrom concurrent.next noCalls es).state.graph.nodes, n.label = .propertyType → n.active = false := by
  intro n hn hlabel
  rw [Node.active, (properties_stayDraft ha n hn hlabel).not_published, Bool.false_and]

/-! ## Deletions -/

/-- The query deletes Drafts of PropertyTypes. -/
def Cmd.dropsProperty : Cmd → Bool
  | .deleteNode label _ _ isDraft _ _ => label = .propertyType && isDraft = some true
  | _ => false

/-- The command creates a node, or updates or deletes the versions with a rid. -/
def Cmd.addressed : Cmd → Bool
  | .createNode .. | .updateNode .. | .deleteNode .. => true
  | _ => false

/-- A program that deletes no Draft of a PropertyType. -/
abbrev SparesProperties {α : Type} (p : Program α) : Prop := Sends (fun c => c.dropsProperty = false) (fun _ _ => True) p

abbrev Unaddressed {α : Type} (p : Program α) : Prop := Sends (fun c => c.addressed = false) (fun _ _ => True) p

section Methods
variable {α : Type}

theorem Reads.unaddressed {p : Program α} (h : Reads p) : Unaddressed p :=
  h.mono (fun c hc => by cases c <;> first | rfl | cases hc) (fun _ _ ha => ha) fun _ h => h

theorem sparesProperties_of_unaddressed {p : Program α} (h : Unaddressed p) : SparesProperties p :=
  h.mono (fun c hc => by cases c <;> first | rfl | cases hc) (fun _ _ ha => ha) fun _ h => h

theorem Reads.sparesProperties {p : Program α} (h : Reads p) : SparesProperties p :=
  sparesProperties_of_unaddressed h.unaddressed

theorem sparesProperties_drop {label : Label} {rid tenantId : String} {isDraft isStaging : Option Bool}
    {owner : Option String} (h : label ≠ .propertyType ∨ isDraft = none) :
    SparesProperties (deleteNode label rid tenantId isDraft isStaging owner) := by
  refine Sends.issue ?_
  rcases h with hlabel | rfl
  · simp [Cmd.dropsProperty, hlabel]
  · simp [Cmd.dropsProperty]

theorem sparesProperties_createEntity (ctx : Ctx) (label : Label) (props : Dict) :
    SparesProperties (createEntity ctx label props) :=
  Sends.bind (Sends.issue rfl) fun _ => Sends.ite (Sends.bind (Sends.issue rfl) fun _ => Sends.pure _) (Sends.throw _)

theorem sparesProperties_updateEntity (ctx : Ctx) (label : Label) (rid : String) (updates : Dict) :
    SparesProperties (updateEntity ctx label rid updates) := by
  refine Sends.bind (reads_requireLock _ _).sparesProperties fun _ => ?_
  cases checkImmutableFields label updates with
  | some e => exact Sends.throw e
  | none =>
    refine Sends.bind (Sends.issue rfl) fun draft => ?_
    cases draft with
    | some _ =>
      refine Sends.bind (Sends.issue rfl) fun updated => ?_
      cases updated with
      | none => exact Sends.throw _
      | some node => exact Sends.pure _
    | none =>
      have hsource : SparesProperties (cloneSource label rid ctx.tenantId) := by
        refine Sends.bind (Sends.issue rfl) fun staging => ?_
        cases staging with
        | some source => exact Sends.pure _
        | none => exact Sends.issue rfl
      refine Sends.bind hsource fun source => ?_
      cases source with
      | none => exact Sends.throw _
      | some source => exact Sends.bind (Sends.issue rfl) fun _ => Sends.pure _

theorem sparesProperties_cascade (rid tenantId : String) (updates : Dict) (old : Option Props) :
    SparesProperties (cascadeSharedPropertyUpdate rid tenantId updates old) := by
  refine Sends.ite (Sends.pure _) (Sends.bind (Sends.issue rfl) fun inheritors => ?_)
  induction inheritors with
  | nil => exact Sends.pure _
  | cons node nodes ih => exact Sends.ite ih (Sends.bind (Sends.issue rfl) fun _ => Sends.bind ih fun _ => Sends.pure _)

theorem sparesProperties_deleteEntity (ctx : Ctx) {label : Label} (h : label ≠ .propertyType) (rid : String) :
    SparesProperties (deleteEntity ctx label rid) := by
  refine Sends.bind (reads_checkDeleteDependencies _ _ _).sparesProperties fun _ => ?_
  refine Sends.bind (reads_requireLock _ _).sparesProperties fun _ => ?_
  refine Sends.bind (Sends.issue rfl) fun active => ?_
  cases active with
  | some active => exact Sends.bind (Sends.issue rfl) fun _ => Sends.pure _
  | none =>
    refine Sends.bind (sparesProperties_drop (.inl h)) fun deleted => Sends.ite (Sends.pure _) ?_
    exact Sends.bind (sparesProperties_drop (.inl h)) fun _ => Sends.pure _

theorem sparesProperties_createPropertyType (ctx : Ctx) (parentRid : String) (parentLabel : Label) (props : Dict) :
    SparesProperties (createPropertyType ctx parentRid parentLabel props) := by
  refine Sends.bind (reads_requireLock _ _).sparesProperties fun _ => ?_
  refine Sends.bind (Sends.issue rfl) fun existing => Sends.ite (Sends.throw _) ?_
  refine Sends.bind (Sends.issue rfl) fun node => Sends.bind (Sends.issue rfl) fun _ => ?_
  dsimp only
  split
  · exact Sends.bind (Sends.issue rfl) fun _ => Sends.pure _
  · exact Sends.bind (Sends.pure _) fun _ => Sends.pure _

theorem sparesProperties_submitToStaging (ctx : Ctx) (label : Label) (rid : String) :
    SparesProperties (submitToStaging ctx label rid) := by
  refine Sends.bind (Sends.issue rfl) fun draft => ?_
  cases draft with
  | none => exact Sends.throw _
  | some _ =>
    refine Sends.bind (Sends.issue rfl) fun node => ?_
    cases node with
    | none => exact Sends.throw _
    | some node => exact Sends.bind (Sends.issue rfl) fun _ => Sends.pure _

theorem sparesProperties_discardStaging (ctx : Ctx) {label : Label} (h : label ≠ .propertyType) (rid : String) :
    SparesProperties (discardStaging ctx label rid) := by
  refine Sends.bind (Sends.issue rfl) fun active => ?_
  cases active with
  | some _ => exact Sends.bind (sparesProperties_drop (.inl h)) fun _ => Sends.ite (Sends.pure _) (Sends.throw _)
  | none =>
    refine Sends.bind (Sends.issue rfl) fun staging => ?_
    cases staging with
    | none => exact Sends.throw _
    | some _ => exact Sends.bind (Sends.issue rfl) fun _ => Sends.pure _

theorem sparesProperties_discardAllStaging (ctx : Ctx) : SparesProperties (discardAllStaging ctx) := by
  refine Sends.bind (Sends.issue rfl) fun nodes => ?_
  induction nodes with
  | nil => exact Sends.pure _
  | cons node nodes ih =>
    exact Sends.ite ih (Sends.bind (sparesProperties_drop (.inr rfl)) fun _ => Sends.bind ih fun _ => Sends.pure _)

/-- A commit addresses no node by its rid. -/
theorem unaddressed_commitStaging (ctx : Ctx) (m : Option String) :
    Unaddressed (commitStaging ctx m) := by
  have hpromote : ∀ tenantId snapshotId, Unaddressed (promoteStagingToActive tenantId snapshotId) := fun _ _ =>
    Sends.bind (Sends.issue rfl) fun _ => Sends.bind (Sends.issue rfl) fun _ => Sends.bind (Sends.issue rfl) fun _ =>
      Sends.pure _
  have hrelease : Unaddressed (redisDelete (.commitLock ctx.tenantId)) := Sends.issue rfl
  refine Sends.bind (Sends.issue rfl) fun acquired => Sends.ite ?_ (Sends.throw _)
  refine Prog.Meets.tryFinally ?_ hrelease
  refine Sends.bind (Sends.issue rfl) fun nodes => Sends.ite (Sends.throw _) ?_
  refine Sends.bind (reads_entityChangesLoop _ _ _).unaddressed fun changes => ?_
  refine Sends.bind (Sends.issue rfl) fun parent => ?_
  refine Sends.bind (Sends.bind (Sends.issue rfl) fun _ => Sends.pure _) fun inserted => ?_
  refine Sends.bind ((hpromote _ _).retry _) fun _ => ?_
  refine Sends.bind (Sends.bind (Sends.issue rfl) fun _ => Sends.bind (Sends.issue rfl) fun _ => Sends.pure _)
    fun pointed => ?_
  refine Sends.bind (Sends.issue rfl) fun _ => ?_
  exact Sends.bind (reads_onSchemaPublished _ _).unaddressed fun _ => Sends.pure _

theorem unaddressed_rollbackToSnapshot (ctx : Ctx) (snapshotId : String) :
    Unaddressed (rollbackToSnapshot ctx snapshotId) := by
  refine Sends.bind (Sends.issue rfl) fun hasChanges => Sends.ite (Sends.throw _) ?_
  refine Sends.bind (Sends.issue rfl) fun snap => ?_
  cases snap with
  | none => exact Sends.throw _
  | some snap =>
    refine Sends.bind (Sends.issue rfl) fun pointer => ?_
    refine Sends.bind (Sends.bind (Sends.issue rfl) fun _ => Sends.issue rfl) fun _ => ?_
    refine Sends.bind (Sends.bind (Sends.issue rfl) fun _ => Sends.bind (Sends.issue rfl) fun _ => Sends.pure _)
      fun pointed => ?_
    exact Sends.bind (Sends.issue rfl) fun _ => Sends.pure _

end Methods

/-- No exposed call deletes a Draft of a PropertyType. -/
theorem sparesProperties_service {call : Call} (h : call.op.Exposed) : SparesProperties (service call) := by
  obtain ⟨ctx, op⟩ := call
  cases op with
  | create type props =>
    refine Sends.map _ ?_
    cases type with
    | interfaceType =>
      exact Sends.bind (reads_checkInterfaceCycle _ _ _ _).sparesProperties fun _ => sparesProperties_createEntity _ _ _
    | _ => exact sparesProperties_createEntity _ _ _
  | update type rid updates =>
    refine Sends.map _ ?_
    cases type with
    | interfaceType =>
      refine Sends.bind (reads_checkInterfaceCycle _ _ _ _).sparesProperties fun _ => ?_
      refine Sends.bind ?_ fun _ => sparesProperties_updateEntity _ _ _ _
      exact Sends.ite (Sends.pure _) (reads_checkContractSatisfaction _ _ _).sparesProperties
    | sharedPropertyType =>
      refine Sends.bind (Sends.issue rfl) fun oldNode => ?_
      refine Sends.bind (sparesProperties_updateEntity _ _ _ _) fun result => ?_
      exact Sends.bind (sparesProperties_cascade _ _ _ _) fun _ => Sends.pure _
    | _ => exact sparesProperties_updateEntity _ _ _ _
  | delete type rid =>
    cases type <;> exact Sends.map _ (sparesProperties_deleteEntity _ (by decide) _)
  | createPropertyType parentRid parentLabel props =>
    exact Sends.map _ (sparesProperties_createPropertyType ctx parentRid parentLabel props)
  | acquireLock rid => exact Sends.map _ (reads_acquireLock ctx rid).sparesProperties
  | releaseLock rid => exact Sends.map _ (reads_releaseLock ctx rid).sparesProperties
  | refreshLock rid => exact Sends.map _ (reads_refreshLock ctx rid).sparesProperties
  | submitToStaging label rid => exact Sends.map _ (sparesProperties_submitToStaging ctx label rid)
  | discardDraft label rid =>
    refine Sends.map _ (Sends.bind (sparesProperties_drop (.inl h)) fun deleted => ?_)
    exact Sends.ite (Sends.issue rfl) (Sends.throw _)
  | discardStaging label rid => exact Sends.map _ (sparesProperties_discardStaging ctx h rid)
  | discardAllStaging => exact Sends.map _ (sparesProperties_discardAllStaging ctx)
  | commitStaging m => exact Sends.map _ (sparesProperties_of_unaddressed (unaddressed_commitStaging ctx m))
  | rollbackToSnapshot snapshotId => exact Sends.map _ (sparesProperties_of_unaddressed (unaddressed_rollbackToSnapshot ctx snapshotId))

/-! ## Runs -/

/-- Some PropertyType of the tenant is a Draft. -/
def World.HasProperty (w : World) (tenantId : String) : Prop :=
  ∃ n ∈ w.graph.nodes, n.label = .propertyType ∧ n.ofTenant tenantId ∧ n.draft

section Step
variable {tenantId : String} {w : World} {call : Call} {c : Cmd}

/-- An update that leaves labels and tenants alone. -/
theorem hasProperty_set {p : Node → Bool} {d : Dict} (hw : w.HasProperty tenantId) (ht : .tenantId ∉ d.keys)
    (hd : ∀ n, p n → n.label = .propertyType → .isDraft ∉ d.keys) :
    ∃ n ∈ (Effect.set p d).on w.graph.nodes, n.label = .propertyType ∧ n.ofTenant tenantId ∧ n.draft := by
  obtain ⟨n, hn, hlabel, htenant, hdraft⟩ := hw
  refine ⟨_, List.mem_map_of_mem hn, ?_⟩
  split
  next hp =>
    refine ⟨hlabel, ?_, ?_⟩
    · exact (Node.has_set_of_notMem ht _).trans htenant
    · exact (Node.has_set_of_notMem (hd n hp hlabel) _).trans hdraft
  next => exact ⟨hlabel, htenant, hdraft⟩

/-- A deletion that matches no Draft of a PropertyType. -/
theorem hasProperty_drop {p : Node → Bool} (hw : w.HasProperty tenantId)
    (hp : ∀ n ∈ w.graph.nodes, n.label = .propertyType → n.draft → p n = false) :
    ∃ n ∈ (Effect.drop p).on w.graph.nodes, n.label = .propertyType ∧ n.ofTenant tenantId ∧ n.draft := by
  obtain ⟨n, hn, hlabel, htenant, hdraft⟩ := hw
  exact ⟨n, List.mem_filter.mpr ⟨hn, by simp [hp n hn hlabel hdraft]⟩, hlabel, htenant, hdraft⟩

/-- Every command of an exposed call leaves a PropertyType of the tenant, when there is one. -/
theorem hasProperty_exec (ha : call.op.Admitted) (he : call.op.Exposed) (hc : Issues Node.StaysDraft call c)
    (hspares : c.dropsProperty = false) (hstays : ∀ n ∈ w.graph.nodes, n.StaysDraft) (hw : w.HasProperty tenantId) :
    (exec c w).2.HasProperty tenantId := by
  unfold World.HasProperty
  rw [exec_nodes]
  cases hc with
  | new hnew =>
    simp only [Cmd.effect]
    split
    · obtain ⟨n, hn, hrest⟩ := hw
      exact ⟨n, List.mem_append_left _ hn, hrest⟩
    · exact hw
  | clone good key guarded marks =>
    simp only [Cmd.effect]
    split
    · obtain ⟨n, hn, hrest⟩ := hw
      exact ⟨n, List.mem_append_left _ hn, hrest⟩
    · exact hw
  | edit guarded plain =>
    simp only [Cmd.effect]
    split
    · exact hasProperty_set hw (plain ha _ (by decide)) fun _ _ _ => plain ha _ (by decide)
    · exact hw
  | cascade content =>
    simp only [Cmd.effect]
    split
    · exact hasProperty_set hw (cascade_plain content _ (by decide)) fun _ _ _ => cascade_plain content _ (by decide)
    · exact hw
  | submit =>
    refine hasProperty_set hw (by simp [submitProps, Dict.keys]) fun n hp hlabel => ?_
    exact absurd ((label_of_filterOf hp).symm.trans hlabel) he
  | unstage =>
    refine hasProperty_set hw (by simp [unstageProps, Dict.keys]) fun n hp hlabel => ?_
    exact absurd ((label_of_filterOf hp).symm.trans hlabel) he
  | dropDraft =>
    refine hasProperty_drop hw fun n hn hlabel hdraft => ?_
    refine Bool.eq_false_iff.mpr fun hp => ?_
    simp [Cmd.dropsProperty, (label_of_filterOf hp).symm.trans hlabel] at hspares
  | dropStaging =>
    refine hasProperty_drop hw fun n hn hlabel hdraft => Bool.eq_false_iff.mpr fun hp => ?_
    have hstaging := filterOf_isStaging hp
    rw [(hstays n hn hlabel).isStaging] at hstaging
    cases hstaging
  | cleanupDeleted =>
    refine hasProperty_drop hw fun n hn hlabel hdraft => ?_
    rw [(hstays n hn hlabel).not_stamped, Bool.and_false, Bool.false_and]
  | deactivateStaged | deactivateSnapshot | reactivateSnapshot =>
    exact hasProperty_set hw (by simp [Dict.keys]) fun _ _ _ => by simp [Dict.keys]
  | promoteStaged => exact hasProperty_set hw (by simp [Dict.keys]) fun _ _ _ => by simp [Dict.keys]
  | belongsTo | basedOn | publish | repoint => exact hw
  | quiet hq => cases c <;> first | exact hw | cases hq

end Step

/-- The step creates a PropertyType in the tenant. -/
def addsProperty (tenantId : String) (p : Calls) (e : CallEvent) : Bool :=
  match p.issues e with
  | some (made, .createNode label _ d) => label = .propertyType && made.ctx.tenantId = tenantId && d.storable
  | _ => false

theorem issues_of_addsProperty {tenantId : String} {p : Calls} {e : CallEvent} (h : addsProperty tenantId p e) :
    ∃ call base d, p.issues e = some (call, .createNode .propertyType base d) ∧ d.storable ∧
      call.ctx.tenantId = tenantId := by
  unfold addsProperty at h
  split at h
  next call label base d hissues =>
    simp only [Bool.and_eq_true, decide_eq_true_eq] at h
    obtain ⟨⟨rfl, htenant⟩, hstorable⟩ := h
    exact ⟨call, base, d, hissues, hstorable, htenant⟩
  next => cases h

/-- What an exposed call may send. -/
def ExposedIssues (calls : List Call) (call : Call) (c : Cmd) : Prop :=
  IssuesOf calls Node.StaysDraft call c ∧ c.dropsProperty = false

section Run
variable {calls : List Call} {J : World → Prop} {p : Calls} {es : List CallEvent} {tenantId : String}

/-- What the step has added is a Draft. -/
theorem hasProperty_added {e : CallEvent} (ha : ∀ call ∈ calls, call.op.Admitted ∧ call.op.Exposed)
    (hp : System.Holds (ExposedIssues calls) (Answers Node.StaysDraft) J p) (h : addsProperty tenantId p e) :
    (concurrent.next p e).state.HasProperty tenantId := by
  obtain ⟨call, base, d, hissues, hstorable, rfl⟩ := issues_of_addsProperty h
  obtain ⟨⟨hcall, hc⟩, -⟩ := System.issues_pre hp.meets hissues
  unfold World.HasProperty
  rw [concurrent_nodes_issued hissues]
  simp only [Cmd.effect, if_pos hstorable]
  refine ⟨_, List.mem_append_right _ (List.mem_singleton_self _), rfl, ?_⟩
  cases hc with
  | new hnew =>
    obtain ⟨_, htenant, hdraft, _⟩ := lookup_newNode hnew
    simp [Node.ofTenant, Node.draft, Node.has, Props.update, htenant, hdraft]
  | clone good key guarded marks =>
    have htenant := (Node.keyed_iff.mp key).2.2
    have hkept : .tenantId ∉ d.keys := guarded .tenantId (by decide)
    have hdraft := (marks (ha call hcall).1).isDraft
    refine ⟨?_, by simp [Node.draft, Node.has, Props.update, hdraft]⟩
    simp [Node.ofTenant, Node.has, Props.update_of_notMem hkept, htenant]
  | quiet hq => cases hq

theorem meets_exposed (ha : ∀ call ∈ calls, call.op.Admitted ∧ call.op.Exposed) {call : Call} (hcall : call ∈ calls) :
    (service call).Meets (ExposedIssues calls call) (Answers Node.StaysDraft) fun _ => True := by
  have hspares : (service call).Meets (fun c => c.dropsProperty = false) (Answers Node.StaysDraft) fun _ => True :=
    (sparesProperties_service (ha call hcall).2).mono (fun _ hc => hc) (fun _ _ _ => trivial) fun _ h => h
  exact ((meets_service hcall).and hspares).mono (fun _ hc => hc) (fun _ _ h => h) fun _ _ => trivial

/-- A property of stores that every command of exposed calls keeps. -/
theorem exposed_holds (ha : ∀ call ∈ calls, call.op.Admitted ∧ call.op.Exposed)
    (hstays : ∀ w, J w → ∀ n ∈ w.graph.nodes, n.StaysDraft)
    (hcmd : ∀ call c w, ExposedIssues calls call c → J w → J (exec c w).2) (henv : ∀ (v : Env) w, J w → J (v.apply w))
    (hcalls : StepsMeet concurrent.next (fun _ e => ∀ call, e = .start call → call ∈ calls) p es)
    (hp : System.Holds (ExposedIssues calls) (Answers Node.StaysDraft) J p) :
    System.Holds (ExposedIssues calls) (Answers Node.StaysDraft) J (runFrom concurrent.next p es) :=
  calls_hold (fun _ hcall => meets_exposed ha hcall) hstays hcmd henv hcalls hp

/-- From the step that adds a property on, the tenant has one that is a Draft. -/
theorem hasProperty_of_added {fs : List CallEvent} {e : CallEvent}
    (ha : ∀ call ∈ started es, call.op.Admitted ∧ call.op.Exposed) (hfs : fs ++ [e] <+: es)
    (hadds : addsProperty tenantId (runFrom concurrent.next noCalls fs) e) :
    (runFrom concurrent.next noCalls es).state.HasProperty tenantId := by
  have hkeeps : ∀ call c w, ExposedIssues (started es) call c → (∀ n ∈ w.graph.nodes, n.StaysDraft) →
      ∀ n ∈ (exec c w).2.graph.nodes, n.StaysDraft := by
    intro call c w hc hw
    rw [exec_nodes]
    exact (keeps_staysDraft (ha call hc.1.1).1 (ha call hc.1.1).2 w.graph hc.1.2).mem hw
  have henv : ∀ (v : Env) w, (∀ n ∈ w.graph.nodes, n.StaysDraft) → ∀ n ∈ (v.apply w).graph.nodes, n.StaysDraft :=
    fun v w hw n hn => hw n ((v.apply_nodes w).mem_iff.mp hn)
  have hstart : System.Holds (ExposedIssues (started es)) (Answers Node.StaysDraft)
      (fun w => ∀ n ∈ w.graph.nodes, n.StaysDraft) noCalls :=
    ⟨fun n hn => (nomatch hn), fun t ht => nomatch ht⟩
  have hcalls : StepsMeet concurrent.next (fun _ e => ∀ call, e = .start call → call ∈ started es) noCalls es :=
    stepsMeet_started
  have hbefore := exposed_holds ha (fun _ hw => hw) hkeeps henv
    (hcalls.on_initial ((List.prefix_append fs [e]).trans hfs)) hstart
  have hadded := exposed_holds ha (fun _ hw => hw) hkeeps henv (hcalls.on_initial hfs) hstart
  have hproperty := hasProperty_added ha hbefore hadds
  obtain ⟨gs, rfl⟩ := hfs
  rw [runFrom_append]
  rw [runFrom_append] at hadded ⊢
  have hboth : System.Holds (ExposedIssues (started (fs ++ [e] ++ gs))) (Answers Node.StaysDraft)
      (fun w => (∀ n ∈ w.graph.nodes, n.StaysDraft) ∧ w.HasProperty tenantId)
      (runFrom concurrent.next (runFrom concurrent.next noCalls fs) [e]) :=
    ⟨⟨hadded.inv, hproperty⟩, hadded.meets⟩
  have hrest := (stepsMeet_append.mp hcalls).2
  rw [runFrom_append] at hrest
  refine (exposed_holds ha (fun _ hw => hw.1) ?_ ?_ hrest hboth).inv.2
  · rintro call c w hc ⟨hw, hproperty⟩
    exact ⟨hkeeps call c w hc hw, hasProperty_exec (ha call hc.1.1).1 (ha call hc.1.1).2 hc.1.2 hc.2 hw hproperty⟩
  · rintro v w ⟨hw, n, hn, hrest⟩
    exact ⟨henv v w hw, n, (v.apply_nodes w).mem_iff.mpr hn, hrest⟩

end Run

/-! ## Following the parent -/

/-- What is to hold when all Drafts are submitted or discarded, and a commit has published them. -/
structure PropertiesFollow (w : World) (tenantId : String) : Prop where
  published : ∀ parent ∈ w.graph.nodes, parent.ofTenant tenantId → parent.published →
    ∀ r ∈ w.graph.rels, r.type = .belongsTo → r.target = parent.id →
      ∀ n ∈ w.graph.nodes, n.id = r.source → n.published
  settled : ∀ n ∈ w.graph.nodes, n.ofTenant tenantId → n.draft = false ∧ n.staging = false
  accepted : ∀ ctx target, ctx.tenantId = tenantId → ((rollbackToSnapshot ctx target).run exec w).1 ≠
    .error (appError .ontologyUncommittedChanges "Cannot rollback with uncommitted Draft/Staging changes" [])

/-- Once a property has been added, no state of the run is one in which properties have followed their parents: the
property stays a Draft, no PropertyType is published, and no rollback is accepted. -/
theorem properties_never_follow {es fs : List CallEvent} {e : CallEvent} {tenantId : String}
    (ha : ∀ call ∈ started es, call.op.Admitted ∧ call.op.Exposed) (hfs : fs ++ [e] <+: es)
    (hadds : addsProperty tenantId (runFrom concurrent.next noCalls fs) e) :
    ¬PropertiesFollow (runFrom concurrent.next noCalls es).state tenantId ∧
      (∀ n ∈ (runFrom concurrent.next noCalls es).state.graph.nodes, n.label = .propertyType → n.published = false) ∧
      ∀ ctx target, ctx.tenantId = tenantId →
        ((rollbackToSnapshot ctx target).run exec (runFrom concurrent.next noCalls es).state).1 =
          .error (appError .ontologyUncommittedChanges "Cannot rollback with uncommitted Draft/Staging changes" []) := by
  obtain ⟨n, hn, -, htenant, hdraft⟩ := hasProperty_of_added ha hfs hadds
  refine ⟨fun h => ?_, fun m hm hlabel => (properties_stayDraft ha m hm hlabel).not_published, ?_⟩
  · rw [(h.settled n hn htenant).1] at hdraft
    cases hdraft
  · rintro ctx target rfl
    have huncommitted : (runFrom concurrent.next noCalls es).state.graph.hasUncommittedChanges ctx.tenantId = true :=
      List.any_eq_true.mpr ⟨n, hn, by rw [htenant, hdraft]; rfl⟩
    have hcheck := run_hasUncommittedChanges (runFrom concurrent.next noCalls es).state ctx.tenantId
    rw [huncommitted] at hcheck
    exact congrArg Prod.fst (Prog.run_bind_ok exec hcheck _)

/-- An ObjectType gets a property, and is submitted and published. -/
def publishedWithProperty : List CallEvent :=
  inTurn [⟨⟨"t", "u", "1", "a"⟩, .create .objectType [(.apiName, .str "Order")]⟩,
    ⟨⟨"t", "u", "2", "b"⟩, .acquireLock "ri.obj.a"⟩,
    ⟨⟨"t", "u", "3", "c"⟩, .createPropertyType "ri.obj.a" .objectType [(.apiName, .str "total")]⟩,
    ⟨⟨"t", "u", "4", "d"⟩, .submitToStaging .objectType "ri.obj.a"⟩,
    ⟨⟨"t", "u", "5", "e"⟩, .commitStaging none⟩]

/-- Up to the query that creates the property. -/
def beforeProperty : List CallEvent := publishedWithProperty.take 65

theorem properties_never_follow_published :
    ¬PropertiesFollow (runFrom concurrent.next noCalls publishedWithProperty).state "t" ∧
      (∀ n ∈ (runFrom concurrent.next noCalls publishedWithProperty).state.graph.nodes,
        n.label = .propertyType → n.published = false) ∧
      ∀ ctx target, ctx.tenantId = "t" →
        ((rollbackToSnapshot ctx target).run exec (runFrom concurrent.next noCalls publishedWithProperty).state).1 =
          .error (appError .ontologyUncommittedChanges "Cannot rollback with uncommitted Draft/Staging changes" []) := by
  have hfs : beforeProperty ++ [.step 2] <+: publishedWithProperty := ⟨publishedWithProperty.drop 66, rfl⟩
  exact properties_never_follow (by decide) hfs (by decide)

/-- Everything but the property has been published. -/
theorem properties_left_behind : ¬∀ (es : List CallEvent) (tenantId : String),
    (∀ call ∈ started es, call.op.Admitted ∧ call.op.Exposed) → FreshUuids (started es) →
    (∀ n ∈ (runFrom concurrent.next noCalls es).state.graph.nodes, n.ofTenant tenantId → n.label ≠ .propertyType →
      n.active) →
    ((runFrom concurrent.next noCalls es).state.pointers tenantId).isSome →
      PropertiesFollow (runFrom concurrent.next noCalls es).state tenantId := by
  intro h
  have hfollow := h publishedWithProperty "t" (by decide) (by unfold FreshUuids; decide)
    (by decide +kernel) (by decide +kernel)
  have hdraft : ¬∀ n ∈ (runFrom concurrent.next noCalls publishedWithProperty).state.graph.nodes,
      n.ofTenant "t" → n.draft = false ∧ n.staging = false := by decide +kernel
  exact hdraft hfollow.settled

end Lingshu.Ontology
