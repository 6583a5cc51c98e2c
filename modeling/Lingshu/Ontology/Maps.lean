import Lingshu.Ontology.Properties

/-! # Maps stored as text

The request models declare `widget`, `validation` and `compliance` as `dict[str, Any] | None`. In whatever order
the commands of such calls are taken, what a node stores of one of them is null or the text of a map. -/
namespace Lingshu.Ontology
open Json Interaction Interaction.Prog
set_option autoImplicit false

/-- The fields of `CASCADE_FIELDS` that hold maps. -/
def mapFields : List Field := [.widget, .validation, .compliance]

def isMap : Value → Bool
  | .dict _ => true
  | _ => false

/-- The maps in a request are maps. -/
def Dict.MapsTyped (d : Dict) : Prop := ∀ e ∈ d, e.1 ∈ mapFields → isMap e.2

instance (d : Dict) : Decidable d.MapsTyped := inferInstanceAs (Decidable (∀ e ∈ d, e.1 ∈ mapFields → isMap e.2))

/-- What a method adds of its own holds no map. -/
theorem Dict.MapsTyped.update {d d' : Dict} (h : d.MapsTyped) (h' : ∀ f ∈ mapFields, f ∉ d'.keys) :
    (d.update d').MapsTyped := by
  intro e he hf
  rcases List.mem_append.mp he with he | he
  · exact absurd (List.mem_map_of_mem he) (h' e.1 hf)
  · exact h e (List.mem_filter.mp he).1 hf

def Op.MapsTyped : Op → Prop
  | .create _ props | .createPropertyType _ _ props => props.MapsTyped
  | .update _ _ updates => updates.MapsTyped
  | _ => True

instance : DecidablePred Op.MapsTyped
  | .create _ props | .createPropertyType _ _ props => inferInstanceAs (Decidable props.MapsTyped)
  | .update _ _ updates => inferInstanceAs (Decidable updates.MapsTyped)
  | .delete .. | .acquireLock .. | .releaseLock .. | .refreshLock .. | .submitToStaging .. | .discardDraft ..
  | .discardStaging .. | .discardAllStaging | .commitStaging .. | .rollbackToSnapshot .. => isTrue trivial

/-! ## Stored text -/

/-- Null, or a text that opens a map. -/
def mapText : Value → Bool
  | .null => true
  | .str s => s.toList.head? = some '\x7b'
  | _ => false

/-- The text of a map is not read as a text. -/
theorem loads_ne_str {s t : String} (h : mapText (.str s)) : loads s ≠ some (.str t) := by
  cases hs : s.toList with
  | nil => simp [mapText, hs] at h
  | cons c cs =>
    obtain rfl : c = '\x7b' := by simpa [mapText, hs] using h
    have hskip : skipWs ('\x7b' :: cs) = '\x7b' :: cs := by simp [skipWs]
    have hparse : ∀ fuel v rest, parseValue fuel ('\x7b' :: cs) = some (v, rest) → isMap v := by
      intro fuel v rest hv
      cases fuel with
      | zero => simp [parseValue] at hv
      | succ fuel =>
        simp only [parseValue] at hv
        split at hv
        · cases hv
          rfl
        · obtain ⟨es, -, he⟩ := Option.bind_eq_some_iff.mp hv
          cases he
          rfl
    simp only [loads, hs, hskip]
    intro he
    split at he
    next v rest hv =>
      split at he
      · cases he
        exact absurd (hparse _ _ _ hv) (by simp [isMap])
      · cases he
    next => cases he

def Node.MapsAsText (n : Node) : Prop := ∀ f ∈ mapFields, mapText (n.props f)

def Dict.MapsAsText (d : Dict) : Prop := ∀ e ∈ d, e.1 ∈ mapFields → mapText e.2

namespace Dict.MapsAsText
variable {d d' : Dict}

theorem of_notMem (h : ∀ f ∈ mapFields, f ∉ d.keys) : d.MapsAsText :=
  fun e he hf => absurd (List.mem_map_of_mem he) (h e.1 hf)

theorem serialize (h : d.MapsTyped) : (serializeForNeo4j d).MapsAsText := by
  intro e he hf
  obtain ⟨⟨f, v⟩, hd, rfl⟩ := List.mem_map.mp he
  have hmap := h _ hd hf
  cases v with
  | dict entries =>
    have hjson : f ∈ jsonStoreFields := List.mem_append_left _ hf
    simp [hjson, mapText, dumps]
  | _ => cases hmap

theorem update (h : d.MapsAsText) (h' : d'.MapsAsText) : (d.update d').MapsAsText := by
  intro e he
  rcases List.mem_append.mp he with he | he
  · exact h' e he
  · exact h e (List.mem_filter.mp he).1

theorem set (h : d.MapsAsText) {f : Field} (hf : f ∉ mapFields) (v : Value) : (d.set f v).MapsAsText := by
  intro e he
  rcases List.mem_cons.mp he with rfl | he
  · exact fun hmem => absurd hmem hf
  · exact h e (List.mem_filter.mp he).1

/-- Writing such a dictionary onto such properties. -/
theorem props_update (h : d.MapsAsText) {p : Props} (hp : ∀ f ∈ mapFields, mapText (p f)) :
    ∀ f ∈ mapFields, mapText (p.update d f) := by
  intro f hf
  cases hl : d.lookup f with
  | none => simpa [Props.update, hl] using hp f hf
  | some v =>
    have hmem : (f, v) ∈ d := by
      obtain ⟨_, _, rfl, -⟩ := List.lookup_eq_some_iff.mp hl
      exact List.mem_append_right _ List.mem_cons_self
    simpa [Props.update, hl] using h _ hmem hf

end Dict.MapsAsText

/-! ## What calls write -/

/-- The maps that the command writes, if Neo4j stores them, are text. -/
def Cmd.MapsAsText : Cmd → Prop
  | .createNode _ _ d | .updateNode _ _ _ d _ _ => d.storable → d.MapsAsText
  | _ => True

abbrev WritesText {α : Type} (p : Program α) : Prop := Sends Cmd.MapsAsText (fun _ _ => True) p

section Methods
variable {α : Type} {ctx : Ctx}

theorem Unaddressed.writesText {p : Program α} (h : Unaddressed p) : WritesText p :=
  h.mono (fun c hc => by cases c <;> trivial) (fun _ _ ha => ha) fun _ h => h

theorem Reads.writesText {p : Program α} (h : Reads p) : WritesText p := h.unaddressed.writesText

theorem writesText_createEntity (label : Label) {props : Dict} (h : props.MapsTyped) :
    WritesText (createEntity ctx label props) := by
  refine Sends.bind (Sends.issue trivial) fun unique => Sends.ite ?_ (Sends.throw _)
  refine Sends.bind (Sends.issue fun _ => .serialize (h.update ?_)) fun _ => Sends.pure _
  simp [mapFields, newEntityProps, Dict.keys]

theorem updateProps_maps {updates : Dict} (h : updates.MapsTyped) (now : String) :
    (Dict.set (serializeForNeo4j updates) .updatedAt (.str now)).MapsAsText :=
  (Dict.MapsAsText.serialize h).set (by decide) _

theorem writesText_updateEntity (label : Label) (rid : String) {updates : Dict} (h : updates.MapsTyped) :
    WritesText (updateEntity ctx label rid updates) := by
  refine Sends.bind (reads_requireLock _ _).writesText fun _ => ?_
  cases checkImmutableFields label updates with
  | some e => exact Sends.throw e
  | none =>
    refine Sends.bind (Sends.issue trivial) fun draft => ?_
    cases draft with
    | some _ =>
      refine Sends.bind (Sends.issue fun _ => updateProps_maps h ctx.now) fun updated => ?_
      cases updated with
      | none => exact Sends.throw _
      | some node => exact Sends.pure _
    | none =>
      have hsource : WritesText (cloneSource label rid ctx.tenantId) := by
        refine Sends.bind (Sends.issue trivial) fun staging => ?_
        cases staging with
        | some source => exact Sends.pure _
        | none => exact Sends.issue trivial
      refine Sends.bind hsource fun source => ?_
      cases source with
      | none => exact Sends.throw _
      | some source =>
        refine Sends.bind (Sends.issue fun _ => ?_) fun _ => Sends.pure _
        have hclone : (cloneProps ctx source).MapsAsText := .of_notMem (by simp [mapFields, cloneProps, Dict.keys])
        exact hclone.update (updateProps_maps h ctx.now)

/-- Neo4j refuses a cascade that writes a map. -/
theorem writesText_cascade (rid tenantId : String) {updates : Dict} (h : updates.MapsTyped) (old : Option Props) :
    WritesText (cascadeSharedPropertyUpdate rid tenantId updates old) := by
  refine Sends.ite (Sends.pure _) (Sends.bind (Sends.issue trivial) fun inheritors => ?_)
  induction inheritors with
  | nil => exact Sends.pure _
  | cons node nodes ih =>
    refine Sends.ite ih (Sends.bind (Sends.issue ?_) fun _ => Sends.bind ih fun _ => Sends.pure _)
    intro hstorable e he hf
    have hmap := h e (List.mem_filter.mp (List.mem_filter.mp he).1).1 hf
    have hvalue := List.all_eq_true.mp hstorable e he
    cases hv : e.2 with
    | dict entries => simp [hv, storable] at hvalue
    | _ => simp [hv, isMap] at hmap

theorem writesText_deleteEntity (label : Label) (rid : String) : WritesText (deleteEntity ctx label rid) := by
  refine Sends.bind (reads_checkDeleteDependencies _ _ _).writesText fun _ => ?_
  refine Sends.bind (reads_requireLock _ _).writesText fun _ => Sends.bind (Sends.issue trivial) fun active => ?_
  cases active with
  | some active =>
    refine Sends.bind (Sends.issue fun _ => .of_notMem ?_) fun _ => Sends.pure _
    simp [mapFields, deletionProps, Dict.keys]
  | none =>
    refine Sends.bind (Sends.issue trivial) fun deleted => Sends.ite (Sends.pure _) ?_
    exact Sends.bind (Sends.issue trivial) fun _ => Sends.pure _

theorem writesText_createPropertyType (parentRid : String) (parentLabel : Label) {props : Dict} (h : props.MapsTyped) :
    WritesText (createPropertyType ctx parentRid parentLabel props) := by
  refine Sends.bind (reads_requireLock _ _).writesText fun _ => ?_
  refine Sends.bind (Sends.issue trivial) fun existing => Sends.ite (Sends.throw _) ?_
  have hnew : ∀ f ∈ mapFields, f ∉ (newPropertyProps ctx).keys := by simp [mapFields, newPropertyProps, Dict.keys]
  refine Sends.bind (Sends.issue fun _ => .serialize (h.update hnew)) fun node => ?_
  refine Sends.bind (Sends.issue trivial) fun _ => ?_
  dsimp only
  split
  · exact Sends.bind (Sends.issue trivial) fun _ => Sends.pure _
  · exact Sends.bind (Sends.pure _) fun _ => Sends.pure _

theorem writesText_submitToStaging (label : Label) (rid : String) : WritesText (submitToStaging ctx label rid) := by
  refine Sends.bind (Sends.issue trivial) fun draft => ?_
  cases draft with
  | none => exact Sends.throw _
  | some _ =>
    refine Sends.bind (Sends.issue fun _ => .of_notMem (by simp [mapFields, submitProps, Dict.keys])) fun node => ?_
    cases node with
    | none => exact Sends.throw _
    | some node => exact Sends.bind (Sends.issue trivial) fun _ => Sends.pure _

theorem writesText_discardStaging (label : Label) (rid : String) : WritesText (discardStaging ctx label rid) := by
  refine Sends.bind (Sends.issue trivial) fun active => ?_
  cases active with
  | some _ => exact Sends.bind (Sends.issue trivial) fun _ => Sends.ite (Sends.pure _) (Sends.throw _)
  | none =>
    refine Sends.bind (Sends.issue trivial) fun staging => ?_
    cases staging with
    | none => exact Sends.throw _
    | some _ =>
      refine Sends.bind (Sends.issue fun _ => .of_notMem ?_) fun _ => Sends.pure _
      simp [mapFields, unstageProps, Dict.keys]

theorem writesText_discardAllStaging : WritesText (discardAllStaging ctx) := by
  refine Sends.bind (Sends.issue trivial) fun nodes => ?_
  induction nodes with
  | nil => exact Sends.pure _
  | cons node nodes ih =>
    exact Sends.ite ih (Sends.bind (Sends.issue trivial) fun _ => Sends.bind ih fun _ => Sends.pure _)

end Methods

theorem writesText_service {call : Call} (h : call.op.MapsTyped) : WritesText (service call) := by
  obtain ⟨ctx, op⟩ := call
  cases op with
  | create type props =>
    refine Sends.map _ ?_
    cases type with
    | interfaceType =>
      exact Sends.bind (reads_checkInterfaceCycle _ _ _ _).writesText fun _ => writesText_createEntity _ h
    | _ => exact writesText_createEntity _ h
  | update type rid updates =>
    refine Sends.map _ ?_
    cases type with
    | interfaceType =>
      refine Sends.bind (reads_checkInterfaceCycle _ _ _ _).writesText fun _ => ?_
      refine Sends.bind ?_ fun _ => writesText_updateEntity _ _ h
      exact Sends.ite (Sends.pure _) (reads_checkContractSatisfaction _ _ _).writesText
    | sharedPropertyType =>
      refine Sends.bind (Sends.issue trivial) fun oldNode => Sends.bind (writesText_updateEntity _ _ h) fun result => ?_
      exact Sends.bind (writesText_cascade _ _ h _) fun _ => Sends.pure _
    | _ => exact writesText_updateEntity _ _ h
  | delete type rid => cases type <;> exact Sends.map _ (writesText_deleteEntity _ _)
  | createPropertyType parentRid parentLabel props => exact Sends.map _ (writesText_createPropertyType _ _ h)
  | acquireLock rid => exact Sends.map _ (reads_acquireLock ctx rid).writesText
  | releaseLock rid => exact Sends.map _ (reads_releaseLock ctx rid).writesText
  | refreshLock rid => exact Sends.map _ (reads_refreshLock ctx rid).writesText
  | submitToStaging label rid => exact Sends.map _ (writesText_submitToStaging _ _)
  | discardDraft label rid =>
    exact Sends.map _ (Sends.bind (Sends.issue trivial) fun _ => Sends.ite (Sends.issue trivial) (Sends.throw _))
  | discardStaging label rid => exact Sends.map _ (writesText_discardStaging _ _)
  | discardAllStaging => exact Sends.map _ writesText_discardAllStaging
  | commitStaging m => exact Sends.map _ (unaddressed_commitStaging ctx m).writesText
  | rollbackToSnapshot snapshotId => exact Sends.map _ (unaddressed_rollbackToSnapshot ctx snapshotId).writesText

/-! ## Runs -/

/-- Every such command keeps maps text. -/
theorem keeps_mapsAsText {call : Call} {c : Cmd} (g : Graph) (h : Issues Node.MapsAsText call c) (hc : c.MapsAsText) :
    (c.effect g).Keeps Node.MapsAsText := by
  have hset : ∀ {p : Node → Bool} {d : Dict}, d.MapsAsText → (Effect.set p d).Keeps Node.MapsAsText :=
    fun hd n hn _ => hd.props_update hn
  have hflags : ∀ {p : Node → Bool} {d : Dict}, (∀ f ∈ mapFields, f ∉ d.keys) →
      (Effect.set p d).Keeps Node.MapsAsText := fun hd => hset (.of_notMem hd)
  cases h with
  | new hnew =>
    simp only [Cmd.effect]
    split
    next hs => exact (hc hs).props_update fun _ _ => rfl
    next => trivial
  | clone good key guarded marks =>
    simp only [Cmd.effect]
    split
    next hs => exact (hc hs).props_update good
    next => trivial
  | edit | submit | cascade | unstage =>
    simp only [Cmd.effect]
    split
    next hs => exact hset (hc hs)
    next => trivial
  | deactivateStaged | promoteStaged | deactivateSnapshot | reactivateSnapshot =>
    exact hflags (by simp [mapFields, Dict.keys])
  | dropDraft | dropStaging | belongsTo | basedOn | cleanupDeleted | publish | repoint => trivial
  | quiet hq => cases c <;> trivial

/-- All along an interleaving of such calls the stored maps are text. -/
theorem maps_asText {es : List CallEvent} (ht : ∀ call ∈ started es, call.op.MapsTyped) :
    ∀ n ∈ (runFrom concurrent.next noCalls es).state.graph.nodes, n.MapsAsText := by
  have hmeets : ∀ call ∈ started es, (service call).Meets
      (fun c => IssuesOf (started es) Node.MapsAsText call c ∧ c.MapsAsText) (Answers Node.MapsAsText) fun _ => True := by
    intro call hcall
    have hwrites : (service call).Meets Cmd.MapsAsText (Answers Node.MapsAsText) fun _ => True :=
      (writesText_service (ht call hcall)).mono (fun _ hc => hc) (fun _ _ _ => trivial) fun _ h => h
    exact ((meets_service hcall).and hwrites).mono (fun _ hc => hc) (fun _ _ h => h) fun _ _ => trivial
  have hempty : ∀ n ∈ World.empty.graph.nodes, n.MapsAsText := fun n hn => nomatch hn
  refine (calls_hold (J := fun w => ∀ n ∈ w.graph.nodes, n.MapsAsText) hmeets (fun _ hw => hw) ?_ ?_ stepsMeet_started
    ⟨hempty, fun t ht => absurd ht List.not_mem_nil⟩).inv
  · rintro call c w ⟨hc, hmaps⟩ hw
    rw [exec_nodes]
    exact (keeps_mapsAsText w.graph hc.2 hmaps).mem hw
  · exact fun v w hw n hn => hw n ((v.apply_nodes w).mem_iff.mp hn)

end Lingshu.Ontology
