import Lingshu.Ontology.Effects
import Lingshu.Ontology.Service

/-! # Calls

A call is a service method with its arguments and its surroundings. `Issues G call c` lists, for each
method, the commands it may send to the stores, provided that the nodes it is given are in `G`; every
invariant of the graph is proved from that list. -/
namespace Lingshu.Ontology
open Json Interaction Interaction.Prog
set_option autoImplicit false

/-- The entity types of `_ENTITY_CONFIGS`, those with their own create, update and delete methods. -/
inductive EntityType where
  | objectType
  | linkType
  | interfaceType
  | sharedPropertyType
  | actionType
  deriving DecidableEq, Repr

def EntityType.label : EntityType → Label
  | .objectType => .objectType
  | .linkType => .linkType
  | .interfaceType => .interfaceType
  | .sharedPropertyType => .sharedPropertyType
  | .actionType => .actionType

inductive Op where
  | create (type : EntityType) (props : Dict)
  | update (type : EntityType) (rid : String) (updates : Dict)
  | delete (type : EntityType) (rid : String)
  | createPropertyType (parentRid : String) (parentLabel : Label) (props : Dict)
  | acquireLock (rid : String)
  | releaseLock (rid : String)
  | refreshLock (rid : String)
  | submitToStaging (label : Label) (rid : String)
  | discardDraft (label : Label) (rid : String)
  | discardStaging (label : Label) (rid : String)
  | discardAllStaging
  | commitStaging (commitMessage : Option String)
  | rollbackToSnapshot (snapshotId : String)

/-- The dictionaries are those the request models of the routes admit. -/
def Op.Admitted : Op → Prop
  | .create type props => props.AdmittedBy (createFields type.label)
  | .update type _ updates => updates.AdmittedBy (updateFields type.label)
  | .createPropertyType _ parentLabel props =>
    parentLabel ∈ [.objectType, .linkType] ∧ props.AdmittedBy (createFields .propertyType)
  | _ => True

def Op.rollsBack : Op → Bool
  | .rollbackToSnapshot _ => true
  | _ => false

instance : DecidablePred Op.Admitted := fun op => by
  cases op <;> unfold Op.Admitted <;> infer_instance

structure Call where
  ctx : Ctx
  op : Op

inductive Result where
  | entity (response : EntityResponse)
  | property (response : Props)
  | lock (response : LockStatusResponse)
  | snapshot (response : SnapshotResponse)
  | count (n : ℕ)
  | none

def createOf (ctx : Ctx) (props : Dict) : EntityType → Program EntityResponse
  | .objectType => createObjectType ctx props
  | .linkType => createLinkType ctx props
  | .interfaceType => createInterfaceType ctx props
  | .sharedPropertyType => createSharedPropertyType ctx props
  | .actionType => createActionType ctx props

def updateOf (ctx : Ctx) (rid : String) (updates : Dict) : EntityType → Program EntityResponse
  | .objectType => updateObjectType ctx rid updates
  | .linkType => updateLinkType ctx rid updates
  | .interfaceType => updateInterfaceType ctx rid updates
  | .sharedPropertyType => updateSharedPropertyType ctx rid updates
  | .actionType => updateActionType ctx rid updates

def deleteOf (ctx : Ctx) (rid : String) : EntityType → Program Unit
  | .objectType => deleteObjectType ctx rid
  | .linkType => deleteLinkType ctx rid
  | .interfaceType => deleteInterfaceType ctx rid
  | .sharedPropertyType => deleteSharedPropertyType ctx rid
  | .actionType => deleteActionType ctx rid

/-- The program of a call. -/
def service (call : Call) : Program Result :=
  match call.op with
  | .create type props => .entity <$> createOf call.ctx props type
  | .update type rid updates => .entity <$> updateOf call.ctx rid updates type
  | .delete type rid => (fun _ => .none) <$> deleteOf call.ctx rid type
  | .createPropertyType parentRid parentLabel props =>
    .property <$> createPropertyType call.ctx parentRid parentLabel props
  | .acquireLock rid => .lock <$> acquireLock call.ctx rid
  | .releaseLock rid => .lock <$> releaseLock call.ctx rid
  | .refreshLock rid => .lock <$> refreshLock call.ctx rid
  | .submitToStaging label rid => .entity <$> submitToStaging call.ctx label rid
  | .discardDraft label rid => (fun _ => .none) <$> discardDraft call.ctx label rid
  | .discardStaging label rid => (fun _ => .none) <$> discardStaging call.ctx label rid
  | .discardAllStaging => .count <$> discardAllStaging call.ctx
  | .commitStaging commitMessage => .snapshot <$> commitStaging call.ctx commitMessage
  | .rollbackToSnapshot snapshotId => .snapshot <$> rollbackToSnapshot call.ctx snapshotId

/-! ## What a call may send to the stores -/

/-- The id that a commit with this context gives its snapshot. -/
def Ctx.snapshotId (ctx : Ctx) : String := generateRid "snap" ctx.uuid

/-- The node that a call creates from nothing. -/
def Call.newNode (call : Call) : Option (Label × Dict) :=
  match call.op with
  | .create type props =>
    some (type.label, serializeForNeo4j (Dict.update props (newEntityProps call.ctx type.label)))
  | .createPropertyType _ _ props =>
    some (.propertyType, serializeForNeo4j (Dict.update props (newPropertyProps call.ctx)))
  | _ => none

/-- What a Draft made from a version sets, whatever else it copies or changes. -/
structure ClonedFrom (ctx : Ctx) (source : Node) (d : Dict) : Prop where
  isDraft : d.lookup .isDraft = some (.bool true)
  isStaging : d.lookup .isStaging = some (.bool false)
  draftOwner : d.lookup .draftOwner = some (.str ctx.userId)
  parent : d.lookup .parentSnapshotId = some (source.props .snapshotId)
  isActive : d.lookup .isActive = none ∨ d.lookup .isActive = some (.bool false)
  snapshotId : .snapshotId ∉ d.keys

/-- The row makes `snapshotId` the tenant's current snapshot. -/
def PgWrite.PointsTo (tenantId snapshotId : String) (row : PgWrite) : Prop :=
  row = .insertPointer tenantId snapshotId ∨ row = .updatePointer tenantId snapshotId

inductive Issues (G : Node → Prop) : Call → Cmd → Prop where
  /-- A new entity. -/
  | new {call : Call} {label : Label} {d : Dict} (h : call.newNode = some (label, d)) :
      Issues G call (.createNode label (fun _ => .null) d)
  /-- A new Draft of an existing entity. -/
  | clone {call : Call} {source : Node} {label : Label} {rid : String} {d : Dict} (good : G source)
      (key : source.keyed label rid call.ctx.tenantId) (guarded : ∀ f ∈ allImmutable label, f ∉ d.keys)
      (marks : call.op.Admitted → ClonedFrom call.ctx source d) :
      Issues G call (.createNode label source.props d)
  /-- New content for the caller's Draft. -/
  | edit {call : Call} {label : Label} {rid : String} {d : Dict}
      (guarded : ∀ f ∈ allImmutable label, f ∉ d.keys)
      (plain : call.op.Admitted → ∀ f ∈ versionFields, f ∉ d.keys) :
      Issues G call (.updateNode label rid call.ctx.tenantId d (some true) (some call.ctx.userId))
  | submit {ctx : Ctx} {label : Label} {rid : String} :
      Issues G ⟨ctx, .submitToStaging label rid⟩
        (.updateNode label rid ctx.tenantId (submitProps ctx) (some true) (some ctx.userId))
  /-- New content for every version of a PropertyType. -/
  | cascade {ctx : Ctx} {sharedRid rid : String} {updates d : Dict}
      (content : ∀ f ∈ d.keys, f ∈ cascadeFields) :
      Issues G ⟨ctx, .update .sharedPropertyType sharedRid updates⟩
        (.updateNode .propertyType rid ctx.tenantId d none none)
  | unstage {ctx : Ctx} {label : Label} {rid : String} :
      Issues G ⟨ctx, .discardStaging label rid⟩
        (.updateNode label rid ctx.tenantId (unstageProps ctx) none none)
  | dropDraft {call : Call} {label : Label} {rid : String} :
      Issues G call (.deleteNode label rid call.ctx.tenantId (some true) none (some call.ctx.userId))
  | dropStaging {call : Call} {label : Label} {rid : String} :
      Issues G call (.deleteNode label rid call.ctx.tenantId none (some true) none)
  | belongsTo {call : Call} {parentLabel : Label} {rid parentRid : String} :
      Issues G call (.createRelationship .propertyType rid parentLabel parentRid .belongsTo call.ctx.tenantId)
  | basedOn {call : Call} {rid sharedRid : String} :
      Issues G call
        (.createRelationship .propertyType rid .sharedPropertyType sharedRid .basedOn call.ctx.tenantId)
  | deactivateStaged {ctx : Ctx} {m : Option String} :
      Issues G ⟨ctx, .commitStaging m⟩ (.deactivateStaged ctx.tenantId)
  | promoteStaged {ctx : Ctx} {m : Option String} :
      Issues G ⟨ctx, .commitStaging m⟩ (.promoteStaged ctx.tenantId ctx.snapshotId)
  | cleanupDeleted {ctx : Ctx} {m : Option String} :
      Issues G ⟨ctx, .commitStaging m⟩ (.cleanupDeleted ctx.tenantId ctx.snapshotId)
  | publish {ctx : Ctx} {m : Option String} {snapshot : Snapshot} {row : PgWrite}
      (id : snapshot.snapshotId = ctx.snapshotId) (tenant : snapshot.tenantId = ctx.tenantId)
      (points : row.PointsTo ctx.tenantId ctx.snapshotId) :
      Issues G ⟨ctx, .commitStaging m⟩ (.pgCommit [.insertSnapshot snapshot, row])
  | deactivateSnapshot {ctx : Ctx} {target current : String} :
      Issues G ⟨ctx, .rollbackToSnapshot target⟩ (.deactivateSnapshot ctx.tenantId current)
  | reactivateSnapshot {ctx : Ctx} {target : String} :
      Issues G ⟨ctx, .rollbackToSnapshot target⟩ (.reactivateSnapshot ctx.tenantId target)
  | repoint {ctx : Ctx} {target : String} {row : PgWrite} (points : row.PointsTo ctx.tenantId target) :
      Issues G ⟨ctx, .rollbackToSnapshot target⟩ (.pgCommit [row])
  /-- Reads, Redis and flushed rows. -/
  | quiet {call : Call} {c : Cmd} (h : c.quiet = true) : Issues G call c

theorem Issues.mono {G G' : Node → Prop} {call : Call} {c : Cmd} (h : Issues G call c)
    (hG : ∀ n, G n → G' n) : Issues G' call c := by
  cases h with
  | new h => exact .new h
  | clone good key guarded marks => exact .clone (hG _ good) key guarded marks
  | edit guarded plain => exact .edit guarded plain
  | submit => exact .submit
  | cascade content => exact .cascade content
  | unstage => exact .unstage
  | dropDraft => exact .dropDraft
  | dropStaging => exact .dropStaging
  | belongsTo => exact .belongsTo
  | basedOn => exact .basedOn
  | deactivateStaged => exact .deactivateStaged
  | promoteStaged => exact .promoteStaged
  | cleanupDeleted => exact .cleanupDeleted
  | publish id tenant points => exact .publish id tenant points
  | deactivateSnapshot => exact .deactivateSnapshot
  | reactivateSnapshot => exact .reactivateSnapshot
  | repoint points => exact .repoint points
  | quiet h => exact .quiet h

/-- What is known of an answer when all nodes of the graph are in `G`. -/
def Answers (G : Node → Prop) : (c : Cmd) → c.Answer → Prop
  | .getActiveNode label rid tenantId, a => ∀ n, a = some n → G n ∧ n.keyed label rid tenantId
  | .getStagingNode label rid tenantId, a => ∀ n, a = some n → G n ∧ n.keyed label rid tenantId
  | _, _ => True

theorem exec_answers {G : Node → Prop} {w : World} (hG : ∀ n ∈ w.graph.nodes, G n) (c : Cmd)
    (a : c.Answer) (h : (exec c w).1 = .ok a) : Answers G c a := by
  have hfind : ∀ (label : Label) (rid tenantId : String) (q : Node → Bool) (n : Node),
      (w.graph.nodes.find? fun n => n.keyed label rid tenantId && q n) = some n →
      G n ∧ n.keyed label rid tenantId := by
    intro label rid tenantId q n hn
    have hq := List.find?_some hn
    exact ⟨hG n (List.mem_of_find?_eq_some hn), (Bool.and_eq_true_iff.mp hq).1⟩
  cases c with
  | getActiveNode label rid tenantId =>
    intro n hn
    cases h
    exact hfind _ _ _ _ n hn
  | getStagingNode label rid tenantId =>
    intro n hn
    cases h
    exact hfind _ _ _ _ n hn
  | _ => trivial

section Contracts
variable {α β : Type} {Pre : Cmd → Prop} {Post : (c : Cmd) → c.Answer → Prop}

/-- A program that sends only commands in `Pre`, if the answers are in `Post`. -/
abbrev Sends (Pre : Cmd → Prop) (Post : (c : Cmd) → c.Answer → Prop) (p : Program α) : Prop :=
  p.Meets Pre Post (fun _ => True)

/-- A program that sends only what `call` may send. -/
abbrev KeepsTo (G : Node → Prop) (call : Call) (p : Program α) : Prop := Sends (Issues G call) (Answers G) p

/-- A program that leaves the graph and PostgreSQL alone. -/
abbrev Reads (p : Program α) : Prop := Sends (fun c => c.quiet = true) (fun _ _ => True) p

theorem Sends.issue {c : Cmd} (h : Pre c) : Sends Pre Post (issue c) :=
  (Prog.Meets.perform h).mono (fun _ hc => hc) (fun _ _ ha => ha) fun _ _ => trivial

theorem Sends.bind {p : Program α} {f : α → Program β} (hp : Sends Pre Post p)
    (hf : ∀ a, Sends Pre Post (f a)) : Sends Pre Post (p >>= f) :=
  Prog.Meets.bind hp fun a _ => hf a

theorem Sends.map {p : Program α} (f : α → β) (hp : Sends Pre Post p) : Sends Pre Post (f <$> p) :=
  Prog.Meets.bind hp fun _ _ => trivial

theorem Sends.pure (a : α) : Sends Pre Post (Pure.pure a : Program α) := trivial

theorem Sends.throw (e : Exc) : Sends Pre Post (Prog.throw e : Program α) := trivial

theorem Sends.retry {p : Program α} (hp : Sends Pre Post p) (n : ℕ) : Sends Pre Post (retryNeo4jOperation p n) := by
  have hthrow : ∀ e, Sends Pre Post (Prog.throw e : Program α) := fun _ => trivial
  induction n with
  | zero => exact hp
  | succ n ih =>
    refine Prog.Meets.tryCatch hp fun e => ?_
    split
    · exact ih
    · exact hthrow e

theorem Sends.ite {c : Prop} [Decidable c] {p q : Program α} (hp : Sends Pre Post p)
    (hq : Sends Pre Post q) : Sends Pre Post (if c then p else q) := by
  split
  · exact hp
  · exact hq

/-- Quiet commands are allowed to every call. -/
theorem meets_of_quiet {G : Node → Prop} {call : Call} {p : Program α} {Q : α → Prop}
    (h : p.Meets (fun c => c.quiet = true) (fun _ _ => True) Q) : p.Meets (Issues G call) (Answers G) Q :=
  h.mono (fun _ hc => .quiet hc) (fun _ _ _ => trivial) fun _ h => h

theorem Reads.keepsTo {G : Node → Prop} {call : Call} {p : Program α} (h : Reads p) : KeepsTo G call p :=
  meets_of_quiet h

end Contracts

/-! ## Each method keeps to its list -/

section Methods
variable {α : Type} {G : Node → Prop} {call : Call}

theorem reads_issue {c : Cmd} (h : c.quiet = true) : Reads (issue c) := Sends.issue h

theorem keepsTo_read {c : Cmd} (h : c.quiet = true) : KeepsTo G call (issue c) := (reads_issue h).keepsTo

theorem reads_requireLock (rid userId : String) : Reads (requireLock rid userId) := by
  refine Sends.bind (Sends.issue rfl) fun owner => ?_
  exact Sends.ite (Sends.pure _) (Sends.throw _)

theorem reads_acquireLock (ctx : Ctx) (rid : String) : Reads (acquireLock ctx rid) := by
  refine Sends.bind (Sends.issue rfl) fun acquired => Sends.ite (Sends.pure _) ?_
  refine Sends.bind (Sends.issue rfl) fun owner => Sends.ite ?_ (Sends.throw _)
  exact Sends.bind (Sends.issue rfl) fun _ => Sends.pure _

theorem reads_releaseLock (ctx : Ctx) (rid : String) : Reads (releaseLock ctx rid) := by
  refine Sends.bind (Sends.issue rfl) fun owner => ?_
  dsimp only
  split
  · exact Sends.bind (Sends.issue rfl) fun _ => Sends.pure _
  · exact Sends.bind (Sends.pure _) fun _ => Sends.pure _

theorem reads_refreshLock (ctx : Ctx) (rid : String) : Reads (refreshLock ctx rid) := by
  refine Sends.bind (Sends.issue rfl) fun owner => Sends.ite ?_ (Sends.throw _)
  refine Sends.bind (Sends.issue rfl) fun _ => ?_
  exact Sends.bind (Sends.issue rfl) fun _ => Sends.pure _

theorem reads_anyReach {reach : String → List String → Program (Bool × List String)}
    (h : ∀ c v, Reads (reach c v)) (children : List Node) (visited : List String) :
    Reads (anyReach reach children visited) := by
  induction children generalizing visited with
  | nil => exact Sends.pure _
  | cons child children ih =>
    refine Sends.bind (h _ _) fun r => ?_
    exact Sends.ite (Sends.pure _) (ih _)

theorem reads_canReach (target tenantId : String) (depth : ℕ) (current : String)
    (visited : List String) : Reads (canReach target tenantId depth current visited) := by
  induction depth generalizing current visited with
  | zero => exact Sends.throw _
  | succ depth ih =>
    refine Sends.ite (Sends.pure _) (Sends.ite (Sends.pure _) ?_)
    exact Sends.bind (Sends.issue rfl) fun children => reads_anyReach ih children _

theorem reads_checkInterfaceCycle (limit : ℕ) (rid tenantId : String) (parents : List String) :
    Reads (checkInterfaceCycle limit rid tenantId parents) := by
  induction parents with
  | nil => exact Sends.pure _
  | cons parent parents ih =>
    refine Sends.bind (reads_canReach _ _ _ _ _) fun r => ?_
    exact Sends.ite (Sends.throw _) ih

theorem reads_contractViolations (tenantId : String) (required : List Value) (nodes : List Node) :
    Reads (contractViolations tenantId required nodes) := by
  induction nodes with
  | nil => exact Sends.pure _
  | cons node nodes ih =>
    refine Sends.bind (Sends.issue rfl) fun props => ?_
    exact Sends.bind ih fun vs => Sends.ite (Sends.pure _) (Sends.pure _)

theorem reads_checkContractSatisfaction (rid tenantId : String) (required : List Value) :
    Reads (checkContractSatisfaction rid tenantId required) := by
  refine Sends.ite (Sends.pure _) ?_
  refine Sends.bind (Sends.issue rfl) fun implementors => ?_
  refine Sends.bind (reads_contractViolations _ _ _) fun vs => ?_
  exact Sends.ite (Sends.pure _) (Sends.throw _)

theorem reads_checkDeleteDependencies (label : Label) (rid tenantId : String) :
    Reads (checkDeleteDependencies label rid tenantId) := by
  have hloop : ∀ rules, Reads (referencingRids label rid tenantId rules) := by
    intro rules
    induction rules with
    | nil => exact Sends.pure _
    | cons r rules ih =>
      exact Sends.bind (Sends.issue rfl) fun _ => Sends.bind ih fun _ => Sends.pure _
  exact Sends.bind (hloop _) fun rids => Sends.ite (Sends.pure _) (Sends.throw _)

variable (call) in
theorem keepsTo_createEntity (label : Label) (props : Dict)
    (h : call.newNode =
      some (label, serializeForNeo4j (Dict.update props (newEntityProps call.ctx label)))) :
    KeepsTo G call (createEntity call.ctx label props) := by
  refine Sends.bind (keepsTo_read rfl) fun isUnique => Sends.ite ?_ (Sends.throw _)
  exact Sends.bind (Sends.issue (.new h)) fun _ => Sends.pure _

/-- What an update writes sets no version property. -/
theorem updateProps_plain {label : Label} {updates : Dict} (h : updates.AdmittedBy (updateFields label))
    (now : String) :
    ∀ f ∈ versionFields, f ∉ (Dict.set (serializeForNeo4j updates) .updatedAt (.str now)).keys := by
  intro f hf
  refine Dict.notMem_keys_set (by rintro rfl; exact absurd hf (by decide)) ?_
  rw [serializeForNeo4j_keys]
  exact h.notMem (updateFields_version label) f hf

/-- What an update writes sets no protected field, whatever the caller asks for. -/
theorem updateProps_guarded {label : Label} {updates : Dict}
    (h : checkImmutableFields label updates = none) (now : String) :
    ∀ f ∈ allImmutable label, f ∉ (Dict.set (serializeForNeo4j updates) .updatedAt (.str now)).keys := by
  intro f hf
  refine Dict.notMem_keys_set (by rintro rfl; revert hf; cases label <;> decide) ?_
  rw [serializeForNeo4j_keys]
  exact checkImmutableFields_none h f hf

theorem cloneProps_guarded (ctx : Ctx) (source : Node) {label : Label} :
    ∀ f ∈ allImmutable label, f ∉ (cloneProps ctx source).keys := by
  have h : (cloneProps ctx source).keys = [.isDraft, .isStaging, .draftOwner, .parentSnapshotId] := rfl
  rw [h]
  cases label <;> decide

theorem deletionProps_guarded (ctx : Ctx) (active : Node) {label : Label} :
    ∀ f ∈ allImmutable label, f ∉ (deletionProps ctx active).keys := by
  have h : (deletionProps ctx active).keys =
      [.isDraft, .isStaging, .isActive, .draftOwner, .parentSnapshotId, .updatedAt] := rfl
  rw [h]
  cases label <;> decide

theorem clonedFrom_cloneProps (ctx : Ctx) (source : Node) {d : Dict}
    (h : ∀ f ∈ versionFields, f ∉ d.keys) :
    ClonedFrom ctx source (Dict.update (cloneProps ctx source) d) where
  isDraft := Dict.lookup_update_of_notMem (h _ (by decide))
  isStaging := Dict.lookup_update_of_notMem (h _ (by decide))
  draftOwner := Dict.lookup_update_of_notMem (h _ (by decide))
  parent := Dict.lookup_update_of_notMem (h _ (by decide))
  isActive := .inl (Dict.lookup_update_of_notMem (h _ (by decide)))
  snapshotId := Dict.notMem_keys_update (by simp [cloneProps, Dict.keys]) (h _ (by decide))

theorem clonedFrom_deletionProps (ctx : Ctx) (active : Node) :
    ClonedFrom ctx active (deletionProps ctx active) where
  isDraft := rfl
  isStaging := rfl
  draftOwner := rfl
  parent := rfl
  isActive := .inr rfl
  snapshotId := by simp [deletionProps, Dict.keys]

theorem meets_cloneSource (label : Label) (rid tenantId : String) :
    (cloneSource label rid tenantId).Meets (Issues G call) (Answers G)
      (fun a => ∀ n, a = some n → G n ∧ n.keyed label rid tenantId) := by
  refine Prog.Meets.bind (Prog.Meets.perform (.quiet rfl)) fun staging hs => ?_
  cases staging with
  | some s => exact hs
  | none => exact Prog.Meets.perform (.quiet rfl)

variable (call) in
theorem keepsTo_updateEntity (label : Label) (rid : String) {updates : Dict}
    (h : call.op.Admitted → updates.AdmittedBy (updateFields label)) :
    KeepsTo G call (updateEntity call.ctx label rid updates) := by
  have hplain := fun ha => updateProps_plain (h ha) call.ctx.now
  refine Sends.bind (reads_requireLock _ _).keepsTo fun _ => ?_
  dsimp only
  cases hc : checkImmutableFields label updates with
  | some e => exact Sends.throw e
  | none =>
    have hguarded := updateProps_guarded hc call.ctx.now
    refine Sends.bind (keepsTo_read rfl) fun draft => ?_
    cases draft with
    | some _ =>
      refine Sends.bind (Sends.issue (.edit hguarded hplain)) fun updated => ?_
      cases updated with
      | none => exact Sends.throw _
      | some node => exact Sends.pure _
    | none =>
      refine Prog.Meets.bind (meets_cloneSource _ _ _) fun source hsource => ?_
      cases source with
      | none => exact Sends.throw _
      | some source =>
        obtain ⟨good, key⟩ := hsource source rfl
        refine Sends.bind (Sends.issue (.clone good key ?_ ?_)) fun _ => Sends.pure _
        · intro f hf
          exact Dict.notMem_keys_update (cloneProps_guarded _ _ f hf) (hguarded f hf)
        · intro ha
          exact clonedFrom_cloneProps _ _ (hplain ha)

variable (call) in
theorem keepsTo_updateInterfaceType (rid : String) {updates : Dict}
    (h : call.op.Admitted → updates.AdmittedBy (updateFields .interfaceType)) :
    KeepsTo G call (updateInterfaceType call.ctx rid updates) := by
  refine Sends.bind (reads_checkInterfaceCycle _ _ _ _).keepsTo fun _ => ?_
  refine Sends.bind ?_ fun _ => keepsTo_updateEntity _ _ _ h
  exact Sends.ite (Sends.pure _) (reads_checkContractSatisfaction _ _ _).keepsTo

theorem cascadeUpdates_content (updatedFields : Dict) (old : Option Props) (n : Node) :
    ∀ f ∈ (cascadeUpdates (cascadable updatedFields) old n).keys, f ∈ cascadeFields := by
  intro f hk
  obtain ⟨e, he, rfl⟩ := List.mem_map.mp hk
  have hc := List.mem_filter.mp (List.mem_filter.mp he).1
  simpa using hc.2

theorem keepsTo_cascade {ctx : Ctx} {rid : String} {updates : Dict} (old : Option Props) :
    KeepsTo G ⟨ctx, .update .sharedPropertyType rid updates⟩
      (cascadeSharedPropertyUpdate rid ctx.tenantId updates old) := by
  refine Sends.ite (Sends.pure _) ?_
  refine Sends.bind (keepsTo_read rfl) fun inheritors => ?_
  induction inheritors with
  | nil => exact Sends.pure _
  | cons node nodes ih =>
    refine Sends.ite ih ?_
    refine Sends.bind (Sends.issue (.cascade (cascadeUpdates_content updates old node))) fun _ => ?_
    exact Sends.bind ih fun _ => Sends.pure _

theorem keepsTo_updateSharedPropertyType (ctx : Ctx) (rid : String) (updates : Dict) :
    KeepsTo G ⟨ctx, .update .sharedPropertyType rid updates⟩ (updateSharedPropertyType ctx rid updates) := by
  refine Sends.bind (keepsTo_read rfl) fun oldNode => ?_
  refine Sends.bind (keepsTo_updateEntity ⟨ctx, _⟩ _ _ id) fun result => ?_
  exact Sends.bind (keepsTo_cascade _) fun _ => Sends.pure _

variable (call) in
theorem keepsTo_deleteEntity (label : Label) (rid : String) :
    KeepsTo G call (deleteEntity call.ctx label rid) := by
  refine Sends.bind (reads_checkDeleteDependencies _ _ _).keepsTo fun _ => ?_
  refine Sends.bind (reads_requireLock _ _).keepsTo fun _ => ?_
  refine Prog.Meets.bind (Prog.Meets.perform (.quiet rfl)) fun active hactive => ?_
  cases active with
  | some active =>
    obtain ⟨good, key⟩ := hactive active rfl
    refine Sends.bind (Sends.issue (.clone good key ?_ ?_)) fun _ => Sends.pure _
    · exact deletionProps_guarded _ _
    · intro _
      exact clonedFrom_deletionProps _ _
  | none =>
    refine Sends.bind (Sends.issue .dropDraft) fun deleted => Sends.ite (Sends.pure _) ?_
    exact Sends.bind (Sends.issue .dropStaging) fun _ => Sends.pure _

theorem keepsTo_createPropertyType (ctx : Ctx) (parentRid : String) (parentLabel : Label)
    (props : Dict) :
    KeepsTo G ⟨ctx, .createPropertyType parentRid parentLabel props⟩
      (createPropertyType ctx parentRid parentLabel props) := by
  refine Sends.bind (reads_requireLock _ _).keepsTo fun _ => ?_
  refine Sends.bind (keepsTo_read rfl) fun existing => Sends.ite (Sends.throw _) ?_
  refine Sends.bind (Sends.issue (.new rfl)) fun node => ?_
  refine Sends.bind (Sends.issue .belongsTo) fun _ => ?_
  dsimp only
  split
  · exact Sends.bind (Sends.issue .basedOn) fun _ => Sends.pure _
  · exact Sends.bind (Sends.pure _) fun _ => Sends.pure _

theorem keepsTo_submitToStaging (ctx : Ctx) (label : Label) (rid : String) :
    KeepsTo G ⟨ctx, .submitToStaging label rid⟩ (submitToStaging ctx label rid) := by
  refine Sends.bind (keepsTo_read rfl) fun draft => ?_
  cases draft with
  | none => exact Sends.throw _
  | some _ =>
    refine Sends.bind (Sends.issue .submit) fun node => ?_
    cases node with
    | none => exact Sends.throw _
    | some node => exact Sends.bind (keepsTo_read rfl) fun _ => Sends.pure _

variable (call) in
theorem keepsTo_discardDraft (label : Label) (rid : String) :
    KeepsTo G call (discardDraft call.ctx label rid) := by
  refine Sends.bind (Sends.issue .dropDraft) fun deleted => ?_
  exact Sends.ite (keepsTo_read rfl) (Sends.throw _)

theorem keepsTo_discardStaging (ctx : Ctx) (label : Label) (rid : String) :
    KeepsTo G ⟨ctx, .discardStaging label rid⟩ (discardStaging ctx label rid) := by
  refine Sends.bind (keepsTo_read rfl) fun active => ?_
  cases active with
  | some _ =>
    refine Sends.bind (Sends.issue .dropStaging) fun deleted => ?_
    exact Sends.ite (Sends.pure _) (Sends.throw _)
  | none =>
    refine Sends.bind (keepsTo_read rfl) fun staging => ?_
    cases staging with
    | none => exact Sends.throw _
    | some _ => exact Sends.bind (Sends.issue .unstage) fun _ => Sends.pure _

variable (call) in
theorem keepsTo_discardAllStaging : KeepsTo G call (discardAllStaging call.ctx) := by
  refine Sends.bind (keepsTo_read rfl) fun nodes => ?_
  induction nodes with
  | nil => exact Sends.pure _
  | cons node nodes ih =>
    refine Sends.ite ih ?_
    exact Sends.bind (Sends.issue .dropStaging) fun _ => Sends.bind ih fun _ => Sends.pure _

theorem meets_setActivePointer (tenantId snapshotId : String) :
    (setActivePointer tenantId snapshotId).Meets (fun c => c.quiet = true) (fun _ _ => True)
      (PgWrite.PointsTo tenantId snapshotId) := by
  refine Prog.Meets.bind (reads_issue rfl) fun existing _ => ?_
  refine Prog.Meets.bind (reads_issue rfl) fun _ _ => ?_
  simp only [pure_eq, Prog.Meets]
  split
  · exact .inr rfl
  · exact .inl rfl

theorem meets_createSnapshot (snapshot : Snapshot) :
    (createSnapshot snapshot).Meets (fun c => c.quiet = true) (fun _ _ => True)
      (· = .insertSnapshot snapshot) :=
  Prog.Meets.bind (reads_issue rfl) fun _ _ => rfl

theorem reads_onSchemaPublished (tenantId snapshotId : String) :
    Reads (onSchemaPublished tenantId snapshotId) := by
  refine Sends.bind (Sends.issue rfl) fun found => ?_
  refine Sends.bind ?_ fun _ => Sends.issue rfl
  induction found with
  | nil => exact Sends.pure _
  | cons keys found ih => exact Sends.ite ih (Sends.bind (Sends.issue rfl) fun _ => ih)

theorem reads_entityChangesLoop (tenantId : String) (nodes : List Node)
    (changes : String → Option Change) : Reads (entityChangesLoop tenantId nodes changes) := by
  induction nodes generalizing changes with
  | nil => exact Sends.pure _
  | cons node nodes ih => exact Sends.ite (Sends.bind (Sends.issue rfl) fun _ => ih _) (ih _)

theorem keepsTo_promote (ctx : Ctx) (m : Option String) :
    KeepsTo G ⟨ctx, .commitStaging m⟩ (promoteStagingToActive ctx.tenantId ctx.snapshotId) := by
  refine Sends.bind (Sends.issue .deactivateStaged) fun _ => ?_
  refine Sends.bind (Sends.issue .promoteStaged) fun _ => ?_
  exact Sends.bind (Sends.issue .cleanupDeleted) fun _ => Sends.pure _

theorem keepsTo_commitStagingWith (maxRetries : ℕ) (ctx : Ctx) (m : Option String) :
    KeepsTo G ⟨ctx, .commitStaging m⟩ (commitStagingWith maxRetries ctx m) := by
  refine Sends.bind (keepsTo_read rfl) fun acquired => Sends.ite ?_ (Sends.throw _)
  refine Prog.Meets.tryFinally ?_ (keepsTo_read rfl)
  refine Sends.bind (keepsTo_read rfl) fun nodes => Sends.ite (Sends.throw _) ?_
  refine Sends.bind (reads_entityChangesLoop _ _ _).keepsTo fun changes => ?_
  refine Sends.bind (keepsTo_read rfl) fun parent => ?_
  refine Prog.Meets.bind (meets_of_quiet (meets_createSnapshot _)) fun inserted hi => ?_
  subst hi
  refine Sends.bind (Sends.retry (keepsTo_promote ctx m) _) fun _ => ?_
  refine Prog.Meets.bind (meets_of_quiet (meets_setActivePointer _ _)) fun pointed hp => ?_
  refine Sends.bind (Sends.issue (.publish rfl rfl hp)) fun _ => ?_
  exact Sends.bind (reads_onSchemaPublished _ _).keepsTo fun _ => Sends.pure _

theorem keepsTo_rollbackToSnapshot (ctx : Ctx) (snapshotId : String) :
    KeepsTo G ⟨ctx, .rollbackToSnapshot snapshotId⟩ (rollbackToSnapshot ctx snapshotId) := by
  refine Sends.bind (keepsTo_read rfl) fun hasChanges => Sends.ite (Sends.throw _) ?_
  refine Sends.bind (keepsTo_read rfl) fun snap => ?_
  cases snap with
  | none => exact Sends.throw _
  | some snap =>
    refine Sends.bind (keepsTo_read rfl) fun pointer => ?_
    refine Sends.bind (Sends.bind (Sends.issue .deactivateSnapshot) fun _ =>
      Sends.issue .reactivateSnapshot) fun _ => ?_
    refine Prog.Meets.bind (meets_of_quiet (meets_setActivePointer _ _)) fun pointed hp => ?_
    exact Sends.bind (Sends.issue (.repoint hp)) fun _ => Sends.pure _

end Methods

/-- Every call keeps to its list. -/
theorem keepsTo_service (G : Node → Prop) (call : Call) : KeepsTo G call (service call) := by
  obtain ⟨ctx, op⟩ := call
  cases op with
  | create type props =>
    refine Sends.map _ ?_
    cases type with
    | interfaceType =>
      refine Sends.bind (reads_checkInterfaceCycle _ _ _ _).keepsTo fun _ => ?_
      exact keepsTo_createEntity ⟨ctx, _⟩ _ props rfl
    | _ => exact keepsTo_createEntity ⟨ctx, _⟩ _ props rfl
  | update type rid updates =>
    refine Sends.map _ ?_
    cases type with
    | interfaceType => exact keepsTo_updateInterfaceType ⟨ctx, _⟩ rid id
    | sharedPropertyType => exact keepsTo_updateSharedPropertyType ctx rid updates
    | _ => exact keepsTo_updateEntity ⟨ctx, _⟩ _ rid id
  | delete type rid => cases type <;> exact Sends.map _ (keepsTo_deleteEntity ⟨ctx, _⟩ _ rid)
  | createPropertyType parentRid parentLabel props =>
    exact Sends.map _ (keepsTo_createPropertyType ctx parentRid parentLabel props)
  | acquireLock rid => exact Sends.map _ (reads_acquireLock ctx rid).keepsTo
  | releaseLock rid => exact Sends.map _ (reads_releaseLock ctx rid).keepsTo
  | refreshLock rid => exact Sends.map _ (reads_refreshLock ctx rid).keepsTo
  | submitToStaging label rid => exact Sends.map _ (keepsTo_submitToStaging ctx label rid)
  | discardDraft label rid => exact Sends.map _ (keepsTo_discardDraft ⟨ctx, _⟩ label rid)
  | discardStaging label rid => exact Sends.map _ (keepsTo_discardStaging ctx label rid)
  | discardAllStaging => exact Sends.map _ (keepsTo_discardAllStaging ⟨ctx, _⟩)
  | commitStaging m => exact Sends.map _ (keepsTo_commitStagingWith _ ctx m)
  | rollbackToSnapshot snapshotId => exact Sends.map _ (keepsTo_rollbackToSnapshot ctx snapshotId)

end Lingshu.Ontology
