import Lingshu.Function.Actions
import Lingshu.Ontology.Runs
import Lingshu.Ontology.Lifecycle

/-! # Loading a published action

The loader asks the ontology for the action through `get_object_type`, which looks among the Active nodes labelled
ObjectType. A rid belongs to one label, so the rid of an ActionType is never found there. -/
namespace Lingshu.Function
open Json Interaction
set_option autoImplicit false

/-! ## The ontology behind the loader -/

/-- The properties that have a constructor of their own; the loader reads no others. -/
def namedFields : List Ontology.Field :=
  [.rid, .tenantId, .apiName, .displayName, .description, .lifecycleStatus, .isDraft, .isStaging, .isActive, .snapshotId,
    .parentSnapshotId, .draftOwner, .createdAt, .updatedAt, .dataType, .category, .cardinality, .safetyLevel, .widget,
    .validation, .compliance, .parameters, .execution, .sideEffects, .linkRequirements, .objectConstraint, .assetMapping,
    .entityValidation, .implementsInterfaceTypeRids, .primaryKeyPropertyTypeRids, .extendsInterfaceTypeRids,
    .requiredSharedPropertyTypeRids, .sourceObjectTypeRid, .sourceInterfaceTypeRid, .targetObjectTypeRid,
    .targetInterfaceTypeRid, .inheritFromSharedPropertyTypeRid, .physicalColumn, .virtualExpression]

/-- `dict(record["n"])`: Neo4j keeps no null property. -/
def nodeDict (n : Ontology.Node) : Assoc Value :=
  namedFields.filterMap fun f => if n.props f = .null then none else some (f.name, n.props f)

/-- `get_object_type`. -/
def getObjectType (w : Ontology.World) (rid tenantId : String) : Option (Assoc Value) :=
  (w.graph.getActiveNode .objectType rid tenantId).map nodeDict

/-- Action types are asked of the ontology that is part of the world; everything else is left to `env`. -/
def Env.overOntology {World : Type} (env : Env World) (ontology : World → Ontology.World) : Env World :=
  { env with objectType := fun w rid tenantId => .ok (getObjectType (ontology w) rid tenantId) }

/-! ## What a load should return -/

/-- A property as it was before `_serialize_for_neo4j`, and the default of the loader for a null one. -/
def stored (n : Ontology.Node) (f : Ontology.Field) (default : Value) : Value :=
  if n.props f = .null then default else Ontology.deserializeFromNeo4j n.props f

/-- The definition has the parts that are stored in the node. -/
structure ActionDefinition.Matches (d : ActionDefinition) (n : Ontology.Node) : Prop where
  parameters : d.parameters = stored n .parameters (.list [])
  execution : d.execution = stored n .execution (.dict [])
  outputs : extractOutputs (stored n .execution (.dict [])) = .ok d.outputs
  safetyLevel : d.safetyLevel = stored n .safetyLevel (.str "SAFETY_READ_ONLY")

/-- `load` returns the action of the node. -/
def Loads {World : Type} (env : Env World) (s : State World) (ctx : Ctx) (n : Ontology.Node) : Prop :=
  ∃ d : ActionDefinition, ((load ctx n.rid).run (exec env) s).1 = .ok d ∧ d.Matches n

/-! ## No action type is an object type -/

section Lookup
variable {World : Type} {calls : List Ontology.Call} {w : Ontology.World} {n : Ontology.Node}

/-- The rid of an ActionType is not the rid of an ObjectType. -/
theorem getActiveNode_objectType (hw : w.Sound calls) (hn : n ∈ w.graph.nodes) (hlabel : n.label = .actionType)
    (tenantId : String) : w.graph.getActiveNode .objectType n.rid tenantId = none := by
  refine List.find?_eq_none.mpr fun m hm hfound => ?_
  have hkeyed := (Bool.and_eq_true_iff.mp hfound).1
  obtain ⟨hobject, hrid, _⟩ := Ontology.Node.keyed_iff.mp hkeyed
  have hsame : m.props .rid = n.props .rid := hrid.trans (hw.nodes n hn).rid.symm
  have hne := (hw.nodes m hm).label_eq (hw.nodes n hn) hsame
  rw [hobject, hlabel] at hne
  cases hne

theorem getObjectType_actionType (hw : w.Sound calls) (hn : n ∈ w.graph.nodes) (hlabel : n.label = .actionType)
    (tenantId : String) : getObjectType w n.rid tenantId = none := by
  rw [getObjectType, getActiveNode_objectType hw hn hlabel, Option.map_none]

/-- A load of what the ontology does not find raises. -/
theorem run_load_notFound {env : Env World} {s : State World} {ctx : Ctx} {rid : String}
    (h : env.objectType s.world rid ctx.tenantId = .ok none) :
    (load ctx rid).run (exec env) s =
      (.error (.app .functionNotFound ("ActionType " ++ rid ++ " not found")), s) := by
  have hask : (perform (.getObjectType rid ctx.tenantId)).run (exec env) s = (.ok none, s) := by
    rw [perform, Prog.run_perform, exec, h]
  change (Prog.bind (perform (.getObjectType rid ctx.tenantId)) _).run (exec env) s = _
  rw [Prog.run_bind, hask]
  rfl

/-- In sound stores the load of an ActionType finds nothing. -/
theorem run_load_actionType (env : Env World) {ontology : World → Ontology.World} {s : State World}
    (hs : (ontology s.world).Sound calls) (hn : n ∈ (ontology s.world).graph.nodes) (hlabel : n.label = .actionType)
    (ctx : Ctx) : (load ctx n.rid).run (exec (env.overOntology ontology)) s =
      (.error (.app .functionNotFound ("ActionType " ++ n.rid ++ " not found")), s) :=
  run_load_notFound (congrArg Except.ok (getObjectType_actionType hs hn hlabel ctx.tenantId))

/-- What raises returns no action. -/
theorem not_loads {env : Env World} {s : State World} {ctx : Ctx} {e : Exc}
    (h : (load ctx n.rid).run (exec env) s = (.error e, s)) : ¬ Loads env s ctx n := by
  rintro ⟨d, hd, _⟩
  rw [h] at hd
  cases hd

end Lookup

/-- However the calls of the ontology interleave, and whenever an action is loaded, the load of an ActionType finds
nothing. -/
theorem load_published_fails {World : Type} (env : Env World) (ontology : World → Ontology.World)
    {es : List Ontology.CallEvent} (ha : ∀ call ∈ Ontology.started es, call.op.Admitted) {s : State World}
    (hs : ontology s.world = (runFrom Ontology.concurrent.next Ontology.noCalls es).state) (ctx : Ctx)
    {n : Ontology.Node} (hn : n ∈ (ontology s.world).graph.nodes) (hlabel : n.label = .actionType) :
    ((load ctx n.rid).run (exec (env.overOntology ontology)) s).1 =
        .error (.app .functionNotFound ("ActionType " ++ n.rid ++ " not found")) ∧
      ¬ Loads (env.overOntology ontology) s ctx n := by
  have hsound := Ontology.concurrent_sound ha
  rw [← hs] at hsound
  have hload := run_load_actionType env hsound hn hlabel ctx
  exact ⟨congrArg Prod.fst hload, not_loads hload⟩

/-! ## An action that is published -/

/-- An action is created, edited, submitted and committed. -/
def publishAction : List Ontology.CallEvent :=
  Ontology.inTurn
    [⟨⟨"t", "u", "1", "a"⟩, .create .actionType [(.apiName, .str "close"), (.safetyLevel, .str "SAFETY_CRITICAL"),
        (.execution, .dict [("type", .str "native_crud")])]⟩,
      ⟨⟨"t", "u", "2", "b"⟩, .acquireLock "ri.action.a"⟩,
      ⟨⟨"t", "u", "3", "c"⟩, .update .actionType "ri.action.a" [(.parameters, .list [])]⟩,
      ⟨⟨"t", "u", "4", "d"⟩, .submitToStaging .actionType "ri.action.a"⟩,
      ⟨⟨"t", "u", "5", "s"⟩, .commitStaging none⟩]

/-- The other services of a function that has none to call. -/
def Env.alone : Env Ontology.World where
  objectType _ _ _ := .ok none
  propertyTypes _ _ _ := .ok []
  assetMapping _ _ _ := .ok none
  hasConnector _ _ := false
  row _ _ _ _ _ := .ok none
  insertEditLog _ w := (.ok (), w)
  invoke _ w := (.ok 0, w)
  await _ w := (.ok ⟨.dict [], []⟩, w)
  uuid4 w := ("", w)

/-- The stores after a run of the ontology's calls, before any execution. -/
def State.afterCalls (es : List Ontology.CallEvent) : State Ontology.World :=
  ⟨(runFrom Ontology.concurrent.next Ontology.noCalls es).state, fun _ => none, 0⟩

theorem State.afterCalls_world (es : List Ontology.CallEvent) :
    (State.afterCalls es).world = (runFrom Ontology.concurrent.next Ontology.noCalls es).state := rfl

theorem State.afterCalls_sound {es : List Ontology.CallEvent} (ha : ∀ call ∈ Ontology.started es, call.op.Admitted) :
    (State.afterCalls es).world.Sound (Ontology.started es) :=
  Ontology.concurrent_sound ha

/-- The functions share the stores of the ontology. -/
def Env.shared : Env Ontology.World := Env.alone.overOntology fun w => w

theorem not_loads_afterCalls {es : List Ontology.CallEvent} (ha : ∀ call ∈ Ontology.started es, call.op.Admitted)
    {n : Ontology.Node} (hn : n ∈ (State.afterCalls es).world.graph.nodes) (hlabel : n.label = .actionType) (ctx : Ctx) :
    ¬ Loads Env.shared (State.afterCalls es) ctx n :=
  not_loads (run_load_actionType Env.alone (State.afterCalls_sound ha) hn hlabel ctx)

theorem publishAction_admitted : ∀ call ∈ Ontology.started publishAction, call.op.Admitted := by decide

theorem publishAction_published : ∃ n ∈ (State.afterCalls publishAction).world.graph.nodes,
    n.label = .actionType ∧ n.ofTenant "t" = true ∧ n.active = true := by decide +kernel

theorem load_published_fails_publishAction : ∃ n ∈ (State.afterCalls publishAction).world.graph.nodes,
    n.active = true ∧ ((load ⟨"t", "u"⟩ n.rid).run (exec Env.shared) (State.afterCalls publishAction)).1 =
        .error (.app .functionNotFound ("ActionType " ++ n.rid ++ " not found")) ∧
      ¬ Loads Env.shared (State.afterCalls publishAction) ⟨"t", "u"⟩ n := by
  obtain ⟨n, hn, hlabel, _, hactive⟩ := publishAction_published
  exact ⟨n, hn, hactive, load_published_fails Env.alone (fun w => w) publishAction_admitted
    (State.afterCalls_world publishAction) ⟨"t", "u"⟩ hn hlabel⟩

/-- A published action is not found. -/
theorem published_not_loaded : ¬ ∀ (es : List Ontology.CallEvent), (∀ call ∈ Ontology.started es, call.op.Admitted) →
    Ontology.FreshUuids (Ontology.started es) → ∀ (ctx : Ctx) (n : Ontology.Node),
      n ∈ (State.afterCalls es).world.graph.nodes → n.label = .actionType → n.ofTenant ctx.tenantId → n.active →
        Loads Env.shared (State.afterCalls es) ctx n := by
  intro h
  obtain ⟨n, hn, hlabel, htenant, hactive⟩ := publishAction_published
  have hfresh : Ontology.FreshUuids (Ontology.started publishAction) := by
    unfold Ontology.FreshUuids
    decide
  exact not_loads_afterCalls publishAction_admitted hn hlabel _
    (h publishAction publishAction_admitted hfresh ⟨"t", "u"⟩ n hn hlabel htenant hactive)

end Lingshu.Function
