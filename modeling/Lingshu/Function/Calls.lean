import Lingshu.Function.Service
import Lingshu.Interaction.Until

/-! # Calls of the Function service

A call is a method with its arguments and its surroundings; the background task that a call schedules is the
rest of its program. What each piece of the service may issue. -/
namespace Lingshu.Function
open Json Data Interaction Interaction.Prog
set_option autoImplicit false

variable (rt : Runtime)

inductive Op where
  | executeAction (actionTypeRid : String) (params : Assoc Value) (branch : Option String) (skipConfirmation : Bool)
  | executeActionBatch (actionTypeRid : String) (batchParams : List (Assoc Value)) (branch : Option String)
      (skipConfirmation : Bool)
  | executeActionAsync (actionTypeRid : String) (params : Assoc Value) (branch : Option String)
      (skipConfirmation : Bool)
  | confirmExecution (executionId : String)
  | cancelExecution (executionId : String)
  | executeToolCall (toolName : String) (toolArgs : Assoc Value) (capabilities : List CapabilityDescriptor)
  deriving DecidableEq

structure Call where
  ctx : Ctx
  op : Op
  deriving DecidableEq

inductive Reply where
  | execution (response : ExecutionResponse)
  | batch (response : BatchResponse)
  | tool (result : Value)

def service (call : Call) : Program Reply :=
  match call.op with
  | .executeAction rid params branch skip => .execution <$> executeAction rt call.ctx rid params branch skip
  | .executeActionBatch rid batch branch skip => .batch <$> executeActionBatch rt call.ctx rid batch branch skip
  | .executeActionAsync rid params branch skip => do
    let (response, task) ← executeActionAsync call.ctx rid params branch skip
    executeAsyncBackground rt task
    return .execution response
  | .confirmExecution id => .execution <$> confirmExecution rt call.ctx id
  | .cancelExecution id => .execution <$> cancelExecution call.ctx id
  | .executeToolCall name args capabilities => .tool <$> executeToolCall name args capabilities

/-- What changes outside: time passes, the other services and the tables change. -/
inductive Outside (World : Type) where
  | elapse (time : Time)
  | world (w : World)

def backend {World : Type} (env : Env World) : System Cmd Ans Exc (State World) Reply Call (Outside World) where
  handler := exec env
  program := service rt
  env v s :=
    match v with
    | .elapse time => { s with clock := s.clock + time }
    | .world w => { s with world := w }

/-! ## What the pieces may issue -/

/-- Readings of the ontology and of tables. -/
def Cmd.reads : Cmd → Bool
  | .getObjectType _ _ | .getPropertyTypes _ _ | .getAssetMapping _ _ | .hasConnector _ | .getRow _ _ _ _ => true
  | _ => false

/-- The commands that do not touch the `executions` table. -/
def Cmd.external : Cmd → Bool
  | .createExecution _ | .getExecution _ _ | .updateStatus _ _ _ => false
  | _ => true

/-- The commands of `write_editlog`. -/
def Cmd.writesBack : Cmd → Bool
  | .uuid4 | .now | .commit | .insertEditLog _ => true
  | _ => false

theorem Cmd.external_of_writesBack {c : Cmd} (h : c.writesBack = true) : c.external = true := by
  cases c <;> first | rfl | cases h

theorem Cmd.external_of_reads {c : Cmd} (h : c.reads = true) : c.external = true := by
  cases c <;> first | rfl | cases h

section Pieces
variable {α β : Type} {Pre : Cmd → Prop} {Post : (c : Cmd) → Ans c → Prop}

/-- A program that issues only commands in `Pre`, if the answers are in `Post`. -/
abbrev Keeps (Pre : Cmd → Prop) (Post : (c : Cmd) → Ans c → Prop) (p : Program α) : Prop :=
  p.Meets Pre Post (fun _ => True)

theorem Keeps.perform {c : Cmd} (h : Pre c) : Keeps Pre Post (perform c) :=
  (Prog.Meets.perform h).mono (fun _ hc => hc) (fun _ _ ha => ha) fun _ _ => trivial

theorem Keeps.bind {p : Program α} {f : α → Program β} (hp : Keeps Pre Post p) (hf : ∀ a, Keeps Pre Post (f a)) :
    Keeps Pre Post (p >>= f) := Prog.Meets.bind hp fun a _ => hf a

theorem Keeps.ofExcept (r : Except Exc α) : Keeps Pre Post (ofExcept r) := by
  cases r <;> trivial

theorem Keeps.access (r : Except AccessError α) : Keeps Pre Post (access r) := Keeps.ofExcept _

theorem Keeps.forEach {xs : List α} {acc : β} {f : β → α → Program β} (hf : ∀ acc x, Keeps Pre Post (f acc x)) :
    Keeps Pre Post (forEach xs acc f) := by
  induction xs generalizing acc with
  | nil => trivial
  | cons x xs ih => exact Keeps.bind (hf acc x) fun acc' => ih

section Reads
variable (hread : ∀ c : Cmd, c.reads = true → Pre c)
include hread

theorem keeps_queryInstance (schema : SchemaInfo) (connRid tablePath : String) (primaryKey : Value) :
    Keeps Pre Post (queryInstance schema connRid tablePath primaryKey) := by
  refine Keeps.bind (Keeps.access _) fun entries => ?_
  refine Keeps.bind (Keeps.perform (hread _ rfl)) fun row => ?_
  rcases row with _ | _ | _ <;> trivial

theorem keeps_getInstance (typeRid : Value) (tenantId : String) (primaryKey : Value) :
    Keeps Pre Post (getInstance rt typeRid tenantId primaryKey) := by
  refine Keeps.bind (Keeps.perform (hread _ rfl)) fun propertyTypes => ?_
  refine Keeps.bind (Keeps.perform (hread _ rfl)) fun assetMapping => ?_
  dsimp only
  split
  · trivial
  · refine Keeps.bind (Keeps.perform (hread _ rfl)) fun connected => ?_
    split
    · refine Keeps.bind (keeps_queryInstance hread _ _ _ _) fun row => ?_
      rcases row with _ | _ | _ <;> trivial
    · trivial

theorem keeps_load (ctx : Ctx) (actionTypeRid : String) : Keeps Pre Post (load ctx actionTypeRid) := by
  refine Keeps.bind (Keeps.perform (hread _ rfl)) fun node => ?_
  rcases node with _ | _ | _
  · trivial
  · trivial
  · exact Keeps.access _

theorem keeps_resolveParam (ctx : Ctx) (rawParams : Assoc Value) (resolved : ResolvedParams) (paramDef : Value) :
    Keeps Pre Post (resolveParam rt ctx rawParams resolved paramDef) := by
  refine Keeps.bind (Keeps.access _) fun apiName => ?_
  refine Keeps.bind (Keeps.access _) fun required => ?_
  refine Keeps.bind (Keeps.access _) fun raw => ?_
  split
  · split <;> trivial
  · refine Keeps.bind (Keeps.ofExcept _) fun type => ?_
    cases type with
    | none => trivial
    | some typeRid =>
      refine Keeps.bind (Keeps.bind (Keeps.ofExcept _) fun primaryKey => ?_) fun row => trivial
      refine Keeps.bind (keeps_getInstance rt hread _ _ _) fun row => ?_
      cases row <;> trivial

theorem keeps_resolve (ctx : Ctx) (paramDefs : Value) (rawParams : Assoc Value) :
    Keeps Pre Post (resolve rt ctx paramDefs rawParams) :=
  Keeps.bind (Keeps.access _) fun _ => Keeps.forEach fun _ _ => keeps_resolveParam rt hread _ _ _ _

end Reads

section WriteBack
variable (hwrite : ∀ c : Cmd, c.writesBack = true → Pre c)
include hwrite

theorem keeps_writeEditlog (ctx : Ctx) (typeRid primaryKey operation fieldValues : Value)
    (actionTypeRid : Option String) (branch : String) :
    Keeps Pre Post (writeEditlog rt ctx typeRid primaryKey operation fieldValues actionTypeRid branch) := by
  refine Keeps.bind (Keeps.perform (hwrite _ rfl)) fun entryId => ?_
  refine Keeps.bind (Keeps.perform (hwrite _ rfl)) fun createdAt => ?_
  split
  · refine Keeps.bind (Keeps.perform (hwrite _ rfl)) fun _ => ?_
    exact Keeps.bind (Keeps.perform (hwrite _ rfl)) fun _ => trivial
  · trivial

theorem keeps_writeBack (ctx : Ctx) (result : EngineResult) (instances : Assoc Row) (actionTypeRid : String)
    (branch : Option String) (results : List Value) (output : Value) :
    Keeps Pre Post (writeBack rt ctx result instances actionTypeRid branch results output) := by
  refine Keeps.bind (Keeps.access _) fun writeback => ?_
  split
  · refine Keeps.bind (Keeps.access _) fun targetParam => ?_
    refine Keeps.bind (Keeps.access _) fun operation => ?_
    refine Keeps.bind (Keeps.access _) fun outputName => ?_
    refine Keeps.bind (Keeps.access _) fun computed => ?_
    refine Keeps.bind (Keeps.access _) fun row => ?_
    rcases row with _ | _ | _
    · trivial
    · trivial
    · exact Keeps.bind (keeps_writeEditlog rt hwrite _ _ _ _ _ _ _) fun _ => trivial
  · trivial

theorem keeps_processWriteback (ctx : Ctx) (outputs : Value) (result : EngineResult) (instances : Assoc Row)
    (actionTypeRid : String) (branch : Option String) :
    Keeps Pre Post (processWriteback rt ctx outputs result instances actionTypeRid branch) :=
  Keeps.bind (Keeps.access _) fun _ => Keeps.forEach fun _ _ => keeps_writeBack rt hwrite _ _ _ _ _ _ _

/-- What `runAction` does with the result of the engine. -/
theorem keeps_finishAction (ctx : Ctx) (action : ActionDefinition) (resolved : ResolvedParams)
    (actionTypeRid : String) (branch : Option String) (result : EngineResult) :
    Keeps Pre Post (finishAction rt ctx action resolved actionTypeRid branch result) := by
  refine Keeps.bind (Keeps.access _) fun outputs => ?_
  refine Keeps.bind (Keeps.access _) fun any => ?_
  split
  · exact Keeps.bind (keeps_processWriteback rt hwrite _ _ _ _ _ _) fun written => trivial
  · trivial

end WriteBack

/-- Stages 4 and 4.5, if the engine may be used. -/
theorem keeps_runAction (hext : ∀ c : Cmd, c.external = true → Pre c) (ctx : Ctx) (action : ActionDefinition)
    (resolved : ResolvedParams) (actionTypeRid : String) (branch : Option String) :
    Keeps Pre Post (runAction rt ctx action resolved actionTypeRid branch) := by
  have hengine : Keeps Pre Post (executeEngine rt action.execution resolved.values resolved.instances) := by
    refine Keeps.bind (Keeps.access _) fun execType => ?_
    split
    · refine Keeps.bind (Keeps.access _) fun config => ?_
      exact Keeps.bind (Keeps.perform (hext _ rfl)) fun handle => Keeps.perform (hext _ rfl)
    · trivial
  refine Keeps.bind hengine fun result => ?_
  exact keeps_finishAction rt (fun c hc => hext c (Cmd.external_of_writesBack hc)) _ _ _ _ _ _

end Pieces

end Lingshu.Function
