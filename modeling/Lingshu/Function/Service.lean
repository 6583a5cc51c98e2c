import Lingshu.Function.Actions

/-! # Function service

`FunctionServiceImpl`: one execution with its write-back, batches, background executions, confirmation and
cancellation; and the tool call of the Copilot agent. -/
namespace Lingshu.Function
open Json Data Interaction Interaction.Prog
set_option autoImplicit false

variable (rt : Runtime)

/-- `CONFIRMATION_TTL`, ten minutes. -/
def confirmationTtl : Time := 600000000

/-! ## Audit log -/

def logStart (ctx : Ctx) (executionId capabilityRid : String) (status : Status) (params : Assoc Value)
    (safetyLevel sideEffects : Value) (branch : Option String) : Program Unit :=
  perform (.createExecution
    { executionId, tenantId := ctx.tenantId, capabilityType := "action", capabilityRid, status, params,
      safetyLevel, sideEffects, userId := ctx.userId, branch })

def logComplete (ctx : Ctx) (executionId : String) (status : Status) (result : Option Value)
    (confirmedBy : Option String) : Program Unit := do
  let completedAt ← perform .now
  perform (.updateStatus executionId ctx.tenantId { status, result, completedAt := some completedAt, confirmedBy })

/-- `f"exec_{uuid.uuid4().hex[:12]}"`. -/
def executionIdOf (hex : String) : String := "exec_" ++ String.ofList (hex.toList.take 12)

/-! ## Engine and write-back -/

/-- `_execute_engine`. -/
def executeEngine (executionConfig : Value) (params : Assoc Value) (instances : Assoc Row) :
    Program EngineResult := do
  let execType ← access (executionConfig.get "type" (.str "native_crud"))
  match EngineType.ofValue execType with
  | some t =>
    let config ← access (executionConfig.get t.configKey (.dict []))
    let handle ← perform (.invoke ⟨t, config, params, instances⟩)
    perform (.await handle)
  | none => raise .functionExecutionFailed ("Unsupported engine type: " ++ rt.python.str execType)

/-- `any(o.get("writeback", False) for o in outputs_config)`. -/
def anyWriteback : List Value → Except AccessError Bool
  | [] => .ok false
  | o :: os => do
    if (← o.get "writeback" (.bool false)).truthy then return true
    anyWriteback os

/-- `computed_values.get(output_name, {})`. -/
def computedFor (result : EngineResult) (outputName : Value) : Except AccessError Value := do
  match ← outputName.key with
  | some name => return (result.computedValues.lookup name).getD (.dict [])
  | none => return .dict []

/-- `instances.get(target_param)`. -/
def instanceFor (instances : Assoc Row) (targetParam : Value) : Except AccessError (Option Row) := do
  match ← targetParam.key with
  | some name => return instances.lookup name
  | none => return none

/-- `branch or "main"`. -/
def branchOrMain : Option String → String
  | none | some "" => "main"
  | some branch => branch

/-- The body of the loop of `_process_writeback`. -/
def writeBack (ctx : Ctx) (result : EngineResult) (instances : Assoc Row) (actionTypeRid : String)
    (branch : Option String) (results : List Value) (output : Value) : Program (List Value) := do
  let writeback ← access (output.get "writeback" (.bool false))
  if writeback.truthy then
    let targetParam ← access (output.get "target_param" (.str ""))
    let operation ← access (output.get "operation" (.str "update"))
    let outputName ← access (output.get "name" (.str ""))
    let computed ← access (computedFor result outputName)
    let row ← access (instanceFor instances targetParam)
    match row with
    | none | some [] => return results
    | some row =>
      let typeRid := (row.lookup "_type_rid").getD (.str "")
      let primaryKey := (row.lookup "_primary_key").getD (.dict [])
      let entryId ← writeEditlog rt ctx typeRid primaryKey operation computed (some actionTypeRid)
        (branchOrMain branch)
      return results ++ [.dict [("output", outputName), ("entry_id", .str entryId), ("operation", operation),
        ("target_param", targetParam)]]
  else return results

/-- `_process_writeback`, with a data service that has `write_editlog`. -/
def processWriteback (ctx : Ctx) (outputs : Value) (result : EngineResult) (instances : Assoc Row)
    (actionTypeRid : String) (branch : Option String) : Program (List Value) := do
  let outputs ← access outputs.elems
  forEach outputs [] (writeBack rt ctx result instances actionTypeRid branch)

/-- Stage 4.5: the write-back of the outputs, if one asks for it. -/
def finishAction (ctx : Ctx) (action : ActionDefinition) (resolved : ResolvedParams) (actionTypeRid : String)
    (branch : Option String) (result : EngineResult) : Program (EngineResult × List Value) := do
  let outputs ← access action.outputs.elems
  if ← access (anyWriteback outputs) then
    let written ← processWriteback rt ctx action.outputs result resolved.instances actionTypeRid branch
    return (result, written)
  else return (result, [])

/-- Stages 4 and 4.5. -/
def runAction (ctx : Ctx) (action : ActionDefinition) (resolved : ResolvedParams) (actionTypeRid : String)
    (branch : Option String) : Program (EngineResult × List Value) := do
  let result ← executeEngine rt action.execution resolved.values resolved.instances
  finishAction rt ctx action resolved actionTypeRid branch result

/-! ## One execution -/

/-- Stage 5. -/
def recordSuccess (ctx : Ctx) (executionId actionTypeRid : String) (params : Assoc Value)
    (action : ActionDefinition) (branch : Option String) (skipConfirmation : Bool)
    (ran : EngineResult × List Value) : Program ExecutionResponse := do
  logStart ctx executionId actionTypeRid .success params action.safetyLevel action.sideEffects branch
  let result := Value.dict ([("data", ran.1.data), ("computed_values", .dict ran.1.computedValues)] ++
    if ran.2 = [] then [] else [("writeback", .list ran.2)])
  logComplete ctx executionId .success (some result) (if skipConfirmation then some "copilot_interrupt" else none)
  perform .commit
  let startedAt ← perform .now
  let completedAt ← perform .now
  return { executionId, status := .success, result := some result, startedAt := some startedAt,
           completedAt := some completedAt }

def confirmationOf (executionId : String) (action : ActionDefinition) (decision : SafetyDecision) : Value :=
  .dict [
    ("message", match decision.message with
      | some message => .str message
      | none => .null),
    ("safety_level", action.safetyLevel),
    ("affected_outputs", .list decision.affectedOutputs),
    ("side_effects", decision.sideEffects),
    ("confirm_url", .str ("/function/v1/executions/" ++ executionId ++ "/confirm")),
    ("cancel_url", .str ("/function/v1/executions/" ++ executionId ++ "/cancel"))]

def executeAction (ctx : Ctx) (actionTypeRid : String) (params : Assoc Value) (branch : Option String)
    (skipConfirmation : Bool) : Program ExecutionResponse := do
  let executionId := executionIdOf (← perform .uuid4)
  let action ← load ctx actionTypeRid
  let resolved ← resolve rt ctx action.parameters params
  let decision ← access (check action.safetyLevel action.outputs action.sideEffects skipConfirmation)
  if decision.requiresConfirmation then
    logStart ctx executionId actionTypeRid .pendingConfirmation params action.safetyLevel action.sideEffects branch
    perform .commit
    let startedAt ← perform .now
    return { executionId, status := .pendingConfirmation, startedAt := some startedAt,
             confirmation := some (confirmationOf executionId action decision) }
  else
    let ran ← runAction rt ctx action resolved actionTypeRid branch
    recordSuccess ctx executionId actionTypeRid params action branch skipConfirmation ran

/-! ## Batches -/

def BatchResponse.add (b : BatchResponse) (item : BatchItem) : BatchResponse :=
  { b with
    successCount := if item.status = .success then b.successCount + 1 else b.successCount
    failureCount := if item.status = .success then b.failureCount else b.failureCount + 1
    results := b.results ++ [item] }

/-- One item of a batch: an `AppError` is reported, any other exception is raised. -/
def executeItem (ctx : Ctx) (actionTypeRid : String) (branch : Option String) (skipConfirmation : Bool)
    (index : ℕ) (params : Assoc Value) : Program BatchItem :=
  Prog.tryCatch
    (do
      let r ← executeAction rt ctx actionTypeRid params branch skipConfirmation
      return { index, status := r.status, executionId := some r.executionId })
    fun e => match e with
      | .app _ message => .pure { index, status := .failed, error := some message }
      | e => .throw e

def executeActionBatch (ctx : Ctx) (actionTypeRid : String) (batchParams : List (Assoc Value))
    (branch : Option String) (skipConfirmation : Bool) : Program BatchResponse :=
  forEach batchParams ⟨batchParams.length, 0, 0, []⟩ fun response params => do
    let item ← executeItem rt ctx actionTypeRid branch skipConfirmation response.results.length params
    return response.add item

/-! ## Background executions -/

/-- The arguments of `_execute_async_background`. -/
structure BackgroundTask where
  ctx : Ctx
  executionId : String
  actionTypeRid : String
  params : Assoc Value
  branch : Option String
  skipConfirmation : Bool
  deriving DecidableEq

/-- The answer, and the task that `asyncio.create_task` has scheduled. -/
def executeActionAsync (ctx : Ctx) (actionTypeRid : String) (params : Assoc Value) (branch : Option String)
    (skipConfirmation : Bool) : Program (ExecutionResponse × BackgroundTask) := do
  let executionId := executionIdOf (← perform .uuid4)
  logStart ctx executionId actionTypeRid .running params (.str "unknown") (.list []) branch
  perform .commit
  let startedAt ← perform .now
  return ({ executionId, status := .running, startedAt := some startedAt },
    ⟨ctx, executionId, actionTypeRid, params, branch, skipConfirmation⟩)

/-- `_execute_async_background`. Its own `skip_confirmation` is not what it passes on. -/
def executeAsyncBackground (task : BackgroundTask) : Program Unit :=
  Prog.tryCatch
    (do
      let r ← executeAction rt task.ctx task.actionTypeRid task.params task.branch true
      let completedAt ← perform .now
      perform (.updateStatus task.executionId task.ctx.tenantId
        { status := .success, result := r.result, completedAt := some completedAt })
      perform .commit)
    fun e => Prog.tryCatch
      (do
        let completedAt ← perform .now
        perform (.updateStatus task.executionId task.ctx.tenantId
          { status := .failed, result := some (.dict [("error", .str (rt.text e))]), completedAt := some completedAt })
        perform .commit)
      fun _ => .pure ()

/-! ## Confirm, cancel -/

/-- The execution, if it is pending. -/
def pendingExecution (ctx : Ctx) (executionId : String) : Program Execution := do
  let execution ← perform (.getExecution executionId ctx.tenantId)
  match execution with
  | none => raise .functionNotFound ("Execution " ++ executionId ++ " not found")
  | some x =>
    if x.status = .pendingConfirmation then return x
    else raise .commonInvalidInput ("Execution " ++ executionId ++ " is not pending confirmation")

/-- The expiry check of `confirm_execution`. -/
def checkExpiry (ctx : Ctx) (executionId : String) : Option Time → Program Unit
  | none => .pure ()
  | some startedAt => do
    let now ← perform .now
    if startedAt + confirmationTtl < now then
      logComplete ctx executionId .expired none none
      perform .commit
      raise .functionConfirmationExpired "Confirmation window has expired"

/-- The rest of `confirm_execution` for an execution that was found pending. -/
def confirmPending (ctx : Ctx) (executionId : String) (x : Execution) : Program ExecutionResponse := do
  checkExpiry ctx executionId x.startedAt
  let r ← executeAction rt ctx x.capabilityRid x.params x.branch true
  let completedAt ← perform .now
  let confirmedAt ← perform .now
  perform (.updateStatus executionId ctx.tenantId
    { status := .success, result := some (.dict [("delegated_to", .str r.executionId)]),
      completedAt := some completedAt, confirmedAt := some confirmedAt, confirmedBy := some "user" })
  perform .commit
  return r

def confirmExecution (ctx : Ctx) (executionId : String) : Program ExecutionResponse := do
  let x ← pendingExecution ctx executionId
  confirmPending rt ctx executionId x

/-- The rest of `cancel_execution`. -/
def cancelPending (ctx : Ctx) (executionId : String) : Program ExecutionResponse := do
  logComplete ctx executionId .cancelled none none
  perform .commit
  let completedAt ← perform .now
  return { executionId, status := .cancelled, completedAt := some completedAt }

def cancelExecution (ctx : Ctx) (executionId : String) : Program ExecutionResponse := do
  let _ ← pendingExecution ctx executionId
  cancelPending ctx executionId

/-! ## Tool calls of the Copilot agent -/

/-- What `execute_tool_call` reads of a capability. -/
structure CapabilityDescriptor where
  apiName : String
  type : String
  rid : String
  deriving DecidableEq, Repr

/-- `execute_tool_call`. Neither call passes the `session` that both methods require. -/
def executeToolCall (toolName : String) (_toolArgs : Assoc Value) (capabilities : List CapabilityDescriptor) :
    Program Value :=
  match capabilities.find? fun c => c.apiName = toolName with
  | none => .pure (.dict [("error", .str ("Unknown tool: " ++ toolName))])
  | some cap =>
    if cap.type = "action" ∨ cap.type = "function" then .throw (.access .typeError)
    else .pure (.dict [("error", .str ("Unsupported capability type: " ++ cap.type))])

end Lingshu.Function
