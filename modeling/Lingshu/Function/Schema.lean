import Lingshu.Data.Pipeline

/-! # Records of the Function module

Rows of the `executions` and `edit_logs` tables, what the loader, the resolver and the safety check hand on, the
responses, and the exceptions. -/
namespace Lingshu.Function
open Json Data
set_option autoImplicit false

/-- Microseconds. -/
abbrev Time : Type := ℕ

/-- `get_tenant_id()` and `get_user_id()`. -/
structure Ctx where
  tenantId : String
  userId : String
  deriving DecidableEq, Repr

/-! ## Exceptions -/

inductive ErrorCode where
  | commonInvalidInput
  | dataAssetNotMapped
  | dataSourceNotFound
  | functionNotFound
  | functionExecutionFailed
  | functionParamInvalid
  | functionParamInstanceNotFound
  | functionConfirmationExpired
  deriving DecidableEq, Repr

/-- An `AppError`, an exception of Python, one of the database, or one of a library. -/
inductive Exc where
  | app (code : ErrorCode) (message : String)
  | access (e : AccessError)
  | valueError (message : String)
  | integrityError
  | other (what : String)
  deriving DecidableEq, Repr

/-! ## Rows -/

inductive Status where
  | pendingConfirmation
  | running
  | success
  | failed
  | cancelled
  | expired
  deriving DecidableEq, Repr

/-- `models.py`; the database fills in `started_at`. -/
structure Execution where
  executionId : String
  tenantId : String
  capabilityType : String
  capabilityRid : String
  status : Status
  params : Assoc Value
  result : Option Value := none
  safetyLevel : Value
  sideEffects : Value
  userId : String
  branch : Option String
  startedAt : Option Time := none
  completedAt : Option Time := none
  confirmedAt : Option Time := none
  confirmedBy : Option String := none
  deriving DecidableEq

/-- The arguments of `update_status`; `none` leaves a column as it is. -/
structure StatusUpdate where
  status : Status
  result : Option Value := none
  completedAt : Option Time := none
  confirmedAt : Option Time := none
  confirmedBy : Option String := none
  deriving DecidableEq

def StatusUpdate.apply (u : StatusUpdate) (x : Execution) : Execution :=
  { x with
    status := u.status
    result := u.result <|> x.result
    completedAt := u.completedAt <|> x.completedAt
    confirmedAt := u.confirmedAt <|> x.confirmedAt
    confirmedBy := u.confirmedBy <|> x.confirmedBy }

@[simp] theorem StatusUpdate.apply_status (u : StatusUpdate) (x : Execution) : (u.apply x).status = u.status := rfl

@[simp] theorem StatusUpdate.apply_tenantId (u : StatusUpdate) (x : Execution) :
    (u.apply x).tenantId = x.tenantId := rfl

/-- What `__post_init__` lets through. -/
def editOperations : List Value := [.str "create", .str "update", .str "delete"]

/-- An entry holds one of the three operations. -/
structure EditLogEntry where
  entryId : String
  tenantId : String
  typeRid : Value
  primaryKey : Value
  operation : Value
  fieldValues : Value
  userId : String
  actionTypeRid : Option String
  branch : String
  createdAt : Time
  valid : operation ∈ editOperations
  deriving DecidableEq

/-! ## Actions -/

/-- The parts are what the JSON of the node has under the keys, of any type. -/
structure ActionDefinition where
  rid : String
  apiName : Value
  displayName : Value
  parameters : Value
  execution : Value
  outputs : Value
  safetyLevel : Value
  sideEffects : Value
  deriving DecidableEq

structure ResolvedParams where
  values : Assoc Value
  instances : Assoc Row
  deriving DecidableEq

structure SafetyDecision where
  requiresConfirmation : Bool
  message : Option String := none
  affectedOutputs : List Value := []
  sideEffects : Value := .list []
  deriving DecidableEq

structure EngineResult where
  data : Value
  computedValues : Assoc Value
  deriving DecidableEq

inductive EngineType where
  | nativeCrud
  | pythonVenv
  | sqlRunner
  | webhook
  deriving DecidableEq, Repr

def EngineType.name : EngineType → String
  | .nativeCrud => "native_crud"
  | .pythonVenv => "python_venv"
  | .sqlRunner => "sql_runner"
  | .webhook => "webhook"

/-- The key of an engine's part of the execution config. -/
def EngineType.configKey : EngineType → String
  | .nativeCrud => "native_crud_json"
  | .pythonVenv => "python_script"
  | .sqlRunner => "sql_template"
  | .webhook => "webhook_config_json"

def EngineType.all : List EngineType := [.nativeCrud, .pythonVenv, .sqlRunner, .webhook]

/-- `exec_type == name` for the first engine that it fits. -/
def EngineType.ofValue (v : Value) : Option EngineType := EngineType.all.find? fun t => v = .str t.name

/-- A call of `engine.execute`. -/
structure EngineCall where
  engine : EngineType
  config : Value
  params : Assoc Value
  instances : Assoc Row
  deriving DecidableEq

/-! ## Responses -/

structure ExecutionResponse where
  executionId : String
  status : Status
  result : Option Value := none
  confirmation : Option Value := none
  startedAt : Option Time := none
  completedAt : Option Time := none
  deriving DecidableEq

structure BatchItem where
  index : ℕ
  status : Status
  executionId : Option String := none
  error : Option String := none
  deriving DecidableEq

structure BatchResponse where
  total : ℕ
  successCount : ℕ
  failureCount : ℕ
  results : List BatchItem
  deriving DecidableEq

end Lingshu.Function
