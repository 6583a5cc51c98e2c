import Lingshu.Function.Schema
import Lingshu.Interaction.Run

/-! # What the Function service calls

One command for each query, each call of another service and each reading of the clock. The ontology, the
tables that connections lead to, the edit log and the engines' own effects are a `World` that is left open;
the `executions` table is a map from its primary key. -/
namespace Lingshu.Function
open Json Data Interaction
set_option autoImplicit false

inductive Cmd where
  | uuid4
  | now
  | commit
  /-- `OntologyService.get_object_type`. -/
  | getObjectType (rid tenantId : String)
  | getPropertyTypes (typeRid : Value) (tenantId : String)
  | getAssetMapping (typeRid : Value) (tenantId : String)
  /-- Whether there is a connector for the connection. -/
  | hasConnector (connRid : String)
  | getRow (connRid tablePath : String) (primaryKey : Row) (columns : List String)
  | insertEditLog (entry : EditLogEntry)
  /-- The engine is started. -/
  | invoke (call : EngineCall)
  /-- What the started engine returns or raises. -/
  | await (handle : ℕ)
  | createExecution (x : Execution)
  | getExecution (executionId tenantId : String)
  | updateStatus (executionId tenantId : String) (update : StatusUpdate)
  deriving DecidableEq

abbrev Ans : Cmd → Type
  | .uuid4 => String
  | .now => Time
  | .getObjectType _ _ => Option (Assoc Value)
  | .getPropertyTypes _ _ => List PropertyType
  | .getAssetMapping _ _ => Option AssetMapping
  | .hasConnector _ => Bool
  | .getRow _ _ _ _ => Option Row
  | .invoke _ => ℕ
  | .await _ => EngineResult
  | .getExecution _ _ => Option Execution
  | .commit | .insertEditLog _ | .createExecution _ | .updateStatus _ _ _ => Unit

abbrev Program (α : Type) : Type := Prog Cmd Ans Exc α

/-- What the code runs on: Python's operators, and `str(e)`. -/
structure Runtime where
  python : Python
  text : Exc → String

/-- The other services and the engines. Reads leave the world as it is. -/
structure Env (World : Type) where
  objectType : World → String → String → Except Exc (Option (Assoc Value))
  propertyTypes : World → Value → String → Except Exc (List PropertyType)
  assetMapping : World → Value → String → Except Exc (Option AssetMapping)
  hasConnector : World → String → Bool
  row : World → String → String → Row → List String → Except Exc (Option Row)
  insertEditLog : EditLogEntry → World → Except Exc Unit × World
  invoke : EngineCall → World → Except Exc ℕ × World
  await : ℕ → World → Except Exc EngineResult × World
  uuid4 : World → String × World

structure State (World : Type) where
  world : World
  executions : String → Option Execution
  clock : Time

variable {World : Type}

/-- `get_by_id`: the row with the id, if it is the tenant's. -/
def State.execution (s : State World) (executionId tenantId : String) : Option Execution :=
  (s.executions executionId).filter fun x => x.tenantId = tenantId

def State.setExecution (s : State World) (executionId : String) (x : Execution) : State World :=
  { s with executions := fun id => if id = executionId then some x else s.executions id }

def exec (env : Env World) : Prog.Handler Cmd Ans Exc (State World)
  | .uuid4, s => (.ok (env.uuid4 s.world).1, { s with world := (env.uuid4 s.world).2 })
  | .now, s => (.ok s.clock, s)
  | .commit, s => (.ok (), s)
  | .getObjectType rid tenantId, s => (env.objectType s.world rid tenantId, s)
  | .getPropertyTypes typeRid tenantId, s => (env.propertyTypes s.world typeRid tenantId, s)
  | .getAssetMapping typeRid tenantId, s => (env.assetMapping s.world typeRid tenantId, s)
  | .hasConnector connRid, s => (.ok (env.hasConnector s.world connRid), s)
  | .getRow connRid tablePath primaryKey columns, s =>
    (env.row s.world connRid tablePath primaryKey columns, s)
  | .insertEditLog entry, s =>
    ((env.insertEditLog entry s.world).1, { s with world := (env.insertEditLog entry s.world).2 })
  | .invoke call, s => ((env.invoke call s.world).1, { s with world := (env.invoke call s.world).2 })
  | .await handle, s => ((env.await handle s.world).1, { s with world := (env.await handle s.world).2 })
  -- A primary key that is taken is refused.
  | .createExecution x, s =>
    match s.executions x.executionId with
    | some _ => (.error .integrityError, s)
    | none => (.ok (), s.setExecution x.executionId { x with startedAt := some s.clock })
  | .getExecution executionId tenantId, s => (.ok (s.execution executionId tenantId), s)
  | .updateStatus executionId tenantId update, s =>
    match s.execution executionId tenantId with
    | some x => (.ok (), s.setExecution executionId (update.apply x))
    | none => (.ok (), s)

/-! ## The table -/

/-- The commands that may change a row: the creation of one with its key, or an update of it. -/
def Cmd.writes (executionId : String) : Cmd → Bool
  | .createExecution x => x.executionId = executionId
  | .updateStatus id _ _ => id = executionId
  | _ => false

theorem State.setExecution_ne (s : State World) {id executionId : String} (x : Execution) (h : id ≠ executionId) :
    (s.setExecution executionId x).executions id = s.executions id := if_neg h

theorem State.setExecution_self (s : State World) (id : String) (x : Execution) :
    (s.setExecution id x).executions id = some x := if_pos rfl

/-- What does not write to a row leaves it. -/
theorem exec_executions (env : Env World) {c : Cmd} (s : State World) {id : String} (h : c.writes id = false) :
    (exec env c s).2.executions id = s.executions id := by
  cases c with
  | createExecution x =>
    have hid : id ≠ x.executionId := fun he => by simp [Cmd.writes, he] at h
    simp only [exec]
    cases s.executions x.executionId with
    | none => exact s.setExecution_ne _ hid
    | some y => rfl
  | updateStatus executionId tenantId update =>
    have hid : id ≠ executionId := fun he => by simp [Cmd.writes, he] at h
    simp only [exec]
    cases s.execution executionId tenantId with
    | none => rfl
    | some y => exact s.setExecution_ne _ hid
  | _ => rfl

/-- A row that is there is not created again. -/
theorem exec_createExecution (env : Env World) {s : State World} {x y : Execution}
    (h : s.executions x.executionId = some y) :
    exec env (.createExecution x) s = (.error .integrityError, s) := by
  simp only [exec, h]

theorem exec_updateStatus (env : Env World) {s : State World} {id tenantId : String} {x : Execution}
    (u : StatusUpdate) (h : s.execution id tenantId = some x) :
    exec env (.updateStatus id tenantId u) s = (.ok (), s.setExecution id (u.apply x)) := by
  simp only [exec, h]

/-! ## A plain environment -/

/-- A runtime for runs in which no expression is evaluated. -/
def Runtime.plain : Runtime where
  python :=
    { parse := fun _ => none
      binOp := fun _ _ _ => none
      neg := fun _ => none
      abs := fun _ => none
      int := fun _ => none
      round := fun _ _ => none
      str := fun v => match v with
        | .str s => s
        | v => dumps v
      repr := dumps
      upper := String.toUpper }
  text
    | .app _ message => message
    | .valueError message => message
    | .other what => what
    | _ => ""

/-- One node for every action type, an engine that does nothing, and ids from a list. -/
def Env.plain (node : Assoc Value) : Env (List String) where
  objectType _ _ _ := .ok (some node)
  propertyTypes _ _ _ := .ok []
  assetMapping _ _ _ := .ok none
  hasConnector _ _ := false
  row _ _ _ _ _ := .ok none
  insertEditLog _ w := (.ok (), w)
  invoke _ w := (.ok 0, w)
  await _ w := (.ok ⟨.dict [], []⟩, w)
  uuid4
    | [] => ("", [])
    | hex :: w => (hex, w)

/-- An action that asks for confirmation. -/
def criticalAction : Assoc Value :=
  [("api_name", .str "close"), ("safety_level", .str "SAFETY_CRITICAL"),
   ("execution", .dict [("type", .str "native_crud"), ("native_crud_json", .dict [])])]

end Lingshu.Function
