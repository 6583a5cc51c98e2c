import Lingshu.Function.Schema
import Lingshu.Interaction.Until

/-! # Updates of global functions

`FunctionRegistry.update`, its reads and writes taken in any order. The new version is computed from the row as it was
read. A call goes through phases; the run of the phases is the run of the calls. -/
namespace Lingshu.Function.Globals
open Interaction Json
set_option autoImplicit false

/-! ## The table -/

/-- `GlobalFunction`; the database sets its times. -/
structure GlobalFunction where
  rid : String
  tenantId : String
  apiName : String
  displayName : String
  description : Option String
  parameters : List (Assoc Value)
  implementation : Assoc Value
  version : Int
  isActive : Bool

/-- The keys that `UpdateGlobalFunctionRequest` leaves in `updates`. -/
structure FunctionUpdates where
  displayName : Option String := none
  description : Option String := none
  parameters : Option (List (Assoc Value)) := none
  implementation : Option (Assoc Value) := none

/-- `updates`, after `updates["version"] = version`. -/
def GlobalFunction.set (updates : FunctionUpdates) (version : Int) (row : GlobalFunction) : GlobalFunction :=
  { row with
    displayName := updates.displayName.getD row.displayName
    description := updates.description.or row.description
    parameters := updates.parameters.getD row.parameters
    implementation := updates.implementation.getD row.implementation
    version := version }

/-- The fields that an update may change. -/
inductive FunctionField where
  | displayName
  | description
  | parameters
  | implementation
  deriving DecidableEq

def FunctionField.Value : FunctionField → Type
  | .displayName => String
  | .description => Option String
  | .parameters => List (Assoc Json.Value)
  | .implementation => Assoc Json.Value

def GlobalFunction.get (row : GlobalFunction) : (field : FunctionField) → field.Value
  | .displayName => row.displayName
  | .description => row.description
  | .parameters => row.parameters
  | .implementation => row.implementation

def FunctionUpdates.get (updates : FunctionUpdates) : (field : FunctionField) → Option field.Value
  | .displayName => updates.displayName
  | .description => updates.description.map some
  | .parameters => updates.parameters
  | .implementation => updates.implementation

structure GlobalFunctionResponse where
  rid : String
  apiName : String
  displayName : String
  description : Option String
  parameters : List (Assoc Value)
  implementation : Assoc Value
  version : Int
  isActive : Bool

/-- `_to_response`. -/
def toResponse (row : GlobalFunction) : GlobalFunctionResponse where
  rid := row.rid
  apiName := row.apiName
  displayName := row.displayName
  description := row.description
  parameters := row.parameters
  implementation := row.implementation
  version := row.version
  isActive := row.isActive

def getByRid (table : List GlobalFunction) (rid tenantId : String) : Option GlobalFunction :=
  table.find? fun row => row.rid = rid ∧ row.tenantId = tenantId

/-- The UPDATE of `update_fields`. -/
def updateFields (table : List GlobalFunction) (rid tenantId : String) (updates : FunctionUpdates) (version : Int) :
    List GlobalFunction :=
  table.map fun row => if row.rid = rid ∧ row.tenantId = tenantId then row.set updates version else row

/-! ## `update` -/

inductive RegistryCmd where
  | select (rid tenantId : String)
  | update (rid tenantId : String) (updates : FunctionUpdates) (version : Int)

def RegistryCmd.Answer : RegistryCmd → Type
  | .select .. => Option GlobalFunction
  | .update .. => Unit

def RegistryCmd.exec : (c : RegistryCmd) → List GlobalFunction → Except Exc c.Answer × List GlobalFunction
  | .select rid tenantId, table => (.ok (getByRid table rid tenantId), table)
  | .update rid tenantId updates version, table => (.ok (), updateFields table rid tenantId updates version)

abbrev RegistryProgram (α : Type) := Prog RegistryCmd RegistryCmd.Answer Exc α

def select (rid tenantId : String) : RegistryProgram (Option GlobalFunction) := Prog.perform (RegistryCmd.select rid tenantId)

structure UpdateCall where
  tenantId : String
  rid : String
  updates : FunctionUpdates

namespace UpdateCall

/-- The row in the session, with what the update has set in it. -/
def held (call : UpdateCall) (existing : GlobalFunction) : GlobalFunction :=
  existing.set call.updates (existing.version + 1)

/-- The select of `update_fields`. It returns the object that the session has for the row already. -/
def reread (call : UpdateCall) (existing : GlobalFunction) : RegistryProgram GlobalFunctionResponse :=
  (select call.rid call.tenantId).bind fun found =>
    match found.map fun _ => call.held existing with
    | some func => .pure (toResponse func)
    | none => .pure (toResponse (call.held existing))

/-- From `updates["version"] = existing.version + 1` on. -/
def write (call : UpdateCall) (existing : GlobalFunction) : RegistryProgram GlobalFunctionResponse :=
  (Prog.perform (.update call.rid call.tenantId call.updates (existing.version + 1))).bind fun _ =>
    call.reread existing

/-- `update`. -/
def program (call : UpdateCall) : RegistryProgram GlobalFunctionResponse :=
  (select call.rid call.tenantId).bind fun existing =>
    match existing with
    | some existing => call.write existing
    | none => .throw (.app .functionNotFound ("Function " ++ call.rid ++ " not found"))

end UpdateCall

/-! ## Calls in any order -/

/-- Calls of `update`, on one table. -/
def registry : System RegistryCmd RegistryCmd.Answer Exc (List GlobalFunction) GlobalFunctionResponse UpdateCall Empty where
  handler := RegistryCmd.exec
  program := UpdateCall.program
  env v _ := v.elim

abbrev RegistryPool := Pool RegistryCmd RegistryCmd.Answer Exc (List GlobalFunction) GlobalFunctionResponse UpdateCall

/-- The calls, and those of them that have written, in the order of the writes. -/
structure UpdateRun where
  pool : RegistryPool
  writers : List ℕ

namespace UpdateRun

/-- The call that writes. -/
def writer (w : UpdateRun) (e : Turn UpdateCall) : List ℕ :=
  match e, w.pool.issues e.event with
  | .step i, some (_, .update ..) => [i]
  | _, _ => []

def next (w : UpdateRun) (e : Turn UpdateCall) : UpdateRun := ⟨registry.next w.pool e.event, w.writers ++ w.writer e⟩

/-- All calls are on one function, which is registered. -/
def On (tenantId rid : String) (_ : UpdateRun) : Turn UpdateCall → Prop
  | .start call => call.tenantId = tenantId ∧ call.rid = rid
  | .step _ => True

/-- A write finds the version that its call has read. -/
def WritesCurrent (w : UpdateRun) (e : Turn UpdateCall) : Prop :=
  ∀ call rid tenantId updates version, w.pool.issues e.event = some (call, .update rid tenantId updates version) →
    ∀ row, getByRid w.pool.state rid tenantId = some row → version = row.version + 1

/-- All calls have returned. -/
def Returned (w : UpdateRun) : Prop := ∀ t ∈ w.pool.threads, ∃ response, t.2 = .pure response

/-- What is asked of the updates of the function that had version `initial` at first. -/
structure CountsUpdates (tenantId rid : String) (initial : Int) (w : UpdateRun) : Prop where
  version : ∃ row, getByRid w.pool.state rid tenantId = some row ∧ row.version = initial + w.pool.threads.length
  distinct : ∀ (i j : ℕ) (call call' : UpdateCall) (response response' : GlobalFunctionResponse), i ≠ j → w.pool.threads[i]? = some (call, .pure response) →
    w.pool.threads[j]? = some (call', .pure response') → response.version ≠ response'.version
  /-- A change is there at the end, or a later write has set the same field. -/
  kept : ∀ (i : ℕ) (call : UpdateCall) p (field : FunctionField) value row, w.pool.threads[i]? = some (call, p) → call.updates.get field = some value →
    getByRid w.pool.state rid tenantId = some row → row.get field = value ∨
      ∃ (j : ℕ) (call' : UpdateCall) (p' : _), w.pool.threads[j]? = some (call', p') ∧ (call'.updates.get field).isSome ∧
        List.Sublist [i, j] w.writers

end UpdateRun

/-! ## The phases of a call -/

inductive Phase where
  | reading
  | writing (existing : GlobalFunction)
  | rereading (existing : GlobalFunction)
  | returned (response : GlobalFunctionResponse)
  | raised (e : Exc)

/-- What is left of the call. -/
def Phase.program (call : UpdateCall) : Phase → RegistryProgram GlobalFunctionResponse
  | .reading => call.program
  | .writing existing => call.write existing
  | .rereading existing => call.reread existing
  | .returned response => .pure response
  | .raised e => .throw e

/-- The version that the call has written. -/
def Phase.version : Phase → Option Int
  | .rereading existing => some (existing.version + 1)
  | .returned response => some response.version
  | _ => none

/-- The table, the calls with their phases, and those that have written. -/
structure Phased where
  table : List GlobalFunction
  calls : List (UpdateCall × Phase)
  writers : List ℕ

namespace Phased

/-- The step of one call. -/
def advance (table : List GlobalFunction) (call : UpdateCall) : Phase → Phase
  | .reading =>
    match getByRid table call.rid call.tenantId with
    | some existing => .writing existing
    | none => .raised (.app .functionNotFound ("Function " ++ call.rid ++ " not found"))
  | .writing existing => .rereading existing
  | .rereading existing => .returned (toResponse (call.held existing))
  | phase => phase

/-- The table after the step of one call. -/
def stored (table : List GlobalFunction) (call : UpdateCall) : Phase → List GlobalFunction
  | .writing existing => updateFields table call.rid call.tenantId call.updates (existing.version + 1)
  | _ => table

def written (i : ℕ) : Phase → List ℕ
  | .writing _ => [i]
  | _ => []

def next (a : Phased) : Turn UpdateCall → Phased
  | .start call => { a with calls := a.calls ++ [(call, .reading)] }
  | .step i =>
    match a.calls[i]? with
    | none => a
    | some (call, phase) =>
      { table := stored a.table call phase
        calls := a.calls.set i (call, advance a.table call phase)
        writers := a.writers ++ written i phase }

/-- The run that is in these phases. -/
def run (a : Phased) : UpdateRun := ⟨⟨a.table, a.calls.map fun t => (t.1, t.2.program t.1)⟩, a.writers⟩

theorem answer_select (table : List GlobalFunction) (rid tenantId : String)
    (f : Option GlobalFunction → RegistryProgram GlobalFunctionResponse) :
    registry.answer table ((select rid tenantId).bind f) = f (getByRid table rid tenantId) := rfl

theorem answer_program (table : List GlobalFunction) (call : UpdateCall) (phase : Phase) :
    registry.answer table (phase.program call) = (advance table call phase).program call := by
  cases phase with
  | reading =>
    rw [Phase.program, UpdateCall.program, answer_select, advance]
    cases getByRid table call.rid call.tenantId <;> rfl
  | rereading existing =>
    rw [Phase.program, UpdateCall.reread, answer_select]
    cases getByRid table call.rid call.tenantId <;> rfl
  | writing | returned | raised => rfl

theorem execute_program (table : List GlobalFunction) (call : UpdateCall) (phase : Phase) :
    registry.execute table (((phase.program call).head).map (call, ·)) = stored table call phase := by
  cases phase <;> rfl

theorem run_next (a : Phased) (e : Turn UpdateCall) : (a.next e).run = a.run.next e := by
  cases e with
  | start call =>
    simp only [Phased.next, run, UpdateRun.next, Turn.event, System.next, UpdateRun.writer, List.map_append, List.append_nil]
    rfl
  | step i =>
    cases hi : a.calls[i]? with
    | none =>
      have hnone : a.run.pool.threads[i]? = none := by simp [run, hi]
      have hwriter : a.run.writer (.step i) = [] := by
        simp only [UpdateRun.writer, Turn.event, Pool.issues, Pool.pending, hnone, Option.bind_none]
      simp only [Phased.next, hi, UpdateRun.next, Turn.event, System.next_step_of_none registry hnone, hwriter,
        List.append_nil]
    | some t =>
      obtain ⟨call, phase⟩ := t
      have hthread : a.run.pool.threads[i]? = some (call, phase.program call) := by simp [run, hi]
      have hwriter : a.run.writer (.step i) = written i phase := by
        simp only [UpdateRun.writer, Turn.event, Pool.issues, Pool.pending, hthread, Option.bind_some]
        cases phase <;> rfl
      have hpool := System.next_step registry hthread
      rw [execute_program, answer_program] at hpool
      have hrun : a.run.next (.step i) = ⟨registry.next a.run.pool (.step i), a.writers ++ a.run.writer (.step i)⟩ := rfl
      rw [hrun, hpool, hwriter]
      simp only [Phased.next, hi, run, List.map_set]

end Phased

end Lingshu.Function.Globals
