import Lingshu.Json.Access
import Lingshu.Interaction.Until

/-! # Copilot sessions

`sessions/repository.py` and `sessions/manager.py`, and what `service.py` does for a session, as programs over the
queries of the repository and the calls of the agent and of the function service. -/
namespace Lingshu.Copilot.Sessions
open Interaction Json
set_option autoImplicit false

/-! ## The table -/

abbrev Time := ℕ

inductive Status where
  | active
  | deleted
  deriving DecidableEq

structure CopilotSession where
  sessionId : String
  tenantId : String
  userId : String
  mode : String
  title : Option String
  context : Assoc Value
  modelRid : Option String
  status : Status
  createdAt : Time
  lastActiveAt : Time
  deriving DecidableEq

/-- `copilot_sessions`, with its primary key. -/
structure Table where
  rows : List CopilotSession
  keys : (rows.map CopilotSession.sessionId).Nodup

/-- The columns that an `UPDATE` sets. -/
structure Fields where
  title : Option String := none
  context : Option (Assoc Value) := none
  status : Option Status := none
  lastActiveAt : Option Time := none

def Fields.apply (fields : Fields) (row : CopilotSession) : CopilotSession :=
  { row with
    title := fields.title.or row.title
    context := fields.context.getD row.context
    status := fields.status.getD row.status
    lastActiveAt := fields.lastActiveAt.getD row.lastActiveAt }

def CopilotSession.IsAt (sessionId tenantId : String) (row : CopilotSession) : Prop :=
  row.sessionId = sessionId ∧ row.tenantId = tenantId

instance (sessionId tenantId : String) (row : CopilotSession) : Decidable (row.IsAt sessionId tenantId) :=
  inferInstanceAs (Decidable (_ ∧ _))

namespace Table

def getById (table : Table) (sessionId tenantId : String) : Option CopilotSession :=
  table.rows.find? fun row => row.IsAt sessionId tenantId ∧ row.status = .active

/-- One row of the table, with new values. -/
def setRow (sessionId tenantId : String) (fields : Fields) (row : CopilotSession) : CopilotSession :=
  if row.IsAt sessionId tenantId then fields.apply row else row

theorem setRow_sessionId (sessionId tenantId : String) (fields : Fields) (row : CopilotSession) :
    (setRow sessionId tenantId fields row).sessionId = row.sessionId := by
  unfold setRow
  split <;> rfl

theorem setRow_isAt {sessionId tenantId sessionId' tenantId' : String} {fields : Fields} {row : CopilotSession} :
    (setRow sessionId tenantId fields row).IsAt sessionId' tenantId' ↔ row.IsAt sessionId' tenantId' := by
  unfold setRow
  split <;> rfl

theorem setRow_status {sessionId tenantId : String} {fields : Fields} (h : fields.status = none)
    (row : CopilotSession) : (setRow sessionId tenantId fields row).status = row.status := by
  unfold setRow
  split
  · simp only [Fields.apply, h, Option.getD_none]
  · rfl

/-- `UPDATE`, whatever the status of the row. -/
def updateRows (table : Table) (sessionId tenantId : String) (fields : Fields) : Table where
  rows := table.rows.map (setRow sessionId tenantId fields)
  keys := by
    rw [List.map_map]
    exact List.map_congr_left (fun row _ => setRow_sessionId sessionId tenantId fields row) ▸ table.keys

/-- The rows that are found are those that were, with their new values. -/
theorem getById_updateRows (table : Table) (sessionId tenantId sessionId' tenantId' : String) {fields : Fields}
    (h : fields.status = none) : (table.updateRows sessionId tenantId fields).getById sessionId' tenantId' =
      (table.getById sessionId' tenantId').map (setRow sessionId tenantId fields) := by
  unfold getById updateRows
  rw [List.find?_map]
  congr 2
  funext row
  simp only [Function.comp_apply, setRow_isAt, setRow_status h]

def insert (table : Table) (row : CopilotSession) : Option Table :=
  if h : row.sessionId ∈ table.rows.map CopilotSession.sessionId then none
  else some ⟨table.rows ++ [row], by simpa [List.nodup_append, table.keys] using h⟩

/-- The user's own active sessions, the last active one first, and how many there are. -/
def listByUser (table : Table) (tenantId userId : String) (offset limit : ℕ) : List CopilotSession × ℕ :=
  let base := table.rows.filter fun row => row.tenantId = tenantId ∧ row.userId = userId ∧ row.status = .active
  (((base.mergeSort fun a b => b.lastActiveAt ≤ a.lastActiveAt).drop offset).take limit, base.length)

end Table

/-! ## Commands -/

/-- An exception with its text. -/
inductive Exc where
  | appError (code message : String)
  | other (text : String)
  deriving DecidableEq

def Exc.text : Exc → String
  | .appError _ message => message
  | .other text => text

inductive EventType where
  | textDelta
  | component
  | toolStart
  | toolEnd
  | interrupt
  | error
  | done
  deriving DecidableEq

structure A2UIEvent where
  eventType : EventType
  data : Assoc Value
  eventId : ℕ
  deriving DecidableEq

/-- A call of the function service. -/
inductive Decision where
  | confirmed (executionId : Value)
  | cancelled (executionId : Value)
  deriving DecidableEq

inductive Cmd where
  | create (row : CopilotSession)
  | getById (sessionId tenantId : String)
  | updateFields (sessionId tenantId : String) (fields : Fields)
  | softDelete (sessionId tenantId : String)
  | listByUser (tenantId userId : String) (offset limit : ℕ)
  | commit
  | processMessage (context : Assoc Value) (content : String)
  | decide (decision : Decision)
  /-- An event of the renderer of the service, which numbers the events of all calls. -/
  | render (eventType : EventType) (data : Assoc Value)
  | yield (event : A2UIEvent)

def Cmd.Answer : Cmd → Type
  | .getById .. | .updateFields .. => Option CopilotSession
  | .softDelete .. => Bool
  | .listByUser .. => List CopilotSession × ℕ
  | .processMessage .. => List (Assoc Value)
  | .decide _ => Option String
  | .create _ | .commit | .render .. | .yield _ => Unit

/-- What the agent returns for a message, and what the function service answers: the status where there is one. -/
structure World where
  processMessage : Assoc Value → String → Except Exc (List (Assoc Value))
  decide : Decision → Except Exc (Option String)

/-- The table as the calls see it and as it was last committed, the counter of the renderer of the service, the calls
of the function service and the events sent. -/
structure Server where
  table : Table
  saved : Table
  world : World
  counter : ℕ
  decisions : List Decision
  sent : List A2UIEvent

def Server.send (s : Server) (event : A2UIEvent) : Server := { s with sent := s.sent ++ [event] }

def duplicateKey : Exc := .other "duplicate key value violates unique constraint \"copilot_sessions_pkey\""

def Cmd.exec : (c : Cmd) → Server → Except Exc c.Answer × Server
  | .create row, s =>
    match s.table.insert row with
    | some table => (.ok (), { s with table })
    | none => (.error duplicateKey, s)
  | .getById sessionId tenantId, s => (.ok (s.table.getById sessionId tenantId), s)
  | .updateFields sessionId tenantId fields, s =>
    let table := s.table.updateRows sessionId tenantId fields
    (.ok (table.getById sessionId tenantId), { s with table })
  | .softDelete sessionId tenantId, s =>
    match s.table.getById sessionId tenantId with
    | some _ => (.ok true, { s with table := s.table.updateRows sessionId tenantId { status := some .deleted } })
    | none => (.ok false, s)
  | .listByUser tenantId userId offset limit, s => (.ok (s.table.listByUser tenantId userId offset limit), s)
  | .commit, s => (.ok (), { s with saved := s.table })
  | .processMessage context content, s => (s.world.processMessage context content, s)
  | .decide decision, s => (s.world.decide decision, { s with decisions := s.decisions ++ [decision] })
  | .render eventType data, s =>
    (.ok (), { s.send ⟨eventType, data, s.counter + 1⟩ with counter := s.counter + 1 })
  | .yield event, s => (.ok (), s.send event)

abbrev Program (α : Type) := Prog Cmd Cmd.Answer Exc α

def ask (c : Cmd) : Program c.Answer := Prog.perform c

def render (eventType : EventType) (data : Assoc Value) : Program Unit := ask (.render eventType data)

def yield (eventType : EventType) (data : Assoc Value) (eventId : ℕ) : Program Unit := ask (.yield ⟨eventType, data, eventId⟩)

/-! ## SessionManager -/

structure Ctx where
  tenantId : String
  userId : String
  now : Time

def sessionNotFound (sessionId : String) : Exc :=
  .appError "COPILOT_SESSION_NOT_FOUND" ("Session " ++ sessionId ++ " not found")

/-- The row, or the error that there is none. -/
def orNotFound (sessionId : String) : Option CopilotSession → Program CopilotSession
  | some row => .pure row
  | none => .throw (sessionNotFound sessionId)

section Manager
variable (ctx : Ctx) (sessionId : String)

/-- `create_session`; `sessionId` is the new identifier. -/
def createSession (mode : String) (context : Assoc Value) : Program CopilotSession := do
  let row : CopilotSession :=
    { sessionId, tenantId := ctx.tenantId, userId := ctx.userId, mode, title := none, context, modelRid := none,
      status := .active, createdAt := ctx.now, lastActiveAt := ctx.now }
  let _ ← (ask (.create row) : Program Unit)
  let _ ← (ask .commit : Program Unit)
  return row

def getSession : Program CopilotSession := do
  let row ← (ask (.getById sessionId ctx.tenantId) : Program (Option CopilotSession))
  orNotFound sessionId row

def updateContext (context : Assoc Value) : Program CopilotSession := do
  let updated ← (ask (.updateFields sessionId ctx.tenantId { context := some context, lastActiveAt := some ctx.now }) :
    Program (Option CopilotSession))
  let row ← orNotFound sessionId updated
  let _ ← (ask .commit : Program Unit)
  return row

/-- An update whose answer is not looked at. -/
def setFields (fields : Fields) : Program Unit := do
  let _ ← (ask (.updateFields sessionId ctx.tenantId fields) : Program (Option CopilotSession))
  ask .commit

def updateTitle (title : String) : Program Unit := setFields ctx sessionId { title := some title }

def touch : Program Unit := setFields ctx sessionId { lastActiveAt := some ctx.now }

/-- What `delete_session` makes of the answer. -/
def commitDeleted : Bool → Program Unit
  | true => ask .commit
  | false => .throw (sessionNotFound sessionId)

def deleteSession : Program Unit := do
  let deleted ← (ask (.softDelete sessionId ctx.tenantId) : Program Bool)
  commitDeleted sessionId deleted

def querySessions (offset limit : ℕ) : Program (List CopilotSession × ℕ) :=
  ask (.listByUser ctx.tenantId ctx.userId offset limit)

end Manager

/-! ## Messages -/

def pendingInterrupt : String := "_pending_interrupt"

/-- `context.get("_pending_interrupt")`. -/
def pendingOf (context : Assoc Value) : Value := (context.lookup pendingInterrupt).getD .null

/-- An entry of the raw context, where there is one. -/
def carry (raw : Assoc Value) (key : String) (context : Assoc Value) : Assoc Value :=
  match raw.lookup key with
  | some v => context.set key v
  | none => context

def buildContext (mode : String) (raw : Assoc Value) : Assoc Value :=
  let context : Assoc Value := [("mode", .str mode), ("branch", (raw.lookup "branch").getD (.str "main"))]
  let context :=
    if mode = "shell" then
      carry raw "entity_rid" ((context.set "module" ((raw.lookup "module").getD (.str ""))).set "page"
        ((raw.lookup "page").getD (.str "")))
    else context
  carry raw "active_skills" (carry raw "model_rid" context)

/-- The title made of the first message. -/
def titleOf (content : String) : String :=
  String.ofList (content.toList.take 50) ++ (if 50 < content.length then "..." else "")

/-- `event.get(key, default)`. -/
def entry (event : Assoc Value) (key : String) (default : Value) : Value := (event.lookup key).getD default

/-- One event that goes on. -/
def showEvent (event : Assoc Value) : Program Unit :=
  let eventType := entry event "type" (.str "")
  if eventType = .str "text_delta" then render .textDelta [("content", entry event "content" (.str ""))]
  else if eventType = .str "component" then render .component [("component", entry event "component" (.dict []))]
  else if eventType = .str "tool_start" then
    render .toolStart [("tool_name", entry event "tool_name" (.str "")), ("params", entry event "params" (.dict []))]
  else if eventType = .str "tool_end" then
    render .toolEnd [("tool_name", entry event "tool_name" (.str "")), ("status", entry event "status" (.str "success"))]
  else .pure ()

section Service
variable (ctx : Ctx) (sessionId : String)

/-- An `interrupt` event: it is stored in the context as it was read before the message was processed. -/
def storeInterrupt (context : Assoc Value) (confirmation : Value) : Program Bool := do
  let _ ← updateContext ctx sessionId (context.set pendingInterrupt confirmation)
  let _ ← render .interrupt [("confirmation", confirmation)]
  return true

/-- The events of a message; whether one of them has stopped it. -/
def stream (context : Assoc Value) : List (Assoc Value) → Program Bool
  | [] => do
    let _ ← render .done []
    return false
  | event :: events =>
    if entry event "type" (.str "") = .str "interrupt" then
      storeInterrupt ctx sessionId context (entry event "confirmation" (.dict []))
    else do
      let _ ← showEvent event
      stream context events

/-- `except AppError` and `except Exception`. -/
def showError (e : Exc) : Program Bool := do
  let _ ← render .error [("message", .str e.text)]
  let _ ← render .done []
  return false

def converse (row : CopilotSession) (content : String) : Program Bool := do
  let events ← (ask (.processMessage (buildContext row.mode row.context) content) : Program (List (Assoc Value)))
  stream ctx sessionId row.context events

/-- `send_message` once the session is found and has its title. -/
def process (row : CopilotSession) (content : String) : Program Unit := do
  let stopped ← (converse ctx sessionId row content).tryCatch showError
  if stopped then .pure () else touch ctx sessionId

/-- A title that is not there, or is empty, is made of the message. -/
def ensureTitle (row : CopilotSession) (content : String) : Program Unit :=
  if row.title.getD "" = "" then updateTitle ctx sessionId (titleOf content) else .pure ()

def sendMessage (content : String) : Program Unit := do
  let row ← getSession ctx sessionId
  let _ ← ensureTitle ctx sessionId row content
  process ctx sessionId row content

/-! ## Resumption -/

def noPending : Program Unit := do
  let _ ← yield .textDelta [("content", .str "No pending operation to resume.")] 1
  yield .done [] 2

/-- The name of the type of a value. -/
def typeName : Value → String
  | .null => "NoneType"
  | .bool _ => "bool"
  | .int _ => "int"
  | .float _ => "float"
  | .str _ => "str"
  | .list _ => "list"
  | .dict _ => "dict"

/-- `pending.get("execution_id")`. -/
def executionId (pending : Value) : Program Value :=
  match pending.get "execution_id" .null with
  | .ok v => .pure v
  | .error _ => .throw (.other ("'" ++ typeName pending ++ "' object has no attribute 'get'"))

/-- The text, or the error, that the confirmation ends with. -/
def confirm (id : Value) : Program Unit :=
  Prog.tryCatch (do
    let status ← (ask (.decide (.confirmed id)) : Program (Option String))
    yield .textDelta [("content", .str (" Execution completed: " ++ status.getD "success"))] 2)
    fun e => yield .error [("message", .str e.text)] 2

def approve (pending : Value) : Program Unit := do
  let id ← executionId pending
  let _ ← yield .textDelta [("content", .str "Operation approved. Executing...")] 1
  if id.truthy then do
    let _ ← confirm id
    yield .done [] 3
  else yield .done [] 2

/-- Best-effort cancellation, where there is an execution. -/
def cancel (id : Value) : Program Unit :=
  if id.truthy then
    Prog.tryCatch (do
      let _ ← (ask (.decide (.cancelled id)) : Program (Option String))
      return ()) fun _ => .pure ()
  else .pure ()

def disapprove (pending : Value) : Program Unit := do
  let id ← executionId pending
  let _ ← cancel id
  let _ ← yield .textDelta [("content", .str "Operation cancelled by user.")] 1
  yield .done [] 2

def settle (approved : Bool) (pending : Value) : Program Unit :=
  if approved then approve pending else disapprove pending

/-- `resume_execution` once the pending interrupt is out of the context. -/
def act (approved : Bool) (pending : Value) : Program Unit := do
  let _ ← settle approved pending
  touch ctx sessionId

/-- `resume_execution` from the clearing of the pending interrupt on. -/
def takeUp (approved : Bool) (context : Assoc Value) : Program Unit := do
  let _ ← updateContext ctx sessionId (context.pop pendingInterrupt)
  act ctx sessionId approved (pendingOf context)

def resumeExecution (approved : Bool) : Program Unit := do
  let row ← getSession ctx sessionId
  if (pendingOf row.context).truthy then takeUp ctx sessionId approved row.context else noPending

end Service

/-! ## Commands that keep a session -/

def Server.Has (sessionId tenantId : String) (s : Server) : Prop := (s.table.getById sessionId tenantId).isSome

/-- The command neither creates nor deletes a session. -/
def Cmd.Mild : Cmd → Prop
  | .create _ | .softDelete .. => False
  | .updateFields _ _ fields => fields.status = none
  | _ => True

theorem Cmd.Mild.exec_has {c : Cmd} {s : Server} {sessionId tenantId : String} (hc : c.Mild)
    (h : s.Has sessionId tenantId) : (c.exec s).2.Has sessionId tenantId := by
  cases c with
  | create | softDelete => exact hc.elim
  | updateFields sessionId' tenantId' fields =>
    change ((s.table.updateRows sessionId' tenantId' fields).getById sessionId tenantId).isSome
    rw [Table.getById_updateRows _ _ _ _ _ hc, Option.isSome_map]
    exact h
  | getById | listByUser | commit | processMessage | decide | render | yield => exact h

abbrev Program.Mild {α : Type} (p : Program α) : Prop := p.Meets Cmd.Mild (fun _ _ => True) fun _ => True

section Mild
variable {ctx : Ctx} {sessionId : String}

theorem mild_ask {c : Cmd} (hc : c.Mild) : (ask c).Mild := ⟨hc, fun _ _ => trivial, fun _ => trivial⟩

theorem mild_orNotFound (answer : Option CopilotSession) : (orNotFound sessionId answer).Mild := by
  cases answer <;> trivial

theorem mild_getSession : (getSession ctx sessionId).Mild :=
  Prog.Meets.bind (mild_ask trivial) fun row _ => mild_orNotFound row

theorem mild_updateContext (context : Assoc Value) : (updateContext ctx sessionId context).Mild :=
  Prog.Meets.bind (mild_ask rfl) fun row _ => (mild_orNotFound row).bind fun _ _ => Prog.Meets.bind (mild_ask trivial)
    fun _ _ => trivial

theorem mild_setFields {fields : Fields} (h : fields.status = none) : (setFields ctx sessionId fields).Mild :=
  Prog.Meets.bind (mild_ask h) fun _ _ => mild_ask trivial

theorem mild_showEvent (event : Assoc Value) : (showEvent event).Mild := by
  unfold showEvent
  dsimp only
  split
  · exact mild_ask trivial
  split
  · exact mild_ask trivial
  split
  · exact mild_ask trivial
  split
  · exact mild_ask trivial
  · trivial

theorem mild_stream (context : Assoc Value) (events : List (Assoc Value)) : (stream ctx sessionId context events).Mild := by
  induction events with
  | nil => exact Prog.Meets.bind (mild_ask trivial) fun _ _ => trivial
  | cons event events ih =>
    unfold stream
    split
    · exact (mild_updateContext _).bind fun _ _ => Prog.Meets.bind (mild_ask trivial) fun _ _ => trivial
    · exact (mild_showEvent event).bind fun _ _ => ih

theorem mild_converse (row : CopilotSession) (content : String) : (converse ctx sessionId row content).Mild :=
  Prog.Meets.bind (mild_ask trivial) fun events _ => mild_stream row.context events

theorem mild_showError (e : Exc) : (showError e).Mild :=
  Prog.Meets.bind (mild_ask trivial) fun _ _ => Prog.Meets.bind (mild_ask trivial) fun _ _ => trivial

theorem mild_ensureTitle (row : CopilotSession) (content : String) : (ensureTitle ctx sessionId row content).Mild := by
  unfold ensureTitle
  split
  · exact mild_setFields rfl
  · trivial

theorem mild_process (row : CopilotSession) (content : String) : (process ctx sessionId row content).Mild := by
  refine ((mild_converse row content).tryCatch mild_showError).bind ?_
  intro stopped _
  cases stopped with
  | true => trivial
  | false => exact mild_setFields rfl

theorem mild_sendMessage (content : String) : (sendMessage ctx sessionId content).Mild :=
  mild_getSession.bind fun row _ => (mild_ensureTitle row content).bind fun _ _ => mild_process row content

end Mild
end Lingshu.Copilot.Sessions
