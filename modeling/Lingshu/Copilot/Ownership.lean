import Lingshu.Copilot.Sessions
import Mathlib.Data.List.Nodup

/-! # Whose session it is

A session belongs to the user who has created it: the list of sessions is the user's own. The operations on one session
look it up by its identifier and the tenant alone, and so are open to every user of the tenant. -/
namespace Lingshu.Copilot.Sessions
open Interaction Json
set_option autoImplicit false

/-! ## Calls -/

structure SessionResponse where
  sessionId : String
  mode : String
  title : Option String
  context : Assoc Value
  modelRid : Option String
  status : Status
  createdAt : Time
  lastActiveAt : Time
  deriving DecidableEq

def CopilotSession.toResponse (row : CopilotSession) : SessionResponse where
  sessionId := row.sessionId
  mode := row.mode
  title := row.title
  context := row.context
  modelRid := row.modelRid
  status := row.status
  createdAt := row.createdAt
  lastActiveAt := row.lastActiveAt

inductive Answer where
  | session (response : SessionResponse)
  | sessions (responses : List SessionResponse) (total : ℕ)
  | nothing
  deriving DecidableEq

/-- What is done with one session. -/
inductive SessionOp where
  | get
  | update (context : Assoc Value)
  | send (content : String)
  | resume (approved : Bool)
  | delete

inductive Op where
  | create (sessionId mode : String) (context : Assoc Value)
  | query (offset limit : ℕ)
  | on (sessionId : String) (op : SessionOp)

structure Call where
  ctx : Ctx
  world : World
  op : Op

def SessionOp.program (ctx : Ctx) (sessionId : String) : SessionOp → Program Answer
  | .get => do
    let row ← getSession ctx sessionId
    return .session row.toResponse
  | .update context => do
    let row ← updateContext ctx sessionId context
    return .session row.toResponse
  | .send content => do
    let _ ← sendMessage ctx sessionId content
    return .nothing
  | .resume approved => do
    let _ ← resumeExecution ctx sessionId approved
    return .nothing
  | .delete => do
    let _ ← deleteSession ctx sessionId
    return .nothing

def Op.program (ctx : Ctx) : Op → Program Answer
  | .create sessionId mode context => do
    let row ← createSession ctx sessionId mode context
    return .session row.toResponse
  | .query offset limit => do
    let (rows, total) ← querySessions ctx offset limit
    return .sessions (rows.map CopilotSession.toResponse) total
  | .on sessionId op => op.program ctx sessionId

/-- What a call ends with, and the events that it has sent. -/
structure Reply where
  outcome : Except Exc Answer
  sent : List A2UIEvent

/-- A request starts with a new database session. -/
def Server.begin (s : Server) (world : World) : Server := { s with saved := s.table, world, sent := [] }

/-- `get_session`: what is left is committed, or rolled back after an exception. -/
def close : Except Exc Answer × Server → Reply × Server
  | (.ok answer, s) => (⟨.ok answer, s.sent⟩, { s with saved := s.table })
  | (.error e, s) => (⟨.error e, s.sent⟩, { s with table := s.saved })

def serve (call : Call) (s : Server) : Reply × Server :=
  close ((call.op.program call.ctx).run Cmd.exec (s.begin call.world))

def serveAll : List Call → Server → List Reply × Server
  | [], s => ([], s)
  | call :: calls, s => ((serve call s).1 :: (serveAll calls (serve call s).2).1, (serveAll calls (serve call s).2).2)

/-! ## A session that is not found -/

section Lookup
variable {table : Table} {row : CopilotSession} {sessionId tenantId : String}

end Lookup

section NotFound
variable {ctx : Ctx} {sessionId : String} {s : Server}

theorem run_getSession (s : Server) : (getSession ctx sessionId).run Cmd.exec s =
    (orNotFound sessionId (s.table.getById sessionId ctx.tenantId)).run Cmd.exec s := rfl

end NotFound

section Found
variable {sessionId tenantId : String} {α β : Type}

/-- Where the session is, the program leaves it there and does not end with its not being found. -/
def Serves (sessionId tenantId : String) (p : Program α) : Prop :=
  ∀ s, s.Has sessionId tenantId → (p.run Cmd.exec s).2.Has sessionId tenantId ∧
    (p.run Cmd.exec s).1 ≠ .error (sessionNotFound sessionId)

theorem Serves.bind {p : Program α} {f : α → Program β} (hp : Serves sessionId tenantId p)
    (hf : ∀ a, Serves sessionId tenantId (f a)) : Serves sessionId tenantId (p.bind f) := by
  intro s h
  obtain ⟨hhas, hne⟩ := hp s h
  rw [Prog.run_bind]
  rcases hrun : p.run Cmd.exec s with ⟨_ | a, s'⟩
  · rw [hrun] at hhas hne
    refine ⟨hhas, fun heq => hne ?_⟩
    rw [Except.error.inj heq]
  · rw [hrun] at hhas
    exact hf a s' hhas

/-- The commands that answer whatever happens. -/
def Cmd.Answers : Cmd → Prop
  | .create _ | .processMessage .. | .decide _ => False
  | _ => True

variable {ctx : Ctx}

end Found

section Owners
variable {s : Server} {row : CopilotSession}

theorem run_inv {J : Server → Prop} (hJ : ∀ c s, J s → J (Cmd.exec c s).2) {α : Type} (p : Program α) {s : Server}
    (h : J s) : J (p.run Cmd.exec s).2 := by
  induction p generalizing s with
  | pure a => exact h
  | throw e => exact h
  | call c k ih => exact ih _ (hJ c s h)

/-- A row of the same session, of the same tenant and user. -/
def Table.Owns (table : Table) (row : CopilotSession) : Prop :=
  ∃ row' ∈ table.rows, row'.sessionId = row.sessionId ∧ row'.tenantId = row.tenantId ∧ row'.userId = row.userId

theorem Table.Owns.updateRows {table : Table} (h : table.Owns row) (sessionId tenantId : String) (fields : Fields) :
    (table.updateRows sessionId tenantId fields).Owns row := by
  obtain ⟨row', hmem, howner⟩ := h
  refine ⟨_, List.mem_map_of_mem hmem, ?_⟩
  unfold setRow
  split
  · exact howner
  · exact howner

theorem Table.Owns.insert {table table' : Table} {new : CopilotSession} (h : table.Owns row)
    (hinsert : table.insert new = some table') : table'.Owns row := by
  obtain ⟨row', hmem, howner⟩ := h
  unfold Table.insert at hinsert
  split at hinsert
  · cases hinsert
  · cases hinsert
    exact ⟨row', List.mem_append_left _ hmem, howner⟩

theorem Cmd.exec_owns (c : Cmd) (s : Server) (h : s.table.Owns row ∧ s.saved.Owns row) :
    (c.exec s).2.table.Owns row ∧ (c.exec s).2.saved.Owns row := by
  cases c with
  | create new =>
    simp only [Cmd.exec]
    split
    next hinsert => exact ⟨h.1.insert hinsert, h.2⟩
    next => exact h
  | updateFields sessionId tenantId fields => exact ⟨h.1.updateRows sessionId tenantId fields, h.2⟩
  | softDelete sessionId tenantId =>
    simp only [Cmd.exec]
    split
    next => exact ⟨h.1.updateRows sessionId tenantId _, h.2⟩
    next => exact h
  | commit => exact ⟨h.1, h.1⟩
  | getById | listByUser | processMessage | decide | render | yield => exact h

theorem serve_owns (call : Call) (h : s.table.Owns row) : (serve call s).2.table.Owns row := by
  have hrun := run_inv (J := fun s => s.table.Owns row ∧ s.saved.Owns row) Cmd.exec_owns
    (call.op.program call.ctx) (s := s.begin call.world) ⟨h, h⟩
  unfold serve
  rcases hresult : (call.op.program call.ctx).run Cmd.exec (s.begin call.world) with ⟨_ | _, s'⟩
  · rw [hresult] at hrun
    exact hrun.2
  · rw [hresult] at hrun
    exact hrun.1

/-- Whatever is called, a session stays with the tenant and the user it was created for. -/
theorem serveAll_owns (calls : List Call) (h : s.table.Owns row) : (serveAll calls s).2.table.Owns row := by
  induction calls generalizing s with
  | nil => exact h
  | cons call calls ih => exact ih (serve_owns call h)

/-- The list of sessions is made of the user's own. -/
theorem listByUser_own {table : Table} {tenantId userId : String} {offset limit : ℕ}
    (h : row ∈ (table.listByUser tenantId userId offset limit).1) :
    row ∈ table.rows ∧ row.tenantId = tenantId ∧ row.userId = userId ∧ row.status = .active := by
  have hsorted := List.mem_of_mem_drop (List.mem_of_mem_take h)
  have hbase := List.mem_filter.mp (List.mem_mergeSort.mp hsorted)
  exact ⟨hbase.1, by simpa using hbase.2⟩

end Owners

/-! ## Calls of other users -/

/-- The same session with another content. -/
structure CopilotSession.SameOwner (row row' : CopilotSession) : Prop where
  sessionId : row'.sessionId = row.sessionId
  tenantId : row'.tenantId = row.tenantId
  userId : row'.userId = row.userId
  status : row'.status = row.status

/-- The table with another row in the place of the one with its identifier. -/
def Table.replace (table : Table) (row' : CopilotSession) : Table where
  rows := table.rows.map fun row => if row.sessionId = row'.sessionId then row' else row
  keys := by
    have hids : (table.rows.map fun row => if row.sessionId = row'.sessionId then row' else row).map
        CopilotSession.sessionId = table.rows.map CopilotSession.sessionId := by
      rw [List.map_map]
      refine List.map_congr_left fun row _ => ?_
      simp only [Function.comp_apply]
      split
      next h => exact h.symm
      next => rfl
    exact hids ▸ table.keys

/-- Every call fails as not found, nothing is changed, nothing is decided, and what is answered does not depend on the
content of the session. -/
structure Private (s : Server) (row : CopilotSession) (calls : List Call) : Prop where
  notFound : ∀ reply ∈ (serveAll calls s).1, reply = ⟨.error (sessionNotFound row.sessionId), []⟩
  unchanged : (serveAll calls s).2.table = s.table
  undecided : (serveAll calls s).2.decisions = s.decisions
  blind : ∀ row', row.SameOwner row' →
    (serveAll calls { s with table := s.table.replace row' }).1 = (serveAll calls s).1

/-- The list of another user does not depend on the session. -/
theorem listByUser_replace {table : Table} {row row' : CopilotSession} {tenantId userId : String} (offset limit : ℕ)
    (hrow : row ∈ table.rows) (hsame : row.SameOwner row') (huser : userId ≠ row.userId) :
    (table.replace row').listByUser tenantId userId offset limit = table.listByUser tenantId userId offset limit := by
  have hother : ∀ other ∈ table.rows, other.sessionId = row'.sessionId → other.userId ≠ userId := by
    intro other hmem hid
    rw [List.inj_on_of_nodup_map table.keys hmem hrow (hid.trans hsame.sessionId)]
    exact huser.symm
  have hnew : row'.userId ≠ userId := hsame.userId ▸ huser.symm
  have hrows : ∀ rows : List CopilotSession, (∀ other ∈ rows, other ∈ table.rows) →
      (rows.map fun r => if r.sessionId = row'.sessionId then row' else r).filter
          (fun row => row.tenantId = tenantId ∧ row.userId = userId ∧ row.status = .active) =
        rows.filter fun row => row.tenantId = tenantId ∧ row.userId = userId ∧ row.status = .active := by
    intro rows
    induction rows with
    | nil => intro _; rfl
    | cons r rows ih =>
      intro hmem
      have hrest := ih fun other h => hmem other (List.mem_cons_of_mem _ h)
      rw [List.map_cons]
      by_cases hid : r.sessionId = row'.sessionId
      · have hr := hother r (hmem r List.mem_cons_self) hid
        rw [if_pos hid, List.filter_cons_of_neg (by simp [hnew]), List.filter_cons_of_neg (by simp [hr]), hrest]
      · rw [if_neg hid, List.filter_cons, List.filter_cons, hrest]
  unfold Table.listByUser Table.replace
  dsimp only
  rw [hrows table.rows fun _ h => h]

section Private
variable {s : Server} {row : CopilotSession} {calls : List Call}

/-- The session is closed to the call. -/
def CopilotSession.Closed (row : CopilotSession) (call : Call) : Prop :=
  row.status = .deleted ∨ call.ctx.tenantId ≠ row.tenantId

end Private

/-! ### A colleague -/

def silent : World := ⟨fun _ _ => .ok [], fun _ => .ok none⟩

end Lingshu.Copilot.Sessions
