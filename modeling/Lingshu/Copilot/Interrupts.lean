import Lingshu.Copilot.Sessions

/-! # Pending interrupts

`send_message` stores an interrupt in the context of the session and `resume_execution` takes it out again. The context
is read in one step and replaced as a whole in a later one, and `update_context` replaces it too. A ledger follows the
interrupts of one session along an interleaving of the three. -/
namespace Lingshu.Copilot.Sessions
open Interaction Json
set_option autoImplicit false

/-! ## Interleavings -/

inductive Turn where
  | send (content : String)
  | update (context : Assoc Value)
  | resume (approved : Bool)

structure TurnCall where
  ctx : Ctx
  sessionId : String
  turn : Turn

def Turn.program (ctx : Ctx) (sessionId : String) : Turn → Program Unit
  | .send content => sendMessage ctx sessionId content
  | .update context => do
    let _ ← updateContext ctx sessionId context
    return ()
  | .resume approved => resumeExecution ctx sessionId approved

/-- Calls on one database; what the agent and the function service answer may change at any time. -/
def turns : System Cmd Cmd.Answer Exc Server Unit TurnCall World where
  handler := Cmd.exec
  program call := call.turn.program call.ctx call.sessionId
  env world s := { s with world }

abbrev TurnPool := Pool Cmd Cmd.Answer Exc Server Unit TurnCall

abbrev TurnEvent := Interaction.Event Exc TurnCall World

/-- The thread, the call and the command that an event executes. -/
def executes (p : TurnPool) (e : TurnEvent) : Option (ℕ × TurnCall × Cmd) :=
  e.thread.bind fun i => (p.pending i).map fun kc => (i, kc.1, kc.2)

/-- What the session has under `_pending_interrupt`. -/
def Server.pending (s : Server) (sessionId tenantId : String) : Value :=
  ((s.table.getById sessionId tenantId).map fun row => pendingOf row.context).getD .null

/-- The context that a command writes to the session. -/
def Cmd.writes (sessionId tenantId : String) : Cmd → Option (Assoc Value)
  | .updateFields sessionId' tenantId' fields =>
    if sessionId' = sessionId ∧ tenantId' = tenantId then fields.context else none
  | _ => none

/-! ## The ledger -/

/-- The interrupts stored in a session, named by their order. -/
structure Ledger where
  stored : List Value
  /-- The interrupt that the session has in its context. -/
  standing : Option ℕ
  /-- The interrupt that a resumption has read. -/
  read : ℕ → Option ℕ
  /-- Which resumption has taken which interrupt out of the context. -/
  consumed : List (ℕ × ℕ)
  /-- Which resumption has had which interrupt confirmed or cancelled. -/
  acted : List (ℕ × ℕ)

namespace Ledger
variable (l : Ledger) (i : ℕ)

def store (v : Value) : Ledger := { l with stored := l.stored ++ [v], standing := some l.stored.length }

/-- A context from elsewhere: it has what stands in the session, or not. -/
def replace (v before : Value) : Ledger := if v = before then l else { l with standing := none }

def noteRead : Ledger := { l with read := fun j => if j = i then l.standing else l.read j }

/-- The pair of a resumption and the interrupt that it has read. -/
def mark : List (ℕ × ℕ) := (l.read i).toList.map fun n => (i, n)

def consume : Ledger := { l with standing := none, consumed := l.consumed ++ l.mark i }

def act : Ledger := { l with acted := l.acted ++ l.mark i }

/-- What a resumption does. -/
def recordResume (sessionId tenantId : String) (c : Cmd) : Ledger :=
  match c with
  | .getById sessionId' tenantId' => if sessionId' = sessionId ∧ tenantId' = tenantId then l.noteRead i else l
  | .decide _ => l.act i
  | c => if (c.writes sessionId tenantId).isSome then l.consume i else l

/-- Thread `i` has executed a command of its call, when the session had `before` under `_pending_interrupt`. -/
def record (sessionId tenantId : String) (before : Value) (turn : Turn) (c : Cmd) : Ledger :=
  match turn with
  | .send _ => ((c.writes sessionId tenantId).map fun context => l.store (pendingOf context)).getD l
  | .update _ => ((c.writes sessionId tenantId).map fun context => l.replace (pendingOf context) before).getD l
  | .resume _ => l.recordResume i sessionId tenantId c

end Ledger

/-- An interleaving, and what has become of the interrupts of a session in it. -/
structure Observed where
  pool : TurnPool
  ledger : Ledger

section Observe
variable (sessionId tenantId : String)

def observe (o : Observed) (e : TurnEvent) : Observed where
  pool := turns.next o.pool e
  ledger := ((executes o.pool e).map fun x => o.ledger.record x.1 sessionId tenantId
    (o.pool.state.pending sessionId tenantId) x.2.1.turn x.2.2).getD o.ledger

/-- A message stores an interrupt that is not empty, when none stands; an update keeps the one that stands; a
resumption takes out the one that it has read. -/
def Ledger.Allows (l : Ledger) (before : Value) (i : ℕ) (context : Assoc Value) : Turn → Prop
  | .send _ => (pendingOf context).truthy ∧ l.standing = none
  | .update _ => l.standing.isSome → pendingOf context = before
  | .resume _ => l.standing = l.read i

instance (l : Ledger) (before : Value) (i : ℕ) (context : Assoc Value) :
    (turn : Turn) → Decidable (l.Allows before i context turn)
  | .send _ => inferInstanceAs (Decidable (_ ∧ _))
  | .update _ => inferInstanceAs (Decidable (_ → _))
  | .resume _ => inferInstanceAs (Decidable (_ = _))

def Orderly (o : Observed) (e : TurnEvent) : Prop :=
  ∀ x ∈ executes o.pool e, ∀ context ∈ x.2.2.writes sessionId tenantId,
    o.ledger.Allows (o.pool.state.pending sessionId tenantId) x.1 context x.2.1.turn

instance (o : Observed) (e : TurnEvent) : Decidable (Orderly sessionId tenantId o e) :=
  inferInstanceAs (Decidable (∀ x ∈ executes o.pool e, ∀ context ∈ x.2.2.writes sessionId tenantId,
    o.ledger.Allows (o.pool.state.pending sessionId tenantId) x.1 context x.2.1.turn))

end Observe

/-! ## The ledger is balanced -/

/-- What the ledger says, when the session has `pending` under `_pending_interrupt`. -/
structure Ledger.Balanced (l : Ledger) (pending : Value) : Prop where
  standing : ∀ n, l.standing = some n → l.stored[n]? = some pending ∧ pending.truthy ∧ ∀ i, (i, n) ∉ l.consumed
  kept : ∀ n < l.stored.length, l.standing = some n ∨ ∃ i, (i, n) ∈ l.consumed
  known : ∀ i n, (i, n) ∈ l.consumed → n < l.stored.length
  read : ∀ i n, l.read i = some n → n < l.stored.length
  once : ∀ n i j, (i, n) ∈ l.consumed → (j, n) ∈ l.consumed → i = j
  acted : ∀ x ∈ l.acted, x ∈ l.consumed

namespace Ledger
variable {l : Ledger} {i : ℕ} {pending pending' : Value}

theorem mem_mark {j n : ℕ} : (j, n) ∈ l.mark i ↔ j = i ∧ l.read i = some n := by
  cases h : l.read i <;> simp [mark, h, eq_comm]

/-- When nothing stands, it does not matter what the session has. -/
theorem Balanced.of_none (h : l.Balanced pending) (hnone : l.standing = none) : l.Balanced pending' :=
  { h with standing := fun n hn => by rw [hnone] at hn; cases hn }

theorem Balanced.store (h : l.Balanced pending) (hnone : l.standing = none) {v : Value} (hv : v.truthy) :
    (l.store v).Balanced v where
  standing := by
    intro n hn
    obtain rfl := Option.some.inj hn
    exact ⟨List.getElem?_concat_length, hv, fun i hi => Nat.lt_irrefl _ (h.known i _ hi)⟩
  kept := by
    intro n hn
    by_cases hlt : n < l.stored.length
    · rcases h.kept n hlt with hs | hc
      · rw [hnone] at hs
        cases hs
      · exact .inr hc
    · refine .inl (congrArg some ?_)
      have hlen : n < l.stored.length + 1 := by simpa [Ledger.store] using hn
      omega
  known := by
    intro i n hn
    have := h.known i n hn
    simp only [Ledger.store, List.length_append, List.length_singleton]
    omega
  read := by
    intro i n hn
    have := h.read i n hn
    simp only [Ledger.store, List.length_append, List.length_singleton]
    omega
  once := h.once
  acted := h.acted

theorem Balanced.replace (h : l.Balanced pending) {v : Value} (hkeeps : l.standing.isSome → v = pending) :
    (l.replace v pending).Balanced v := by
  unfold Ledger.replace
  split
  next heq => exact heq ▸ h
  next hne =>
    have hnone : l.standing = none := by
      cases hs : l.standing with
      | none => rfl
      | some n => exact absurd (hkeeps (hs ▸ rfl)) hne
    exact hnone ▸ h.of_none hnone

theorem Balanced.noteRead (h : l.Balanced pending) : (l.noteRead i).Balanced pending where
  standing := h.standing
  kept := h.kept
  known := h.known
  read := by
    intro j n hn
    simp only [Ledger.noteRead] at hn
    split at hn
    next => exact (List.getElem?_eq_some_iff.mp (h.standing n hn).1).1
    next => exact h.read j n hn
  once := h.once
  acted := h.acted

theorem Balanced.consume (h : l.Balanced pending) (hread : l.standing = l.read i) : (l.consume i).Balanced pending' where
  standing := fun n hn => nomatch hn
  kept := by
    intro n hn
    refine .inr ?_
    rcases h.kept n hn with hs | ⟨j, hj⟩
    · exact ⟨i, List.mem_append_right _ (mem_mark.mpr ⟨rfl, hread ▸ hs⟩)⟩
    · exact ⟨j, List.mem_append_left _ hj⟩
  known := by
    intro j n hn
    rcases List.mem_append.mp hn with hn | hn
    · exact h.known j n hn
    · exact h.read i n (mem_mark.mp hn).2
  read := h.read
  once := by
    -- what is taken out now has stood in the session, so that nobody has taken it out before
    have hnew : ∀ n j k, (j, n) ∈ l.consumed → (k, n) ∉ l.mark i := fun n j k hj hk =>
      (h.standing n (hread.trans (mem_mark.mp hk).2)).2.2 j hj
    intro n j k hj hk
    rcases List.mem_append.mp hj with hj | hj
    · rcases List.mem_append.mp hk with hk | hk
      · exact h.once n j k hj hk
      · exact absurd hk (hnew n j k hj)
    · rcases List.mem_append.mp hk with hk | hk
      · exact absurd hj (hnew n k j hk)
      · exact (mem_mark.mp hj).1.trans (mem_mark.mp hk).1.symm
  acted := fun x hx => List.mem_append_left _ (h.acted x hx)

theorem Balanced.act (h : l.Balanced pending) (hread : ∀ n, l.read i = some n → (i, n) ∈ l.consumed) :
    (l.act i).Balanced pending where
  standing := h.standing
  kept := h.kept
  known := h.known
  read := h.read
  once := h.once
  acted := by
    rintro ⟨j, n⟩ hx
    rcases List.mem_append.mp hx with hx | hx
    · exact h.acted _ hx
    · obtain ⟨rfl, hn⟩ := mem_mark.mp hx
      exact hread n hn

end Ledger

/-! ## One command -/

section Command
variable {sessionId tenantId : String} {c : Cmd} {s : Server} {l : Ledger} {i : ℕ} {pending : Value}

/-- A command that leaves the session in place changes its pending interrupt by writing its context. -/
theorem exec_pending (hmild : c.Mild) (h : s.Has sessionId tenantId) : (c.exec s).2.pending sessionId tenantId =
    ((c.writes sessionId tenantId).map pendingOf).getD (s.pending sessionId tenantId) := by
  cases c with
  | create | softDelete => exact hmild.elim
  | getById | listByUser | commit | processMessage | decide | render | yield => rfl
  | updateFields sessionId' tenantId' fields =>
    obtain ⟨row, hrow⟩ := Option.isSome_iff_exists.mp h
    have hat : row.IsAt sessionId tenantId := by
      have hfound := List.find?_some hrow
      simp only [decide_eq_true_eq] at hfound
      exact hfound.1
    have hexec : (Cmd.exec (.updateFields sessionId' tenantId' fields) s).2.pending sessionId tenantId =
        pendingOf (Table.setRow sessionId' tenantId' fields row).context := by
      simp only [Cmd.exec, Server.pending, Table.getById_updateRows _ _ _ _ _ hmild, hrow, Option.map_some,
        Option.getD_some]
    rw [hexec, Server.pending, hrow]
    simp only [Table.setRow, Cmd.writes]
    by_cases hsame : sessionId' = sessionId ∧ tenantId' = tenantId
    · obtain ⟨rfl, rfl⟩ := hsame
      rw [if_pos hat, if_pos ⟨rfl, rfl⟩]
      cases hcontext : fields.context <;> simp [Fields.apply, hcontext]
    · have hother : ¬ row.IsAt sessionId' tenantId' := fun hat' =>
        hsame ⟨hat'.1.symm.trans hat.1, hat'.2.symm.trans hat.2⟩
      rw [if_neg hother, if_neg hsame]
      rfl

/-- A command in order keeps the balance. -/
theorem Ledger.Balanced.record {turn : Turn} (h : l.Balanced pending)
    (hallows : ∀ context ∈ c.writes sessionId tenantId, l.Allows pending i context turn)
    (hact : ∀ approved decision, turn = .resume approved → c = .decide decision →
      ∀ n, l.read i = some n → (i, n) ∈ l.consumed) :
    (l.record i sessionId tenantId pending turn c).Balanced
      (((c.writes sessionId tenantId).map pendingOf).getD pending) := by
  cases turn with
  | send content =>
    unfold Ledger.record
    cases hw : c.writes sessionId tenantId with
    | none => exact h
    | some context =>
      obtain ⟨htruthy, hnone⟩ := hallows context hw
      exact h.store hnone htruthy
  | update context' =>
    unfold Ledger.record
    cases hw : c.writes sessionId tenantId with
    | none => exact h
    | some context => exact h.replace (hallows context hw)
  | resume approved =>
    cases c with
    | getById sessionId' tenantId' =>
      simp only [Ledger.record, Ledger.recordResume]
      split
      · exact h.noteRead
      · exact h
    | decide decision => exact h.act (hact approved decision rfl rfl)
    | updateFields sessionId' tenantId' fields =>
      simp only [Ledger.record, Ledger.recordResume]
      cases hw : Cmd.writes sessionId tenantId (.updateFields sessionId' tenantId' fields) with
      | none => exact h
      | some context => exact h.consume (hallows context hw)
    | create | softDelete | listByUser | commit | processMessage | render | yield => exact h

end Command

/-! ## The stages of a resumption -/

/-- What a resumption may do with an interrupt that it has taken out of the context. -/
def Cmd.Acts : Cmd → Prop
  | .decide _ | .commit | .render .. | .yield _ => True
  | .updateFields _ _ fields => fields.context = none ∧ fields.status = none
  | .create _ | .getById .. | .softDelete .. | .listByUser .. | .processMessage .. => False

def Cmd.Quiet : Cmd → Prop
  | .decide _ => False
  | c => c.Acts

abbrev Program.Acts {α : Type} (p : Program α) : Prop := p.Meets Cmd.Acts (fun _ _ => True) fun _ => True

section Acts
variable {ctx : Ctx} {sessionId : String}

theorem acts_ask {c : Cmd} (hc : c.Acts) : (ask c).Acts := ⟨hc, fun _ _ => trivial, fun _ => trivial⟩

theorem acts_executionId (pending : Value) : (executionId pending).Acts := by
  unfold executionId
  split <;> trivial

theorem acts_confirm (id : Value) : (confirm id).Acts :=
  Prog.Meets.tryCatch (Prog.Meets.bind (acts_ask trivial) fun _ _ => acts_ask trivial) fun _ => acts_ask trivial

theorem acts_approve (pending : Value) : (approve pending).Acts := by
  refine (acts_executionId pending).bind fun id _ => Prog.Meets.bind (acts_ask trivial) fun _ _ => ?_
  split
  · exact (acts_confirm id).bind fun _ _ => acts_ask trivial
  · exact acts_ask trivial

theorem acts_cancel (id : Value) : (cancel id).Acts := by
  unfold cancel
  split
  · exact Prog.Meets.tryCatch (Prog.Meets.bind (acts_ask trivial) fun _ _ => trivial) fun _ => trivial
  · trivial

theorem acts_disapprove (pending : Value) : (disapprove pending).Acts :=
  (acts_executionId pending).bind fun id _ => (acts_cancel id).bind fun _ _ => Prog.Meets.bind (acts_ask trivial)
    fun _ _ => acts_ask trivial

theorem acts_settle (approved : Bool) (pending : Value) : (settle approved pending).Acts := by
  unfold settle
  split
  · exact acts_approve pending
  · exact acts_disapprove pending

theorem acts_act (approved : Bool) (pending : Value) : (act ctx sessionId approved pending).Acts :=
  (acts_settle approved pending).bind fun _ _ => Prog.Meets.bind (acts_ask ⟨rfl, rfl⟩) fun _ _ => acts_ask trivial

theorem quiet_noPending : noPending.Meets Cmd.Quiet (fun _ _ => True) fun _ => True :=
  ⟨trivial, fun _ _ => ⟨trivial, fun _ _ => trivial, fun _ => trivial⟩, fun _ => trivial⟩

end Acts

section Stage
variable (sessionId tenantId : String)

/-- Where a resumption, thread `i`, can be. -/
inductive Stage (l : Ledger) (i : ℕ) (call : TurnCall) (approved : Bool) : Program Unit → Prop where
  | asking (h : l.read i = none) (hfree : ∀ n, (i, n) ∉ l.consumed) :
      Stage l i call approved (resumeExecution call.ctx call.sessionId approved)
  /-- An interrupt has been read, of this session or of another one. -/
  | holding (context : Assoc Value)
      (h : (call.sessionId = sessionId ∧ call.ctx.tenantId = tenantId) ∨ l.read i = none)
      (hfree : ∀ n, (i, n) ∉ l.consumed) :
      Stage l i call approved (takeUp call.ctx call.sessionId approved context)
  /-- What has been read has been taken out. -/
  | acting {q : Program Unit} (hq : q.Acts) (h : ∀ n, l.read i = some n → (i, n) ∈ l.consumed) :
      Stage l i call approved q
  | quiet {q : Program Unit} (hq : q.Meets Cmd.Quiet (fun _ _ => True) fun _ => True) : Stage l i call approved q

variable {sessionId tenantId}
variable {l l' : Ledger} {i : ℕ} {call : TurnCall} {approved : Bool} {q : Program Unit}

theorem Stage.mono (h : Stage sessionId tenantId l i call approved q) (hread : l'.read i = l.read i)
    (hconsumed : ∀ n, (i, n) ∈ l'.consumed ↔ (i, n) ∈ l.consumed) : Stage sessionId tenantId l' i call approved q := by
  cases h with
  | asking h hfree => exact .asking (hread.trans h) fun n => (hconsumed n).not.mpr (hfree n)
  | holding context h hfree =>
    exact .holding context (h.imp_right hread.trans) fun n => (hconsumed n).not.mpr (hfree n)
  | acting hq h => exact .acting hq fun n hn => (hconsumed n).mpr (h n (hread ▸ hn))
  | quiet hq => exact .quiet hq

theorem Stage.throw (e : Exc) : Stage sessionId tenantId l i call approved (.throw e) := .quiet trivial

variable {c : Cmd} {k : Except Exc c.Answer → Program Unit} {s : Server}

/-- The command of a resumption that is about to act on an interrupt. -/
theorem Stage.decide {decision : Decision} (h : Stage sessionId tenantId l i call approved q)
    (hhead : q.head = some (.decide decision)) : ∀ n, l.read i = some n → (i, n) ∈ l.consumed := by
  cases h with
  | asking => cases hhead
  | holding => cases hhead
  | acting hq h => exact h
  | quiet hq =>
    cases q with
    | pure | throw => cases hhead
    | call c k =>
      cases hhead
      exact hq.1.elim

/-- A command that is refused ends a resumption, or the resumption goes on as it may. -/
theorem Stage.refused (h : Stage sessionId tenantId l i call approved (.call c k)) (x : Exc) :
    Stage sessionId tenantId l i call approved (k (.error x)) := by
  cases h with
  | asking => exact .throw x
  | holding => exact .throw x
  | acting hq h => exact .acting (hq.2.2 x) h
  | quiet hq => exact .quiet (hq.2.2 x)

theorem writes_acts (hc : c.Acts) : c.writes sessionId tenantId = none := by
  cases c with
  | updateFields sessionId' tenantId' fields => simp only [Cmd.writes, hc.1, ite_self]
  | commit | render | yield | decide => rfl
  | create | getById | softDelete | listByUser | processMessage => exact hc.elim

/-- A resumption that writes the context has taken nothing out before. -/
theorem Stage.writes (h : Stage sessionId tenantId l i call approved q) (hhead : q.head = some c)
    (hwrites : (c.writes sessionId tenantId).isSome) : ∀ n, (i, n) ∉ l.consumed := by
  cases h with
  | asking h hfree => exact hfree
  | holding context h hfree => exact hfree
  | acting hq h =>
    cases q with
    | pure | throw => cases hhead
    | call c k =>
      cases hhead
      rw [writes_acts hq.1] at hwrites
      cases hwrites
  | quiet hq =>
    cases q with
    | pure | throw => cases hhead
    | call c k =>
      cases hhead
      have hacts : c.Acts := by
        cases c with
        | decide => exact hq.1.elim
        | _ => exact hq.1
      rw [writes_acts hacts] at hwrites
      cases hwrites

/-- Acting takes nothing out of the session. -/
theorem recordResume_acts (hc : c.Acts) : (l.recordResume i sessionId tenantId c).read = l.read ∧
    (l.recordResume i sessionId tenantId c).consumed = l.consumed := by
  cases c with
  | updateFields sessionId' tenantId' fields =>
    simp only [Ledger.recordResume, writes_acts (c := .updateFields sessionId' tenantId' fields) hc]
    exact ⟨rfl, rfl⟩
  | commit | render | yield | decide => exact ⟨rfl, rfl⟩
  | create | getById | softDelete | listByUser | processMessage => exact hc.elim

theorem recordResume_read_of_other {sessionId' tenantId' : String} (h : l.read i = none)
    (hother : ¬ (sessionId' = sessionId ∧ tenantId' = tenantId)) :
    (l.recordResume i sessionId tenantId (.getById sessionId' tenantId')).read i = none := by
  simp only [Ledger.recordResume, if_neg hother, h]

theorem recordResume_getById_consumed {sessionId' tenantId' : String} :
    (l.recordResume i sessionId tenantId (.getById sessionId' tenantId')).consumed = l.consumed := by
  simp only [Ledger.recordResume]
  split <;> rfl

/-- What a resumption has read when it writes the context, it has taken out then. -/
theorem recordResume_consumes {fields : Fields} {context : Assoc Value} (hcontext : fields.context = some context) :
    let l' := l.recordResume i sessionId tenantId (.updateFields sessionId tenantId fields)
    ∀ n, l'.read i = some n → (i, n) ∈ l'.consumed := by
  have hwrites : Cmd.writes sessionId tenantId (.updateFields sessionId tenantId fields) = some context := by
    simp only [Cmd.writes, and_self, if_true, hcontext]
  have hrecord : l.recordResume i sessionId tenantId (.updateFields sessionId tenantId fields) = l.consume i := by
    simp only [Ledger.recordResume, hwrites, Option.isSome_some, if_true]
  dsimp only
  rw [hrecord]
  intro n hn
  exact List.mem_append_right _ (Ledger.mem_mark.mpr ⟨rfl, hn⟩)

theorem recordResume_updateFields_read {sessionId' tenantId' : String} {fields : Fields} :
    (l.recordResume i sessionId tenantId (.updateFields sessionId' tenantId' fields)).read = l.read := by
  simp only [Ledger.recordResume]
  split <;> rfl

/-- What is left of a resumption when the context has been written. -/
theorem acts_written (ctx : Ctx) (sid : String) (pending : Value) (updated : Option CopilotSession) :
    Program.Acts (((orNotFound sid updated).bind fun row => Prog.bind (ask .commit) fun _ => .pure row).bind fun _ =>
      act ctx sid approved pending) := by
  cases updated with
  | none => trivial
  | some row => exact ⟨trivial, fun _ _ => acts_act approved pending, fun _ => trivial⟩

/-- A step of a resumption goes on to the next stage, whatever the answer. -/
theorem Stage.executed (h : Stage sessionId tenantId l i call approved (.call c k)) (r : Except Exc c.Answer) :
    Stage sessionId tenantId (l.recordResume i sessionId tenantId c) i call approved (k r) := by
  cases h with
  | asking h hfree =>
    cases r with
    | error x => exact .throw x
    | ok answer =>
      change Stage sessionId tenantId _ i call approved
        ((orNotFound call.sessionId answer).bind fun row =>
          if (pendingOf row.context).truthy then takeUp call.ctx call.sessionId approved row.context else noPending)
      cases (answer : Option CopilotSession) with
      | none => exact .throw _
      | some row =>
        change Stage sessionId tenantId _ i call approved
          (if (pendingOf row.context).truthy then takeUp call.ctx call.sessionId approved row.context else noPending)
        split
        · refine .holding row.context ?_ ?_
          · by_cases hon : call.sessionId = sessionId ∧ call.ctx.tenantId = tenantId
            · exact .inl hon
            · exact .inr (recordResume_read_of_other h hon)
          · rw [recordResume_getById_consumed]
            exact hfree
        · exact .quiet quiet_noPending
  | holding context h hfree =>
    cases r with
    | error x => exact .throw x
    | ok updated =>
      refine .acting (acts_written call.ctx call.sessionId (pendingOf context) updated) ?_
      rcases h with ⟨rfl, rfl⟩ | h
      · exact recordResume_consumes rfl
      · intro n hn
        rw [recordResume_updateFields_read, h] at hn
        cases hn
  | acting hq h =>
    obtain ⟨hread, hconsumed⟩ : (l.recordResume i sessionId tenantId c).read = l.read ∧
        (l.recordResume i sessionId tenantId c).consumed = l.consumed := recordResume_acts hq.1
    have hnext : (k r).Acts := by
      cases r with
      | ok a => exact hq.2.1 a trivial
      | error x => exact hq.2.2 x
    refine .acting hnext ?_
    rw [hread, hconsumed]
    exact h
  | quiet hq =>
    cases r with
    | ok a => exact .quiet (hq.2.1 a trivial)
    | error x => exact .quiet (hq.2.2 x)

end Stage

/-! ## One step -/

section Step
variable {sessionId tenantId : String}

theorem Program.Acts.mild {α : Type} {p : Program α} (h : p.Acts) : p.Mild := by
  refine Prog.Meets.mono h (fun c hc => ?_) (fun _ _ h => h) fun _ h => h
  cases c with
  | updateFields sessionId tenantId fields => exact hc.2
  | decide | commit | render | yield => trivial
  | create | getById | softDelete | listByUser | processMessage => exact hc.elim

theorem mild_resumeExecution (ctx : Ctx) (sid : String) (approved : Bool) : (resumeExecution ctx sid approved).Mild := by
  refine mild_getSession.bind fun row _ => ?_
  split
  · exact (mild_updateContext _).bind fun _ _ => (acts_act approved _).mild
  · exact ⟨trivial, fun _ _ => ⟨trivial, fun _ _ => trivial, fun _ => trivial⟩, fun _ => trivial⟩

theorem mild_program (call : TurnCall) : Program.Mild (turns.program call) := by
  change Program.Mild (call.turn.program call.ctx call.sessionId)
  cases call.turn with
  | send content => exact mild_sendMessage content
  | update context => exact Prog.Meets.bind (mild_updateContext context) fun _ _ => trivial
  | resume approved => exact mild_resumeExecution call.ctx call.sessionId approved

/-- What a step keeps: the session is there, every resumption is at a stage, and the ledger is balanced. -/
structure Followed (sessionId tenantId : String) (o : Observed) : Prop where
  present : o.pool.state.Has sessionId tenantId
  mild : ∀ t ∈ o.pool.threads, Program.Mild t.2
  stages : ∀ (i : ℕ) (call : TurnCall) (q : Program Unit) (approved : Bool), o.pool.threads[i]? = some (call, q) →
    call.turn = .resume approved → Stage sessionId tenantId o.ledger i call approved q
  fresh : ∀ i, o.pool.threads.length ≤ i → o.ledger.read i = none ∧ ∀ n, (i, n) ∉ o.ledger.consumed
  balanced : o.ledger.Balanced (o.pool.state.pending sessionId tenantId)

section Record
variable {l : Ledger} {i j : ℕ} {before : Value} {turn : Turn} {c : Cmd}

/-- A command of one thread says nothing of what another has read or taken out. -/
theorem record_other (hne : j ≠ i) : (l.record i sessionId tenantId before turn c).read j = l.read j ∧
    ∀ n, (j, n) ∈ (l.record i sessionId tenantId before turn c).consumed ↔ (j, n) ∈ l.consumed := by
  cases turn with
  | send content =>
    simp only [Ledger.record]
    cases c.writes sessionId tenantId <;> exact ⟨rfl, fun _ => Iff.rfl⟩
  | update context =>
    simp only [Ledger.record]
    cases c.writes sessionId tenantId with
    | none => exact ⟨rfl, fun _ => Iff.rfl⟩
    | some context' =>
      simp only [Option.map_some, Option.getD_some, Ledger.replace]
      split <;> exact ⟨rfl, fun _ => Iff.rfl⟩
  | resume approved =>
    cases c with
    | getById sessionId' tenantId' =>
      simp only [Ledger.record, Ledger.recordResume]
      split
      · exact ⟨if_neg hne, fun _ => Iff.rfl⟩
      · exact ⟨rfl, fun _ => Iff.rfl⟩
    | updateFields sessionId' tenantId' fields =>
      simp only [Ledger.record, Ledger.recordResume]
      split
      · exact ⟨rfl, fun n => by simp [Ledger.consume, Ledger.mem_mark, hne]⟩
      · exact ⟨rfl, fun _ => Iff.rfl⟩
    | create | softDelete | listByUser | commit | processMessage | decide | render | yield =>
      exact ⟨rfl, fun _ => Iff.rfl⟩

end Record

variable {o : Observed}

theorem Program.Mild.next {c : Cmd} {k : Except Exc c.Answer → Program Unit} (h : Program.Mild (.call c k))
    (r : Except Exc c.Answer) : (k r).Mild := by
  cases r with
  | ok a => exact h.2.1 a trivial
  | error x => exact h.2.2 x

/-- A thread has its command executed, and goes on with any answer. -/
theorem Followed.executed (h : Followed sessionId tenantId o) {i : ℕ} {call : TurnCall} {c : Cmd}
    {k : Except Exc c.Answer → Program Unit} (hthread : o.pool.threads[i]? = some (call, .call c k))
    (hallows : ∀ context ∈ c.writes sessionId tenantId,
      o.ledger.Allows (o.pool.state.pending sessionId tenantId) i context call.turn) (r : Except Exc c.Answer) :
    Followed sessionId tenantId ⟨⟨(c.exec o.pool.state).2, o.pool.threads.set i (call, k r)⟩,
      o.ledger.record i sessionId tenantId (o.pool.state.pending sessionId tenantId) call.turn c⟩ := by
  have hmild : Program.Mild (.call c k) := h.mild _ (List.mem_of_getElem? hthread)
  refine ⟨hmild.1.exec_has h.present, ?_, ?_, ?_, ?_⟩
  · intro t ht
    rcases List.mem_or_eq_of_mem_set ht with ht | rfl
    · exact h.mild t ht
    · exact hmild.next r
  · intro j call' q approved hj hturn
    rcases getElem?_set_cases hj with ⟨rfl, heq⟩ | ⟨hne, hj⟩
    · obtain ⟨rfl, rfl⟩ := Prod.mk.inj heq
      have hstage := (h.stages j call' _ approved hthread hturn).executed r
      rw [hturn]
      exact hstage
    · exact (h.stages j call' q approved hj hturn).mono (record_other hne).1 (record_other hne).2
  · intro j hj
    rw [List.length_set] at hj
    have hlt : i < o.pool.threads.length := (List.getElem?_eq_some_iff.mp hthread).1
    have hne : j ≠ i := by omega
    obtain ⟨hread, hconsumed⟩ := record_other (l := o.ledger) (c := c) hne
    exact ⟨hread.trans (h.fresh j hj).1, fun n => (hconsumed n).not.mpr ((h.fresh j hj).2 n)⟩
  · rw [exec_pending hmild.1 h.present]
    refine h.balanced.record hallows ?_
    rintro approved decision hturn rfl
    exact (h.stages i call _ approved hthread hturn).decide rfl

theorem Followed.refused (h : Followed sessionId tenantId o) {i : ℕ} {call : TurnCall} {c : Cmd}
    {k : Except Exc c.Answer → Program Unit} (hthread : o.pool.threads[i]? = some (call, .call c k)) (x : Exc) :
    Followed sessionId tenantId ⟨⟨o.pool.state, o.pool.threads.set i (call, k (.error x))⟩, o.ledger⟩ := by
  have hmild : Program.Mild (.call c k) := h.mild _ (List.mem_of_getElem? hthread)
  refine ⟨h.present, ?_, ?_, ?_, h.balanced⟩
  · intro t ht
    rcases List.mem_or_eq_of_mem_set ht with ht | rfl
    · exact h.mild t ht
    · exact hmild.next _
  · intro j call' q approved hj hturn
    rcases getElem?_set_cases hj with ⟨rfl, heq⟩ | ⟨hne, hj⟩
    · obtain ⟨rfl, rfl⟩ := Prod.mk.inj heq
      exact (h.stages j call' _ approved hthread hturn).refused x
    · exact h.stages j call' q approved hj hturn
  · intro j hj
    exact h.fresh j (List.length_set ▸ hj)

theorem Followed.started (h : Followed sessionId tenantId o) (call : TurnCall) :
    Followed sessionId tenantId ⟨⟨o.pool.state, o.pool.threads ++ [(call, turns.program call)]⟩, o.ledger⟩ := by
  refine ⟨h.present, ?_, ?_, ?_, h.balanced⟩
  · intro t ht
    rcases List.mem_append.mp ht with ht | ht
    · exact h.mild t ht
    · rw [List.mem_singleton.mp ht]
      exact mild_program call
  · intro i call' q approved hi hturn
    by_cases hlt : i < o.pool.threads.length
    · rw [List.getElem?_append_left hlt] at hi
      exact h.stages i call' q approved hi hturn
    · rw [List.getElem?_append_right (Nat.le_of_not_lt hlt)] at hi
      obtain ⟨rfl, rfl⟩ := Prod.mk.inj (List.mem_singleton.mp (List.mem_of_getElem? hi))
      have hprogram : turns.program call' = resumeExecution call'.ctx call'.sessionId approved := by
        change call'.turn.program call'.ctx call'.sessionId = _
        rw [hturn]
        rfl
      rw [hprogram]
      exact .asking (h.fresh i (Nat.le_of_not_lt hlt)).1 (h.fresh i (Nat.le_of_not_lt hlt)).2
  · intro i hi
    rw [List.length_append] at hi
    exact h.fresh i (by omega)

/-- A step in order. -/
theorem Followed.step (h : Followed sessionId tenantId o) {e : TurnEvent} (he : Orderly sessionId tenantId o e) :
    Followed sessionId tenantId (observe sessionId tenantId o e) := by
  have hhappens := System.happens turns o.pool e
  unfold Orderly at he
  unfold observe
  generalize turns.next o.pool e = p at hhappens
  cases hhappens with
  | started call => exact h.started call
  | outside world => exact ⟨h.present, h.mild, h.stages, h.fresh, h.balanced⟩
  | @nothing _ i hkind hnone =>
    have hexecutes : executes o.pool e = none := by
      rcases hkind with rfl | ⟨x, rfl⟩ | ⟨x, rfl⟩
      · simp only [executes, Interaction.Event.thread, Option.bind_some, hnone, Option.map_none]
      · simp only [executes, Interaction.Event.thread, Option.bind_some, hnone, Option.map_none]
      · rfl
    rw [hexecutes]
    exact h
  | @answered i call c k hthread =>
    have hexecutes : executes o.pool (.step i) = some (i, call, c) := by
      simp only [executes, Interaction.Event.thread, Option.bind_some, System.pending_of_getElem? hthread,
        Option.map_some]
    rw [hexecutes] at he ⊢
    exact h.executed hthread (he _ rfl) _
  | @lost i call c k x hthread =>
    have hexecutes : executes o.pool (.lose i x) = some (i, call, c) := by
      simp only [executes, Interaction.Event.thread, Option.bind_some, System.pending_of_getElem? hthread,
        Option.map_some]
    rw [hexecutes] at he ⊢
    exact h.executed hthread (he _ rfl) _
  | @refused i call c k x hthread => exact h.refused hthread x

end Step

/-! ## Whole runs -/

section Runs
variable {sessionId tenantId : String} {o : Observed} {s : Server}

end Runs

/-! ### Runs -/

def untouched : Table := ⟨[⟨"ri.session.1", "ri.tenant.1", "ri.user.1", "agent", none, [], none, .active, 1, 1⟩],
  List.pairwise_singleton _ _⟩

def turnCall (turn : Turn) : TurnCall := ⟨⟨"ri.tenant.1", "ri.user.1", 2⟩, "ri.session.1", turn⟩

/-- The call comes in as thread `i` and takes `n` steps. -/
def whole (i n : ℕ) (turn : Turn) : List TurnEvent := .start (turnCall turn) :: List.replicate n (.step i)

end Lingshu.Copilot.Sessions
