import Lingshu.Function.Stages

/-! # Threads and their moves

A thread is calm as long as it will not write to the row of the execution; only one that finds the row pending
goes on to prepare a run or to cancel. What one command does to the row and to the stage of its thread. -/
namespace Lingshu.Function
open Json Data Interaction Interaction.Prog
set_option autoImplicit false

variable {World : Type} (rt : Runtime) (env : Env World) (id T : String)

/-- A program that a call has left. -/
abbrev Thread : Type := Call × Program Reply

/-- A thread that will not write to the row, unless it finds it pending. -/
def Calm (t : Thread) : Prop :=
  if t.1.concerns id then t.2 = service rt t.1 ∨ Closed t.2
  else Keeps (fun c => Spares id c = true) (Fresh id) t.2

/-- What a call that concerns the execution asks first, and how it goes on. -/
theorem asks {κ : Call} (h : κ.concerns id = true) :
    ∃ k, service rt κ = .call (.getExecution id κ.ctx.tenantId) k ∧
      (∀ x, x.status = .pendingConfirmation → κ.ctx.tenantId = T →
        (κ.confirms id = true → Preparing id T (k (.ok (some x)))) ∧
        (κ.cancels id = true → Cancelling id T (k (.ok (some x))))) ∧
      ∀ r, (∀ x, r = .ok (some x) → x.status ≠ .pendingConfirmation) → Closed (k r) := by
  obtain ⟨ctx, op⟩ := κ
  cases op with
  | confirmExecution executionId =>
    obtain rfl : executionId = id := by simpa [Call.concerns, Call.confirms, Call.cancels] using h
    refine ⟨_, rfl, ?_, ?_⟩
    · intro x hx hT
      refine ⟨fun _ => ?_, fun hc => by simp [Call.cancels] at hc⟩
      have hpreparing := preparing_confirmPending rt executionId T hT x
        (f := fun r => Prog.pure (Reply.execution r)) fun _ => trivial
      show Preparing executionId T (((Prog.bind (if x.status = .pendingConfirmation then Prog.pure x else _) _)).bind _)
      rw [if_pos hx]
      exact hpreparing
    · rintro (e | _ | x) hr
      · trivial
      · trivial
      · show Closed ((Prog.bind (if x.status = .pendingConfirmation then Prog.pure x else _) _).bind _)
        rw [if_neg (hr x rfl)]
        trivial
  | cancelExecution executionId =>
    obtain rfl : executionId = id := by simpa [Call.concerns, Call.confirms, Call.cancels] using h
    refine ⟨_, rfl, ?_, ?_⟩
    · intro x hx hT
      refine ⟨fun hc => by simp [Call.confirms] at hc, fun _ => ?_⟩
      have hcancelling := cancelling_cancelPending executionId T hT
        (f := fun r => Prog.pure (Reply.execution r)) fun _ => trivial
      show Cancelling executionId T ((Prog.bind (if x.status = .pendingConfirmation then Prog.pure x else _) _).bind _)
      rw [if_pos hx]
      exact hcancelling
    · rintro (e | _ | x) hr
      · trivial
      · trivial
      · show Closed ((Prog.bind (if x.status = .pendingConfirmation then Prog.pure x else _) _).bind _)
        rw [if_neg (hr x rfl)]
        trivial
  | executeAction | executeActionBatch | executeActionAsync | executeToolCall =>
    simp [Call.concerns, Call.confirms, Call.cancels] at h

theorem confirms_concerns {κ : Call} (h : κ.confirms id = true) : κ.concerns id = true := by
  simp [Call.concerns, h]

theorem cancels_concerns {κ : Call} (h : κ.cancels id = true) : κ.concerns id = true := by
  simp [Call.concerns, h]

theorem not_cancels_of_confirms {κ : Call} (h : κ.confirms id = true) : κ.cancels id = false := by
  have hop : κ.op = .confirmExecution id := of_decide_eq_true h
  simp [Call.cancels, hop]

variable {rt id T}

theorem Calm.arrives (κ : Call) : Calm rt id (κ, service rt κ) := by
  unfold Calm
  split
  · exact .inl rfl
  · rename_i h
    exact spares_service rt id (Bool.eq_false_iff.mpr h)

theorem Calm.closed {t : Thread} (hκ : t.1.concerns id = true) (h : Closed t.2) : Calm rt id t := by
  rw [Calm, if_pos hκ]
  exact .inr h

/-- A calm confirmation neither starts an engine nor records a run next. -/
theorem Calm.head {t : Thread} (h : Calm rt id t) (hκ : t.1.concerns id = true) {c : Cmd}
    (hc : t.2.head = some c) : c.isInvoke = false ∧ c.isCreate = false := by
  rw [Calm, if_pos hκ] at h
  obtain ⟨κ, q⟩ := t
  rcases h with h | h
  · obtain ⟨k, hk, -⟩ := asks rt id "" hκ
    rw [h, hk] at hc
    cases hc
    exact ⟨rfl, rfl⟩
  · cases q with
    | pure a => cases hc
    | throw e => cases hc
    | call d k =>
      cases hc
      have hidle : c.idle = true := h.1
      cases c <;> first | exact ⟨rfl, rfl⟩ | cases hidle

/-! ## Moves -/

/-- The row of the execution is there, with this status. -/
def RowIs (id T : String) (s : State World) (st : Status) : Prop :=
  ∃ x, s.executions id = some x ∧ x.tenantId = T ∧ x.status = st

/-- The answer to a reading of the table. -/
def Reads (s : State World) : (c : Cmd) → Except Exc (Ans c) → Prop
  | .getExecution executionId tenantId, r => r = .ok (s.execution executionId tenantId)
  | _, _ => True

/-- What one command does, as far as the execution goes. -/
structure Moved (id T : String) (s : State World) (c : Cmd) (r : Except Exc (Ans c)) (s' : State World) : Prop where
  may : May id c r
  reads : Reads s c r
  spares : Spares id c = true → s'.executions id = s.executions id
  writes : ∀ u x, c = .updateStatus id T u → s.execution id T = some x → s'.executions id = some (u.apply x)

theorem exec_spares {c : Cmd} {s : State World} (hrow : (s.executions id).isSome) (hc : Spares id c = true) :
    (exec env c s).2.executions id = s.executions id := by
  cases c with
  | createExecution x =>
    by_cases hid : x.executionId = id
    · obtain ⟨y, hy⟩ := Option.isSome_iff_exists.mp hrow
      rw [exec_createExecution env (hid ▸ hy)]
    · exact exec_executions env s (by simp [Cmd.writes, hid])
  | updateStatus executionId tenantId u =>
    refine exec_executions env s ?_
    simpa [Cmd.writes, Spares] using hc
  | _ => rfl

theorem exec_writes {s : State World} {u : StatusUpdate} {x : Execution} (h : s.execution id T = some x) :
    (exec env (.updateStatus id T u) s).2.executions id = some (u.apply x) := by
  rw [exec_updateStatus env u h]
  exact s.setExecution_self id _

theorem may_of_fallible {c : Cmd} (h : c.fallible = true) (r : Except Exc (Ans c)) : May id c r := by
  cases r with
  | ok a => cases c <;> trivial
  | error e => exact h

/-- A command that is answered, in a run without disturbance. -/
theorem Moved.answered {c : Cmd} {s : State World} (hrow : (s.executions id).isSome)
    (hfresh : ∀ x, c = .createExecution x → s.executions x.executionId = none) :
    Moved id T s c (exec env c s).1 (exec env c s).2 where
  may := by
    cases c with
    | createExecution x =>
      have hnone := hfresh x rfl
      have hne : x.executionId ≠ id := by
        rintro rfl
        simp [hnone] at hrow
      simp only [exec, hnone]
      exact hne
    | updateStatus executionId tenantId u =>
      simp only [exec]
      cases s.execution executionId tenantId <;> trivial
    | uuid4 | now | commit | hasConnector _ | getExecution _ _ => trivial
    | _ => exact may_of_fallible rfl _
  reads := by cases c <;> first | rfl | trivial
  spares := exec_spares env hrow
  writes := by
    rintro u x rfl hx
    exact exec_writes env hx

/-! ## Threads move -/

theorem Keeps.next {β : Type} {Pre : Cmd → Prop} {Post : (c : Cmd) → Ans c → Prop} {c : Cmd}
    {k : Except Exc (Ans c) → Program β} {r : Except Exc (Ans c)} (h : Keeps Pre Post (.call c k))
    (hr : ∀ a, r = .ok a → Post c a) : Keeps Pre Post (k r) := by
  cases r with
  | ok a => exact h.2.1 a (hr a rfl)
  | error e => exact h.2.2 e

variable {s s' : State World} {st : Status} {κ : Call} {c : Cmd} {k : Except Exc (Ans c) → Program Reply}
variable {r : Except Exc (Ans c)}

/-- The execution that a call finds under the id. -/
theorem RowIs.of_execution {U : String} {x : Execution} (hrow : RowIs id T s st) (h : s.execution id U = some x) :
    U = T ∧ x.status = st := by
  obtain ⟨y, hy, hT, hst⟩ := hrow
  simp only [State.execution, hy, Option.filter] at h
  split at h
  · cases h
    rename_i hU
    exact ⟨(of_decide_eq_true hU : x.tenantId = U).symm.trans hT, hst⟩
  · cases h

theorem RowIs.execution (hrow : RowIs id T s st) : ∃ x, s.execution id T = some x ∧ x.tenantId = T := by
  obtain ⟨y, hy, hT, -⟩ := hrow
  refine ⟨y, ?_, hT⟩
  simp [State.execution, hy, hT]

theorem RowIs.spared (hrow : RowIs id T s st) (hm : Moved id T s c r s') (hc : Spares id c = true) :
    RowIs id T s' st := by
  obtain ⟨x, hx, hT, hst⟩ := hrow
  exact ⟨x, (hm.spares hc).trans hx, hT, hst⟩

/-- The write that ends a stage. -/
theorem Settles.moves {status : Status} (h : Settles id T status c k) (hrow : RowIs id T s st)
    (hm : Moved id T s c r s') : RowIs id T s' status ∧ Closed (k r) := by
  obtain ⟨u, hc, hu, hk⟩ := h
  obtain ⟨x, hx, hT⟩ := hrow.execution
  exact ⟨⟨u.apply x, hm.writes u x hc hx, hT, hu⟩, hk r⟩

/-- A calm thread stays calm, unless it finds the execution pending. -/
theorem Calm.moves (h : Calm rt id (κ, .call c k)) (hrow : RowIs id T s st) (hm : Moved id T s c r s') :
    Spares id c = true ∧ (Calm rt id (κ, k r) ∨
      (κ.concerns id = true ∧ st = .pendingConfirmation ∧ c = .getExecution id κ.ctx.tenantId ∧
        (κ.confirms id = true → Preparing id T (k r)) ∧ (κ.cancels id = true → Cancelling id T (k r)))) := by
  by_cases hκ : κ.concerns id = true
  · rw [Calm, if_pos hκ] at h
    rcases h with h | h
    · obtain ⟨k', hk', hpending, hclosed⟩ := asks rt id T hκ
      rw [hk'] at h
      cases h
      refine ⟨rfl, ?_⟩
      have hr : r = .ok (s.execution id κ.ctx.tenantId) := hm.reads
      by_cases hfound : ∃ x, s.execution id κ.ctx.tenantId = some x ∧ x.status = .pendingConfirmation
      · obtain ⟨x, hx, hst⟩ := hfound
        obtain ⟨hU, hx'⟩ := hrow.of_execution hx
        have hnext := hpending x hst hU
        rw [hr, hx]
        exact .inr ⟨hκ, hx'.symm.trans hst, rfl, hnext⟩
      · refine .inl (Calm.closed hκ (hclosed r ?_))
        rintro x hx hst
        rw [hr] at hx
        exact hfound ⟨x, Except.ok.inj hx, hst⟩
    · have hidle : c.idle = true := h.1
      refine ⟨?_, .inl (Calm.closed hκ (Keeps.next h fun _ _ => True.intro))⟩
      cases c <;> first | rfl | cases hidle
  · rw [Calm, if_neg hκ] at h
    refine ⟨h.1, .inl ?_⟩
    rw [Calm, if_neg hκ]
    refine Keeps.next h fun a ha => ?_
    have hmay := hm.may
    rwa [ha] at hmay

theorem spares_of_external (h : c.external = true) : Spares id c = true := by
  cases c <;> first | rfl | cases h

/-- A thread that prepares its run goes on, or starts the engine, or finds the execution expired. -/
theorem Preparing.moves (h : Preparing id T (.call c k)) (hrow : RowIs id T s st) (hm : Moved id T s c r s') :
    (RowIs id T s' .expired ∧ Closed (k r) ∧ c.isInvoke = false) ∨
    (Spares id c = true ∧ ((c.isInvoke = false ∧ Preparing id T (k r)) ∨ Running id T (k r))) := by
  rcases h with (⟨hinvoke, hk⟩ | hsettles) | ⟨⟨hext, hinvoke⟩, hk⟩
  · refine .inr ⟨?_, .inr (hk r hm.may)⟩
    cases c <;> first | rfl | cases hinvoke
  · obtain ⟨hrow', hclosed⟩ := hsettles.moves hrow hm
    obtain ⟨u, rfl, -⟩ := hsettles
    exact .inl ⟨hrow', hclosed, rfl⟩
  · exact .inr ⟨spares_of_external hext, .inl ⟨hinvoke, hk r hm.may⟩⟩

theorem Preparing.head {q : Program Reply} (h : Preparing id T q) : q.head.any Cmd.isCreate = false := by
  cases q with
  | pure a => rfl
  | throw e => rfl
  | call c k =>
    rcases h with (⟨hinvoke, -⟩ | ⟨u, rfl, -⟩) | ⟨⟨hext, -⟩, -⟩
    · cases c <;> first | rfl | cases hinvoke
    · rfl
    · cases c <;> first | rfl | cases hext

/-- A run that is not recorded yet goes on. -/
theorem Running.moves (h : Running id T (.call c k)) (hc : c.isCreate = false) (hm : Moved id T s c r s') :
    Spares id c = true ∧ c.isInvoke = false ∧ Running id T (k r) := by
  rcases h with ⟨hcreate, -⟩ | ⟨⟨hext, hinvoke⟩, hk⟩
  · rw [hc] at hcreate
    cases hcreate
  · exact ⟨spares_of_external hext, hinvoke, hk r hm.may⟩

/-- At the command that records it, the run is over. -/
theorem Running.recording {q : Program Reply} (h : Running id T q) (hq : q.head.any Cmd.isCreate = true) :
    Recording id T q := by
  cases q with
  | pure a => cases hq
  | throw e => cases hq
  | call c k =>
    have hcreate : c.isCreate = true := hq
    rcases h with ⟨-, hrec⟩ | ⟨⟨hext, -⟩, -⟩
    · exact hrec
    · rw [Cmd.external_of_isCreate hcreate] at hext
      cases hext

theorem closed_of_head {q : Program Reply} (hq : q.head = none) : Closed q := by
  cases q with
  | pure a => trivial
  | throw e => trivial
  | call c k => cases hq

theorem Recording.moves (h : Recording id T (.call c k)) (hrow : RowIs id T s st) (hm : Moved id T s c r s') :
    (RowIs id T s' .success ∧ Closed (k r) ∧ c.isCreate = false) ∨ (Spares id c = true ∧ Recording id T (k r)) := by
  rcases h with hsettles | ⟨hrec, hk⟩
  · obtain ⟨hrow', hclosed⟩ := hsettles.moves hrow hm
    obtain ⟨u, rfl, -⟩ := hsettles
    exact .inl ⟨hrow', hclosed, rfl⟩
  · refine .inr ⟨?_, hk r hm.may⟩
    cases c <;> first | rfl | exact hrec

theorem Cancelling.moves (h : Cancelling id T (.call c k)) (hrow : RowIs id T s st) (hm : Moved id T s c r s') :
    (RowIs id T s' .cancelled ∧ Closed (k r)) ∨ (Spares id c = true ∧ Cancelling id T (k r)) := by
  rcases h with hsettles | ⟨rfl, hk⟩
  · exact .inl (hsettles.moves hrow hm)
  · exact .inr ⟨rfl, hk r hm.may⟩

/-! ## Threads at work -/

def Cmd.isGet : Cmd → Bool
  | .getExecution _ _ => true
  | _ => false

/-- A thread in one of the stages is about to issue something other than a reading of the row, or has raised. -/
theorem Preparing.isGet {q : Program Reply} (h : Preparing id T q) (hc : q.head = some c) : c.isGet = false := by
  cases q with
  | pure a => cases hc
  | throw e => cases hc
  | call d k =>
    cases hc
    rcases h with (⟨hinvoke, -⟩ | ⟨u, rfl, -⟩) | ⟨⟨hext, -⟩, -⟩
    · cases c <;> first | rfl | cases hinvoke
    · rfl
    · cases c <;> first | rfl | cases hext

theorem Running.isGet {q : Program Reply} (h : Running id T q) (hc : q.head = some c) : c.isGet = false := by
  cases q with
  | pure a => cases hc
  | throw e => cases hc
  | call d k =>
    cases hc
    rcases h with ⟨hcreate, -⟩ | ⟨⟨hext, -⟩, -⟩
    · cases c <;> first | rfl | cases hcreate
    · cases c <;> first | rfl | cases hext

theorem Recording.head {q : Program Reply} (h : Recording id T q) :
    ∃ c, q.head = some c ∧ c.isInvoke = false ∧ c.isGet = false := by
  cases q with
  | pure a => exact False.elim h
  | throw e => exact False.elim h
  | call c k =>
    refine ⟨c, rfl, ?_⟩
    rcases h with ⟨u, rfl, -⟩ | ⟨hrec, -⟩
    · exact ⟨rfl, rfl⟩
    · cases c <;> first | exact ⟨rfl, rfl⟩ | cases hrec

theorem Cancelling.isGet {q : Program Reply} (h : Cancelling id T q) : ∃ c, q.head = some c ∧ c.isGet = false := by
  cases q with
  | pure a => exact False.elim h
  | throw e => exact False.elim h
  | call c k =>
    refine ⟨c, rfl, ?_⟩
    rcases h with ⟨u, rfl, -⟩ | ⟨rfl, -⟩ <;> rfl

end Lingshu.Function
