import Lingshu.Function.Moves

/-! # Overlapping calls

A pool of calls is watched: which thread has had an engine started, which has recorded a run. `Once`: what a step
has to meet for an execution to be run at most once. `NoOverlap`: nobody finds it pending while another call that
did is still at work. -/
namespace Lingshu.Function
open Json Data Interaction Interaction.Prog
set_option autoImplicit false

variable {World : Type} (rt : Runtime) (env : Env World) (id T : String)

abbrev Watch (World : Type) : Type := Watched Cmd Ans Exc (State World) Reply Call

abbrev Step (World : Type) : Type := Event Exc Call (Outside World)

/-! ## Runs on behalf of an execution -/

def statusOf (s : State World) : Option Status := (s.executions id).map Execution.status

/-- Thread `i` has started an engine. -/
def began (w : Watch World) (i : ℕ) : Bool := w.log.any fun e => e.1 = i && e.2.isInvoke

/-- Thread `i` has recorded a run. -/
def recorded (w : Watch World) (i : ℕ) : Bool := w.log.any fun e => e.1 = i && e.2.isCreate

/-- Thread `i` confirms the execution and its run of the engine and the write-back has completed: recording it
is what comes next, or has been done. -/
def completed (w : Watch World) (i : ℕ) : Bool :=
  match w.pool.threads[i]? with
  | some t => t.1.confirms id && began w i && (t.2.head.any Cmd.isCreate || recorded w i)
  | none => false

/-- Thread `i` confirms the execution and its run has begun, and has neither completed nor failed. -/
def underway (w : Watch World) (i : ℕ) : Bool :=
  match w.pool.threads[i]? with
  | some t => t.1.confirms id && began w i && !completed id w i && t.2.head.isSome
  | none => false

/-- A confirmation of the execution has its engine started. -/
def starts (p : Pool Cmd Ans Exc (State World) Reply Call) (e : Step World) : Bool :=
  match p.issues e with
  | some (κ, c) => κ.confirms id && c.isInvoke
  | none => false

def finalStatuses : List Status := [.success, .failed, .cancelled, .expired]

/-- A step does not start a run next to another one, or for an execution that was cancelled or has expired; after
it at most one run has completed; a final status stays. -/
structure Once (w : Watch World) (e : Step World) : Prop where
  alone : starts id w.pool e = true → ∀ i, underway id w i = false
  open_ : starts id w.pool e = true → statusOf id w.pool.state ∉ [some .cancelled, some .expired]
  one : ∀ i j, completed id ((backend rt env).watch w e) i = true →
    completed id ((backend rt env).watch w e) j = true → i = j
  final : ∀ st ∈ finalStatuses, statusOf id w.pool.state = some st →
    statusOf id ((backend rt env).watch w e).pool.state = some st

/-! ## Conditions on steps -/

/-- The database answers, ids from `uuid4` are new; the other services and the engines may fail. -/
def Undisturbed (p : Pool Cmd Ans Exc (State World) Reply Call) : Step World → Prop
  | .step i =>
    match p.pending i with
    | some (_, .createExecution x) => p.state.executions x.executionId = none
    | _ => True
  | .lose i _ | .refuse i _ =>
    match p.pending i with
    | some (_, c) => c.fallible = true
    | none => True
  | _ => True

/-- A confirmation or cancellation of the execution that has read the row and is still at work. -/
def engaged (t : Thread) : Bool :=
  t.1.concerns id && match t.2.head with
    | some (.getExecution _ _) => false
    | some _ => true
    | none => false

/-- Who finds the execution pending is the only one at work on it, or one of several cancellations. -/
def NoOverlap (p : Pool Cmd Ans Exc (State World) Reply Call) : Step World → Prop
  | .step i =>
    match p.pending i with
    | some (κ, .getExecution _ _) =>
      κ.concerns id = true → statusOf id p.state = some .pendingConfirmation →
        ∀ j < p.threads.length, j ≠ i → ∀ t ∈ p.threads[j]?, engaged id t = true →
          κ.cancels id = true ∧ t.1.cancels id = true
    | _ => True
  | _ => True

instance Undisturbed.decidable (p : Pool Cmd Ans Exc (State World) Reply Call) :
    (e : Step World) → Decidable (Undisturbed p e)
  | .step _ | .lose _ _ | .refuse _ _ => by
    dsimp only [Undisturbed]
    split <;> infer_instance
  | .start _ | .env _ => isTrue True.intro

instance NoOverlap.decidable (p : Pool Cmd Ans Exc (State World) Reply Call) :
    (e : Step World) → Decidable (NoOverlap id p e)
  | .step _ => by
    dsimp only [NoOverlap]
    split <;> infer_instance
  | .start _ | .lose _ _ | .refuse _ _ | .env _ => isTrue True.intro

/-! ## Steps of a watched pool -/

variable {rt env id T}
variable {w w' : Watch World} {e : Step World}

/-- Thread `i` moves by one command. -/
structure ThreadMoves (id T : String) (w w' : Watch World) (i : ℕ) (κ : Call) (c : Cmd)
    (k : Except Exc (Ans c) → Program Reply) (r : Except Exc (Ans c)) : Prop where
  thread : w.pool.threads[i]? = some (κ, .call c k)
  threads : w'.pool.threads = w.pool.threads.set i (κ, k r)
  moved : Moved id T w.pool.state c r w'.pool.state
  log : w'.log = w.log ++ [(i, c)] ∨ (w'.log = w.log ∧ c.fallible = true)

/-- A call comes in, or nothing happens that concerns the execution. -/
structure Extends (rt : Runtime) (w w' : Watch World) : Prop where
  executions : w'.pool.state.executions = w.pool.state.executions
  log : w'.log = w.log
  threads : w'.pool.threads = w.pool.threads ∨
    ∃ κ, w'.pool.threads = w.pool.threads ++ [(κ, service rt κ)]

theorem Moved.failed {c : Cmd} {s s' : State World} (hc : c.fallible = true) (x : Exc)
    (hs : s'.executions = s.executions) : Moved id T s c (.error x) s' where
  may := hc
  reads := by cases c <;> trivial
  spares _ := congrFun hs id
  writes := by
    rintro u y rfl -
    cases hc

theorem exec_fallible {c : Cmd} (hc : c.fallible = true) (s : State World) :
    (exec env c s).2.executions = s.executions := by
  cases c <;> first | rfl | cases hc

variable (rt env T) in
/-- What a step does in a run without disturbance. -/
theorem watch_cases (hrow : (w.pool.state.executions id).isSome) (hu : Undisturbed w.pool e) :
    (Extends rt w ((backend rt env).watch w e) ∧ w.pool.issues e = none) ∨
    ∃ i κ c k r, ThreadMoves id T w ((backend rt env).watch w e) i κ c k r ∧
      (c.fallible = false → e = .step i) ∧ (w.pool.issues e = none ∨ w.pool.issues e = some (κ, c)) := by
  have hh := (backend rt env).happens w.pool e
  have hpool : ((backend rt env).watch w e).pool = (backend rt env).next w.pool e := rfl
  have hlog : ((backend rt env).watch w e).log = w.log ++ w.pool.executed e := rfl
  rw [← hpool] at hh
  generalize (backend rt env).watch w e = w' at hh hlog ⊢
  obtain ⟨p', log'⟩ := w'
  obtain rfl : log' = w.log ++ w.pool.executed e := hlog
  cases hh with
  | started κ => exact .inl ⟨⟨rfl, List.append_nil _, .inr ⟨κ, rfl⟩⟩, rfl⟩
  | outside v => exact .inl ⟨⟨by cases v <;> rfl, List.append_nil _, .inl rfl⟩, rfl⟩
  | nothing he hnone =>
    have hexecuted : w.pool.executed e = [] := by
      rcases he with rfl | ⟨x, rfl⟩ | ⟨x, rfl⟩ <;> simp [Pool.executed, Event.thread, hnone]
    have hissues : w.pool.issues e = none := by
      rcases he with rfl | ⟨x, rfl⟩ | ⟨x, rfl⟩ <;> simp [Pool.issues, hnone]
    exact .inl ⟨⟨rfl, by simp [hexecuted], .inl rfl⟩, hissues⟩
  | @answered i κ c k h =>
    have hpending := System.pending_of_getElem? h
    refine .inr ⟨i, κ, c, k, _, ⟨h, rfl, ?_, ?_⟩, fun _ => rfl, .inr hpending⟩
    · refine Moved.answered env hrow ?_
      rintro x rfl
      simpa [Undisturbed, hpending] using hu
    · simp [Pool.executed, Event.thread, hpending]
  | @lost i κ c k x h =>
    have hpending := System.pending_of_getElem? h
    have hc : c.fallible = true := by simpa [Undisturbed, hpending] using hu
    refine .inr ⟨i, κ, c, k, _, ⟨h, rfl, Moved.failed hc x (exec_fallible hc _), ?_⟩, ?_, .inr hpending⟩
    · simp [Pool.executed, Event.thread, hpending]
    · rw [hc]
      intro h
      cases h
  | @refused i κ c k x h =>
    have hpending := System.pending_of_getElem? h
    have hc : c.fallible = true := by simpa [Undisturbed, hpending] using hu
    refine .inr ⟨i, κ, c, k, _, ⟨h, rfl, Moved.failed hc x rfl, ?_⟩, ?_, .inl rfl⟩
    · exact .inr ⟨by simp [Pool.executed, Event.thread], hc⟩
    · rw [hc]
      intro h
      cases h

/-! ## What the log says -/

section Log
variable {i j : ℕ} {κ : Call} {c : Cmd} {k : Except Exc (Ans c) → Program Reply} {r : Except Exc (Ans c)}

theorem ThreadMoves.getElem? (h : ThreadMoves id T w w' i κ c k r) {t : Thread}
    (hj : w'.pool.threads[j]? = some t) :
    (j = i ∧ t = (κ, k r)) ∨ (j ≠ i ∧ w.pool.threads[j]? = some t) := by
  rw [h.threads] at hj
  by_cases hji : j = i
  · subst hji
    obtain ⟨hlt, -⟩ := List.getElem?_eq_some_iff.mp h.thread
    rw [List.getElem?_set_self hlt] at hj
    exact .inl ⟨rfl, (Option.some.inj hj).symm⟩
  · rw [List.getElem?_set_ne (Ne.symm hji)] at hj
    exact .inr ⟨hji, hj⟩

theorem ThreadMoves.self (h : ThreadMoves id T w w' i κ c k r) : w'.pool.threads[i]? = some (κ, k r) := by
  obtain ⟨hlt, -⟩ := List.getElem?_eq_some_iff.mp h.thread
  rw [h.threads, List.getElem?_set_self hlt]

theorem ThreadMoves.began (h : ThreadMoves id T w w' i κ c k r) :
    (Function.began w' j = true → Function.began w j = true ∨ (j = i ∧ c.isInvoke = true)) ∧
    (Function.recorded w' j = true → Function.recorded w j = true ∨ (j = i ∧ c.isCreate = true)) ∧
    (Function.recorded w j = true → Function.recorded w' j = true) := by
  rcases h.log with hlog | ⟨hlog, -⟩
  · simp only [Function.began, Function.recorded, hlog, List.any_append, List.any_cons, List.any_nil,
      Bool.or_false, Bool.or_eq_true, Bool.and_eq_true, decide_eq_true_eq]
    refine ⟨?_, ?_, Or.inl⟩
    · rintro (h | ⟨rfl, h⟩)
      · exact .inl h
      · exact .inr ⟨rfl, h⟩
    · rintro (h | ⟨rfl, h⟩)
      · exact .inl h
      · exact .inr ⟨rfl, h⟩
  · simp only [Function.began, Function.recorded, hlog]
    exact ⟨Or.inl, Or.inl, fun h => h⟩

/-- A record of a run is logged. -/
theorem ThreadMoves.recorded (h : ThreadMoves id T w w' i κ c k r) (hc : c.isCreate = true) :
    Function.recorded w' i = true := by
  rcases h.log with hlog | ⟨-, hfallible⟩
  · simp [Function.recorded, hlog, hc]
  · cases c <;> first | (cases hfallible; done) | cases hc

end Log

end Lingshu.Function
