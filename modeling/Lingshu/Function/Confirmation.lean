import Lingshu.Function.Phases

/-! # A confirmation runs at most once

Nothing keeps two calls from both finding an execution pending, and then both run it. In a run in which nobody
finds it pending while another call that did is still at work on it, it runs at most once. -/
namespace Lingshu.Function
open Json Data Interaction Interaction.Prog
set_option autoImplicit false

variable {World : Type} {rt : Runtime} {env : Env World} {id T : String}
variable {w : Watch World} {e : Step World}

/-! ## What a phase says -/

theorem Calm.not_create {t : Thread} (h : Calm rt id t) (hκ : t.1.confirms id = true) :
    t.2.head.any Cmd.isCreate = false := by
  cases hhead : t.2.head with
  | none => rfl
  | some c => exact (h.head (confirms_concerns id hκ) hhead).2

theorem completed_iff {i : ℕ} : completed id w i = true ↔
    ∃ t, w.pool.threads[i]? = some t ∧ t.1.confirms id = true ∧ began w i = true ∧
      (t.2.head.any Cmd.isCreate = true ∨ recorded w i = true) := by
  unfold completed
  cases w.pool.threads[i]? with
  | none => simp
  | some t => simp [and_assoc]

theorem Phase.row (h : Phase rt id T w) : ∃ st, RowIs id T w.pool.state st := by
  cases h with
  | idle row => exact ⟨_, row⟩
  | active i κ q thread confirms row => exact ⟨_, row⟩
  | recording i κ q thread confirms row => exact ⟨_, row⟩
  | settled st final row => exact ⟨_, row⟩

/-- At most one confirmation has completed its run. -/
theorem Phase.one (h : Phase rt id T w) {i j : ℕ} (hi : completed id w i = true) (hj : completed id w j = true) :
    i = j := by
  obtain ⟨t, ht, hκ, -, hmade⟩ := completed_iff.mp hi
  obtain ⟨u, hu, hκ', -, hmade'⟩ := completed_iff.mp hj
  -- A calm confirmation without a record has not completed.
  have hcalm : ∀ {x : ℕ} {v : Thread}, v.1.confirms id = true → Calm rt id v → recorded w x = false →
      ¬(v.2.head.any Cmd.isCreate = true ∨ recorded w x = true) := by
    intro x v hv hc hrec hmade
    rw [hc.not_create hv, hrec] at hmade
    simp at hmade
  cases h with
  | idle row threads unrecorded =>
    rcases threads i t ht with ⟨hc, -⟩ | ⟨hcancels, -⟩
    · exact absurd hmade (hcalm hκ hc (unrecorded i t ht hκ))
    · rw [not_confirms_of_cancels hcancels] at hκ
      cases hκ
  | active a κ q thread confirms row stage going before others unrecorded =>
    by_cases hia : i = a
    · subst hia
      rw [thread] at ht
      cases ht
      rw [before, unrecorded i _ thread hκ] at hmade
      simp at hmade
    · exact absurd hmade (hcalm hκ (others i t hia ht).1 (unrecorded i t ht hκ))
  | recording a κ q thread confirms row stage made others unrecorded =>
    have honly : ∀ {x : ℕ} {v : Thread}, w.pool.threads[x]? = some v → v.1.confirms id = true →
        (v.2.head.any Cmd.isCreate = true ∨ recorded w x = true) → x = a := by
      intro x v hx hv hmade
      by_cases hxa : x = a
      · exact hxa
      · exact absurd hmade (hcalm hv (others x v hxa hx).1 (unrecorded x v hxa hx hv))
    exact (honly ht hκ hmade).trans (honly hu hκ' hmade').symm
  | settled st final row threads one =>
    have hrec : ∀ {x : ℕ} {v : Thread}, w.pool.threads[x]? = some v → v.1.confirms id = true →
        (v.2.head.any Cmd.isCreate = true ∨ recorded w x = true) → recorded w x = true := by
      intro x v hx hv hmade
      rcases threads x v hx with ⟨hc, -⟩ | ⟨hcancels, -⟩
      · rw [hc.not_create hv] at hmade
        exact hmade.resolve_left Bool.false_ne_true
      · rw [not_confirms_of_cancels hcancels] at hv
        cases hv
    exact one i j t u ht hu hκ hκ' (hrec ht hκ hmade) (hrec hu hκ' hmade')

/-- A thread that rests has no run under way. -/
theorem Rested.not_underway {i : ℕ} (h : ∀ t, w.pool.threads[i]? = some t → Rested id w i t) :
    underway id w i = false := by
  unfold underway
  cases ht : w.pool.threads[i]? with
  | none => rfl
  | some t =>
    refine Bool.eq_false_iff.mpr fun hu => ?_
    simp only [Bool.and_eq_true, Bool.not_eq_true'] at hu
    obtain ⟨⟨⟨hκ, hb⟩, hnot⟩, hsome⟩ := hu
    rcases h t ht hκ hb with hrec | hnone
    · refine absurd (completed_iff.mpr ⟨t, ht, hκ, hb, .inr hrec⟩) ?_
      simp [hnot]
    · rw [hnone] at hsome
      cases hsome

/-- An engine is started only by the confirmation at work, for the first time, while the execution is pending. -/
theorem Phase.invokes {i : ℕ} {κ : Call} {c : Cmd} {k : Except Exc (Ans c) → Program Reply} (h : Phase rt id T w)
    (hthread : w.pool.threads[i]? = some (κ, .call c k)) (hκ : κ.confirms id = true) (hc : c.isInvoke = true) :
    RowIs id T w.pool.state .pendingConfirmation ∧ ∀ j, underway id w j = false := by
  have hcalm : Calm rt id (κ, .call c k) → False := fun h => by
    rw [(h.head (confirms_concerns id hκ) rfl).1] at hc
    cases hc
  have hcancels : κ.cancels id = true → False := fun h => by
    rw [not_confirms_of_cancels h] at hκ
    cases hκ
  cases h with
  | idle row threads =>
    rcases threads i _ hthread with ⟨h, -⟩ | ⟨h, -⟩
    · exact (hcalm h).elim
    · exact (hcancels h).elim
  | active a κ' q thread confirms row stage going before others unrecorded =>
    by_cases hia : i = a
    · subst hia
      rw [hthread] at thread
      cases thread
      rcases stage with ⟨-, hbegan⟩ | hrunning
      · refine ⟨row, fun j => Rested.not_underway fun t ht => ?_⟩
        by_cases hji : j = i
        · subst hji
          intro _ hb
          rw [hbegan] at hb
          cases hb
        · exact (others j t hji ht).2
      · have hcreate : c.isCreate = false := before
        rcases hrunning with ⟨h, -⟩ | ⟨⟨-, h⟩, -⟩
        · rw [hcreate] at h
          cases h
        · rw [hc] at h
          cases h
    · exact (hcalm (others i _ hia hthread).1).elim
  | recording a κ' q thread confirms row stage made others unrecorded =>
    by_cases hia : i = a
    · subst hia
      rw [hthread] at thread
      cases thread
      obtain ⟨d, hd, hinvoke, -⟩ := stage.head
      cases hd
      rw [hc] at hinvoke
      cases hinvoke
    · exact (hcalm (others i _ hia hthread).1).elim
  | settled st final row threads one =>
    rcases threads i _ hthread with ⟨h, -⟩ | ⟨h, -⟩
    · exact (hcalm h).elim
    · exact (hcancels h).elim

/-! ## One step -/

theorem NoOverlap.clear {w' : Watch World} {i : ℕ} {κ : Call} {c : Cmd} {k : Except Exc (Ans c) → Program Reply}
    {r : Except Exc (Ans c)} (h : NoOverlap id w.pool e) (hm : ThreadMoves id T w w' i κ c k r)
    (hstep : c.fallible = false → e = .step i) : Clear id w i κ c := by
  intro hget hκ hpending j t hji hj hengaged
  cases c with
  | getExecution executionId tenantId =>
    obtain rfl := hstep rfl
    obtain ⟨hlt, -⟩ := List.getElem?_eq_some_iff.mp hj
    simp only [NoOverlap, System.pending_of_getElem? hm.thread] at h
    exact h hκ hpending j hlt hji t (hj ▸ rfl) hengaged
  | _ => cases hget

/-- The phases are kept, and a step in one of them is as `Once` asks. -/
theorem Phase.step (h : Phase rt id T w) (hl : Logged w) (hu : Undisturbed w.pool e) (hn : NoOverlap id w.pool e) :
    (Phase rt id T ((backend rt env).watch w e) ∧ Logged ((backend rt env).watch w e)) ∧ Once rt env id w e := by
  obtain ⟨st, hrow⟩ := h.row
  have hsome : (w.pool.state.executions id).isSome := by
    obtain ⟨x, hx, -⟩ := hrow
    simp [hx]
  rcases watch_cases rt env T hsome hu with ⟨hx, hissues⟩ | ⟨i, κ, c, k, r, hm, hstep, hissues⟩
  · have hphase := h.extends hl hx
    have hstarts : starts id w.pool e = false := by simp [starts, hissues]
    refine ⟨⟨hphase, hl.extends hx⟩, ⟨?_, ?_, fun _ _ => hphase.one, ?_⟩⟩
    · intro h
      rw [hstarts] at h
      cases h
    · intro h
      rw [hstarts] at h
      cases h
    · intro st' hst' heq
      obtain rfl : st = st' := Option.some.inj (hrow.statusOf.symm.trans heq)
      exact (hx.row hrow).statusOf
  · have hclear := hn.clear hm hstep
    have hphase := Phase.moves hm hclear h
    have hstarts : starts id w.pool e = true →
        RowIs id T w.pool.state .pendingConfirmation ∧ ∀ j, underway id w j = false := by
      intro hs
      rcases hissues with hissues | hissues
      · simp [starts, hissues] at hs
      · simp only [starts, hissues, Bool.and_eq_true] at hs
        exact h.invokes hm.thread hs.1 hs.2
    refine ⟨⟨hphase, hl.moves hm⟩, ⟨fun hs => (hstarts hs).2, ?_, fun _ _ => hphase.one, ?_⟩⟩
    · intro hs
      rw [(hstarts hs).1.statusOf]
      decide
    · intro st' hst' heq
      obtain rfl : st = st' := Option.some.inj (hrow.statusOf.symm.trans heq)
      cases h with
      | settled st'' final row threads one =>
        obtain rfl : st'' = st := Option.some.inj (row.statusOf.symm.trans heq)
        exact (Phase.settled_moves hm final row threads one).2.statusOf
      | idle row | active _ _ _ _ _ row | recording _ _ _ _ _ row =>
        obtain rfl : Status.pendingConfirmation = st := Option.some.inj (row.statusOf.symm.trans heq)
        exact absurd hst' (by decide)

/-! ## Every run -/

/-- From a state in which the execution is pending, calls of any kind may come in, step after step, and time may
pass: while nobody finds it pending with another confirmation or cancellation at work, it runs at most once. -/
theorem runs_once {World : Type} (rt : Runtime) (env : Env World) (s : State World) (id : String) (x : Execution)
    (es : List (Step World)) (hx : s.executions id = some x) (hpending : x.status = .pendingConfirmation)
    (hu : StepsMeet (backend rt env).watch (fun w e => Undisturbed w.pool e) ⟨⟨s, []⟩, []⟩ es)
    (hn : StepsMeet (backend rt env).watch (fun w e => NoOverlap id w.pool e) ⟨⟨s, []⟩, []⟩ es) :
    StepsMeet (backend rt env).watch (Once rt env id) ⟨⟨s, []⟩, []⟩ es := by
  refine StepsMeet.of_inv (J := fun w => Phase rt id x.tenantId w ∧ Logged w) ?_ ?_ (hu.and hn)
  · rintro w e ⟨hphase, hlogged⟩ ⟨hu, hn⟩
    exact hphase.step hlogged hu hn
  · refine ⟨.idle ⟨x, hx, rfl, hpending⟩ (fun j t hj => ?_) fun j t hj => ?_, fun e he => ?_⟩
    · simp at hj
    · simp at hj
    · cases he

/-! ### Runs on one pending execution -/

def pendingRow : Execution where
  executionId := "exec_1"
  tenantId := "t"
  capabilityType := "action"
  capabilityRid := "ri.action.1"
  status := .pendingConfirmation
  params := []
  safetyLevel := .str "SAFETY_CRITICAL"
  sideEffects := .list []
  userId := "u"
  branch := none
  startedAt := some 0

def confirmation : Call := ⟨⟨"t", "u"⟩, .confirmExecution "exec_1"⟩

def onePending : State (List String) where
  world := ["aaaaaaaaaaaa", "bbbbbbbbbbbb"]
  executions id := if id = "exec_1" then some pendingRow else none
  clock := 1

abbrev watchCritical : Watch (List String) → Step (List String) → Watch (List String) :=
  (backend .plain (.plain criticalAction)).watch

/-- A confirmation that comes in and goes on alone to its end. -/
def confirmedAlone : List (Step (List String)) := .start confirmation :: List.replicate 16 (.step 0)

theorem runs_once_alone :
    StepsMeet watchCritical (Once .plain (.plain criticalAction) "exec_1") ⟨⟨onePending, []⟩, []⟩ confirmedAlone :=
  runs_once .plain (.plain criticalAction) onePending "exec_1" pendingRow confirmedAlone rfl rfl
    (by decide) (by decide)

/-- Two confirmations that both find it pending. -/
def confirmedTwice : List (Step (List String)) :=
  [.start confirmation, .start confirmation, .step 0, .step 1] ++ List.replicate 15 (.step 0) ++
    List.replicate 15 (.step 1)

theorem runs_twice :
    StepsMeet watchCritical (fun w e => Undisturbed w.pool e) ⟨⟨onePending, []⟩, []⟩ confirmedTwice ∧
    ¬StepsMeet watchCritical (Once .plain (.plain criticalAction) "exec_1") ⟨⟨onePending, []⟩, []⟩
      confirmedTwice := by
  refine ⟨by decide, fun h => ?_⟩
  have hone : StepsMeet watchCritical (fun w e => ¬(completed "exec_1" (watchCritical w e) 0 = true ∧
      completed "exec_1" (watchCritical w e) 1 = true)) ⟨⟨onePending, []⟩, []⟩ confirmedTwice :=
    h.mono fun w e h hboth => absurd (h.one 0 1 hboth.1 hboth.2) (by decide)
  revert hone
  decide

end Lingshu.Function
