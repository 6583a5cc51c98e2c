import Lingshu.Function.Accounts
import Lingshu.Function.Overlap

/-! # Bookkeeping

Every command of a call keeps the books: who closes a row knows it, by its own journal, for one that it has created
itself or has found pending. -/
namespace Lingshu.Function
open Json Data Interaction Interaction.Prog
set_option autoImplicit false

variable {World : Type} {rt : Runtime}

section Rows
variable {s s' : State World} {us us' : Journals} {origin : Origin} {call : Call} {xs ys : Lines}
variable {x x' y z : Execution} {i k : ℕ} {id : String} {record : Value}

theorem SameRequest.sameAction (h : SameRequest x y) : SameAction x y := by
  rw [SameRequest] at h
  rw [h]
  exact ⟨rfl, rfl, rfl⟩

theorem SameRequest.tenantId (h : SameRequest x y) : y.tenantId = x.tenantId := by
  rw [SameRequest] at h
  rw [h]

theorem SameRequest.startedAt (h : SameRequest x y) : y.startedAt = x.startedAt := by
  rw [SameRequest] at h
  rw [h]

theorem SameAction.symm (h : SameAction x y) : SameAction y x := ⟨h.rid.symm, h.params.symm, h.branch.symm⟩

theorem SameAction.trans (h : SameAction x y) (h' : SameAction y z) : SameAction x z :=
  ⟨h'.rid.trans h.rid, h'.params.trans h.params, h'.branch.trans h.branch⟩

theorem sameAction_apply (u : StatusUpdate) (x : Execution) : SameAction x (u.apply x) := ⟨rfl, rfl, rfl⟩

theorem apply_result_none {u : StatusUpdate} (h : u.result = none) (x : Execution) : (u.apply x).result = x.result := by
  simp [StatusUpdate.apply, h]

theorem apply_result_some {u : StatusUpdate} {v : Value} (h : u.result = some v) (x : Execution) :
    (u.apply x).result = some v := by
  simp [StatusUpdate.apply, h]

/-- The maker of a row is the call that the books name. -/
theorem Accounted.maker {kind : Status} (h : Accounted rt s us k x kind) :
    ∃ call xs, us[k]? = some (call, xs) ∧ x.tenantId = call.ctx.tenantId ∧ x.userId = call.ctx.userId := by
  cases h with
  | ran maker row tenant user => exact ⟨_, _, maker, tenant, user⟩
  | asking maker tenant user => exact ⟨_, _, maker, tenant, user⟩
  | scheduled maker tenant user => exact ⟨_, _, maker, tenant, user⟩

/-- A row that the call has created itself. -/
theorem Books.mine (h : Books rt s us origin) (hi : us[i]? = some (call, xs))
    (hcreated : ⟨.createExecution z, .ok ()⟩ ∈ xs) :
    ∃ x z', s.executions z.executionId = some x ∧ x.executionId = z.executionId ∧
      origin z.executionId = some (i, z') ∧ z'.status = z.status ∧ SameAction z x ∧ SameRequest z' x ∧
      Accounted rt s us i x z.status := by
  obtain ⟨t, horigin⟩ := h.made i call xs z hi hcreated
  obtain ⟨x, hx⟩ := Option.isSome_iff_exists.mp (h.there _ _ horigin)
  obtain ⟨hid, j, z', hz', hsame, haccounted⟩ := h.row _ x hx
  cases horigin.symm.trans hz'
  have hsameAction : SameAction z x := ⟨hsame.sameAction.rid, hsame.sameAction.params, hsame.sameAction.branch⟩
  exact ⟨x, _, hx, hid, horigin, rfl, hsameAction, hsame, haccounted⟩

/-- The row of a run that the call has on record. -/
theorem Books.onRecord (h : Books rt s us origin) (hi : us[i]? = some (call, xs)) (hown : OnRecord call xs z record) :
    ∃ x z', OwnRun s call xs z x ∧ x.executionId = z.executionId ∧ x.result = some record ∧
      origin z.executionId = some (i, z') ∧ z'.status = .success := by
  obtain ⟨x, z', hx, hid, hz', hstatus, hsame, -, haccounted⟩ := h.mine hi hown.created
  obtain ⟨u, hu, hrecord⟩ := hown.recorded
  obtain ⟨j, z'', hz'', hclosed⟩ := h.closed i call xs _ _ u hi hu
  cases hz'.symm.trans hz''
  obtain ⟨x', hx', hresult, hsome⟩ := hclosed rfl (hstatus.trans hown.ran)
  cases hx.symm.trans hx'
  obtain ⟨call', xs', hmaker, htenant, huser⟩ := haccounted.maker
  cases hi.symm.trans hmaker
  rw [hown.ran] at haccounted
  have hsuccess : x.status = .success := by
    cases haccounted
    assumption
  refine ⟨x, z', ⟨⟨z, hown.created, hid.symm, hown.ran⟩, ?_, hsame, hsuccess, ?_, htenant, huser⟩, hid, ?_, hz', ?_⟩
  · rw [hid]
    exact hx
  · rw [hresult]
    exact hsome
  · rw [hresult, hrecord]
  · exact hstatus.trans hown.ran

theorem OwnRun.of_same (h : OwnRun s call xs x y) (hs : SameAction x x') : OwnRun s call xs x' y :=
  { h with same := hs.symm.trans h.same }

theorem Decision.result (h : Decision s us x) : x.result = none ∨ Delegated s us x := by
  cases h with
  | pending status result => exact .inl result
  | confirmed status delegated => exact .inr delegated
  | cancelled mem asked tenant status result => exact result
  | expired mem asked tenant started clock late status result => exact result

theorem Delegated.apply (h : Delegated s us x) {u : StatusUpdate} (hu : u.result = none) : Delegated s us (u.apply x) := by
  obtain ⟨call, xs, y, hmem, hop, htenant, hown, hresult⟩ := h.run
  refine ⟨call, xs, y, hmem, hop, htenant, hown.of_same (sameAction_apply u x), ?_⟩
  rw [apply_result_none hu, hresult]

end Rows

/-! ## Rows are closed by who may close them -/

section Close
variable {s : State World} {us : Journals} {origin : Origin} {call : Call} {xs : Lines} {x y z : Execution} {i k : ℕ}
variable {id tenantId : String} {u : StatusUpdate}

theorem Books.runsKept_set (h : Books rt s us origin) (hx : s.executions id = some x) (hz : origin id = some (k, z))
    (hopen : z.status = .success → x.result = none) : RunsKept s (s.setExecution id y) us := by
  refine h.runsKept fun id' j z' x' hz' hran hx' hsome => (s.setExecution_ne _ ?_).trans hx'
  rintro rfl
  cases hz.symm.trans hz'
  cases hx.symm.trans hx'
  exact hsome (hopen hran)

/-- The result of the run whose row the call has just created. -/
theorem Books.recorded {pre : Lines} {now : Time} {result : EngineResult} {written : List Value}
    (h : Books rt s us origin) (hi : us[i]? = some (call, xs)) (hx : s.executions id = some x)
    (hxs : xs = pre ++ [⟨.createExecution z, .ok ()⟩, ⟨.now, .ok now⟩]) (hid : z.executionId = id)
    (hran : z.status = .success) (hserves : Serves call pre z) (hperformed : Performed rt call pre z result written)
    (hstatus : u.status = .success) (hrecord : u.result = some (recordOf result written)) (r : Except Exc Unit) :
    Books rt (s.setExecution id (u.apply x)) (us.set i (call, xs ++ [⟨.updateStatus id tenantId u, r⟩])) origin := by
  have hopen : Unclosed xs z := ⟨pre, .inr ⟨_, hxs⟩⟩
  obtain ⟨x', hx', hnone⟩ := h.fresh i call xs z hi hopen hran
  obtain ⟨t, hz⟩ := h.made i call xs z hi hopen.created
  subst hid
  cases hx.symm.trans hx'
  obtain ⟨hxid, j, z', hz', hsame, haccounted⟩ := h.row _ x hx
  cases hz.symm.trans hz'
  obtain ⟨call', xs', hmaker, htenant, huser⟩ := haccounted.maker
  cases hi.symm.trans hmaker
  refine h.update hi hx hz hsame r ?_ fun _ => ⟨rfl, hnone, by rw [hrecord]; exact Option.some_ne_none _⟩
  have hperformed' : Performed rt call pre (u.apply x) result written := by
    rw [SameRequest] at hsame
    rw [hsame]
    exact hperformed
  have hsame' : SameAction z (u.apply x) := ⟨hsame.sameAction.rid, hsame.sameAction.params, hsame.sameAction.branch⟩
  have hi' : (us.set i (call, xs ++ [⟨.updateStatus z.executionId tenantId u, r⟩]))[i]? = some (call,
      pre ++ ⟨.createExecution z, .ok ()⟩ :: [⟨.now, .ok now⟩, ⟨.updateStatus z.executionId tenantId u, r⟩]) := by
    rw [List.getElem?_set_self (List.getElem?_eq_some_iff.mp hi).1, hxs]
    simp
  rw [show ({ z with startedAt := some t } : Execution).status = .success from hran]
  exact .ran hi' hxid.symm htenant huser (hserves.of_same hsame') hperformed' hstatus
    (.inr (apply_result_some hrecord x))

/-- A background task reports on its own row. -/
theorem Books.background (h : Books rt s us origin) (hi : us[i]? = some (call, xs)) (hx : s.executions id = some x)
    (hcreated : ⟨.createExecution z, .ok ()⟩ ∈ xs) (hid : z.executionId = id) (hrunning : z.status = .running)
    (r : Except Exc Unit)
    (hfate : ∀ s' : State World, RunsKept s s' us → SameAction z (u.apply x) →
      Fate rt s' call (xs ++ [⟨.updateStatus id tenantId u, r⟩]) (u.apply x)) :
    Books rt (s.setExecution id (u.apply x)) (us.set i (call, xs ++ [⟨.updateStatus id tenantId u, r⟩])) origin := by
  obtain ⟨x', z', hx', -, hz', hstatus, hsameAction, hsame, haccounted⟩ := h.mine hi hcreated
  rw [hid] at hx' hz'
  cases hx.symm.trans hx'
  have hnot : z'.status ≠ .success := by
    rw [hstatus, hrunning]
    decide
  have hkept : RunsKept s (s.setExecution id (u.apply x)) us := h.runsKept_set hx hz' fun hran => absurd hran hnot
  refine h.update hi hx hz' hsame r ?_ fun hran => absurd hran hnot
  rw [hrunning] at haccounted
  rw [hstatus, hrunning]
  cases haccounted with
  | scheduled maker tenant user asked fate =>
    cases hi.symm.trans maker
    have hi' := List.getElem?_set_self (a := (call, xs ++ [⟨.updateStatus id tenantId u, r⟩]))
      (List.getElem?_eq_some_iff.mp hi).1
    exact .scheduled hi' tenant user asked (hfate _ hkept (hsameAction.trans (sameAction_apply u x)))

/-- Somebody decides on an execution that has been found pending. -/
theorem Books.decides (h : Books rt s us origin) (hi : us[i]? = some (call, xs)) (hx : s.executions id = some x)
    (hfound : Found call id xs y) (r : Except Exc Unit)
    (hdecision : ∀ (s' : State World) (us' : Journals), Grows us us' → RunsKept s s' us →
      us'[i]? = some (call, xs ++ [⟨.updateStatus id tenantId u, r⟩]) → x.executionId = id →
      x.tenantId = call.ctx.tenantId → x.startedAt = y.startedAt → SameAction y x → Decision s us x →
      Decision s' us' (u.apply x)) :
    Books rt (s.setExecution id (u.apply x)) (us.set i (call, xs ++ [⟨.updateStatus id tenantId u, r⟩])) origin := by
  obtain ⟨htenant, j, z, hz, hpending, hzy⟩ := h.found call xs id y (List.mem_of_getElem? hi) hfound
  obtain ⟨hid, j', z', hz', hzx, haccounted⟩ := h.row id x hx
  cases hz.symm.trans hz'
  have hnot : z.status ≠ .success := by
    rw [hpending]
    decide
  have hkept : RunsKept s (s.setExecution id (u.apply x)) us := h.runsKept_set hx hz fun hran => absurd hran hnot
  have hgrows : Grows us (us.set i (call, xs ++ [⟨.updateStatus id tenantId u, r⟩])) := grows_set hi _
  refine h.update hi hx hz hzx r ?_ fun hran => absurd hran hnot
  rw [hpending] at haccounted ⊢
  cases haccounted with
  | asking maker tenant user serves asks decision =>
    obtain ⟨ys, hys⟩ := hgrows _ _ _ maker
    refine .asking hys tenant user ((serves.mono (List.prefix_append _ _)).of_same (sameAction_apply u x)) asks ?_
    exact hdecision _ _ hgrows hkept (List.getElem?_set_self (List.getElem?_eq_some_iff.mp hi).1) hid
      (hzx.tenantId.trans (hzy.tenantId.symm.trans htenant)) (hzx.startedAt.trans hzy.startedAt.symm)
      (hzy.sameAction.symm.trans hzx.sameAction) decision

/-- An update that the journal of the call admits. -/
theorem Books.closes (h : Books rt s us origin) (hi : us[i]? = some (call, xs)) (hx : s.executions id = some x)
    (hcloses : Closes rt call xs id u) (r : Except Exc Unit) :
    Books rt (s.setExecution id (u.apply x)) (us.set i (call, xs ++ [⟨.updateStatus id tenantId u, r⟩])) origin := by
  cases hcloses with
  | recorded journal row ran serves performed status record =>
    exact h.recorded hi hx journal row ran serves performed status record r
  | @delivered z y record created row scheduled own same status result =>
    obtain ⟨x', z', hown, hid, hrecord, -, -⟩ := h.onRecord hi own
    refine h.background hi hx created row scheduled r fun s' hkept hsame => ?_
    have hrow := hkept call xs y x' (List.mem_of_getElem? hi) hown
    refine .delivered ((hown.mono (List.prefix_append _ _) hrow).of_same (same.symm.trans hsame)) status ?_
    rw [hrecord]
    exact apply_result_some result x
  | failed created row scheduled status result =>
    exact h.background hi hx created row scheduled r fun s' _ _ => .failed status (apply_result_some result x)
  | @expired y startedAt now asked found started clock late status result =>
    refine h.decides hi hx found r fun s' us' hgrows hkept hmem hid htenant hstarted _ hdecision => ?_
    have hresult := (hdecision.mono hgrows hkept).result
    refine .expired (List.mem_of_getElem? hmem) ?_ htenant.symm (hstarted.trans started)
      (List.mem_append_left _ clock) late status ?_
    · rw [asked, ← hid]
      rfl
    · exact hresult.imp (fun hnone => (apply_result_none result x).trans hnone) fun h => h.apply result
  | @confirmed y z record asked found own same status result =>
    obtain ⟨x', z', hown, hid', -, -, -⟩ := h.onRecord hi own
    refine h.decides hi hx found r fun s' us' _ hkept hmem hid htenant _ hyx _ => ?_
    have hrow := hkept call xs z x' (List.mem_of_getElem? hi) hown
    refine .confirmed status ⟨call, _, x', List.mem_of_getElem? hmem, ?_, htenant.symm,
      (hown.mono (List.prefix_append _ _) hrow).of_same ((same.symm.trans hyx).trans (sameAction_apply u x)), ?_⟩
    · rw [asked, ← hid]
      rfl
    · rw [apply_result_some result x, hid']
  | @cancelled y asked found status result =>
    refine h.decides hi hx found r fun s' us' hgrows hkept hmem hid htenant _ _ hdecision => ?_
    have hresult := (hdecision.mono hgrows hkept).result
    refine .cancelled (List.mem_of_getElem? hmem) ?_ htenant.symm status ?_
    · rw [asked, ← hid]
      rfl
    · exact hresult.imp (fun hnone => (apply_result_none result x).trans hnone) fun h => h.apply result

end Close

/-! ## Every command keeps the books -/

section Issue
variable {s s' : State World} {us : Journals} {origin : Origin} {call : Call} {xs : Lines} {x y : Execution} {i : ℕ}
variable {id : String} {c : Cmd}

theorem Books.of_executions (h : Books rt s us origin) (hs : s'.executions = s.executions) : Books rt s' us origin := by
  refine h.extend (N := fun _ _ _ => False) (fun _ _ xs hi => ⟨[], by rw [List.append_nil]; exact hi⟩)
    (fun j κ ys m hj hm => .inl ⟨ys, hj, hm⟩) (fun _ _ hp => hp) ?_ ?_ ?_ (fun _ _ _ hnew => hnew.elim)
    (fun _ _ _ _ hnew => hnew.elim) (fun _ _ _ _ _ hnew => hnew.elim) ?_ <;> rw [hs]
  · exact h.there
  · exact fun _ _ _ _ _ _ hx _ => hx
  · exact fun _ _ hx => .inl hx
  · exact h.fresh

/-- An execution whose status is pending was created so. -/
theorem Accounted.pending {kind : Status} (h : Accounted rt s us i x kind) (hstatus : x.status = .pendingConfirmation) :
    kind = .pendingConfirmation := by
  cases h with
  | ran maker row tenant user serves performed status record => cases hstatus.symm.trans status
  | asking maker tenant user serves asks decision => rfl
  | scheduled maker tenant user asked fate =>
    cases fate with
    | running status result => cases hstatus.symm.trans status
    | delivered own status result => cases hstatus.symm.trans status
    | failed status result => cases hstatus.symm.trans status

/-- What a call closes is there, and is of its tenant. -/
theorem Books.there_of_closes (h : Books rt s us origin) (hi : us[i]? = some (call, xs)) {u : StatusUpdate}
    (hcloses : Closes rt call xs id u) : ∃ x, s.execution id call.ctx.tenantId = some x := by
  have hown : ∀ z, ⟨.createExecution z, .ok ()⟩ ∈ xs → z.executionId = id →
      ∃ x, s.execution id call.ctx.tenantId = some x := by
    rintro z hz rfl
    obtain ⟨x, z', hx, -, -, -, -, -, haccounted⟩ := h.mine hi hz
    obtain ⟨call', xs', hmaker, htenant, -⟩ := haccounted.maker
    cases hi.symm.trans hmaker
    exact ⟨x, by simp [State.execution, hx, htenant]⟩
  have hfound : ∀ y, Found call id xs y → ∃ x, s.execution id call.ctx.tenantId = some x := by
    intro y hy
    obtain ⟨htenant, j, z, hz, -, hzy⟩ := h.found call xs id y (List.mem_of_getElem? hi) hy
    obtain ⟨x, hx⟩ := Option.isSome_iff_exists.mp (h.there id _ hz)
    obtain ⟨-, j', z', hz', hzx, -⟩ := h.row id x hx
    cases hz.symm.trans hz'
    have hxtenant : x.tenantId = call.ctx.tenantId := hzx.tenantId.trans (hzy.tenantId.symm.trans htenant)
    exact ⟨x, by simp [State.execution, hx, hxtenant]⟩
  cases hcloses with
  | recorded journal row => exact hown _ (by rw [journal]; simp) row
  | delivered created row => exact hown _ created row
  | failed created row => exact hown _ created row
  | expired asked found => exact hfound _ found
  | confirmed asked found => exact hfound _ found
  | cancelled asked found => exact hfound _ found

theorem executions_of_execution {tenantId : String} (h : s.execution id tenantId = some x) : s.executions id = some x :=
  (Option.filter_eq_some_iff.mp h).1

theorem tenant_of_execution {tenantId : String} (h : s.execution id tenantId = some x) : x.tenantId = tenantId := by
  simpa using (Option.filter_eq_some_iff.mp h).2

/-- A command that its call may issue now, with the answer of the table or with none. -/
theorem Books.issue (env : Env World) (h : Books rt s us origin) (hi : us[i]? = some (call, xs))
    (hadmits : Admits rt call xs c) {r : Except Exc (Ans c)} (hr : r = (exec env c s).1 ∨ ∃ e, r = .error e) :
    ∃ origin', Books rt (exec env c s).2 (us.set i (call, xs ++ [⟨c, r⟩])) origin' := by
  cases c with
  | createExecution z =>
    obtain ⟨htenant, huser, hresult, hmakes⟩ := hadmits
    cases hrow : s.executions z.executionId with
    | none =>
      simp only [exec, hrow]
      exact h.create hi hrow htenant huser hresult hmakes s.clock r
    | some y =>
      have herror : ∃ e, r = .error e := by
        rw [exec_createExecution env hrow] at hr
        exact hr.elim (fun h => ⟨_, h⟩) fun h => h
      obtain ⟨e, rfl⟩ := herror
      rw [exec_createExecution env hrow]
      refine ⟨origin, h.note hi rfl ?_ ?_ ?_⟩
      · rintro z' ⟨⟩
      · rintro id tenantId u ⟨⟩
      · rintro id y ⟨⟩
  | updateStatus id tenantId u =>
    obtain ⟨rfl, hcloses⟩ := hadmits
    obtain ⟨x, hx⟩ := h.there_of_closes hi hcloses
    rw [exec_updateStatus env u hx]
    exact ⟨origin, h.closes hi (executions_of_execution hx) hcloses r⟩
  | getExecution id tenantId =>
    refine ⟨origin, h.note hi rfl ?_ ?_ ?_⟩
    · rintro z ⟨⟩
    · rintro id' tenantId' u ⟨⟩
    · intro id' y hl hpending
      cases hl
      have hy : s.execution id call.ctx.tenantId = some y := by
        rcases hr with hr | ⟨e, hr⟩
        · exact (Except.ok.inj hr).symm
        · cases hr
      obtain ⟨-, j, z, hz, hsame, haccounted⟩ := h.row id y (executions_of_execution hy)
      exact ⟨tenant_of_execution hy, j, z, hz, haccounted.pending hpending, hsame⟩
  | _ =>
    refine ⟨origin, h.note hi rfl ?_ ?_ ?_⟩
    · rintro z ⟨⟩
    · rintro id tenantId u ⟨⟩
    · rintro id y ⟨⟩

/-- A command that does not get through. -/
theorem Books.refuse (h : Books rt s us origin) (hi : us[i]? = some (call, xs)) (e : Exc) :
    Books rt s (us.set i (call, xs ++ [⟨c, .error e⟩])) origin := by
  refine h.note hi rfl ?_ ?_ ?_
  · rintro z ⟨⟩
  · rintro id tenantId u ⟨⟩
  · rintro id y ⟨⟩

end Issue

variable (rt) in
/-- All calls together keep the books. -/
theorem keeps_books (env : Env World) :
    System.Keeps (backend rt env) (fun call => journalled (Admits rt call)) (fun _ _ => True) (fun _ _ => True)
      (fun _ => []) (fun s us => ∃ origin, Books rt s us origin) (fun _ _ _ => True) (fun _ _ => True) where
  start _ _ call h := h.imp fun _ hbooks => hbooks.start call
  env p us v ht _ := by
    obtain ⟨origin, h⟩ := ht.inv
    cases v <;> exact ⟨origin, h.of_executions rfl⟩
  answers _ _ _ _ _ _ _ _ := trivial
  executed p us i call xs c r ht hi hadmits _ hr := by
    obtain ⟨origin, h⟩ := ht.inv
    exact h.issue env hi hadmits hr
  refused s us i call xs c e hinv hi _ := hinv.imp fun _ h => h.refuse hi e

/-! ## What the books say -/

section Truth
variable {s : State World} {us : Journals} {origin : Origin} {x y : Execution} {i : ℕ} {id run : String}

/-- Every row is accounted for, and a run that a confirmation has made stands for one execution. -/
structure Truthful (rt : Runtime) (s : State World) (us : Journals) : Prop where
  accounted : ∀ id x, s.executions id = some x → x.executionId = id ∧ ∃ i kind, Accounted rt s us i x kind
  once : ∀ run id x id' x', s.executions id = some x → s.executions id' = some x' →
    x.result = some (delegation run) → x'.result = some (delegation run) → id = id'

theorem recordOf_ne_delegation (result : EngineResult) (written : List Value) : recordOf result written ≠ delegation run := by
  intro h
  simp [recordOf, delegation] at h

theorem errorRecord_ne_delegation (e : Exc) : errorRecord rt e ≠ delegation run := by
  intro h
  simp [errorRecord, delegation] at h

/-- The only results that name a run are those of executions that have been confirmed. -/
theorem Books.delegated (h : Books rt s us origin) (hx : s.executions id = some x)
    (hresult : x.result = some (delegation run)) : Delegated s us x := by
  obtain ⟨-, i, z, -, -, haccounted⟩ := h.row id x hx
  generalize z.status = kind at haccounted
  cases haccounted with
  | ran maker row tenant user serves performed status record =>
    rw [hresult] at record
    rcases record with hnone | hsome
    · cases hnone
    · exact absurd (Option.some.inj hsome).symm (recordOf_ne_delegation _ _)
  | asking maker tenant user serves asks decision =>
    refine decision.result.resolve_left fun hnone => ?_
    rw [hresult] at hnone
    cases hnone
  | scheduled maker tenant user asked fate =>
    cases fate with
    | running status result =>
      rw [hresult] at result
      cases result
    | failed status result =>
      rw [hresult] at result
      exact absurd (Option.some.inj result).symm (errorRecord_ne_delegation _)
    | @delivered y own status result =>
      obtain ⟨z', hz', hid, hran⟩ := own.created
      obtain ⟨y', -, hy', -, -, -, -, -, haccounted'⟩ := h.mine maker hz'
      rw [hid, own.row] at hy'
      cases hy'
      rw [hran] at haccounted'
      cases haccounted' with
      | ran maker row tenant user serves performed status record =>
        rw [← result, hresult] at record
        rcases record with hnone | hsome
        · cases hnone
        · exact absurd (Option.some.inj hsome).symm (recordOf_ne_delegation _ _)

theorem Books.truthful (h : Books rt s us origin) : Truthful rt s us := by
  refine ⟨fun id x hx => ?_, fun run id x id' x' hx hx' hresult hresult' => ?_⟩
  · obtain ⟨hid, i, z, -, -, haccounted⟩ := h.row id x hx
    exact ⟨hid, i, z.status, haccounted⟩
  · obtain ⟨call, xs, y, hmem, hop, -, hown, hy⟩ := h.delegated hx hresult
    obtain ⟨call', xs', y', hmem', hop', -, hown', hy'⟩ := h.delegated hx' hresult'
    have hrun : y.executionId = run := by
      rw [hresult] at hy
      simpa [delegation] using hy.symm
    have hrun' : y'.executionId = run := by
      rw [hresult'] at hy'
      simpa [delegation] using hy'.symm
    obtain ⟨i, hi⟩ := List.mem_iff_getElem?.mp hmem
    obtain ⟨i', hi'⟩ := List.mem_iff_getElem?.mp hmem'
    -- The call that has created the row of the run is one, and it confirms one execution.
    obtain ⟨z, hz, hzid, -⟩ := hown.created
    obtain ⟨z', hz', hzid', -⟩ := hown'.created
    obtain ⟨t, ht⟩ := h.made i call xs z hi hz
    obtain ⟨t', ht'⟩ := h.made i' call' xs' z' hi' hz'
    rw [hzid, hrun] at ht
    rw [hzid', hrun'] at ht'
    obtain rfl : i = i' := congrArg Prod.fst (Option.some.inj (ht.symm.trans ht'))
    cases hi.symm.trans hi'
    rw [hop] at hop'
    rw [← (h.row id x hx).1, ← (h.row id' x' hx').1]
    exact Op.confirmExecution.inj hop'

/-- The later table has all rows of the earlier one, of the same requests; one that has changed has come to its end. -/
def RowsStay (s s' : State World) : Prop :=
  ∀ id x, s.executions id = some x → ∃ y, s'.executions id = some y ∧ SameRequest x y ∧ (y = x ∨ y.status ∈ finalStatuses)

theorem RowsStay.of_executions {s' : State World} (h : s'.executions = s.executions) : RowsStay s s' := by
  intro id x hx
  rw [h]
  exact ⟨x, hx, rfl, .inl rfl⟩

theorem Closes.final {call : Call} {xs : Lines} {u : StatusUpdate} (h : Closes rt call xs id u) :
    u.status ∈ finalStatuses := by
  cases h with
  | recorded _ _ _ _ _ status => rw [status]; decide
  | delivered _ _ _ _ _ status => rw [status]; decide
  | failed _ _ _ status => rw [status]; decide
  | expired _ _ _ _ _ status => rw [status]; decide
  | confirmed _ _ _ _ status => rw [status]; decide
  | cancelled _ _ status => rw [status]; decide

theorem exec_rowsStay (env : Env World) {call : Call} {xs : Lines} {c : Cmd} (hadmits : Admits rt call xs c) :
    RowsStay s (exec env c s).2 := by
  cases c with
  | createExecution z =>
    cases hrow : s.executions z.executionId with
    | some y =>
      rw [exec_createExecution env hrow]
      exact .of_executions rfl
    | none =>
      simp only [exec, hrow]
      intro id x hx
      refine ⟨x, (s.setExecution_ne _ ?_).trans hx, rfl, .inl rfl⟩
      rintro rfl
      cases hrow.symm.trans hx
  | updateStatus id tenantId u =>
    cases hrow : s.execution id tenantId with
    | none =>
      simp only [exec, hrow]
      exact .of_executions rfl
    | some y =>
      rw [exec_updateStatus env u hrow]
      intro id' x hx
      by_cases hid : id' = id
      · subst hid
        cases hx.symm.trans (executions_of_execution hrow)
        exact ⟨_, s.setExecution_self _ _, rfl, .inr hadmits.2.final⟩
      · exact ⟨x, (s.setExecution_ne _ hid).trans hx, rfl, .inl rfl⟩
  | _ => exact .of_executions rfl

theorem next_rowsStay (env : Env World) {p : Pool Cmd Ans Exc (State World) Reply Call} {F : Lines → Except Exc Reply → Prop}
    {I : State World → Journals → Prop}
    (ht : System.Tracks (fun call => journalled (Admits rt call)) (fun _ _ => True) F I p us) (e : Step World) :
    RowsStay p.state ((backend rt env).next p e).state := by
  have hissued : ∀ i, RowsStay p.state ((backend rt env).execute p.state (p.pending i)) := by
    intro i
    cases hi : p.pending i with
    | none => exact .of_executions rfl
    | some t =>
      obtain ⟨xs, -, hadmits⟩ := ht.pending hi
      exact exec_rowsStay env hadmits
  cases e with
  | start call => exact .of_executions rfl
  | step i => exact hissued i
  | lose i x => exact hissued i
  | refuse i x => exact .of_executions rfl
  | env v => cases v <;> exact .of_executions rfl

end Truth

variable (rt) in
/-- Whatever calls come in, however they interleave and fail: no row is lost or reopened, each is accounted for by what
its call has done, and no run is credited to two executions. -/
theorem executions_accounted (env : Env World) (world : World) (clock : Time) (es : List (Step World)) :
    StepsMeet (backend rt env).keep (fun w e =>
        RowsStay w.pool.state ((backend rt env).keep w e).pool.state ∧
          Truthful rt ((backend rt env).keep w e).pool.state ((backend rt env).keep w e).journals)
      ⟨⟨⟨world, fun _ => none, clock⟩, []⟩, []⟩ es := by
  have hbooks : Books rt (⟨world, fun _ => none, clock⟩ : State World) [] fun _ => none := by
    constructor <;> intros <;> simp_all
  refine (keeps_books rt env).journals ⟨.nil, _, hbooks⟩ (fun call _ => ?_) ?_ fun w e ht ht' => ?_
  · exact Follows.mono (posts_service rt call) fun _ _ _ => trivial
  · have hall : StepsMeet (backend rt env).keep (fun _ _ => True) ⟨⟨⟨world, fun _ => none, clock⟩, []⟩, []⟩ es :=
      StepsMeet.of_mem (Q := fun _ => True) fun _ _ => trivial
    exact hall.mono fun _ _ _ => ⟨fun _ _ _ => trivial, fun _ _ => trivial⟩
  · obtain ⟨origin, h⟩ := ht'.inv
    exact ⟨next_rowsStay env ht e, h.truthful⟩

/-- A call that asks for a confirmation, and the call that gives it: the row of the first names that of the second. -/
example : ((runFrom (backend .plain (.plain criticalAction)).keep ⟨⟨⟨["a", "b"], fun _ => none, 0⟩, []⟩, []⟩
      (.start ⟨⟨"t", "u"⟩, .executeAction "close" [] none false⟩ :: List.replicate 5 (.step 0) ++
        .start ⟨⟨"t", "v"⟩, .confirmExecution "exec_a"⟩ :: List.replicate 16 (.step 1))).pool.state.executions
      "exec_a").bind Execution.result = some (delegation "exec_b") := by decide +kernel

end Lingshu.Function
