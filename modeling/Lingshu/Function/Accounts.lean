import Lingshu.Function.Postings

/-! # Every row of the ledger is accounted for

In every interleaving of calls, a row of the `executions` table stands for what a call was asked for, and says what has
become of it: `Accounted`. `Books` is the invariant behind it: every row comes from the call that created it, and is in
the hands of those only who may close it. -/
namespace Lingshu.Function
open Json Data Interaction Interaction.Prog
set_option autoImplicit false

variable {World : Type} (rt : Runtime)

abbrev Journals : Type := List (Call × Lines)

/-! ## Accounts -/

/-- What the later row says of the request is what the earlier one says. -/
def SameRequest (x y : Execution) : Prop :=
  y = { x with status := y.status, result := y.result, completedAt := y.completedAt, confirmedAt := y.confirmedAt,
               confirmedBy := y.confirmedBy }

section Accounts
variable (s : State World) (us : Journals)

/-- Row `y` is of a run of the same action that the call has made itself, with its result. -/
structure OwnRun (call : Call) (xs : Lines) (x y : Execution) : Prop where
  created : ∃ z, ⟨.createExecution z, .ok ()⟩ ∈ xs ∧ z.executionId = y.executionId ∧ z.status = .success
  row : s.executions y.executionId = some y
  same : SameAction x y
  status : y.status = .success
  recorded : y.result ≠ none
  tenant : y.tenantId = call.ctx.tenantId
  user : y.userId = call.ctx.userId

/-- The result names the row of the run that a confirmation of the execution has made. -/
structure Delegated (x : Execution) : Prop where
  run : ∃ call xs y, (call, xs) ∈ us ∧ call.op = .confirmExecution x.executionId ∧ call.ctx.tenantId = x.tenantId ∧
    OwnRun s call xs x y ∧ x.result = some (delegation y.executionId)

/-- What has become of an execution that asks for a confirmation. -/
inductive Decision (x : Execution) : Prop where
  | pending (status : x.status = .pendingConfirmation) (result : x.result = none)
  | confirmed (status : x.status = .success) (delegated : Delegated s us x)
  | cancelled {call : Call} {xs : Lines} (mem : (call, xs) ∈ us) (asked : call.op = .cancelExecution x.executionId)
      (tenant : call.ctx.tenantId = x.tenantId) (status : x.status = .cancelled)
      (result : x.result = none ∨ Delegated s us x)
  /-- Somebody wanted to confirm it, and it was more than ten minutes old. -/
  | expired {call : Call} {xs : Lines} {startedAt now : Time} (mem : (call, xs) ∈ us)
      (asked : call.op = .confirmExecution x.executionId) (tenant : call.ctx.tenantId = x.tenantId)
      (started : x.startedAt = some startedAt) (clock : ⟨.now, .ok now⟩ ∈ xs) (late : startedAt + confirmationTtl < now)
      (status : x.status = .expired) (result : x.result = none ∨ Delegated s us x)

/-- What has become of a background execution. -/
inductive Fate (call : Call) (xs : Lines) (x : Execution) : Prop where
  | running (status : x.status = .running) (result : x.result = none)
  | delivered {y : Execution} (own : OwnRun s call xs x y) (status : x.status = .success) (result : x.result = y.result)
  | failed {e : Exc} (status : x.status = .failed) (result : x.result = some (errorRecord rt e))

/-- Call `i` has created the row with the status, for what it was asked for, and the row says what has become of it. -/
inductive Accounted (i : ℕ) (x : Execution) : Status → Prop where
  | ran {call : Call} {pre post : Lines} {z : Execution} {r : Except Exc Unit} {result : EngineResult}
      {written : List Value} (maker : us[i]? = some (call, pre ++ ⟨.createExecution z, r⟩ :: post))
      (row : z.executionId = x.executionId) (tenant : x.tenantId = call.ctx.tenantId) (user : x.userId = call.ctx.userId)
      (serves : Serves call pre x) (performed : Performed rt call pre x result written) (status : x.status = .success)
      (record : x.result = none ∨ x.result = some (recordOf result written)) : Accounted i x .success
  | asking {call : Call} {xs : Lines} (maker : us[i]? = some (call, xs)) (tenant : x.tenantId = call.ctx.tenantId)
      (user : x.userId = call.ctx.userId) (serves : Serves call xs x) (asks : call.op.skips = false)
      (decision : Decision s us x) : Accounted i x .pendingConfirmation
  | scheduled {call : Call} {xs : Lines} (maker : us[i]? = some (call, xs)) (tenant : x.tenantId = call.ctx.tenantId)
      (user : x.userId = call.ctx.userId)
      (asked : ∃ skip, call.op = .executeActionAsync x.capabilityRid x.params x.branch skip)
      (fate : Fate rt s call xs x) : Accounted i x .running

end Accounts

/-! ## Journals that grow -/

section Grow
variable {s s' : State World} {us us' : Journals} {call : Call} {xs ys : Lines} {x y : Execution} {i : ℕ}

/-- The calls are still there, each with a longer journal. -/
def Grows (us us' : Journals) : Prop :=
  ∀ (i : ℕ) (call : Call) (xs : Lines), us[i]? = some (call, xs) → ∃ ys, us'[i]? = some (call, xs ++ ys)

theorem Grows.mem (h : Grows us us') (hmem : (call, xs) ∈ us) : ∃ ys, (call, xs ++ ys) ∈ us' := by
  obtain ⟨i, hi⟩ := List.mem_iff_getElem?.mp hmem
  obtain ⟨ys, hys⟩ := h i call xs hi
  exact ⟨ys, List.mem_of_getElem? hys⟩

theorem grows_start (us : Journals) (call : Call) : Grows us (us ++ [(call, [])]) := by
  intro i κ xs hi
  refine ⟨[], ?_⟩
  rw [List.append_nil, List.getElem?_append_left (List.getElem?_eq_some_iff.mp hi).1]
  exact hi

theorem grows_set (h : us[i]? = some (call, xs)) (ys : Lines) : Grows us (us.set i (call, xs ++ ys)) := by
  intro j κ zs hj
  by_cases hji : j = i
  · subst hji
    obtain ⟨hlt, -⟩ := List.getElem?_eq_some_iff.mp hj
    rw [h] at hj
    cases hj
    exact ⟨ys, List.getElem?_set_self hlt⟩
  · exact ⟨[], by rw [List.getElem?_set_ne (Ne.symm hji), hj, List.append_nil]⟩

theorem Serves.mono (h : Serves call xs x) (hp : xs <+: ys) : Serves call ys x := by
  obtain ⟨ctx, op⟩ := call
  cases op with
  | confirmExecution id =>
    obtain ⟨y, hfound, hsame⟩ := h
    exact ⟨y, hfound.mono hp, hsame⟩
  | _ => exact h

/-- A run that a call has made stays what it is as long as its row does. -/
theorem OwnRun.mono (h : OwnRun s call xs x y) (hp : xs <+: ys) (hrow : s'.executions y.executionId = some y) :
    OwnRun s' call ys x y :=
  let ⟨z, hz, hid, hran⟩ := h.created
  { h with created := ⟨z, hp.subset hz, hid, hran⟩, row := hrow }

/-- The rows of runs on record are as before. -/
def RunsKept (s s' : State World) (us : Journals) : Prop :=
  ∀ (call : Call) (xs : Lines) (x y : Execution), (call, xs) ∈ us → OwnRun s call xs x y →
    s'.executions y.executionId = some y

theorem Delegated.mono (h : Delegated s us x) (hu : Grows us us') (hs : RunsKept s s' us) : Delegated s' us' x := by
  obtain ⟨call, xs, y, hmem, hop, htenant, hown, hresult⟩ := h.run
  obtain ⟨ys, hys⟩ := hu.mem hmem
  exact ⟨call, xs ++ ys, y, hys, hop, htenant, hown.mono (List.prefix_append _ _) (hs call xs x y hmem hown), hresult⟩

theorem Decision.mono (h : Decision s us x) (hu : Grows us us') (hs : RunsKept s s' us) : Decision s' us' x := by
  cases h with
  | pending status result => exact .pending status result
  | confirmed status delegated => exact .confirmed status (delegated.mono hu hs)
  | cancelled mem asked tenant status result =>
    obtain ⟨ys, hys⟩ := hu.mem mem
    exact .cancelled hys asked tenant status (result.imp_right fun h => h.mono hu hs)
  | expired mem asked tenant started clock late status result =>
    obtain ⟨ys, hys⟩ := hu.mem mem
    exact .expired hys asked tenant started (List.mem_append_left _ clock) late status
      (result.imp_right fun h => h.mono hu hs)

variable {rt}

theorem Accounted.mono {kind : Status} (h : Accounted rt s us i x kind) (hu : Grows us us') (hs : RunsKept s s' us) :
    Accounted rt s' us' i x kind := by
  cases h with
  | ran maker row tenant user serves performed status record =>
    obtain ⟨ys, hys⟩ := hu i _ _ maker
    rw [List.append_assoc, List.cons_append] at hys
    exact .ran hys row tenant user serves performed status record
  | asking maker tenant user serves asks decision =>
    obtain ⟨ys, hys⟩ := hu i _ _ maker
    exact .asking hys tenant user (serves.mono (List.prefix_append _ _)) asks (decision.mono hu hs)
  | scheduled maker tenant user asked fate =>
    obtain ⟨ys, hys⟩ := hu i _ _ maker
    refine .scheduled hys tenant user asked ?_
    cases fate with
    | running status result => exact .running status result
    | delivered own status result =>
      exact .delivered (own.mono (List.prefix_append _ _) (hs _ _ _ _ (List.mem_of_getElem? maker) own)) status result
    | failed status result => exact .failed status result

end Grow

/-! ## The books -/

/-- The row that a call has just created, and has written nothing to yet. -/
def Unclosed (xs : Lines) (z : Execution) : Prop :=
  ∃ pre, xs = pre ++ [⟨.createExecution z, .ok ()⟩] ∨ ∃ r, xs = pre ++ [⟨.createExecution z, .ok ()⟩, ⟨.now, r⟩]

/-- Where the rows come from: the call that created each, and as what. -/
abbrev Origin : Type := String → Option (ℕ × Execution)

structure Books (s : State World) (us : Journals) (origin : Origin) : Prop where
  row : ∀ id x, s.executions id = some x → x.executionId = id ∧
    ∃ i z, origin id = some (i, z) ∧ SameRequest z x ∧ Accounted rt s us i x z.status
  there : ∀ id p, origin id = some p → (s.executions id).isSome
  made : ∀ (i : ℕ) (call : Call) (xs : Lines) (z : Execution), us[i]? = some (call, xs) →
    ⟨.createExecution z, .ok ()⟩ ∈ xs → ∃ t, origin z.executionId = some (i, { z with startedAt := some t })
  found : ∀ (call : Call) (xs : Lines) (id : String) (y : Execution), (call, xs) ∈ us → Found call id xs y →
    y.tenantId = call.ctx.tenantId ∧ ∃ i z, origin id = some (i, z) ∧ z.status = .pendingConfirmation ∧ SameRequest z y
  /-- A run on record keeps its result. -/
  closed : ∀ (i : ℕ) (call : Call) (xs : Lines) (id tenantId : String) (u : StatusUpdate), us[i]? = some (call, xs) →
    ⟨.updateStatus id tenantId u, .ok ()⟩ ∈ xs → ∃ j z, origin id = some (j, z) ∧
      (j = i → z.status = .success → ∃ x, s.executions id = some x ∧ x.result = u.result ∧ u.result ≠ none)
  fresh : ∀ (i : ℕ) (call : Call) (xs : Lines) (z : Execution), us[i]? = some (call, xs) → Unclosed xs z →
    z.status = .success → ∃ x, s.executions z.executionId = some x ∧ x.result = none

variable {rt}

section Books
variable {s s' : State World} {us us' : Journals} {origin origin' : Origin} {call : Call} {xs : Lines}
variable {x y z : Execution} {i : ℕ} {id : String}

theorem Books.runsKept (h : Books rt s us origin)
    (hkeeps : ∀ id i z x, origin id = some (i, z) → z.status = .success → s.executions id = some x → x.result ≠ none →
      s'.executions id = some x) : RunsKept s s' us := by
  intro call xs x y hmem hown
  obtain ⟨i, hi⟩ := List.mem_iff_getElem?.mp hmem
  obtain ⟨z, hz, hid, hran⟩ := hown.created
  obtain ⟨t, horigin⟩ := h.made i call xs z hi hz
  rw [hid] at horigin
  exact hkeeps _ i _ y horigin hran hown.row hown.recorded

/-- The books after a step, from what the step adds: `N` are the lines that it adds to journals. -/
theorem Books.extend {N : ℕ → Call → (c : Cmd) × Except Exc (Ans c) → Prop} (h : Books rt s us origin)
    (hu : Grows us us')
    (hlines : ∀ (j : ℕ) (κ : Call) (ys : Lines) m, us'[j]? = some (κ, ys) → m ∈ ys →
      (∃ zs, us[j]? = some (κ, zs) ∧ m ∈ zs) ∨ N j κ m)
    (horigin : ∀ id p, origin id = some p → origin' id = some p)
    (hthere : ∀ id p, origin' id = some p → (s'.executions id).isSome)
    (hkeeps : ∀ id i z x, origin id = some (i, z) → z.status = .success → s.executions id = some x → x.result ≠ none →
      s'.executions id = some x)
    (hrow : ∀ id x, s'.executions id = some x → s.executions id = some x ∨ (x.executionId = id ∧
      ∃ i z, origin' id = some (i, z) ∧ SameRequest z x ∧ Accounted rt s' us' i x z.status))
    (hmade : ∀ j κ z, N j κ ⟨.createExecution z, .ok ()⟩ →
      ∃ t, origin' z.executionId = some (j, { z with startedAt := some t }))
    (hfound : ∀ j κ id y, N j κ ⟨.getExecution id κ.ctx.tenantId, .ok (some y)⟩ → y.status = .pendingConfirmation →
      y.tenantId = κ.ctx.tenantId ∧
        ∃ i z, origin id = some (i, z) ∧ z.status = .pendingConfirmation ∧ SameRequest z y)
    (hclosed : ∀ j κ id tenantId u, N j κ ⟨.updateStatus id tenantId u, .ok ()⟩ → ∃ k z, origin' id = some (k, z) ∧
      (k = j → z.status = .success → ∃ x, s'.executions id = some x ∧ x.result = u.result ∧ u.result ≠ none))
    (hfresh : ∀ (j : ℕ) (κ : Call) (ys : Lines) (z : Execution), us'[j]? = some (κ, ys) → Unclosed ys z →
      z.status = .success → ∃ x, s'.executions z.executionId = some x ∧ x.result = none) :
    Books rt s' us' origin' where
  row id x hx := by
    rcases hrow id x hx with hold | hnew
    · obtain ⟨hid, i, z, hz, hsame, haccounted⟩ := h.row id x hold
      exact ⟨hid, i, z, horigin id _ hz, hsame, haccounted.mono hu (h.runsKept hkeeps)⟩
    · exact hnew
  there := hthere
  made i call xs z hi hz := by
    rcases hlines i call xs _ hi hz with ⟨ys, hys, hold⟩ | hnew
    · obtain ⟨t, ht⟩ := h.made i call ys z hys hold
      exact ⟨t, horigin _ _ ht⟩
    · exact hmade i call z hnew
  found call xs id y hmem hfound' := by
    obtain ⟨i, hi⟩ := List.mem_iff_getElem?.mp hmem
    have hold : y.tenantId = call.ctx.tenantId ∧
        ∃ i z, origin id = some (i, z) ∧ z.status = .pendingConfirmation ∧ SameRequest z y := by
      rcases hlines i call xs _ hi hfound'.line with ⟨ys, hys, hold⟩ | hnew
      · exact h.found call ys id y (List.mem_of_getElem? hys) ⟨hold, hfound'.pending⟩
      · exact hfound i call id y hnew hfound'.pending
    obtain ⟨htenant, j, z, hz, hpending, hsame⟩ := hold
    exact ⟨htenant, j, z, horigin _ _ hz, hpending, hsame⟩
  closed i call xs id tenantId u hi hu := by
    rcases hlines i call xs _ hi hu with ⟨ys, hys, hold⟩ | hnew
    · obtain ⟨j, z, hz, hresult⟩ := h.closed i call ys id tenantId u hys hold
      refine ⟨j, z, horigin _ _ hz, fun hji hran => ?_⟩
      obtain ⟨x, hx, hresult, hsome⟩ := hresult hji hran
      exact ⟨x, hkeeps id j z x hz hran hx (hresult ▸ hsome), hresult, hsome⟩
    · exact hclosed i call id tenantId u hnew
  fresh := hfresh

theorem getElem?_start {j : ℕ} {κ : Call} {ys : Lines} (h : (us ++ [(call, [])])[j]? = some (κ, ys)) :
    us[j]? = some (κ, ys) ∨ ys = [] := by
  rcases Nat.lt_or_ge j us.length with hlt | hge
  · rw [List.getElem?_append_left hlt] at h
    exact .inl h
  · rw [List.getElem?_append_right hge, List.getElem?_singleton] at h
    split at h
    · cases h
      exact .inr rfl
    · cases h

theorem not_unclosed_nil : ¬Unclosed [] z := by
  rintro ⟨pre, h | ⟨r, h⟩⟩ <;> simp at h

theorem Books.start (h : Books rt s us origin) (call : Call) : Books rt s (us ++ [(call, [])]) origin := by
  refine h.extend (grows_start us call) (N := fun _ _ _ => False) ?_ (fun _ _ hp => hp) h.there
    (fun _ _ _ _ _ _ hx _ => hx) (fun _ _ hx => .inl hx) (fun _ _ _ hnew => hnew.elim) (fun _ _ _ _ hnew => hnew.elim)
    (fun _ _ _ _ _ hnew => hnew.elim) ?_
  · intro j κ ys m hj hm
    rcases getElem?_start hj with hold | rfl
    · exact .inl ⟨ys, hold, hm⟩
    · cases hm
  · intro j κ ys z hj hopen
    rcases getElem?_start hj with hold | rfl
    · exact h.fresh j κ ys z hold hopen
    · exact absurd hopen not_unclosed_nil

/-! ### A call issues a command -/

variable {l m : (c : Cmd) × Except Exc (Ans c)}

theorem mem_line (hi : us[i]? = some (call, xs)) {j : ℕ} {κ : Call} {ys : Lines}
    (hj : (us.set i (call, xs ++ [l]))[j]? = some (κ, ys)) (hm : m ∈ ys) :
    (∃ zs, us[j]? = some (κ, zs) ∧ m ∈ zs) ∨ (j = i ∧ κ = call ∧ m = l) := by
  rcases getElem?_set_cases hj with ⟨rfl, hnew⟩ | ⟨-, hold⟩
  · cases hnew
    rcases List.mem_append.mp hm with hm | hm
    · exact .inl ⟨xs, hi, hm⟩
    · exact .inr ⟨rfl, rfl, List.mem_singleton.mp hm⟩
  · exact .inl ⟨ys, hold, hm⟩

/-- A row is unclosed when it has been created, and for the reading of the clock that follows. -/
theorem unclosed_line (h : Unclosed (xs ++ [l]) z) :
    l = ⟨.createExecution z, .ok ()⟩ ∨ (∃ r, l = ⟨.now, r⟩) ∧ Unclosed xs z := by
  obtain ⟨pre, h | ⟨r, h⟩⟩ := h
  · exact .inl (List.singleton_inj.mp (List.append_inj' h rfl).2)
  · have hsplit : xs ++ [l] = (pre ++ [⟨.createExecution z, .ok ()⟩]) ++ [⟨.now, r⟩] := by simpa using h
    obtain ⟨hxs, hl⟩ := List.append_inj' hsplit rfl
    exact .inr ⟨⟨r, List.singleton_inj.mp hl⟩, pre, .inl hxs⟩

theorem Unclosed.created (h : Unclosed xs z) : ⟨.createExecution z, .ok ()⟩ ∈ xs := by
  obtain ⟨pre, rfl | ⟨r, rfl⟩⟩ := h <;> simp

/-- What does not write to the table, and finds nothing pending there, leaves the books in order. -/
theorem Books.note (h : Books rt s us origin) (hi : us[i]? = some (call, xs)) (hs : s'.executions = s.executions)
    (hcreated : ∀ z, l ≠ ⟨.createExecution z, .ok ()⟩)
    (hupdated : ∀ id tenantId u, l ≠ ⟨.updateStatus id tenantId u, .ok ()⟩)
    (hfound : ∀ id y, l = ⟨.getExecution id call.ctx.tenantId, .ok (some y)⟩ → y.status = .pendingConfirmation →
      y.tenantId = call.ctx.tenantId ∧
        ∃ i z, origin id = some (i, z) ∧ z.status = .pendingConfirmation ∧ SameRequest z y) :
    Books rt s' (us.set i (call, xs ++ [l])) origin := by
  refine h.extend (grows_set hi [l]) (N := fun j κ m => j = i ∧ κ = call ∧ m = l)
    (fun j κ ys m hj hm => mem_line hi hj hm) (fun _ _ hp => hp) ?_ ?_ ?_ ?_ ?_ ?_ ?_
  · rw [hs]
    exact h.there
  · rw [hs]
    exact fun _ _ _ _ _ _ hx _ => hx
  · rw [hs]
    exact fun _ _ hx => .inl hx
  · rintro j κ z ⟨-, -, hl⟩
    exact absurd hl.symm (hcreated z)
  · rintro j κ id y ⟨-, rfl, hl⟩ hpending
    exact hfound id y hl.symm hpending
  · rintro j κ id tenantId u ⟨-, -, hl⟩
    exact absurd hl.symm (hupdated id tenantId u)
  · intro j κ ys z hj hopen hran
    rw [hs]
    rcases getElem?_set_cases hj with ⟨rfl, hnew⟩ | ⟨-, hold⟩
    · cases hnew
      rcases unclosed_line hopen with hl | ⟨-, hopen⟩
      · exact absurd hl (hcreated z)
      · exact h.fresh j call xs z hi hopen hran
    · exact h.fresh j κ ys z hold hopen hran

theorem Books.origin_none (h : Books rt s us origin) (hnone : s.executions id = none) : origin id = none := by
  cases hp : origin id with
  | none => rfl
  | some p =>
    have hsome := h.there id p hp
    rw [hnone] at hsome
    cases hsome

theorem Serves.of_same (h : Serves call xs z) (hs : SameAction z x) : Serves call xs x := by
  obtain ⟨ctx, op⟩ := call
  cases op with
  | executeAction rid params branch skip | executeActionAsync rid params branch skip =>
    obtain ⟨hrid, hparams, hbranch⟩ := h
    exact ⟨hs.rid.trans hrid, hs.params.trans hparams, hs.branch.trans hbranch⟩
  | executeActionBatch rid batch branch skip =>
    obtain ⟨hrid, hparams, hbranch⟩ := h
    exact ⟨hs.rid.trans hrid, hs.params ▸ hparams, hs.branch.trans hbranch⟩
  | confirmExecution id =>
    obtain ⟨y, hfound, hsame⟩ := h
    exact ⟨y, hfound, hs.rid.trans hsame.rid, hs.params.trans hsame.params, hs.branch.trans hsame.branch⟩
  | _ => exact h

/-- The account of a row that has just been created. -/
theorem Makes.accounted {r : Except Exc Unit} {t : Time} (h : Makes rt call xs z)
    (hi : us[i]? = some (call, xs ++ [⟨.createExecution z, r⟩])) (htenant : z.tenantId = call.ctx.tenantId)
    (huser : z.userId = call.ctx.userId) (hresult : z.result = none) (hx : x = { z with startedAt := some t }) :
    Accounted rt s us i x x.status := by
  have hstatus : x.status = z.status := by rw [hx]
  have hresult' : x.result = none := by rw [hx]; exact hresult
  have htenant' : x.tenantId = call.ctx.tenantId := by rw [hx]; exact htenant
  have huser' : x.userId = call.ctx.userId := by rw [hx]; exact huser
  have hsame : SameAction z x := by rw [hx]; exact ⟨rfl, rfl, rfl⟩
  cases h with
  | scheduled status asked =>
    have hrunning := hstatus.trans status
    rw [hrunning]
    refine .scheduled hi htenant' huser' ?_ (.running hrunning hresult')
    rw [hx]
    exact asked
  | asking status serves asks =>
    have hpending := hstatus.trans status
    rw [hpending]
    exact .asking hi htenant' huser' ((serves.mono (List.prefix_append _ _)).of_same hsame) asks (.pending hpending hresult')
  | @ran result written status serves performed =>
    have hsuccess := hstatus.trans status
    have hperformed : Performed rt call xs x result written := by rw [hx]; exact performed
    rw [hsuccess]
    exact .ran hi (by rw [hx]) htenant' huser' (serves.of_same hsame) hperformed hsuccess (.inl hresult')

/-- The row of a call that the table has just taken. -/
theorem Books.create (h : Books rt s us origin) (hi : us[i]? = some (call, xs)) (hnone : s.executions z.executionId = none)
    (htenant : z.tenantId = call.ctx.tenantId) (huser : z.userId = call.ctx.userId) (hresult : z.result = none)
    (hmakes : Makes rt call xs z) (t : Time) (r : Except Exc Unit) :
    ∃ origin', Books rt (s.setExecution z.executionId { z with startedAt := some t })
      (us.set i (call, xs ++ [⟨.createExecution z, r⟩])) origin' := by
  have hnew := h.origin_none hnone
  have hi' := List.getElem?_set_self (a := (call, xs ++ [⟨.createExecution z, r⟩])) (List.getElem?_eq_some_iff.mp hi).1
  have hkept : ∀ id x, s.executions id = some x →
      (s.setExecution z.executionId { z with startedAt := some t }).executions id = some x := by
    intro id x hx
    rw [s.setExecution_ne _ (fun he => by rw [he, hnone] at hx; cases hx)]
    exact hx
  refine ⟨Function.update origin z.executionId (some (i, { z with startedAt := some t })),
    h.extend (grows_set hi _) (N := fun j κ m => j = i ∧ κ = call ∧ m = ⟨.createExecution z, r⟩)
      (fun j κ ys m hj hm => mem_line hi hj hm) ?_ ?_ (fun id _ _ x _ _ hx _ => hkept id x hx) ?_ ?_ ?_ ?_ ?_⟩
  · intro id p hp
    rw [Function.update_of_ne (fun he => by rw [he, hnew] at hp; cases hp)]
    exact hp
  · intro id p hp
    by_cases hid : id = z.executionId
    · rw [hid, State.setExecution_self]
      rfl
    · rw [Function.update_of_ne hid] at hp
      rw [s.setExecution_ne _ hid]
      exact h.there id p hp
  · intro id x hx
    by_cases hid : id = z.executionId
    · subst hid
      rw [State.setExecution_self] at hx
      cases hx
      exact .inr ⟨rfl, i, _, Function.update_self _ _ _, rfl,
        hmakes.accounted hi' htenant huser hresult rfl⟩
    · rw [s.setExecution_ne _ hid] at hx
      exact .inl hx
  · rintro j κ z' ⟨rfl, -, hl⟩
    cases hl
    exact ⟨t, Function.update_self _ _ _⟩
  · rintro j κ id y ⟨-, -, hl⟩
    cases hl
  · rintro j κ id tenantId u ⟨-, -, hl⟩
    cases hl
  · intro j κ ys z' hj hopen hran
    rcases getElem?_set_cases hj with ⟨rfl, hys⟩ | ⟨-, hold⟩
    · cases hys
      rcases unclosed_line hopen with hl | ⟨⟨r', hl⟩, -⟩
      · cases hl
        exact ⟨_, State.setExecution_self _ _ _, hresult⟩
      · cases hl
    · obtain ⟨x, hx, hnone'⟩ := h.fresh j κ ys z' hold hopen hran
      exact ⟨x, hkept _ x hx, hnone'⟩

/-- The row of an execution that is in the hands of the call. -/
theorem Books.update (h : Books rt s us origin) (hi : us[i]? = some (call, xs)) {k : ℕ} {tenantId : String}
    {u : StatusUpdate} (hx : s.executions id = some x) (hz : origin id = some (k, z)) (hsame : SameRequest z x)
    (r : Except Exc Unit)
    (haccounted : Accounted rt (s.setExecution id (u.apply x)) (us.set i (call, xs ++ [⟨.updateStatus id tenantId u, r⟩])) k
      (u.apply x) z.status)
    (hopen : z.status = .success → k = i ∧ x.result = none ∧ u.result ≠ none) :
    Books rt (s.setExecution id (u.apply x)) (us.set i (call, xs ++ [⟨.updateStatus id tenantId u, r⟩])) origin := by
  have hid : x.executionId = id := (h.row id x hx).1
  have hresult : u.result ≠ none → (u.apply x).result = u.result := by
    intro hsome
    obtain ⟨v, hv⟩ := Option.ne_none_iff_exists'.mp hsome
    simp [StatusUpdate.apply, hv]
  refine h.extend (grows_set hi _) (N := fun j κ m => j = i ∧ κ = call ∧ m = ⟨.updateStatus id tenantId u, r⟩)
    (fun j κ ys m hj hm => mem_line hi hj hm) (fun _ _ hp => hp) ?_ ?_ ?_ ?_ ?_ ?_ ?_
  · intro id' p hp
    by_cases hid' : id' = id
    · rw [hid', State.setExecution_self]
      rfl
    · rw [s.setExecution_ne _ hid']
      exact h.there id' p hp
  · intro id' j z' x' hz' hran hx' hsome
    refine (s.setExecution_ne _ ?_).trans hx'
    rintro rfl
    cases hz.symm.trans hz'
    cases hx.symm.trans hx'
    exact hsome (hopen hran).2.1
  · intro id' x' hx'
    by_cases hid' : id' = id
    · subst hid'
      rw [State.setExecution_self] at hx'
      cases hx'
      refine .inr ⟨hid, k, z, hz, ?_, haccounted⟩
      rw [SameRequest] at hsame ⊢
      rw [hsame]
      rfl
    · rw [s.setExecution_ne _ hid'] at hx'
      exact .inl hx'
  · rintro j κ z' ⟨-, -, hl⟩
    cases hl
  · rintro j κ id' y ⟨-, -, hl⟩
    cases hl
  · rintro j κ id' tenantId' u' ⟨rfl, -, hl⟩
    cases hl
    refine ⟨k, z, hz, fun hkj hran => ?_⟩
    exact ⟨_, State.setExecution_self _ _ _, hresult (hopen hran).2.2, (hopen hran).2.2⟩
  · intro j κ ys z' hj hunclosed hran
    rcases getElem?_set_cases hj with ⟨rfl, hys⟩ | ⟨hji, hold⟩
    · cases hys
      rcases unclosed_line hunclosed with hl | ⟨⟨r', hl⟩, -⟩ <;> cases hl
    · obtain ⟨x', hx', hnone⟩ := h.fresh j κ ys z' hold hunclosed hran
      refine ⟨x', (s.setExecution_ne _ ?_).trans hx', hnone⟩
      rintro rfl
      obtain ⟨t, ht⟩ := h.made j κ ys z' hold hunclosed.created
      cases hz.symm.trans ht
      exact hji (hopen hran).1

end Books

end Lingshu.Function
