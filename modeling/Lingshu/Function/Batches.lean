import Lingshu.Function.Records

/-! # Batches

`execute_action_batch` executes its items one after the other and reports an item that raises an `AppError` as failed.
Any other exception ends the batch. An item that is reported as failed has added nothing to the session, so that a
later commit commits nothing of it. -/
namespace Lingshu.Function
open Json Data Interaction Interaction.Prog
set_option autoImplicit false

variable {World : Type}

def Exc.isApp : Exc → Bool
  | .app _ _ => true
  | _ => false

section Items
variable (rt : Runtime) (env : Env World) (ctx : Ctx) (actionTypeRid : String) (branch : Option String)
variable (skipConfirmation : Bool)

/-- `execute_action` by itself. -/
def alone (params : Assoc Value) (s : State World) : Except Exc ExecutionResponse × State World :=
  (executeAction rt ctx actionTypeRid params branch skipConfirmation).run (exec env) s

/-- The state after some items, each of them alone. -/
def stateAfter (s : State World) (items : List (Assoc Value)) : State World :=
  items.foldl (fun s params => (alone rt env ctx actionTypeRid branch skipConfirmation params s).2) s

/-- What is reported of an item. -/
def reported (index : ℕ) : Except Exc ExecutionResponse → BatchItem
  | .ok r => { index, status := r.status, executionId := some r.executionId }
  | .error (.app _ message) => { index, status := .failed, error := some message }
  | .error e => { index, status := .failed, error := some (rt.text e) }

/-- What is reported of each item, from an index on. -/
def reports (s : State World) (index : ℕ) : List (Assoc Value) → List BatchItem
  | [] => []
  | params :: items =>
    let ran := alone rt env ctx actionTypeRid branch skipConfirmation params s
    reported rt index ran.1 :: reports ran.2 (index + 1) items

/-- No item raises anything but an `AppError`. -/
def Handled (s : State World) : List (Assoc Value) → Prop
  | [] => True
  | params :: items =>
    let ran := alone rt env ctx actionTypeRid branch skipConfirmation params s
    (∀ e, ran.1 = .error e → e.isApp = true) ∧ Handled ran.2 items

end Items

section Loop
variable {rt : Runtime} {env : Env World} {ctx : Ctx} {actionTypeRid : String} {branch : Option String}
variable {skipConfirmation : Bool} {s : State World} {items : List (Assoc Value)} {response : BatchResponse}

/-- One item of a batch: it is reported, or it ends the batch. -/
theorem run_executeItem (index : ℕ) (params : Assoc Value) (s : State World) :
    (executeItem rt ctx actionTypeRid branch skipConfirmation index params).run (exec env) s =
      match alone rt env ctx actionTypeRid branch skipConfirmation params s with
      | (.ok r, s') => (.ok (reported rt index (.ok r)), s')
      | (.error (.app code message), s') => (.ok (reported rt index (.error (.app code message))), s')
      | (.error e, s') => (.error e, s') := by
  rw [executeItem, run_tryCatch, bind_eq, run_bind, alone]
  rcases (executeAction rt ctx actionTypeRid params branch skipConfirmation).run (exec env) s with ⟨r | r, s'⟩
  · cases r <;> rfl
  · rfl

theorem run_executeItem_handled {index : ℕ} {params : Assoc Value}
    (h : ∀ e, (alone rt env ctx actionTypeRid branch skipConfirmation params s).1 = .error e → e.isApp = true) :
    (executeItem rt ctx actionTypeRid branch skipConfirmation index params).run (exec env) s =
      (.ok (reported rt index (alone rt env ctx actionTypeRid branch skipConfirmation params s).1),
        (alone rt env ctx actionTypeRid branch skipConfirmation params s).2) := by
  rw [run_executeItem]
  revert h
  rcases alone rt env ctx actionTypeRid branch skipConfirmation params s with ⟨e | r, s'⟩
  · intro h
    cases e with
    | app code message => rfl
    | _ => exact absurd (h _ rfl) (by simp [Exc.isApp])
  · exact fun _ => rfl

theorem run_executeItem_unhandled {index : ℕ} {params : Assoc Value} {e : Exc}
    (h : (alone rt env ctx actionTypeRid branch skipConfirmation params s).1 = .error e) (happ : ¬e.isApp = true) :
    (executeItem rt ctx actionTypeRid branch skipConfirmation index params).run (exec env) s =
      (.error e, (alone rt env ctx actionTypeRid branch skipConfirmation params s).2) := by
  rw [run_executeItem]
  revert h
  rcases alone rt env ctx actionTypeRid branch skipConfirmation params s with ⟨e' | r, s'⟩
  · intro h
    obtain rfl := Except.error.inj h
    cases e' with
    | app code message => exact absurd rfl happ
    | _ => rfl
  · exact fun h => nomatch h

variable (rt ctx actionTypeRid branch skipConfirmation) in
/-- The loop of a batch. -/
def batchLoop (response : BatchResponse) (items : List (Assoc Value)) : Program BatchResponse :=
  forEach items response fun response params => do
    let item ← executeItem rt ctx actionTypeRid branch skipConfirmation response.results.length params
    return response.add item

theorem executeActionBatch_eq : executeActionBatch rt ctx actionTypeRid items branch skipConfirmation =
    batchLoop rt ctx actionTypeRid branch skipConfirmation ⟨items.length, 0, 0, []⟩ items := rfl

theorem run_batchLoop_cons (params : Assoc Value) :
    (batchLoop rt ctx actionTypeRid branch skipConfirmation response (params :: items)).run (exec env) s =
      match (executeItem rt ctx actionTypeRid branch skipConfirmation response.results.length params).run (exec env) s with
      | (.ok item, s') =>
        (batchLoop rt ctx actionTypeRid branch skipConfirmation (response.add item) items).run (exec env) s'
      | (.error e, s') => (.error e, s') := by
  rw [batchLoop, forEach, bind_eq, Prog.bind_assoc, run_bind]
  rcases (executeItem rt ctx actionTypeRid branch skipConfirmation response.results.length params).run (exec env) s with
    ⟨e | item, s'⟩ <;> rfl

/-- Where every exception is an `AppError`, the batch goes through to its end. -/
theorem run_batchLoop (h : Handled rt env ctx actionTypeRid branch skipConfirmation s items) :
    (batchLoop rt ctx actionTypeRid branch skipConfirmation response items).run (exec env) s =
      (.ok ((reports rt env ctx actionTypeRid branch skipConfirmation s response.results.length items).foldl
        BatchResponse.add response), stateAfter rt env ctx actionTypeRid branch skipConfirmation s items) := by
  induction items generalizing response s with
  | nil => rfl
  | cons params items ih =>
    rw [run_batchLoop_cons, run_executeItem_handled h.1]
    simp only [ih h.2, BatchResponse.add, List.length_append, List.length_singleton]
    rfl

/-- Where one is not, the batch raises it. -/
theorem run_batchLoop_raises (h : ¬Handled rt env ctx actionTypeRid branch skipConfirmation s items) :
    ∃ e s', (batchLoop rt ctx actionTypeRid branch skipConfirmation response items).run (exec env) s = (.error e, s') := by
  induction items generalizing response s with
  | nil => exact absurd trivial h
  | cons params items ih =>
    rw [run_batchLoop_cons]
    by_cases hitem : ∀ e, (alone rt env ctx actionTypeRid branch skipConfirmation params s).1 = .error e → e.isApp = true
    · rw [run_executeItem_handled hitem]
      exact ih fun hrest => h ⟨hitem, hrest⟩
    · obtain ⟨e, he, happ⟩ : ∃ e, (alone rt env ctx actionTypeRid branch skipConfirmation params s).1 = .error e ∧
          ¬e.isApp = true := by simpa using hitem
      rw [run_executeItem_unhandled he happ]
      exact ⟨e, _, rfl⟩

/-! ## The summary -/

theorem add_counts (response : BatchResponse) (item : BatchItem) :
    (response.add item).successCount + (response.add item).failureCount =
      response.successCount + response.failureCount + 1 := by
  simp only [BatchResponse.add]
  split <;> omega

theorem foldl_add (items : List BatchItem) (response : BatchResponse) :
    (items.foldl BatchResponse.add response).results = response.results ++ items ∧
      (items.foldl BatchResponse.add response).total = response.total ∧
      (items.foldl BatchResponse.add response).successCount + (items.foldl BatchResponse.add response).failureCount =
        response.successCount + response.failureCount + items.length := by
  induction items generalizing response with
  | nil => simp
  | cons item items ih =>
    obtain ⟨hresults, htotal, hcounts⟩ := ih (response.add item)
    rw [List.foldl_cons]
    refine ⟨by rw [hresults, BatchResponse.add, List.append_assoc, List.singleton_append], htotal, ?_⟩
    rw [hcounts, add_counts, List.length_cons]
    omega

theorem length_reports (index : ℕ) :
    (reports rt env ctx actionTypeRid branch skipConfirmation s index items).length = items.length := by
  induction items generalizing index s with
  | nil => rfl
  | cons params items ih => rw [reports, List.length_cons, ih, List.length_cons]

theorem getElem?_reports (index : ℕ) (before : List (Assoc Value)) (params : Assoc Value) (after : List (Assoc Value)) :
    (reports rt env ctx actionTypeRid branch skipConfirmation s index (before ++ params :: after))[before.length]? =
      some (reported rt (index + before.length) (alone rt env ctx actionTypeRid branch skipConfirmation params
        (stateAfter rt env ctx actionTypeRid branch skipConfirmation s before)).1) := by
  induction before generalizing index s with
  | nil => rfl
  | cons first before ih =>
    rw [List.cons_append, reports, List.length_cons, List.getElem?_cons_succ, ih, Nat.add_right_comm, Nat.add_assoc]
    rfl

theorem handled_iff : Handled rt env ctx actionTypeRid branch skipConfirmation s items ↔
    ∀ before params after e, items = before ++ params :: after →
      (alone rt env ctx actionTypeRid branch skipConfirmation params
        (stateAfter rt env ctx actionTypeRid branch skipConfirmation s before)).1 = .error e → e.isApp = true := by
  induction items generalizing s with
  | nil => simp [Handled]
  | cons first items ih =>
    rw [Handled, ih]
    constructor
    · rintro ⟨hfirst, hrest⟩ before params after e hitems he
      cases before with
      | nil =>
        obtain ⟨rfl, rfl⟩ := List.cons.inj hitems
        exact hfirst e he
      | cons first' before =>
        obtain ⟨rfl, hitems'⟩ := List.cons.inj hitems
        exact hrest before params after e hitems' he
    · intro h
      exact ⟨fun e he => h [] first items e rfl he,
        fun before params after e hitems he => h (first :: before) params after e (by rw [hitems]; rfl) he⟩

end Loop

/-! ## The session between the items -/

/-- The commands that add something to the session. -/
def Cmd.adds : Cmd → Bool
  | .insertEditLog _ | .createExecution _ | .updateStatus _ _ _ => true
  | _ => false

section Session
variable (env : Env World)

/-- No run of the program raises an `AppError`. -/
def NoApp {α : Type} (p : Program α) : Prop :=
  ∀ s code message, (p.run (exec env) s).1 ≠ .error (.app code message)

variable {env}

theorem NoApp.bind {α β : Type} {p : Program α} {f : α → Program β} (hp : NoApp env p) (hf : ∀ a, NoApp env (f a)) :
    NoApp env (p >>= f) := by
  intro s code message
  rw [bind_eq, run_bind]
  cases hrun : p.run (exec env) s with
  | mk r s' =>
    cases r with
    | error e =>
      have hfirst := hp s code message
      rw [hrun] at hfirst
      simpa using hfirst
    | ok a => exact hf a s' code message

theorem NoApp.access {α : Type} (r : Except AccessError α) : NoApp env (access r) := by
  intro s code message
  cases r <;> simp [Function.access, ofExcept, Except.mapError]

theorem NoApp.pure {α : Type} (a : α) : NoApp env (.pure a : Program α) := fun _ _ _ => by simp

theorem NoApp.forEach {α β : Type} {xs : List α} {acc : β} {f : β → α → Program β} (hf : ∀ acc x, NoApp env (f acc x)) :
    NoApp env (forEach xs acc f) := by
  induction xs generalizing acc with
  | nil => exact .pure acc
  | cons x xs ih => exact NoApp.bind (hf acc x) fun acc' => ih

/-- Neither the clock nor the tables raise one. -/
theorem NoApp.perform (hinsert : ∀ entry w code message, (env.insertEditLog entry w).1 ≠ .error (.app code message))
    {c : Cmd} (h : c.adds = true ∨ c.writesBack = true) : NoApp env (perform c) := by
  intro s code message
  rw [Function.perform, run_perform]
  cases c with
  | insertEditLog entry => exact hinsert entry s.world code message
  | createExecution x =>
    simp only [exec]
    split <;> simp
  | updateStatus executionId tenantId update =>
    simp only [exec]
    split <;> simp
  | uuid4 => simp [exec]
  | now => simp [exec]
  | commit => simp [exec]
  | _ => simp [Cmd.adds, Cmd.writesBack] at h

section Phases
variable (rt : Runtime) {ctx : Ctx} {actionTypeRid : String} {branch : Option String}
variable (hinsert : ∀ entry w code message, (env.insertEditLog entry w).1 ≠ .error (.app code message))
include hinsert

theorem noApp_writeBack (result : EngineResult) (instances : Assoc Row) (results : List Value) (output : Value) :
    NoApp env (writeBack rt ctx result instances actionTypeRid branch results output) := by
  refine NoApp.bind (NoApp.access _) fun writeback => ?_
  split
  · refine NoApp.bind (NoApp.access _) fun targetParam => NoApp.bind (NoApp.access _) fun operation => ?_
    refine NoApp.bind (NoApp.access _) fun outputName => NoApp.bind (NoApp.access _) fun computed => ?_
    refine NoApp.bind (NoApp.access _) fun row => ?_
    rcases row with _ | _ | _
    · exact .pure _
    · exact .pure _
    · refine NoApp.bind ?_ fun entryId => .pure _
      refine NoApp.bind (NoApp.perform hinsert (.inr rfl)) fun entryId => ?_
      refine NoApp.bind (NoApp.perform hinsert (.inr rfl)) fun createdAt => ?_
      split
      · refine NoApp.bind (NoApp.perform hinsert (.inr rfl)) fun _ => ?_
        exact NoApp.bind (NoApp.perform hinsert (.inr rfl)) fun _ => .pure _
      · exact fun _ _ _ => by simp
  · exact .pure _

theorem noApp_logStart (executionId : String) (status : Status) (params : Assoc Value) (safetyLevel sideEffects : Value) :
    NoApp env (logStart ctx executionId actionTypeRid status params safetyLevel sideEffects branch) :=
  NoApp.perform hinsert (.inl rfl)

/-- Behind the engine nothing raises an `AppError`. -/
theorem noApp_afterEngine (params : Assoc Value) (skipConfirmation : Bool) (stage : Stage) :
    NoApp env (afterEngine rt ctx actionTypeRid params branch skipConfirmation stage) := by
  cases stage with
  | asks executionId action decision =>
    refine NoApp.bind (noApp_logStart hinsert _ _ _ _ _) fun _ => NoApp.bind (NoApp.perform hinsert (.inr rfl)) fun _ => ?_
    exact NoApp.bind (NoApp.perform hinsert (.inr rfl)) fun startedAt => .pure _
  | ran executionId action resolved result =>
    refine NoApp.bind ?_ fun ran => ?_
    · refine NoApp.bind (NoApp.access _) fun outputs => NoApp.bind (NoApp.access _) fun any => ?_
      split
      · refine NoApp.bind (NoApp.bind (NoApp.access _) fun outputs => ?_) fun written => .pure _
        exact NoApp.forEach fun results output => noApp_writeBack rt hinsert _ _ _ _
      · exact .pure _
    · refine NoApp.bind (noApp_logStart hinsert _ _ _ _ _) fun _ => NoApp.bind ?_ fun _ => ?_
      · exact NoApp.bind (NoApp.perform hinsert (.inr rfl)) fun completedAt => NoApp.perform hinsert (.inl rfl)
      · refine NoApp.bind (NoApp.perform hinsert (.inr rfl)) fun _ => NoApp.bind (NoApp.perform hinsert (.inr rfl)) fun _ => ?_
        exact NoApp.bind (NoApp.perform hinsert (.inr rfl)) fun completedAt => .pure _

/-- An item that raises an `AppError` has added nothing to the session. -/
theorem adds_of_app {params : Assoc Value} {skipConfirmation : Bool} {s : State World} {code : ErrorCode} {message : String}
    (h : (alone rt env ctx actionTypeRid branch skipConfirmation params s).1 = .error (.app code message)) :
    ∀ x ∈ (executeAction rt ctx actionTypeRid params branch skipConfirmation).transcript (exec env) s,
      x.1.adds = false := by
  rw [alone, executeAction_eq, run_bind] at h
  rw [executeAction_eq, transcript_bind]
  have huntil : Keeps (fun c => c.adds = false) (fun _ _ => True)
      (untilEngine rt ctx actionTypeRid params skipConfirmation) :=
    keeps_untilEngine rt (fun c hc => by cases c <;> first | rfl | cases hc) _ _ _ _
  cases hrun : (untilEngine rt ctx actionTypeRid params skipConfirmation).run (exec env) s with
  | mk r s' =>
    cases r with
    | error e =>
      rw [List.append_nil]
      exact huntil.transcript (exec env) s
    | ok stage =>
      rw [hrun] at h
      exact absurd h (noApp_afterEngine rt hinsert params skipConfirmation stage s' code message)

end Phases

end Session

/-! ## Independent items -/

/-- The batch returns: one result for each item, in their order, that says how the item alone ended; the counts add up
to the number of items; the state is that after the items one by one; and what is reported as failed has added nothing
that a later item could commit. -/
structure Independent (rt : Runtime) (env : Env World) (ctx : Ctx) (actionTypeRid : String) (branch : Option String)
    (skipConfirmation : Bool) (s : State World) (items : List (Assoc Value)) : Prop where
  returns : ∃ response, (executeActionBatch rt ctx actionTypeRid items branch skipConfirmation).run (exec env) s =
      (.ok response, stateAfter rt env ctx actionTypeRid branch skipConfirmation s items) ∧
    response.total = items.length ∧ response.successCount + response.failureCount = items.length ∧
    response.results.length = items.length ∧
    ∀ before params after, items = before ++ params :: after →
      response.results[before.length]? = some (reported rt before.length
        (alone rt env ctx actionTypeRid branch skipConfirmation params
          (stateAfter rt env ctx actionTypeRid branch skipConfirmation s before)).1)
  clean : ∀ before params after code message, items = before ++ params :: after →
    (alone rt env ctx actionTypeRid branch skipConfirmation params
      (stateAfter rt env ctx actionTypeRid branch skipConfirmation s before)).1 = .error (.app code message) →
    ∀ x ∈ (executeAction rt ctx actionTypeRid params branch skipConfirmation).transcript (exec env)
      (stateAfter rt env ctx actionTypeRid branch skipConfirmation s before), x.1.adds = false

/-- The items of a batch are independent if and only if none of them, after those before it, raises an exception that
is no `AppError`. The database raises none. -/
theorem items_independent_iff (rt : Runtime) (env : Env World) (ctx : Ctx) (actionTypeRid : String) (branch : Option String)
    (skipConfirmation : Bool) (s : State World) (items : List (Assoc Value))
    (hinsert : ∀ entry w code message, (env.insertEditLog entry w).1 ≠ .error (.app code message)) :
    Independent rt env ctx actionTypeRid branch skipConfirmation s items ↔
      ∀ before params after e, items = before ++ params :: after →
        (alone rt env ctx actionTypeRid branch skipConfirmation params
          (stateAfter rt env ctx actionTypeRid branch skipConfirmation s before)).1 = .error e → e.isApp = true := by
  rw [← handled_iff]
  constructor
  · rintro ⟨⟨response, hrun, -⟩, -⟩
    refine Classical.byContradiction fun hraises => ?_
    obtain ⟨e, s', hrun'⟩ := run_batchLoop_raises hraises
    rw [executeActionBatch_eq] at hrun
    exact nomatch hrun.symm.trans hrun'
  · intro hhandled
    obtain ⟨hresults, htotal, hcounts⟩ :=
      foldl_add (reports rt env ctx actionTypeRid branch skipConfirmation s 0 items) ⟨items.length, 0, 0, []⟩
    refine ⟨⟨_, run_batchLoop hhandled, htotal, ?_, ?_, fun before params after hitems => ?_⟩,
      fun before params after code message _ happ => adds_of_app rt hinsert happ⟩
    · rw [List.length_nil, hcounts, length_reports, Nat.zero_add, Nat.zero_add]
    · rw [List.length_nil, hresults, List.nil_append, length_reports]
    · rw [List.length_nil, hresults, List.nil_append, hitems, getElem?_reports, Nat.zero_add]

theorem items_independent_iff_plain :
    Independent .plain (.plain criticalAction) ⟨"t", "u"⟩ "ri.action.1" none true ⟨["a", "b"], fun _ => none, 0⟩ [[], []] ↔
      ∀ before params after e, [[], []] = before ++ params :: after →
        (alone .plain (.plain criticalAction) ⟨"t", "u"⟩ "ri.action.1" none true params
          (stateAfter .plain (.plain criticalAction) ⟨"t", "u"⟩ "ri.action.1" none true
            ⟨["a", "b"], fun _ => none, 0⟩ before)).1 = .error e → e.isApp = true :=
  items_independent_iff .plain (.plain criticalAction) ⟨"t", "u"⟩ "ri.action.1" none true ⟨["a", "b"], fun _ => none, 0⟩ [[], []]
    fun _ _ _ _ => nofun

/-- The engine raises a `KeyError`, as it does for a field mapping without a target. -/
def Env.keyless : Env (List String) :=
  { Env.plain criticalAction with await := fun _ w => (.error (.access (.keyError "target_field")), w) }

/-- The first item raises it, and so does the batch. -/
theorem not_independent_keyless :
    ¬Independent .plain .keyless ⟨"t", "u"⟩ "ri.action.1" none true ⟨["a", "b"], fun _ => none, 0⟩ [[], []] := by
  rintro ⟨⟨response, hrun, -⟩, -⟩
  have hraised : ((executeActionBatch .plain ⟨"t", "u"⟩ "ri.action.1" [[], []] none true).run (exec .keyless)
      ⟨["a", "b"], fun _ => none, 0⟩).1 = .error (.access (.keyError "target_field")) := rfl
  rw [hrun] at hraised
  cases hraised

end Lingshu.Function
