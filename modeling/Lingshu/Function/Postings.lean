import Lingshu.Function.Ledger

/-! # What a call may post

The `executions` table is the ledger of what has been run. `Makes`, `Closes`: the rows that a call may create, and the
updates that it may send, after what it has issued so far. Every method of the service keeps to them. -/
namespace Lingshu.Function
open Json Data Interaction Interaction.Prog
set_option autoImplicit false

variable (rt : Runtime)

/-! ## Rows and updates -/

/-- Whether a call runs actions without asking for a confirmation. -/
def Op.skips : Op → Bool
  | .executeAction _ _ _ skip | .executeActionBatch _ _ _ skip => skip
  | _ => true

/-- Two executions of one action with the same parameters. -/
structure SameAction (x y : Execution) : Prop where
  rid : y.capabilityRid = x.capabilityRid
  params : y.params = x.params
  branch : y.branch = x.branch

/-- The call has read the execution, and found it pending. -/
structure Found (call : Call) (id : String) (xs : Lines) (y : Execution) : Prop where
  line : ⟨.getExecution id call.ctx.tenantId, .ok (some y)⟩ ∈ xs
  pending : y.status = .pendingConfirmation

/-- The execution is one that the call asks for, or is for the one that it confirms. -/
def Serves (call : Call) (xs : Lines) (z : Execution) : Prop :=
  match call.op with
  | .executeAction rid params branch _ | .executeActionAsync rid params branch _ =>
    z.capabilityRid = rid ∧ z.params = params ∧ z.branch = branch
  | .executeActionBatch rid batch branch _ => z.capabilityRid = rid ∧ z.params ∈ batch ∧ z.branch = branch
  | .confirmExecution id => ∃ y, Found call id xs y ∧ SameAction y z
  | _ => False

/-- What `execute_action` records of a run. -/
def recordOf (result : EngineResult) (written : List Value) : Value :=
  .dict ([("data", result.data), ("computed_values", .dict result.computedValues)] ++
    if written = [] then [] else [("writeback", .list written)])

def errorRecord (e : Exc) : Value := .dict [("error", .str (rt.text e))]

def delegation (executionId : String) : Value := .dict [("delegated_to", .str executionId)]

/-- The last thing that the call did is the run that the execution is of. -/
def Performed (call : Call) (xs : Lines) (z : Execution) (result : EngineResult) (written : List Value) : Prop :=
  ∃ pre hex run action engine, xs = pre ++ ⟨.uuid4, .ok hex⟩ :: run ∧ z.executionId = executionIdOf hex ∧
    z.safetyLevel = action.safetyLevel ∧ z.sideEffects = action.sideEffects ∧
    Ran rt call.ctx z.capabilityRid z.params z.branch call.op.skips run action engine result written

/-- A run of the call itself that is on record with its result. -/
structure OnRecord (call : Call) (xs : Lines) (z : Execution) (record : Value) : Prop where
  created : ⟨.createExecution z, .ok ()⟩ ∈ xs
  tenant : z.tenantId = call.ctx.tenantId
  ran : z.status = .success
  recorded : ∃ u, ⟨.updateStatus z.executionId z.tenantId u, .ok ()⟩ ∈ xs ∧ u.result = some record

/-- The rows that a call may create after its journal. -/
inductive Makes (call : Call) (xs : Lines) (z : Execution) : Prop where
  | scheduled (status : z.status = .running)
      (asked : ∃ skip, call.op = .executeActionAsync z.capabilityRid z.params z.branch skip)
  | asking (status : z.status = .pendingConfirmation) (serves : Serves call xs z) (asks : call.op.skips = false)
  | ran {result : EngineResult} {written : List Value} (status : z.status = .success) (serves : Serves call xs z)
      (performed : Performed rt call xs z result written)

/-- The updates of an execution that a call may send after its journal. -/
inductive Closes (call : Call) (xs : Lines) (id : String) (u : StatusUpdate) : Prop where
  /-- The result of the run that it has just created the row of. -/
  | recorded {pre : Lines} {z : Execution} {now : Time} {result : EngineResult} {written : List Value}
      (journal : xs = pre ++ [⟨.createExecution z, .ok ()⟩, ⟨.now, .ok now⟩]) (row : z.executionId = id)
      (ran : z.status = .success) (serves : Serves call pre z) (performed : Performed rt call pre z result written)
      (status : u.status = .success) (record : u.result = some (recordOf result written))
  /-- A background task has run its action. -/
  | delivered {z y : Execution} {record : Value} (created : ⟨.createExecution z, .ok ()⟩ ∈ xs)
      (row : z.executionId = id) (scheduled : z.status = .running) (own : OnRecord call xs y record)
      (same : SameAction z y) (status : u.status = .success) (result : u.result = some record)
  /-- A background task has come to an exception. -/
  | failed {z : Execution} {e : Exc} (created : ⟨.createExecution z, .ok ()⟩ ∈ xs) (row : z.executionId = id)
      (scheduled : z.status = .running) (status : u.status = .failed) (result : u.result = some (errorRecord rt e))
  /-- A confirmation came too late. -/
  | expired {y : Execution} {startedAt now : Time} (asked : call.op = .confirmExecution id) (found : Found call id xs y)
      (started : y.startedAt = some startedAt) (clock : ⟨.now, .ok now⟩ ∈ xs) (late : startedAt + confirmationTtl < now)
      (status : u.status = .expired) (result : u.result = none)
  /-- A confirmation has run the action. -/
  | confirmed {y z : Execution} {record : Value} (asked : call.op = .confirmExecution id) (found : Found call id xs y)
      (own : OnRecord call xs z record) (same : SameAction y z) (status : u.status = .success)
      (result : u.result = some (delegation z.executionId))
  | cancelled {y : Execution} (asked : call.op = .cancelExecution id) (found : Found call id xs y)
      (status : u.status = .cancelled) (result : u.result = none)

/-- What a call may issue after its journal. -/
def Admits (call : Call) (xs : Lines) : Cmd → Prop
  | .createExecution z => z.tenantId = call.ctx.tenantId ∧ z.userId = call.ctx.userId ∧ z.result = none ∧ Makes rt call xs z
  | .updateStatus id tenantId u => tenantId = call.ctx.tenantId ∧ Closes rt call xs id u
  | _ => True

theorem admits_external {call : Call} {xs : Lines} {c : Cmd} (h : c.external = true) : Admits rt call xs c := by
  cases c <;> trivial

/-! ## Journals grow -/

section Grow
variable {call : Call} {xs ys : Lines} {id : String} {y z : Execution} {record : Value}

theorem Found.mono (h : Found call id xs y) (hp : xs <+: ys) : Found call id ys y :=
  ⟨hp.subset h.line, h.pending⟩

theorem OnRecord.mono (h : OnRecord call xs z record) (hp : xs <+: ys) : OnRecord call ys z record :=
  let ⟨u, hu, hresult⟩ := h.recorded
  ⟨hp.subset h.created, h.tenant, h.ran, u, hp.subset hu, hresult⟩

end Grow

/-! ## Programs that keep to it -/

section Rules
variable {α β : Type} {call : Call} {xs : Lines} {S S' : Lines → α → Prop} {T : Lines → β → Prop}

/-- The outcome of a part that started after `xs`: what it returns is in `S`. -/
structure Outcome (xs : Lines) (S : Lines → α → Prop) (zs : Lines) (r : Except Exc α) : Prop where
  grown : xs <+: zs
  returns : ∀ a, r = .ok a → S zs a

/-- After `xs` the call issues only what is admitted, and returns what is in `S`. -/
def Posts (call : Call) (xs : Lines) (S : Lines → α → Prop) (p : Program α) : Prop :=
  p.Follows (journalled (Admits rt call)) (fun _ _ => True) (Outcome xs S) xs

variable {rt}

theorem Outcome.after {ys : Lines} (hp : xs <+: ys) {zs : Lines} {r : Except Exc α} (h : Outcome ys S zs r) :
    Outcome xs S zs r := ⟨hp.trans h.grown, h.returns⟩

theorem Outcome.raise {zs : Lines} (hp : xs <+: zs) (e : Exc) : Outcome xs S zs (.error e) := by
  refine ⟨hp, ?_⟩
  rintro a ⟨⟩

theorem Posts.mono {p : Program α} (h : Posts rt call xs S p) (hS : ∀ zs a, xs <+: zs → S zs a → S' zs a) :
    Posts rt call xs S' p :=
  Follows.mono h fun zs _ hr => ⟨hr.grown, fun a ha => hS zs a hr.grown (hr.returns a ha)⟩

theorem posts_pure {a : α} (h : S xs a) : Posts rt call xs S (.pure a) := by
  refine ⟨List.prefix_rfl, ?_⟩
  rintro b ⟨⟩
  exact h

theorem posts_throw (e : Exc) : Posts rt call xs S (.throw e) := Outcome.raise List.prefix_rfl e

theorem Posts.bind {p : Program α} {f : α → Program β} (hp : Posts rt call xs S p)
    (hf : ∀ zs a, xs <+: zs → S zs a → Posts rt call zs T (f a)) : Posts rt call xs T (p.bind f) :=
  Follows.bind hp (fun zs a hzs => Follows.mono (hf zs a hzs.grown (hzs.returns a rfl)) fun _ _ hr => hr.after hzs.grown)
    fun _ e hzs => .raise hzs.grown e

theorem Posts.tryCatch {p : Program α} {f : Exc → Program α} (hp : Posts rt call xs S p)
    (hf : ∀ zs e, xs <+: zs → Posts rt call zs S (f e)) : Posts rt call xs S (p.tryCatch f) :=
  Follows.tryCatch hp (fun _ _ hzs => hzs) fun zs e hzs =>
    Follows.mono (hf zs e hzs.grown) fun _ _ hr => hr.after hzs.grown

/-- One command. -/
theorem posts_line {c : Cmd} (h : Admits rt call xs c) :
    Posts rt call xs (fun zs a => zs = xs ++ [⟨c, .ok a⟩]) (perform c) := by
  refine Follows.mono (Follows.line h) fun zs r hzs => ⟨hzs ▸ List.prefix_append _ _, ?_⟩
  rintro a rfl
  exact hzs

/-- A part that keeps away from the table. -/
theorem posts_external {p : Program α} (h : Keeps (fun c => c.external = true) (fun _ _ => True) p) :
    Posts rt call xs (fun zs a => ∃ ys, zs = xs ++ ys ∧ p.Runs ys (.ok a)) p := by
  refine Follows.mono (Meets.journal h fun ys c hc => admits_external rt hc) fun zs r hzs => ?_
  obtain ⟨ys, rfl, hruns⟩ := hzs
  refine ⟨List.prefix_append _ _, ?_⟩
  rintro a rfl
  exact ⟨ys, rfl, hruns⟩

theorem posts_forEach {items : List β} {acc : α} {f : α → β → Program α}
    (hf : ∀ acc item zs, item ∈ items → xs <+: zs → Posts rt call zs (fun _ _ => True) (f acc item)) :
    Posts rt call xs (fun _ _ => True) (forEach items acc f) := by
  induction items generalizing acc xs with
  | nil => exact posts_pure trivial
  | cons item items ih =>
    refine Posts.bind (hf acc item xs List.mem_cons_self List.prefix_rfl) fun zs acc' hzs _ => ?_
    exact ih fun acc item ys hitem hys => hf acc item ys (List.mem_cons_of_mem _ hitem) (hzs.trans hys)

end Rules

/-! ## The methods -/

section Methods
variable {call : Call} {xs : Lines} {rid : String} {params : Assoc Value} {branch : Option String} {skip : Bool}

/-- What `execute_action` has reported when it returns: unless it may ask for a confirmation, a run on record. -/
def Reported (call : Call) (rid : String) (params : Assoc Value) (branch : Option String) (zs : Lines)
    (response : ExecutionResponse) : Prop :=
  call.op.skips = true → ∃ z record, OnRecord call zs z record ∧ z.executionId = response.executionId ∧
    z.capabilityRid = rid ∧ z.params = params ∧ z.branch = branch ∧ response.result = some record

variable {rt}

theorem posts_recordSuccess {pre : Lines} {hex : String} {run : Lines} {action : ActionDefinition} {engine : EngineCall}
    {ran : EngineResult × List Value} (hxs : xs = pre ++ ⟨.uuid4, .ok hex⟩ :: run)
    (hserves : ∀ z : Execution, z.capabilityRid = rid → z.params = params → z.branch = branch → Serves call xs z)
    (hran : Ran rt call.ctx rid params branch call.op.skips run action engine ran.1 ran.2) :
    Posts rt call xs (Reported call rid params branch)
      (recordSuccess call.ctx (executionIdOf hex) rid params action branch skip ran) := by
  have hperformed : ∀ z : Execution, z.executionId = executionIdOf hex → z.capabilityRid = rid → z.params = params →
      z.branch = branch → z.safetyLevel = action.safetyLevel → z.sideEffects = action.sideEffects →
      Performed rt call xs z ran.1 ran.2 := by
    rintro z hid rfl rfl rfl hlevel heffects
    exact ⟨pre, hex, run, action, engine, hxs, hid, hlevel, heffects, hran⟩
  unfold recordSuccess logStart logComplete
  simp only [bind_eq, Prog.bind_assoc]
  refine Posts.bind (posts_line ⟨rfl, rfl, rfl, .ran rfl (hserves _ rfl rfl rfl) (hperformed _ rfl rfl rfl rfl rfl rfl)⟩)
    fun zs _ _ hzs => ?_
  refine Posts.bind (posts_line trivial) fun ws now _ hws => ?_
  subst hzs hws
  refine Posts.bind (posts_line ⟨rfl, .recorded (List.append_assoc _ _ _) rfl rfl (hserves _ rfl rfl rfl) (hperformed _ rfl rfl rfl rfl rfl rfl) rfl rfl⟩)
    fun zs _ _ hzs => ?_
  refine Posts.bind (posts_line trivial) fun ws _ hws _ => ?_
  refine Posts.bind (posts_line trivial) fun us startedAt hus _ => ?_
  refine Posts.bind (posts_line trivial) fun vs completedAt hvs _ => ?_
  have hgrown : zs <+: vs := (hws.trans hus).trans hvs
  subst hzs
  refine posts_pure fun _ => ?_
  exact ⟨_, _, ⟨hgrown.subset (List.mem_append_left _ (List.mem_append_left _ (List.mem_append_right _
    (List.mem_singleton_self _)))), rfl, rfl, _, hgrown.subset (List.mem_append_right _ (List.mem_singleton_self _)), rfl⟩,
    rfl, rfl, rfl, rfl, rfl⟩

/-- Before the run is recorded, nothing of the call concerns the table. -/
theorem posts_executeAction
    (hserves : ∀ zs (z : Execution), xs <+: zs → z.capabilityRid = rid → z.params = params → z.branch = branch →
      Serves call zs z) :
    Posts rt call xs (Reported call rid params branch) (executeAction rt call.ctx rid params branch call.op.skips) := by
  rw [executeAction_eq]
  have hprepares : Keeps (fun c => c.external = true) (fun _ _ => True)
      (untilEngine rt call.ctx rid params call.op.skips) :=
    keeps_untilEngine rt (fun c hc => by cases c <;> first | rfl | cases hc) _ _ _ _
  refine Posts.bind (posts_external hprepares) fun zs stage hzs hstage => ?_
  obtain ⟨ys, rfl, hruns⟩ := hstage
  cases stage with
  | asks id action decision =>
    have hasks : call.op.skips = false := runs_asks rt hruns
    unfold afterEngine logStart
    simp only [bind_eq]
    refine Posts.bind (posts_line ⟨rfl, rfl, rfl, .asking rfl (hserves _ _ hzs rfl rfl rfl) hasks⟩) fun ws _ _ _ => ?_
    refine Posts.bind (posts_line trivial) fun us _ _ _ => ?_
    refine Posts.bind (posts_line trivial) fun vs startedAt _ _ => posts_pure fun hskips => ?_
    rw [hasks] at hskips
    cases hskips
  | ran id action resolved result =>
    obtain ⟨hex, run, engine, rfl, rfl, hinstances, hnone, hstarted⟩ := runs_untilEngine rt hruns
    have hfinishes : Keeps (fun c => c.external = true) (fun _ _ => True)
        (finishAction rt call.ctx action resolved rid branch result) :=
      keeps_finishAction rt (fun c hc => Cmd.external_of_writesBack hc) _ _ _ _ _ _
    unfold afterEngine
    simp only [bind_eq]
    refine Posts.bind (posts_external hfinishes) fun ws ran hws hran => ?_
    obtain ⟨us, rfl, hfinished⟩ := hran
    have hjournal : xs ++ ⟨.uuid4, .ok hex⟩ :: run ++ us = xs ++ ⟨.uuid4, .ok hex⟩ :: (run ++ us) :=
      List.append_assoc _ _ _
    exact posts_recordSuccess hjournal (fun z => hserves _ z (hzs.trans hws))
      (hstarted.finished rt hinstances hnone hfinished)

theorem posts_executeItem (index : ℕ)
    (hserves : ∀ zs (z : Execution), xs <+: zs → z.capabilityRid = rid → z.params = params → z.branch = branch →
      Serves call zs z) :
    Posts rt call xs (fun _ _ => True) (executeItem rt call.ctx rid branch call.op.skips index params) := by
  refine Posts.tryCatch ((posts_executeAction hserves).bind fun zs _ _ _ => posts_pure trivial) fun zs e _ => ?_
  cases e with
  | app code message => exact posts_pure trivial
  | _ => exact posts_throw _

theorem posts_executeActionBatch {batch : List (Assoc Value)} (hop : call.op = .executeActionBatch rid batch branch skip) :
    Posts rt call xs (fun _ _ => True) (executeActionBatch rt call.ctx rid batch branch call.op.skips) := by
  refine posts_forEach fun response params zs hmem _ => ?_
  refine Posts.bind (posts_executeItem _ fun ws z _ hrid hparams hbranch => ?_) fun _ _ _ _ => posts_pure trivial
  simp only [Serves, hop]
  exact ⟨hrid, hparams ▸ hmem, hbranch⟩

theorem posts_executeAsyncBackground {z : Execution} {skip' : Bool}
    (hop : call.op = .executeActionAsync rid params branch skip) (hcreated : ⟨.createExecution z, .ok ()⟩ ∈ xs)
    (hscheduled : z.status = .running) (hrid : z.capabilityRid = rid) (hparams : z.params = params)
    (hbranch : z.branch = branch) :
    Posts rt call xs (fun _ _ => True)
      (executeAsyncBackground rt ⟨call.ctx, z.executionId, rid, params, branch, skip'⟩) := by
  have hskips : call.op.skips = true := by rw [hop]; rfl
  have hrun : Posts rt call xs (Reported call rid params branch)
      (executeAction rt call.ctx rid params branch call.op.skips) := by
    refine posts_executeAction fun zs y _ hrid' hparams' hbranch' => ?_
    simp only [Serves, hop]
    exact ⟨hrid', hparams', hbranch'⟩
  rw [hskips] at hrun
  unfold executeAsyncBackground
  simp only [bind_eq]
  refine Posts.tryCatch ?_ fun zs e hzs => Posts.tryCatch ?_ fun ws e' _ => posts_pure trivial
  · refine hrun.bind fun zs response hzs hresponse => ?_
    refine Posts.bind (posts_line (c := .now) trivial) fun ws completedAt hws _ => ?_
    obtain ⟨y, record, hrecord, -, hrid', hparams', hbranch', hresult⟩ := hresponse hskips
    refine Posts.bind (posts_line ⟨rfl, .delivered ((hzs.trans hws).subset hcreated) rfl hscheduled (hrecord.mono hws)
      ⟨hrid'.trans hrid.symm, hparams'.trans hparams.symm, hbranch'.trans hbranch.symm⟩ rfl hresult⟩) fun _ _ _ _ => ?_
    exact (posts_line (c := .commit) trivial).mono fun _ _ _ _ => trivial
  · refine Posts.bind (posts_line (c := .now) trivial) fun ws completedAt hws _ => ?_
    refine Posts.bind (posts_line ⟨rfl, .failed ((hzs.trans hws).subset hcreated) rfl hscheduled rfl rfl⟩)
      fun _ _ _ _ => ?_
    exact (posts_line (c := .commit) trivial).mono fun _ _ _ _ => trivial

/-- The task that is scheduled with a row of its own. -/
structure Scheduled (call : Call) (rid : String) (params : Assoc Value) (branch : Option String) (zs : Lines)
    (task : BackgroundTask) : Prop where
  row : ∃ z : Execution, ⟨.createExecution z, .ok ()⟩ ∈ zs ∧ z.status = .running ∧ z.capabilityRid = rid ∧
    z.params = params ∧ z.branch = branch ∧ ∃ skip, task = ⟨call.ctx, z.executionId, rid, params, branch, skip⟩

theorem posts_executeActionAsync (hop : call.op = .executeActionAsync rid params branch skip) :
    Posts rt call xs (fun zs r => Scheduled call rid params branch zs r.2)
      (executeActionAsync call.ctx rid params branch skip) := by
  unfold executeActionAsync logStart
  simp only [bind_eq]
  refine Posts.bind (posts_line trivial) fun zs hex _ _ => ?_
  refine Posts.bind (posts_line ⟨rfl, rfl, rfl, .scheduled rfl ⟨skip, hop⟩⟩) fun ws _ _ hws => ?_
  refine Posts.bind (posts_line trivial) fun us _ hus _ => ?_
  refine Posts.bind (posts_line trivial) fun vs startedAt hvs _ => ?_
  subst hws
  have hcreated := (hus.trans hvs).subset (List.mem_append_right zs (List.mem_singleton_self _))
  exact posts_pure ⟨_, hcreated, rfl, rfl, rfl, rfl, skip, rfl⟩

theorem posts_pendingExecution {id : String} :
    Posts rt call xs (fun zs y => Found call id zs y) (pendingExecution call.ctx id) := by
  refine Posts.bind (posts_line trivial) fun zs found _ hzs => ?_
  cases found with
  | none => exact posts_throw _
  | some y =>
    dsimp only
    split
    next hpending =>
      refine posts_pure ⟨?_, hpending⟩
      rw [hzs]
      exact List.mem_append_right _ (List.mem_singleton_self _)
    next => exact posts_throw _

theorem posts_confirmPending {id : String} {y : Execution} (hop : call.op = .confirmExecution id)
    (hfound : Found call id xs y) : Posts rt call xs (fun _ _ => True) (confirmPending rt call.ctx id y) := by
  have hskips : call.op.skips = true := by rw [hop]; rfl
  have hcheck : Posts rt call xs (fun _ _ => True) (checkExpiry call.ctx id y.startedAt) := by
    cases hstarted : y.startedAt with
    | none => exact posts_pure trivial
    | some startedAt =>
      refine Posts.bind (posts_line trivial) fun zs now hzs hclock => ?_
      split
      next hlate =>
        unfold logComplete
        simp only [bind_eq, Prog.bind_assoc]
        refine Posts.bind (posts_line trivial) fun ws _ hws _ => ?_
        subst hclock
        have hread := hws.subset (List.mem_append_right xs (List.mem_singleton_self _))
        refine Posts.bind (posts_line ⟨rfl, .expired hop (hfound.mono (hzs.trans hws)) hstarted hread hlate rfl rfl⟩)
          fun _ _ _ _ => ?_
        exact Posts.bind (posts_line trivial) fun _ _ _ _ => posts_throw _
      next => exact posts_pure trivial
  unfold confirmPending
  simp only [bind_eq]
  refine Posts.bind hcheck fun zs _ hzs _ => ?_
  have hrun : Posts rt call zs (Reported call y.capabilityRid y.params y.branch)
      (executeAction rt call.ctx y.capabilityRid y.params y.branch call.op.skips) := by
    refine posts_executeAction fun ws z hws hrid hparams hbranch => ?_
    simp only [Serves, hop]
    exact ⟨y, hfound.mono (hzs.trans hws), hrid, hparams, hbranch⟩
  rw [hskips] at hrun
  refine hrun.bind fun ws response hws hresponse => ?_
  refine Posts.bind (posts_line trivial) fun us completedAt hus _ => ?_
  refine Posts.bind (posts_line trivial) fun vs confirmedAt hvs _ => ?_
  obtain ⟨z, record, hrecord, hid, hrid, hparams, hbranch, -⟩ := hresponse hskips
  have hlast := hus.trans hvs
  refine Posts.bind (posts_line ⟨rfl, .confirmed hop (hfound.mono ((hzs.trans hws).trans hlast)) (hrecord.mono hlast)
    ⟨hrid, hparams, hbranch⟩ rfl (by rw [hid]; rfl)⟩) fun _ _ _ _ => ?_
  exact Posts.bind (posts_line trivial) fun _ _ _ _ => posts_pure trivial

theorem posts_cancelPending {id : String} {y : Execution} (hop : call.op = .cancelExecution id)
    (hfound : Found call id xs y) : Posts rt call xs (fun _ _ => True) (cancelPending call.ctx id) := by
  unfold cancelPending logComplete
  simp only [bind_eq, Prog.bind_assoc]
  refine Posts.bind (posts_line trivial) fun zs _ hzs _ => ?_
  refine Posts.bind (posts_line ⟨rfl, .cancelled hop (hfound.mono hzs) rfl rfl⟩) fun _ _ _ _ => ?_
  refine Posts.bind (posts_line trivial) fun _ _ _ _ => ?_
  exact Posts.bind (posts_line trivial) fun _ _ _ _ => posts_pure trivial

variable (rt) in
/-- Every call keeps to what its journal admits. -/
theorem posts_service (call : Call) : Posts rt call [] (fun _ _ => True) (service rt call) := by
  obtain ⟨ctx, op⟩ := call
  cases op with
  | executeAction rid params branch skip =>
    exact Posts.bind (posts_executeAction fun zs z _ hrid hparams hbranch => ⟨hrid, hparams, hbranch⟩)
      fun _ _ _ _ => posts_pure trivial
  | executeActionBatch rid batch branch skip =>
    exact Posts.bind (posts_executeActionBatch rfl) fun _ _ _ _ => posts_pure trivial
  | executeActionAsync rid params branch skip =>
    refine Posts.bind (posts_executeActionAsync rfl) fun zs r _ hr => ?_
    obtain ⟨response, task⟩ := r
    obtain ⟨z, hcreated, hscheduled, hrid, hparams, hbranch, skip', rfl⟩ := hr.row
    exact Posts.bind (posts_executeAsyncBackground rfl hcreated hscheduled hrid hparams hbranch)
      fun _ _ _ _ => posts_pure trivial
  | confirmExecution id =>
    have hconfirm : Posts rt ⟨ctx, .confirmExecution id⟩ [] (fun _ _ => True) (confirmExecution rt ctx id) :=
      Posts.bind posts_pendingExecution fun zs y _ hfound => posts_confirmPending rfl hfound
    exact hconfirm.bind fun _ _ _ _ => posts_pure trivial
  | cancelExecution id =>
    have hcancel : Posts rt ⟨ctx, .cancelExecution id⟩ [] (fun _ _ => True) (cancelExecution ctx id) :=
      Posts.bind posts_pendingExecution fun zs y _ hfound => posts_cancelPending rfl hfound
    exact hcancel.bind fun _ _ _ _ => posts_pure trivial
  | executeToolCall name args capabilities =>
    have htool : Posts rt ⟨ctx, .executeToolCall name args capabilities⟩ [] (fun _ _ => True)
        (executeToolCall name args capabilities) := by
      unfold executeToolCall
      split
      · exact posts_pure trivial
      · split
        · exact posts_throw _
        · exact posts_pure trivial
    exact htool.bind fun _ _ _ _ => posts_pure trivial

end Methods

end Lingshu.Function
