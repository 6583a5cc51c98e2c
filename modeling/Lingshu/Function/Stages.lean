import Lingshu.Function.Calls

/-! # The stages of a confirmation

Seen from one execution `id` of tenant `T`, a call that does not concern it spares its row. A confirmation or
cancellation of it first reads the row. If that was pending, a cancellation goes on to write `cancelled`; a
confirmation prepares the run, unless it writes `expired`; it runs the engine and the write-back, records that, and
goes on to write `success`. After its write a call is closed. -/
namespace Lingshu.Function
open Json Data Interaction Interaction.Prog
set_option autoImplicit false

variable (rt : Runtime) (id T : String)

def Call.confirms (call : Call) : Bool := call.op = .confirmExecution id

def Call.cancels (call : Call) : Bool := call.op = .cancelExecution id

def Call.concerns (call : Call) : Bool := call.confirms id || call.cancels id

def Cmd.isInvoke : Cmd → Bool
  | .invoke _ => true
  | _ => false

def Cmd.isCreate : Cmd → Bool
  | .createExecution _ => true
  | _ => false

theorem Cmd.external_of_isCreate {c : Cmd} (h : c.isCreate = true) : c.external = false := by
  cases c <;> first | rfl | cases h

/-- The commands that may raise: those of the other services and the engines. -/
def Cmd.fallible : Cmd → Bool
  | .getObjectType _ _ | .getPropertyTypes _ _ | .getAssetMapping _ _ | .hasConnector _ | .getRow _ _ _ _
  | .insertEditLog _ | .invoke _ | .await _ => true
  | _ => false

/-! ## Outcomes -/

/-- A new execution has another id. -/
def Fresh : (c : Cmd) → Ans c → Prop
  | .createExecution x, _ => x.executionId ≠ id
  | _, _ => True

/-- The outcomes that a command may have. -/
def May (c : Cmd) (r : Except Exc (Ans c)) : Prop :=
  match r with
  | .ok a => Fresh id c a
  | .error _ => c.fallible = true

/-- The commands that leave the row of `id`, once it is there. -/
def Spares : Cmd → Bool
  | .updateStatus executionId _ _ => executionId ≠ id
  | _ => true

/-! ## Stages -/

/-- What a call issues after its last write. -/
def Cmd.idle : Cmd → Bool
  | .now | .commit => true
  | _ => false

/-- What a call issues while it records its run. -/
def Cmd.recording : Cmd → Bool
  | .createExecution _ | .now | .commit => true
  | .updateStatus executionId _ _ => executionId ≠ id
  | _ => false

variable {α : Type}

abbrev Closed (p : Program α) : Prop := Keeps (fun c => c.idle = true) (fun _ _ => True) p

/-- The write that ends a stage. -/
def Settles (status : Status) (c : Cmd) (k : Except Exc (Ans c) → Program α) : Prop :=
  ∃ u, c = .updateStatus id T u ∧ u.status = status ∧ ∀ r, Closed (k r)

def Recording (p : Program α) : Prop :=
  p.Until (fun c => c.recording id = true) (May id) (Settles id T .success) (fun _ => False)

/-- After the start of the engine, up to the record of the run. -/
def Running (p : Program α) : Prop :=
  p.Until (fun c => c.external = true ∧ c.isInvoke = false) (May id)
    (fun c k => c.isCreate = true ∧ Recording id T (.call c k)) (fun r => ∃ e, r = .error e)

/-- Before the start of the engine. -/
def Preparing (p : Program α) : Prop :=
  p.Until (fun c => c.external = true ∧ c.isInvoke = false) (May id)
    (fun c k => (c.isInvoke = true ∧ ∀ r, May id c r → Running id T (k r)) ∨ Settles id T .expired c k)
    (fun r => ∃ e, r = .error e)

def Cancelling (p : Program α) : Prop :=
  p.Until (fun c => c = .now) (May id) (Settles id T .cancelled) (fun _ => False)

/-! ## The programs go through the stages -/

theorem Closed.bind {β : Type} {p : Program α} {f : α → Program β} (hp : Closed p) (hf : ∀ a, Closed (f a)) :
    Closed (p.bind f) := Keeps.bind hp hf

theorem closed_idle {c : Cmd} {f : Ans c → Program α} (hc : c.idle = true) (hf : ∀ a, Closed (f a)) :
    Closed ((perform c).bind f) := Closed.bind (Keeps.perform hc) hf

/-- One command of a stage that cannot raise. -/
theorem until_perform {Stay : Cmd → Prop} {Leave : (c : Cmd) → (Except Exc (Ans c) → Program α) → Prop}
    {Final : Except Exc α → Prop} {c : Cmd} {f : Ans c → Program α} (hc : Stay c) (hsure : c.fallible = false)
    (hok : ∀ a, Fresh id c a → (f a).Until Stay (May id) Leave Final) :
    ((perform c).bind f).Until Stay (May id) Leave Final := by
  refine Until.perform hc hok ?_
  intro e he
  exact absurd he (by simp [May, hsure])

/-- The write that ends a stage, and what follows it. -/
theorem until_settles {Stay : Cmd → Prop} {Leave : (c : Cmd) → (Except Exc (Ans c) → Program α) → Prop}
    {Final : Except Exc α → Prop} {u : StatusUpdate} {f : Unit → Program α}
    (hleave : ∀ k, Settles id T u.status (.updateStatus id T u) k → Leave (.updateStatus id T u) k)
    (hf : ∀ a, Closed (f a)) :
    ((perform (.updateStatus id T u)).bind f).Until Stay (May id) Leave Final := by
  refine .inl (hleave _ ⟨u, rfl, rfl, ?_⟩)
  intro r
  cases r with
  | ok a => exact hf a
  | error e => trivial

theorem recording_recordSuccess (ctx : Ctx) (executionId actionTypeRid : String) (params : Assoc Value)
    (action : ActionDefinition) (branch : Option String) (skipConfirmation : Bool)
    (ran : EngineResult × List Value) {f : ExecutionResponse → Program α} (hf : ∀ r, Recording id T (f r)) :
    Recording id T
      ((recordSuccess ctx executionId actionTypeRid params action branch skipConfirmation ran).bind f) := by
  simp only [recordSuccess, logStart, logComplete, bind_eq, Prog.bind_assoc, pure_eq, Prog.pure_bind]
  refine until_perform id rfl rfl fun _ hnew => ?_
  refine until_perform id rfl rfl fun completedAt _ => ?_
  refine until_perform id (decide_eq_true hnew) rfl fun _ _ => ?_
  refine until_perform id rfl rfl fun _ _ => ?_
  refine until_perform id rfl rfl fun startedAt _ => ?_
  exact until_perform id rfl rfl fun completedAt _ => hf _

/-- A program that reads, or writes back, at the start of a stage without the engine. -/
theorem until_keeps {β : Type} {Leave : (c : Cmd) → (Except Exc (Ans c) → Program α) → Prop}
    {p : Program β} {f : β → Program α}
    (hp : Keeps (fun c => c.external = true ∧ c.isInvoke = false) (Fresh id) p)
    (hf : ∀ b, (f b).Until (fun c => c.external = true ∧ c.isInvoke = false) (May id) Leave
      (fun r => ∃ e, r = .error e)) :
    (p.bind f).Until (fun c => c.external = true ∧ c.isInvoke = false) (May id) Leave
      (fun r => ∃ e, r = .error e) :=
  Meets.until hp (fun _ _ h => h) (fun b _ => hf b) fun e => ⟨e, rfl⟩

theorem running_finishAction (ctx : Ctx) (action : ActionDefinition) (resolved : ResolvedParams)
    (actionTypeRid : String) (branch : Option String) (result : EngineResult)
    {f : EngineResult × List Value → Program α} (hf : ∀ ran, Running id T (f ran)) :
    Running id T ((finishAction rt ctx action resolved actionTypeRid branch result).bind f) := by
  refine until_keeps id (keeps_finishAction rt ?_ _ _ _ _ _ _) hf
  intro c hc
  cases c <;> first | exact ⟨rfl, rfl⟩ | cases hc

theorem preparing_runAction (ctx : Ctx) (action : ActionDefinition) (resolved : ResolvedParams)
    (actionTypeRid : String) (branch : Option String) {f : EngineResult × List Value → Program α}
    (hf : ∀ ran, Running id T (f ran)) :
    Preparing id T ((runAction rt ctx action resolved actionTypeRid branch).bind f) := by
  simp only [runAction, executeEngine, bind_eq, Prog.bind_assoc]
  refine until_keeps id (Keeps.access _) fun execType => ?_
  split
  · simp only [Prog.bind_assoc]
    refine until_keeps id (Keeps.access _) fun config => ?_
    refine .inl (.inl ⟨rfl, ?_⟩)
    rintro (e | handle) -
    · exact ⟨e, rfl⟩
    · refine Until.perform ⟨rfl, rfl⟩ (fun result _ => ?_) fun e _ => ⟨e, rfl⟩
      exact running_finishAction rt id T _ _ _ _ _ _ hf
  · exact ⟨_, rfl⟩

theorem preparing_executeAction (ctx : Ctx) (actionTypeRid : String) (params : Assoc Value)
    (branch : Option String) {f : ExecutionResponse → Program α} (hf : ∀ r, Recording id T (f r)) :
    Preparing id T ((executeAction rt ctx actionTypeRid params branch true).bind f) := by
  have hreads : ∀ c : Cmd, c.reads = true → c.external = true ∧ c.isInvoke = false := by
    intro c hc
    cases c <;> first | exact ⟨rfl, rfl⟩ | cases hc
  have hgate : ∀ (a b c : Value) (g : SafetyDecision → Program α),
      (access (check a b c true)).bind g = g { requiresConfirmation := false } := fun _ _ _ _ => rfl
  simp only [executeAction, bind_eq, Prog.bind_assoc, hgate, Bool.false_eq_true, if_false]
  refine until_perform id ⟨rfl, rfl⟩ rfl fun hex _ => ?_
  refine until_keeps id (keeps_load hreads _ _) fun action => ?_
  refine until_keeps id (keeps_resolve rt hreads _ _ _) fun resolved => ?_
  refine preparing_runAction rt id T _ _ _ _ _ fun ran => ?_
  exact .inl ⟨rfl, recording_recordSuccess id T _ _ _ _ _ _ _ _ hf⟩

theorem preparing_confirmPending {ctx : Ctx} (hT : ctx.tenantId = T) (x : Execution)
    {f : ExecutionResponse → Program α} (hf : ∀ r, Closed (f r)) :
    Preparing id T ((confirmPending rt ctx id x).bind f) := by
  subst hT
  have hrun : Preparing id ctx.tenantId
      ((executeAction rt ctx x.capabilityRid x.params x.branch true).bind fun r =>
        (perform .now).bind fun completedAt => (perform .now).bind fun confirmedAt =>
          (perform (.updateStatus id ctx.tenantId
            { status := .success, result := some (.dict [("delegated_to", .str r.executionId)]),
              completedAt := some completedAt, confirmedAt := some confirmedAt,
              confirmedBy := some "user" })).bind
            fun _ => (perform .commit).bind fun _ => f r) := by
    refine preparing_executeAction rt id ctx.tenantId _ _ _ _ fun r => ?_
    refine until_perform id rfl rfl fun completedAt _ => ?_
    refine until_perform id rfl rfl fun confirmedAt _ => ?_
    exact until_settles id ctx.tenantId (fun _ h => h) fun _ => closed_idle rfl fun _ => hf r
  simp only [confirmPending, bind_eq, Prog.bind_assoc, pure_eq, Prog.pure_bind]
  cases x.startedAt with
  | none => exact hrun
  | some startedAt =>
    simp only [checkExpiry, bind_eq, Prog.bind_assoc]
    refine until_perform id ⟨rfl, rfl⟩ rfl fun now _ => ?_
    split
    · simp only [logComplete, bind_eq, Prog.bind_assoc]
      refine until_perform id ⟨rfl, rfl⟩ rfl fun completedAt _ => ?_
      exact until_settles id ctx.tenantId (fun _ h => .inr h) fun _ => closed_idle rfl fun _ => trivial
    · exact hrun

theorem cancelling_cancelPending {ctx : Ctx} (hT : ctx.tenantId = T) {f : ExecutionResponse → Program α}
    (hf : ∀ r, Closed (f r)) : Cancelling id T ((cancelPending ctx id).bind f) := by
  subst hT
  simp only [cancelPending, logComplete, bind_eq, Prog.bind_assoc, pure_eq, Prog.pure_bind]
  refine until_perform id rfl rfl fun completedAt _ => ?_
  refine until_settles id ctx.tenantId (fun _ h => h) fun _ => ?_
  exact closed_idle rfl fun _ => closed_idle rfl fun _ => hf _

/-! ## Other calls -/

theorem spares_perform {c : Cmd} (h : Spares id c = true) :
    Keeps (fun c => Spares id c = true) (Fresh id) (perform c) := Keeps.perform h

/-- A row that a call has created is its own. -/
theorem meets_logStart (ctx : Ctx) (executionId capabilityRid : String) (status : Status) (params : Assoc Value)
    (safetyLevel sideEffects : Value) (branch : Option String) :
    (logStart ctx executionId capabilityRid status params safetyLevel sideEffects branch).Meets
      (fun c => Spares id c = true) (Fresh id) (fun _ => executionId ≠ id) :=
  ⟨rfl, fun _ hnew => hnew, fun _ => trivial⟩

theorem spares_executeAction (ctx : Ctx) (actionTypeRid : String) (params : Assoc Value) (branch : Option String)
    (skipConfirmation : Bool) :
    Keeps (fun c => Spares id c = true) (Fresh id)
      (executeAction rt ctx actionTypeRid params branch skipConfirmation) := by
  have hext : ∀ c : Cmd, c.external = true → Spares id c = true := by
    intro c hc
    cases c <;> first | rfl | cases hc
  have hreads : ∀ c : Cmd, c.reads = true → Spares id c = true := fun c hc => hext c (Cmd.external_of_reads hc)
  refine Keeps.bind (Keeps.perform rfl) fun hex => ?_
  refine Keeps.bind (keeps_load hreads _ _) fun action => ?_
  refine Keeps.bind (keeps_resolve rt hreads _ _ _) fun resolved => ?_
  refine Keeps.bind (Keeps.access _) fun decision => ?_
  split
  · refine Prog.Meets.bind (meets_logStart id _ _ _ _ _ _ _ _) fun _ _ => ?_
    refine Keeps.bind (Keeps.perform rfl) fun _ => ?_
    exact Keeps.bind (Keeps.perform rfl) fun _ => trivial
  · refine Keeps.bind (keeps_runAction rt hext _ _ _ _ _) fun ran => ?_
    -- The row that is updated is the one just created.
    refine Prog.Meets.bind (meets_logStart id _ _ _ _ _ _ _ _) fun _ hnew => ?_
    refine Keeps.bind (Keeps.bind (Keeps.perform rfl) fun completedAt => Keeps.perform (decide_eq_true hnew))
      fun _ => ?_
    refine Keeps.bind (Keeps.perform rfl) fun _ => ?_
    refine Keeps.bind (Keeps.perform rfl) fun startedAt => ?_
    exact Keeps.bind (Keeps.perform rfl) fun completedAt => trivial

theorem spares_pendingExecution {ctx : Ctx} {executionId : String} :
    Keeps (fun c => Spares id c = true) (Fresh id) (pendingExecution ctx executionId) := by
  refine Keeps.bind (Keeps.perform rfl) fun x => ?_
  cases x with
  | none => trivial
  | some x =>
    show Keeps _ _ (if x.status = .pendingConfirmation then Prog.pure x else _)
    split <;> trivial

/-- A write to another row, and the reading of the clock before it. -/
theorem spares_logComplete (ctx : Ctx) {executionId : String} (h : executionId ≠ id) (status : Status)
    (result : Option Value) (confirmedBy : Option String) :
    Keeps (fun c => Spares id c = true) (Fresh id) (logComplete ctx executionId status result confirmedBy) :=
  Keeps.bind (Keeps.perform rfl) fun _ => Keeps.perform (decide_eq_true h)

theorem spares_confirmExecution (ctx : Ctx) {executionId : String} (h : executionId ≠ id) :
    Keeps (fun c => Spares id c = true) (Fresh id) (confirmExecution rt ctx executionId) := by
  refine Keeps.bind (spares_pendingExecution id) fun x => ?_
  have hexpiry : Keeps (fun c => Spares id c = true) (Fresh id) (checkExpiry ctx executionId x.startedAt) := by
    cases x.startedAt with
    | none => trivial
    | some startedAt =>
      refine Keeps.bind (Keeps.perform rfl) fun now => ?_
      split
      · refine Keeps.bind (spares_logComplete id ctx h _ _ _) fun _ => ?_
        exact Keeps.bind (Keeps.perform rfl) fun _ => trivial
      · trivial
  refine Keeps.bind hexpiry fun _ => ?_
  refine Keeps.bind (spares_executeAction rt id _ _ _ _ _) fun r => ?_
  refine Keeps.bind (Keeps.perform rfl) fun completedAt => ?_
  refine Keeps.bind (Keeps.perform rfl) fun confirmedAt => ?_
  refine Keeps.bind (Keeps.perform (decide_eq_true h)) fun _ => ?_
  exact Keeps.bind (Keeps.perform rfl) fun _ => trivial

theorem spares_cancelExecution (ctx : Ctx) {executionId : String} (h : executionId ≠ id) :
    Keeps (fun c => Spares id c = true) (Fresh id) (cancelExecution ctx executionId) := by
  refine Keeps.bind (spares_pendingExecution id) fun x => ?_
  refine Keeps.bind (spares_logComplete id ctx h _ _ _) fun _ => ?_
  refine Keeps.bind (Keeps.perform rfl) fun _ => ?_
  exact Keeps.bind (Keeps.perform rfl) fun _ => trivial

theorem spares_executeAsyncBackground {task : BackgroundTask} (h : task.executionId ≠ id) :
    Keeps (fun c => Spares id c = true) (Fresh id) (executeAsyncBackground rt task) := by
  refine Prog.Meets.tryCatch ?_ fun e => Prog.Meets.tryCatch ?_ fun _ => trivial
  · refine Keeps.bind (spares_executeAction rt id _ _ _ _ _) fun r => ?_
    refine Keeps.bind (Keeps.perform rfl) fun completedAt => ?_
    refine Keeps.bind (Keeps.perform (decide_eq_true h)) fun _ => ?_
    exact Keeps.perform rfl
  · refine Keeps.bind (Keeps.perform rfl) fun completedAt => ?_
    refine Keeps.bind (Keeps.perform (decide_eq_true h)) fun _ => ?_
    exact Keeps.perform rfl

/-- A call that does not concern the execution spares its row. -/
theorem spares_service {call : Call} (h : call.concerns id = false) :
    Keeps (fun c => Spares id c = true) (Fresh id) (service rt call) := by
  obtain ⟨ctx, op⟩ := call
  cases op with
  | executeAction rid params branch skip =>
    exact Keeps.bind (spares_executeAction rt id _ _ _ _ _) fun _ => trivial
  | executeActionBatch rid batch branch skip =>
    refine Keeps.bind (Keeps.forEach fun response params => ?_) fun _ => trivial
    refine Keeps.bind (Prog.Meets.tryCatch ?_ fun e => ?_) fun item => trivial
    · exact Keeps.bind (spares_executeAction rt id _ _ _ _ _) fun r => trivial
    · cases e <;> trivial
  | executeActionAsync rid params branch skip =>
    have hasync : (executeActionAsync ctx rid params branch skip).Meets (fun c => Spares id c = true) (Fresh id)
        (fun r => r.2.executionId ≠ id) := by
      refine Prog.Meets.bind (spares_perform id rfl) fun hex _ => ?_
      refine Prog.Meets.bind (meets_logStart id _ _ _ _ _ _ _ _) fun _ hnew => ?_
      refine Prog.Meets.bind (spares_perform id rfl) fun _ _ => ?_
      exact Prog.Meets.bind (spares_perform id rfl) fun _ _ => hnew
    refine Prog.Meets.bind hasync fun r hr => ?_
    exact Keeps.bind (spares_executeAsyncBackground rt id hr) fun _ => trivial
  | confirmExecution executionId =>
    have hne : executionId ≠ id := by
      rintro rfl
      simp [Call.concerns, Call.confirms] at h
    exact Keeps.bind (spares_confirmExecution rt id ctx hne) fun _ => trivial
  | cancelExecution executionId =>
    have hne : executionId ≠ id := by
      rintro rfl
      simp [Call.concerns, Call.cancels] at h
    exact Keeps.bind (spares_cancelExecution id ctx hne) fun _ => trivial
  | executeToolCall name args capabilities =>
    show Keeps _ _ ((executeToolCall name args capabilities).bind fun a => Prog.pure (Reply.tool a))
    unfold executeToolCall
    split
    · trivial
    · split <;> trivial

end Lingshu.Function
