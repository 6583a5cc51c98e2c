import Lingshu.Function.Requests

/-! # The safety gate

An action whose safety level asks for confirmation, on the entry paths without one. `execute_action`, a batch and
a tool call of the agent reach neither an engine nor the edit log. A background execution does, unless the action
cannot be run at all: `_execute_async_background` passes on `skip_confirmation=True`. -/
namespace Lingshu.Function
open Json Data Interaction Interaction.Prog
set_option autoImplicit false

variable (rt : Runtime)

/-! ## What the gate is about -/

/-- The safety level of the action is not one of those that run directly. -/
def guarded (node : Assoc Value) : Bool :=
  (node.lookup "safety_level").getD (.str "SAFETY_READ_ONLY") ∉ directExecuteLevels

/-- The entry paths on which no user has confirmed. -/
def Call.unconfirmed (κ : Call) : Bool :=
  match κ.op with
  | .executeAction _ _ _ skip | .executeActionBatch _ _ _ skip | .executeActionAsync _ _ _ skip => !skip
  | .executeToolCall _ _ _ => true
  | .confirmExecution _ | .cancelExecution _ => false

/-- What may not happen before a confirmation. -/
def Cmd.acts : Cmd → Bool
  | .invoke _ | .insertEditLog _ => true
  | _ => false

/-- The ontology has this node for the action. -/
def Defines (node : Assoc Value) : (c : Cmd) → Ans c → Prop
  | .getObjectType _ _, answer => answer = some node
  | _, _ => True

/-- Whatever the other answers are, and whatever fails, the call starts no engine and writes no entry. -/
def Gated (node : Assoc Value) (κ : Call) : Prop :=
  Keeps (fun c => c.acts = false) (Defines node) (service rt κ)

/-! ## Actions that can run -/

def acceptsAll (paramDefs : Value) (rawParams : Assoc Value) : Bool :=
  match paramDefs.elems with
  | .ok defs => defs.all (accepts rawParams)
  | .error _ => false

def hasEngine (execution : Value) : Bool :=
  match execution.get "type" (.str "native_crud") with
  | .ok execType => (EngineType.ofValue execType).isSome
  | .error _ => false

/-- Nothing in the definition or the parameters keeps the action from its engine. -/
def runnable (actionTypeRid : String) (node params : Assoc Value) : Bool :=
  match definitionOf actionTypeRid node with
  | .ok action => acceptsAll action.parameters params && hasEngine action.execution
  | .error _ => false

theorem acceptsAll_iff {paramDefs : Value} {rawParams : Assoc Value} : acceptsAll paramDefs rawParams = true ↔
    ∃ defs, paramDefs.elems = .ok defs ∧ ∀ d ∈ defs, accepts rawParams d = true := by
  unfold acceptsAll
  cases paramDefs.elems <;> simp

/-! ## The gate closes -/

variable {node : Assoc Value}

theorem quiet_of_reads {c : Cmd} (h : c.reads = true) : c.acts = false := by
  cases c <;> first | rfl | cases h

theorem safetyLevel_of_definitionOf {rid : String} {action : ActionDefinition}
    (h : definitionOf rid node = .ok action) :
    action.safetyLevel = (node.lookup "safety_level").getD (.str "SAFETY_READ_ONLY") := by
  obtain ⟨outputs, -, h⟩ := ok_of_bind h
  cases h
  rfl

theorem meets_access {Pre : Cmd → Prop} {Post : (c : Cmd) → Ans c → Prop} {α : Type} (r : Except AccessError α) :
    (access r).Meets Pre Post (fun a => r = .ok a) := by
  cases r with
  | error e => trivial
  | ok a => exact rfl

theorem meets_load {Pre : Cmd → Prop} (hread : ∀ c : Cmd, c.reads = true → Pre c) (ctx : Ctx) (rid : String) :
    (load ctx rid).Meets Pre (Defines node) (fun action => definitionOf rid node = .ok action) := by
  refine Prog.Meets.bind (Prog.Meets.perform (hread _ rfl)) fun answer hanswer => ?_
  obtain rfl : answer = some node := hanswer
  cases node with
  | nil => trivial
  | cons e es => exact meets_access _

/-- Without a confirmation to skip, a level that does not run directly asks for one. -/
theorem check_requires {safetyLevel outputs sideEffects : Value} {decision : SafetyDecision}
    (hlevel : safetyLevel ∉ directExecuteLevels) (h : check safetyLevel outputs sideEffects false = .ok decision) :
    decision.requiresConfirmation = true := by
  obtain ⟨key, -, h⟩ := ok_of_bind (show (safetyLevel.key >>= fun _ => _) = .ok decision from h)
  rw [if_neg hlevel] at h
  obtain ⟨items, -, h⟩ := ok_of_bind h
  obtain ⟨affected, -, h⟩ := ok_of_bind h
  cases h
  rfl

theorem gated_executeAction (hguarded : guarded node = true) (ctx : Ctx) (rid : String) (params : Assoc Value)
    (branch : Option String) :
    Keeps (fun c => c.acts = false) (Defines node) (executeAction rt ctx rid params branch false) := by
  refine Keeps.bind (Keeps.perform rfl) fun hex => ?_
  refine Prog.Meets.bind (meets_load (fun _ => quiet_of_reads) ctx rid) fun action haction => ?_
  refine Keeps.bind (keeps_resolve rt (fun _ => quiet_of_reads) _ _ _) fun resolved => ?_
  refine Prog.Meets.bind (meets_access _) fun decision hdecision => ?_
  have hlevel : action.safetyLevel ∉ directExecuteLevels := by
    rw [safetyLevel_of_definitionOf haction]
    exact of_decide_eq_true hguarded
  rw [if_pos (check_requires hlevel hdecision)]
  refine Keeps.bind (Keeps.perform rfl) fun _ => ?_
  refine Keeps.bind (Keeps.perform rfl) fun _ => ?_
  exact Keeps.bind (Keeps.perform rfl) fun _ => trivial

theorem gated_executeItem (hguarded : guarded node = true) (ctx : Ctx) (rid : String) (branch : Option String)
    (index : ℕ) (params : Assoc Value) :
    Keeps (fun c => c.acts = false) (Defines node) (executeItem rt ctx rid branch false index params) := by
  refine Prog.Meets.tryCatch (Keeps.bind (gated_executeAction rt hguarded _ _ _ _) fun r => trivial) fun e => ?_
  cases e <;> trivial

theorem gated_executeActionBatch (hguarded : guarded node = true) (ctx : Ctx) (rid : String)
    (batch : List (Assoc Value)) (branch : Option String) :
    Keeps (fun c => c.acts = false) (Defines node) (executeActionBatch rt ctx rid batch branch false) :=
  Keeps.forEach fun _ _ => Keeps.bind (gated_executeItem rt hguarded _ _ _ _ _) fun _ => trivial

/-! ## The background task -/

/-- An execution that cannot get to its engine does not return. -/
theorem stuck_executeAction (ctx : Ctx) {rid : String} {params : Assoc Value} (branch : Option String)
    (hnot : runnable rid node params = false) :
    (executeAction rt ctx rid params branch true).Meets (fun c => c.acts = false) (Defines node)
      (fun _ => False) := by
  refine Keeps.andThen (Keeps.perform rfl) fun hex => ?_
  refine Prog.Meets.bind (meets_load (fun _ => quiet_of_reads) _ _) fun action haction => ?_
  simp only [runnable, haction, Bool.and_eq_false_iff] at hnot
  by_cases haccepts : acceptsAll action.parameters params = true
  · have hengine : hasEngine action.execution = false := hnot.resolve_left (by simp [haccepts])
    refine (keeps_resolve rt (fun _ => quiet_of_reads) _ _ _).andThen fun resolved => ?_
    show Prog.Meets _ _ _ ((runAction rt ctx action resolved rid branch).bind _)
    refine stuck_bind (stuck_bind ?_)
    refine Prog.Meets.bind (meets_access _) fun execType htype => ?_
    simp only [hasEngine, htype, Option.isSome_eq_false_iff, Option.isNone_iff_eq_none] at hengine
    rw [hengine]
    trivial
  · rw [acceptsAll_iff] at haccepts
    exact stuck_bind (stuck_resolve rt (fun _ => quiet_of_reads) _ haccepts)

theorem gated_executeAsyncBackground (task : BackgroundTask)
    (hnot : runnable task.actionTypeRid node task.params = false) :
    Keeps (fun c => c.acts = false) (Defines node) (executeAsyncBackground rt task) := by
  refine Prog.Meets.tryCatch (stuck_bind (stuck_executeAction rt task.ctx task.branch hnot)) fun e => ?_
  refine Prog.Meets.tryCatch ?_ fun _ => trivial
  exact Keeps.bind (Keeps.perform rfl) fun _ => Keeps.bind (Keeps.perform rfl) fun _ => Keeps.perform rfl

/-- The answer to the request, and the task with its arguments. -/
theorem meets_executeActionAsync (ctx : Ctx) (rid : String) (params : Assoc Value) (branch : Option String)
    (skip : Bool) : (executeActionAsync ctx rid params branch skip).Meets (fun c => c.acts = false) (Defines node)
      (fun r => r.2.actionTypeRid = rid ∧ r.2.params = params) := by
  refine Keeps.andThen (Keeps.perform rfl) fun hex => ?_
  refine Keeps.andThen (Keeps.perform rfl) fun _ => ?_
  refine Keeps.andThen (Keeps.perform rfl) fun _ => ?_
  exact Keeps.andThen (Keeps.perform rfl) fun startedAt => ⟨rfl, rfl⟩

/-- An execution that skips the confirmation gets to its engine. -/
theorem runs_executeAction (hguarded : guarded node = true) (ctx : Ctx) (rid : String) (params : Assoc Value)
    (branch : Option String) (hrun : runnable rid node params = true) :
    ¬Keeps (fun c => c.acts = false) (Defines node) (executeAction rt ctx rid params branch true) := by
  intro h
  unfold runnable at hrun
  cases haction : definitionOf rid node with
  | error e =>
    rw [haction] at hrun
    cases hrun
  | ok action =>
    simp only [haction, Bool.and_eq_true] at hrun
    obtain ⟨hparams, hengine⟩ := hrun
    obtain ⟨defs, hdefs, hall⟩ := acceptsAll_iff.mp hparams
    have hdata : ∀ c : Cmd, c.data = true → ∀ a, Defines node c a := by
      intro c hc a
      cases c <;> first | (cases hc; done) | trivial
    obtain ⟨resolved, hresolved⟩ := resolve_yields rt hdata ctx hdefs hall
    have hload : (load ctx rid).Yields (Defines node) action := by
      refine Yields.bind (Yields.perform (show Defines node (.getObjectType rid ctx.tenantId) (some node) from rfl)) ?_
      cases node with
      | nil => cases hguarded
      | cons e es => exact yields_access.mpr haction
    have h := h.after (Yields.perform (x := "") trivial)
    have h := (h.after hload).after hresolved
    have h := h.after (yields_access.mpr rfl)
    have h : Keeps (fun c => c.acts = false) (Defines node)
        (executeEngine rt action.execution resolved.values resolved.instances) := h.left.left
    unfold hasEngine at hengine
    cases htype : action.execution.get "type" (.str "native_crud") with
    | error e =>
      rw [htype] at hengine
      cases hengine
    | ok execType =>
      rw [htype] at hengine
      obtain ⟨t, ht⟩ := Option.isSome_iff_exists.mp hengine
      have h := h.after (yields_access.mpr htype)
      rw [ht] at h
      cases hdict : action.execution with
      | dict entries =>
        have h := h.after (yields_access.mpr (show action.execution.get t.configKey (.dict []) = .ok _ by
          rw [hdict]
          rfl))
        cases h.1
      | _ => simp [hdict, Value.get] at htype

/-- A call without a confirmation is gated, unless it is a background execution of an action that can run. -/
theorem gated_iff (rt : Runtime) (node : Assoc Value) (κ : Call) (hguarded : guarded node = true)
    (hunconfirmed : κ.unconfirmed = true) :
    Gated rt node κ ↔ ∀ rid params branch skip, κ.op = .executeActionAsync rid params branch skip →
      runnable rid node params = false := by
  obtain ⟨ctx, op⟩ := κ
  cases op with
  | executeAction rid params branch skip =>
    obtain rfl : skip = false := by simpa [Call.unconfirmed] using hunconfirmed
    refine ⟨fun _ => by rintro _ _ _ _ ⟨⟩, fun _ => ?_⟩
    exact Keeps.bind (gated_executeAction rt hguarded ctx rid params branch) fun _ => trivial
  | executeActionBatch rid batch branch skip =>
    obtain rfl : skip = false := by simpa [Call.unconfirmed] using hunconfirmed
    refine ⟨fun _ => by rintro _ _ _ _ ⟨⟩, fun _ => ?_⟩
    exact Keeps.bind (gated_executeActionBatch rt hguarded ctx rid batch branch) fun _ => trivial
  | executeToolCall name args capabilities =>
    refine ⟨fun _ => by rintro _ _ _ _ ⟨⟩, fun _ => Keeps.bind ?_ fun _ => trivial⟩
    unfold executeToolCall
    split
    · trivial
    · split <;> trivial
  | confirmExecution id => cases hunconfirmed
  | cancelExecution id => cases hunconfirmed
  | executeActionAsync rid params branch skip =>
    constructor
    · rintro h rid' params' branch' skip' ⟨⟩
      refine Bool.eq_false_iff.mpr fun hrun => ?_
      have hforeground : ∀ hex startedAt, (executeActionAsync ctx rid params branch skip).Yields (Defines node)
          ({ executionId := executionIdOf hex, status := .running, startedAt := some startedAt },
            ⟨ctx, executionIdOf hex, rid, params, branch, skip⟩) := by
        intro hex startedAt
        refine Yields.bind (Yields.perform (x := hex) trivial) ?_
        refine Yields.bind (Yields.perform (x := ()) trivial) ?_
        refine Yields.bind (Yields.perform (x := ()) trivial) ?_
        exact Yields.bind (Yields.perform (x := startedAt) trivial) (.pure _)
      have hbackground := (Prog.Meets.after h (hforeground "" 0)).left
      exact runs_executeAction rt hguarded ctx rid params branch hrun hbackground.of_tryCatch.left
    · intro h
      refine Prog.Meets.bind (meets_executeActionAsync ctx rid params branch skip) fun r hr => ?_
      obtain ⟨response, task⟩ := r
      obtain ⟨hrid, hparams⟩ := hr
      refine Keeps.bind (gated_executeAsyncBackground rt task ?_) fun _ => trivial
      rw [hrid, hparams]
      exact h rid params branch skip rfl

/-- A batch of two requests for an action that asks for confirmation. -/
theorem gated_iff_batch :
    Gated .plain criticalAction ⟨⟨"t", "u"⟩, .executeActionBatch "ri.action.1" [[], []] none false⟩ ↔
      ∀ rid params branch skip, Op.executeActionBatch "ri.action.1" [[], []] none false =
        .executeActionAsync rid params branch skip → runnable rid criticalAction params = false :=
  gated_iff .plain criticalAction ⟨⟨"t", "u"⟩, .executeActionBatch "ri.action.1" [[], []] none false⟩
    (by decide) rfl

/-- A background execution of it, asked for without a confirmation. -/
def backgroundRequest : Call := ⟨⟨"t", "u"⟩, .executeActionAsync "ri.action.1" [] none false⟩

theorem not_gated_backgroundRequest :
    guarded criticalAction = true ∧ backgroundRequest.unconfirmed = true ∧
      ¬Gated .plain criticalAction backgroundRequest := by
  refine ⟨by decide, rfl, fun h => ?_⟩
  have hlogged := ((h.2.1 "" trivial).2.1 () trivial).2.1 () trivial
  have hloaded := ((hlogged.2.1 0 trivial).2.1 "" trivial).2.1 (some criticalAction) rfl
  cases hloaded.1

end Lingshu.Function
