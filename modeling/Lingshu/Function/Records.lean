import Lingshu.Function.Stages
import Lingshu.Function.WriteBack

/-! # What a call leaves recorded

`execute_action` logs the execution after the write-back, and `write_editlog` commits each entry by itself: a step that
fails behind the first entry leaves it without a record of the execution. A call that writes nothing back is safe from
this, and so is one that returns. -/
namespace Lingshu.Function
open Json Data Interaction Interaction.Prog
set_option autoImplicit false

variable (rt : Runtime)

/-! ## Before and after the engine -/

/-- Where a call is when the engine has run, or will not. -/
inductive Stage where
  | asks (executionId : String) (action : ActionDefinition) (decision : SafetyDecision)
  | ran (executionId : String) (action : ActionDefinition) (resolved : ResolvedParams) (result : EngineResult)

/-- Stages 1 to 4. -/
def untilEngine (ctx : Ctx) (actionTypeRid : String) (params : Assoc Value) (skipConfirmation : Bool) :
    Program Stage := do
  let executionId := executionIdOf (← perform .uuid4)
  let action ← load ctx actionTypeRid
  let resolved ← resolve rt ctx action.parameters params
  let decision ← access (check action.safetyLevel action.outputs action.sideEffects skipConfirmation)
  if decision.requiresConfirmation then return .asks executionId action decision
  else
    let result ← executeEngine rt action.execution resolved.values resolved.instances
    return .ran executionId action resolved result

/-- The request for a confirmation, or stages 4.5 and 5. -/
def afterEngine (ctx : Ctx) (actionTypeRid : String) (params : Assoc Value) (branch : Option String)
    (skipConfirmation : Bool) : Stage → Program ExecutionResponse
  | .asks executionId action decision => do
    logStart ctx executionId actionTypeRid .pendingConfirmation params action.safetyLevel action.sideEffects branch
    perform .commit
    let startedAt ← perform .now
    return { executionId, status := .pendingConfirmation, startedAt := some startedAt,
             confirmation := some (confirmationOf executionId action decision) }
  | .ran executionId action resolved result => do
    let ran ← finishAction rt ctx action resolved actionTypeRid branch result
    recordSuccess ctx executionId actionTypeRid params action branch skipConfirmation ran

theorem executeAction_eq (ctx : Ctx) (actionTypeRid : String) (params : Assoc Value) (branch : Option String)
    (skipConfirmation : Bool) :
    executeAction rt ctx actionTypeRid params branch skipConfirmation =
      (untilEngine rt ctx actionTypeRid params skipConfirmation).bind
        (afterEngine rt ctx actionTypeRid params branch skipConfirmation) := by
  simp only [executeAction, untilEngine, bind_eq, Prog.bind_assoc]
  refine congrArg (Prog.bind _) (funext fun hex => ?_)
  refine congrArg (Prog.bind _) (funext fun action => ?_)
  refine congrArg (Prog.bind _) (funext fun resolved => ?_)
  refine congrArg (Prog.bind _) (funext fun decision => ?_)
  split
  · rfl
  · simp only [runAction, bind_eq, Prog.bind_assoc]
    rfl

/-- The first stages read, and use the engine. -/
def Cmd.prepares : Cmd → Bool
  | .uuid4 | .invoke _ | .await _ => true
  | c => c.reads

theorem keeps_untilEngine {Pre : Cmd → Prop} {Post : (c : Cmd) → Ans c → Prop}
    (hprepare : ∀ c : Cmd, c.prepares = true → Pre c) (ctx : Ctx) (actionTypeRid : String) (params : Assoc Value)
    (skipConfirmation : Bool) : Keeps Pre Post (untilEngine rt ctx actionTypeRid params skipConfirmation) := by
  have hread : ∀ c : Cmd, c.reads = true → Pre c := fun c hc => hprepare c (by cases c <;> first | rfl | cases hc)
  refine Keeps.bind (Keeps.perform (hprepare _ rfl)) fun hex => ?_
  refine Keeps.bind (keeps_load hread _ _) fun action => ?_
  refine Keeps.bind (keeps_resolve rt hread _ _ _) fun resolved => ?_
  refine Keeps.bind (Keeps.access _) fun decision => ?_
  split
  · trivial
  · refine Keeps.bind (Keeps.bind (Keeps.access _) fun execType => ?_) fun result => trivial
    split
    · refine Keeps.bind (Keeps.access _) fun config => ?_
      exact Keeps.bind (Keeps.perform (hprepare _ rfl)) fun handle => Keeps.perform (hprepare _ rfl)
    · trivial

theorem entry_of_prepares (c : Cmd) (h : c.prepares = true) : c.entry = none := by
  cases c <;> first | rfl | cases h

/-! ## The session -/

/-- A row that a call has added. -/
inductive Record where
  | entry (entry : EditLogEntry)
  | execution (executionId : String)
  deriving DecidableEq

/-- The session of a call: what it has added since its last commit, and what it has committed. -/
structure Tx (World : Type) where
  state : State World
  pending : List Record
  stored : List Record

variable {World : Type}

/-- An insert is accepted; that it fails is one of the faults. -/
def session (env : Env World) : Handler Cmd Ans Exc (Tx World)
  | .insertEditLog entry, t =>
    (.ok (), ⟨(exec env (.insertEditLog entry) t.state).2, t.pending ++ [.entry entry], t.stored⟩)
  | .createExecution x, t =>
    match exec env (.createExecution x) t.state with
    | (.ok _, s) => (.ok (), ⟨s, t.pending ++ [.execution x.executionId], t.stored⟩)
    | (.error e, s) => (.error e, ⟨s, t.pending, t.stored⟩)
  | .commit, t => (.ok (), ⟨t.state, [], t.stored ++ t.pending⟩)
  | c, t => ((exec env c t.state).1, ⟨(exec env c t.state).2, t.pending, t.stored⟩)

/-- `get_session`: what is left is committed when the call returns, and rolled back when it raises. -/
def Tx.persisted {α : Type} (t : Tx World) : Except Exc α → List Record
  | .ok _ => t.stored ++ t.pending
  | .error _ => t.stored

/-- A call that raises leaves no entry, and no entry is left without an execution. -/
structure Recorded (r : Except Exc ExecutionResponse) (t : Tx World) : Prop where
  raised : ∀ e, r = .error e → ∀ entry, .entry entry ∉ t.persisted r
  logged : ∀ entry, .entry entry ∈ t.persisted r → ∃ executionId, .execution executionId ∈ t.persisted r

/-! ## Calls without entries -/

def Tx.NoEntry (t : Tx World) : Prop := ∀ entry, .entry entry ∉ t.stored ++ t.pending

theorem Tx.NoEntry.recorded {t : Tx World} (h : t.NoEntry) (r : Except Exc ExecutionResponse) : Recorded r t := by
  have hnone : ∀ entry, .entry entry ∉ t.persisted r := fun entry hmem => h entry <| by
    cases r with
    | ok a => exact hmem
    | error e => exact List.mem_append_left _ hmem
  exact ⟨fun _ _ => hnone, fun entry hmem => absurd hmem (hnone entry)⟩

variable (env : Env World)

theorem noEntry_session : Sound (session env) (fun c => c.entry = none) (fun _ _ => True) (fun _ _ => True)
    Tx.NoEntry := by
  intro c t ht hc _
  refine ⟨?_, fun _ _ => trivial⟩
  cases c with
  | insertEditLog entry => cases hc
  | createExecution x =>
    simp only [session]
    split
    · intro entry hmem
      rw [← List.append_assoc] at hmem
      exact ht entry ((List.mem_append.mp hmem).resolve_right (by simp))
    · exact ht
  | commit => exact fun entry hmem => ht entry (by simpa [session] using hmem)
  | _ => exact ht

section NoWrites
variable {ctx : Ctx} {result : EngineResult} {instances : Assoc Row} {actionTypeRid : String} {branch : Option String}
variable {Post : (c : Cmd) → Ans c → Prop}

theorem keeps_forEach_nil {outputs : List Value} (results : List Value) (h : writes result instances outputs = []) :
    Keeps (fun c => c.entry = none) Post
      (forEach outputs results (writeBack rt ctx result instances actionTypeRid branch)) := by
  induction outputs generalizing results with
  | nil => trivial
  | cons output outputs ih =>
    show Keeps _ _ ((writeBack rt ctx result instances actionTypeRid branch results output).bind _)
    rw [writeBack_eq]
    unfold writes at h
    cases hplan : plannedWrite result instances output with
    | error e => trivial
    | ok planned =>
      rw [hplan] at h
      cases planned with
      | none => exact ih _ h
      | some w =>
        have hvalid : w.operation ∉ editOperations := fun hvalid => by simp [hvalid] at h
        have hsend : (sendWrite rt ctx actionTypeRid branch results w).Meets (fun c => c.entry = none) Post
            (fun _ => False) := by
          simp only [sendWrite, writeEditlog, bind_eq, Prog.bind_assoc, dif_neg hvalid, throw_bind]
          exact Prog.Meets.bind (Keeps.perform rfl) fun entryId _ =>
            Prog.Meets.bind (Keeps.perform rfl) fun createdAt _ => trivial
        exact Prog.Meets.bind hsend fun _ hnever => hnever.elim

theorem keeps_recordSuccess {executionId : String} {params : Assoc Value} {action : ActionDefinition}
    {skipConfirmation : Bool} (ran : EngineResult × List Value) :
    Keeps (fun c => c.entry = none) Post
      (recordSuccess ctx executionId actionTypeRid params action branch skipConfirmation ran) := by
  refine Keeps.bind (Keeps.perform rfl) fun _ => ?_
  refine Keeps.bind (Keeps.bind (Keeps.perform rfl) fun completedAt => Keeps.perform rfl) fun _ => ?_
  refine Keeps.bind (Keeps.perform rfl) fun _ => ?_
  exact Keeps.bind (Keeps.perform rfl) fun startedAt => Keeps.bind (Keeps.perform rfl) fun completedAt => trivial

/-- Behind the engine no entry is sent, if the outputs come to no write. -/
theorem keeps_afterEngine {params : Assoc Value} {skipConfirmation : Bool} (stage : Stage)
    (h : ∀ executionId action resolved result, stage = .ran executionId action resolved result →
      writes result resolved.instances (action.outputs.elems.toOption.getD []) = []) :
    Keeps (fun c => c.entry = none) Post (afterEngine rt ctx actionTypeRid params branch skipConfirmation stage) := by
  cases stage with
  | asks executionId action decision =>
    refine Keeps.bind (Keeps.perform rfl) fun _ => Keeps.bind (Keeps.perform rfl) fun _ => ?_
    exact Keeps.bind (Keeps.perform rfl) fun startedAt => trivial
  | ran executionId action resolved result =>
    refine Keeps.bind ?_ fun ran => keeps_recordSuccess ran
    simp only [finishAction]
    cases houtputs : action.outputs.elems with
    | error e => trivial
    | ok outputs =>
      have hnone := h executionId action resolved result rfl
      rw [houtputs] at hnone
      refine Keeps.bind (Keeps.access _) fun _ => Keeps.bind (Keeps.access _) fun any => ?_
      split
      · refine Keeps.bind ?_ fun written => trivial
        simp only [processWriteback, houtputs]
        exact keeps_forEach_nil rt [] hnone
      · trivial

end NoWrites

/-! ## Calls that return -/

variable {env} {ctx : Ctx} {actionTypeRid : String} {params : Assoc Value} {branch : Option String}
variable {skipConfirmation : Bool} {t t' : Tx World} {done : List Cmd}

/-- What a call has added it has, until the session is closed. -/
theorem session_keeps (c : Cmd) (t : Tx World) {record : Record} (h : record ∈ t.stored ++ t.pending) :
    record ∈ (session env c t).2.stored ++ (session env c t).2.pending := by
  cases c with
  | insertEditLog entry =>
    simp only [session, ← List.append_assoc]
    exact List.mem_append_left _ h
  | createExecution x =>
    simp only [session]
    split
    · rw [← List.append_assoc]
      exact List.mem_append_left _ h
    · exact h
  | commit => simpa [session] using h
  | _ => exact h

theorem exec_keeps {α : Type} {p : Program α} {r : Except Exc α} (hx : Exec (session env) p t done r t')
    {record : Record} (h : record ∈ t.stored ++ t.pending) : record ∈ t'.stored ++ t'.pending := by
  induction hx with
  | pure a t => exact h
  | throw e t => exact h
  | answered rest ih => exact ih (session_keeps _ _ h)
  | lost e rest ih => exact ih (session_keeps _ _ h)
  | refused e rest ih => exact ih h

theorem exec_logStart {executionId capabilityRid : String} {status : Status} {safetyLevel sideEffects : Value} {u : Unit}
    (hx : Exec (session env)
      (logStart ctx executionId capabilityRid status params safetyLevel sideEffects branch) t done (.ok u) t') :
    .execution executionId ∈ t'.stored ++ t'.pending := by
  obtain ⟨-, rfl, hr | ⟨e, he⟩⟩ | ⟨-, -, e, he⟩ := exec_perform hx
  · revert hr
    simp only [session]
    split
    · simp
    · exact fun hr => nomatch hr
  · cases he
  · cases he

/-- A call that returns has its execution recorded, if there is an entry. -/
theorem recorded_of_returned {s : State World} {response : ExecutionResponse}
    (hx : Exec (session env) (executeAction rt ctx actionTypeRid params branch skipConfirmation) ⟨s, [], []⟩ done
      (.ok response) t') : Recorded (.ok response) t' := by
  rw [executeAction_eq] at hx
  obtain ⟨e, he, -⟩ | ⟨stage, t₁, done₁, done₂, huntil, hafter, rfl⟩ := exec_bind hx
  · cases he
  · cases stage with
    | asks executionId action decision =>
      have ht₁ := (keeps_untilEngine rt entry_of_prepares ctx actionTypeRid params skipConfirmation).exec
        (noEntry_session env) (fun _ => by simp) huntil
      have hkeeps : Keeps (fun c => c.entry = none) (fun _ _ => True)
          (afterEngine rt ctx actionTypeRid params branch skipConfirmation (.asks executionId action decision)) :=
        keeps_afterEngine rt _ fun _ _ _ _ h => nomatch h
      exact (hkeeps.exec (noEntry_session env) ht₁ hafter).recorded _
    | ran executionId action resolved result =>
      obtain ⟨e, he, -⟩ | ⟨ran, t₂, done₃, done₄, -, hrecord, rfl⟩ := exec_bind hafter
      · cases he
      · obtain ⟨e, he, -⟩ | ⟨u, t₃, done₅, done₆, hlog, hrest, rfl⟩ := exec_bind hrecord
        · cases he
        · have hlogged := exec_keeps hrest (exec_logStart hlog)
          exact ⟨fun e he => (nomatch he), fun entry _ => ⟨executionId, hlogged⟩⟩

/-! ## Calls that fail behind an entry -/

variable (env) in
/-- Where every command is refused, the program raises. -/
def Fails {α : Type} (p : Program α) : Prop := ∀ t : Tx World, ∃ e, Exec (session env) p t [] (.error e) t

theorem fails_perform {α : Type} (c : Cmd) (f : Ans c → Program α) : Fails env ((perform c).bind f) :=
  fun _ => ⟨.integrityError, .refused _ (.throw _ _)⟩

theorem Fails.bind {α β : Type} {f : α → Program β} (p : Program α) (hf : ∀ a, Fails env (f a)) : Fails env (p.bind f) := by
  intro t
  induction p with
  | pure a => exact hf a t
  | throw e => exact ⟨e, .throw e t⟩
  | call c k ih =>
    obtain ⟨e, he⟩ := ih (.error .integrityError)
    exact ⟨e, .refused _ he⟩

theorem fails_recordSuccess {executionId : String} {action : ActionDefinition} (ran : EngineResult × List Value) :
    Fails env (recordSuccess ctx executionId actionTypeRid params action branch skipConfirmation ran) :=
  fails_perform _ _

section Writes
variable {result : EngineResult} {instances : Assoc Row} {outputs : List Value}

variable (env ctx actionTypeRid branch) in
/-- The first write of a call is committed before anything else happens. -/
theorem exec_sendWrite (t : Tx World) (results : List Value) {w : Write} (hvalid : w.operation ∈ editOperations) :
    ∃ done results' t' entry, Exec (session env) (sendWrite rt ctx actionTypeRid branch results w) t done (.ok results') t' ∧
      .entry entry ∈ t'.stored := by
  have hrun : ∃ results' t', (sendWrite rt ctx actionTypeRid branch results w).run (session env) t = (.ok results', t') ∧
      .entry (w.entry ctx (env.uuid4 t.state.world).1 actionTypeRid branch t.state.clock hvalid) ∈ t'.stored := by
    simp only [sendWrite, writeEditlog, bind_eq, Prog.bind_assoc, dif_pos hvalid]
    exact ⟨_, _, rfl, by simp [session, exec, Write.entry]⟩
  obtain ⟨results', t', hrun, hmem⟩ := hrun
  obtain ⟨done, hx⟩ := Exec.of_run (sendWrite rt ctx actionTypeRid branch results w) t
  rw [hrun] at hx
  exact ⟨done, results', t', _, hx, hmem⟩

/-- Some output asks for write-back, if a write comes of them. -/
theorem anyWriteback_of_writes (h : writes result instances outputs ≠ []) : anyWriteback outputs = .ok true := by
  induction outputs with
  | nil => exact absurd rfl h
  | cons output outputs ih =>
    unfold writes at h
    rw [anyWriteback]
    cases hplan : plannedWrite result instances output with
    | error e => simp [hplan] at h
    | ok planned =>
      rw [hplan] at h
      cases hget : output.get "writeback" (.bool false) with
      | error e =>
        simp only [plannedWrite, hget] at hplan
        cases hplan
      | ok writeback =>
        show (if writeback.truthy = true then Except.ok true else anyWriteback outputs) = Except.ok true
        by_cases htruthy : writeback.truthy = true
        · rw [if_pos htruthy]
        · have hnone : planned = none := by
            unfold plannedWrite at hplan
            rw [hget] at hplan
            replace hplan : (if writeback.truthy = true then _ else Except.ok none) = Except.ok planned := hplan
            rw [if_neg htruthy] at hplan
            exact (Except.ok.inj hplan).symm
          subst hnone
          rw [if_neg htruthy, ih h]

/-- A call that comes to a write may fail right behind it, with its entry committed. -/
theorem exec_forEach_write {K : List Value → Program ExecutionResponse} (hK : ∀ results, Fails env (K results))
    (t : Tx World) (results : List Value) (h : writes result instances outputs ≠ []) :
    ∃ done e t' entry, Exec (session env)
      ((forEach outputs results (writeBack rt ctx result instances actionTypeRid branch)).bind K) t done (.error e) t' ∧
      .entry entry ∈ t'.stored := by
  induction outputs with
  | nil => exact absurd rfl h
  | cons output outputs ih =>
    unfold writes at h
    simp only [forEach, Prog.bind_assoc]
    rw [writeBack_eq]
    cases hplan : plannedWrite result instances output with
    | error e => simp [hplan] at h
    | ok planned =>
      rw [hplan] at h
      cases planned with
      | none => exact ih h
      | some w =>
        have hvalid : w.operation ∈ editOperations := Classical.byContradiction fun hinvalid => h (if_neg hinvalid)
        obtain ⟨done, results', t', entry, hx, hmem⟩ := exec_sendWrite rt env ctx actionTypeRid branch t results hvalid
        obtain ⟨e, hfail⟩ :=
          Fails.bind (forEach outputs results' (writeBack rt ctx result instances actionTypeRid branch)) hK t'
        exact ⟨_, e, t', entry, hx.bind hfail, hmem⟩

/-- What comes to a write behind the engine may fail behind it. -/
theorem exec_afterEngine {executionId : String} {action : ActionDefinition} {resolved : ResolvedParams} (t : Tx World)
    (h : writes result resolved.instances (action.outputs.elems.toOption.getD []) ≠ []) :
    ∃ done e t' entry, Exec (session env) (afterEngine rt ctx actionTypeRid params branch skipConfirmation
      (.ran executionId action resolved result)) t done (.error e) t' ∧ .entry entry ∈ t'.stored := by
  cases houtputs : action.outputs.elems with
  | error e => exact absurd (by rw [houtputs]; rfl) h
  | ok outputs =>
    rw [houtputs] at h
    have hany : anyWriteback outputs = .ok true := anyWriteback_of_writes h
    have hafter : afterEngine rt ctx actionTypeRid params branch skipConfirmation (.ran executionId action resolved result) =
        (forEach outputs [] (writeBack rt ctx result resolved.instances actionTypeRid branch)).bind fun written =>
          recordSuccess ctx executionId actionTypeRid params action branch skipConfirmation (result, written) := by
      simp only [afterEngine, finishAction, processWriteback, bind_eq, houtputs, Prog.bind_assoc]
      show Prog.bind (access (anyWriteback outputs)) _ = _
      rw [hany]
      show Prog.bind (Prog.bind (forEach outputs [] _) _) _ = _
      rw [Prog.bind_assoc]
      rfl
    rw [hafter]
    exact exec_forEach_write rt (fun written => fails_recordSuccess (result, written)) t [] h

end Writes

/-! ## The whole call -/

/-- A call that returns has its execution recorded with its entries. That no entry is left without one, whichever step
fails, holds if and only if the call comes to no write: no output with write-back has a target that was fetched, up to
the first output that raises. -/
theorem recorded_iff (env : Env World) (ctx : Ctx) (actionTypeRid : String) (params : Assoc Value)
    (branch : Option String) (skipConfirmation : Bool) (s : State World) :
    (∀ done response t', Exec (session env) (executeAction rt ctx actionTypeRid params branch skipConfirmation)
        ⟨s, [], []⟩ done (.ok response) t' → Recorded (.ok response) t') ∧
      ((∀ done r t', Exec (session env) (executeAction rt ctx actionTypeRid params branch skipConfirmation) ⟨s, [], []⟩
          done r t' → Recorded r t') ↔
        ∀ done executionId action resolved result t', Exec (session env)
          (untilEngine rt ctx actionTypeRid params skipConfirmation) ⟨s, [], []⟩ done
            (.ok (.ran executionId action resolved result)) t' →
          writes result resolved.instances (action.outputs.elems.toOption.getD []) = []) := by
  refine ⟨fun done response t' hx => recorded_of_returned rt hx, ?_⟩
  simp only [executeAction_eq]
  constructor
  · intro hrecorded done executionId action resolved result t' huntil
    refine Classical.byContradiction fun hwrites => ?_
    obtain ⟨done', e, t'', entry, hafter, hmem⟩ := exec_afterEngine rt t' hwrites
    exact (hrecorded _ _ _ (huntil.bind hafter)).raised e rfl entry hmem
  · intro hnone done r t' hx
    have hbegin : Tx.NoEntry ⟨s, [], []⟩ := fun _ => by simp
    have huntilKeeps : Keeps (fun c => c.entry = none) (fun _ _ => True)
        (untilEngine rt ctx actionTypeRid params skipConfirmation) := keeps_untilEngine rt entry_of_prepares _ _ _ _
    obtain ⟨e, rfl, huntil⟩ | ⟨stage, t₁, done₁, done₂, huntil, hafter, rfl⟩ := exec_bind hx
    · exact (huntilKeeps.exec (noEntry_session env) hbegin huntil).recorded _
    · have ht₁ := huntilKeeps.exec (noEntry_session env) hbegin huntil
      have hafterKeeps : Keeps (fun c => c.entry = none) (fun _ _ => True)
          (afterEngine rt ctx actionTypeRid params branch skipConfirmation stage) :=
        keeps_afterEngine rt stage fun executionId action resolved result hstage =>
          hnone done₁ executionId action resolved result t₁ (hstage ▸ huntil)
      exact (hafterKeeps.exec (noEntry_session env) ht₁ hafter).recorded _

/-! ### The execution of an update is not logged -/

/-- The order is fetched, and the engine returns a status. -/
def Env.orders : Env (List String) :=
  { Env.plain [("parameters", updateOrder.parameters), ("execution", .dict [("type", .str "native_crud"),
      ("native_crud_json", .dict [("outputs", updateOrder.outputs)])])] with
    assetMapping := fun _ _ _ => .ok (some {})
    hasConnector := fun _ _ => true
    row := fun _ _ _ _ _ => .ok (some orderRow)
    await := fun _ w => (.ok ⟨.dict [], [("status", .dict [])]⟩, w) }

def orderSession : Tx (List String) := ⟨⟨["a", "b"], fun _ => none, 0⟩, [], []⟩

/-- The insert of the execution is refused, and the entry stays. -/
theorem not_recorded_order :
    ∃ done e t', Exec (session .orders) (executeAction .plain ⟨"t", "u"⟩ "ri.action.1" orderParams none true)
      orderSession done (.error e) t' ∧ ¬Recorded (.error e) t' := by
  obtain ⟨done, hx⟩ := Exec.of_runFaulty (h := session .orders) Cmd.isCreate [some (.refused .integrityError)]
    orderSession (executeAction .plain ⟨"t", "u"⟩ "ri.action.1" orderParams none true)
  refine ⟨done, .integrityError, _, hx, fun hrecorded => ?_⟩
  refine hrecorded.raised _ rfl
    { entryId := "b", tenantId := "t", typeRid := .str "", primaryKey := .dict [], operation := .str "update",
      fieldValues := .dict [], userId := "u", actionTypeRid := some "ri.action.1", branch := "main", createdAt := 0,
      valid := by decide } ?_
  exact List.mem_cons_self

end Lingshu.Function
