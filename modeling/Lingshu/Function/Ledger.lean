import Lingshu.Function.Records
import Lingshu.Interaction.Journal

/-! # What a run of an action leaves in the journal of its call

`Ran`: what the journal of a run says that has come to its end: the action that was read and let through, the one engine
that was started, what it returned, the entries that were stored, and how the record of the run lists them. -/
namespace Lingshu.Function
open Json Data Interaction Interaction.Prog
set_option autoImplicit false

variable (rt : Runtime)

abbrev Lines : Type := Journal Cmd Ans Exc

/-! ## What a journal tells -/

/-- The engines that were started. -/
def engineCalls (xs : Lines) : List EngineCall := xs.filterMap fun l => match l with
  | ⟨.invoke started, .ok _⟩ => some started
  | _ => none

/-- What engines have returned. -/
def engineResults (xs : Lines) : List EngineResult := xs.filterMap fun l => match l with
  | ⟨.await _, .ok result⟩ => some result
  | _ => none

/-- The entries that the edit log has taken. -/
def storedEntries (xs : Lines) : List EditLogEntry := xs.filterMap fun l => match l with
  | ⟨.insertEditLog entry, .ok _⟩ => some entry
  | _ => none

/-- The commands that these are about. -/
def Cmd.engages : Cmd → Bool
  | .invoke _ | .await _ | .insertEditLog _ => true
  | _ => false

theorem filterMap_quiet {A B : Type} {f : A → Option B} {xs : List A} (h : ∀ x ∈ xs, f x = none) :
    xs.filterMap f = [] := List.filterMap_eq_nil_iff.mpr h

section Quiet
variable {xs ys : Lines}

/-- Nothing of what engines and the edit log do. -/
structure Idle (xs : Lines) : Prop where
  calls : engineCalls xs = []
  results : engineResults xs = []
  entries : storedEntries xs = []

theorem idle_of_lines (h : ∀ l ∈ xs, l.1.engages = false) : Idle xs := by
  refine ⟨filterMap_quiet fun l hl => ?_, filterMap_quiet fun l hl => ?_, filterMap_quiet fun l hl => ?_⟩ <;>
  · have hquiet := h l hl
    obtain ⟨c, r⟩ := l
    cases c <;> first | rfl | cases hquiet

theorem engineCalls_append : engineCalls (xs ++ ys) = engineCalls xs ++ engineCalls ys :=
  List.filterMap_append

theorem engineResults_append : engineResults (xs ++ ys) = engineResults xs ++ engineResults ys :=
  List.filterMap_append

theorem storedEntries_append : storedEntries (xs ++ ys) = storedEntries xs ++ storedEntries ys :=
  List.filterMap_append

end Quiet

/-- The engine and the part of the config that an execution config names. -/
structure Names (execution : Value) (call : EngineCall) : Prop where
  type : ∃ v, execution.get "type" (.str "native_crud") = .ok v ∧ EngineType.ofValue v = some call.engine
  config : execution.get call.engine.configKey (.dict []) = .ok call.config

/-- The entry of a write that is sent for a run. -/
structure SentBy (ctx : Ctx) (rid : String) (branch : Option String) (w : Write) (entry : EditLogEntry) : Prop where
  sent : Sent w entry
  tenant : entry.tenantId = ctx.tenantId
  user : entry.userId = ctx.userId
  action : entry.actionTypeRid = some rid
  branch : entry.branch = branchOrMain branch

/-- How a record lists a write. -/
def Write.credit (w : Write) (entry : EditLogEntry) : Value :=
  .dict [("output", w.outputName), ("entry_id", .str entry.entryId), ("operation", w.operation),
    ("target_param", w.targetParam)]

/-- What the journal of a run says when its engine has returned: the action was read and let through, and the one engine
was given what the parameters resolve to. -/
structure Started (ctx : Ctx) (rid : String) (params : Assoc Value) (skip : Bool) (run : Lines) (action : ActionDefinition)
    (engine : EngineCall) (result : EngineResult) : Prop where
  read : ∃ node, ⟨.getObjectType rid ctx.tenantId, .ok (some node)⟩ ∈ run ∧ definitionOf rid node = .ok action
  resolved : ∃ part, part <:+: run ∧
    (resolve rt ctx action.parameters params).Runs part (.ok ⟨engine.params, engine.instances⟩)
  passed : ∃ decision, check action.safetyLevel action.outputs action.sideEffects skip = .ok decision ∧
    decision.requiresConfirmation = false
  names : Names action.execution engine
  started : engineCalls run = [engine]
  returned : engineResults run = [result]

/-- And when its write-back is over: one entry was stored for each write of the action, and is listed. -/
structure Ran (ctx : Ctx) (rid : String) (params : Assoc Value) (branch : Option String) (skip : Bool) (run : Lines)
    (action : ActionDefinition) (engine : EngineCall) (result : EngineResult) (written : List Value) : Prop
    extends Started rt ctx rid params skip run action engine result where
  stored : ∃ outputs, action.outputs.elems = .ok outputs ∧
    List.Forall₂ (SentBy ctx rid branch) (writes result engine.instances outputs) (storedEntries run) ∧
    written = List.zipWith Write.credit (writes result engine.instances outputs) (storedEntries run)

/-! ## Runs of the parts -/

section Runs
variable {α β : Type} {xs : Lines} {ctx : Ctx} {rid : String} {params : Assoc Value} {branch : Option String} {skip : Bool}

theorem runs_access {r : Except AccessError α} {a : α} (h : (access r).Runs xs (.ok a)) : xs = [] ∧ r = .ok a := by
  cases r with
  | ok b =>
    cases h
    exact ⟨rfl, rfl⟩
  | error e => cases h

/-- A part that starts with an access. -/
theorem runs_access_bind {r : Except AccessError α} {f : α → Program β} {b : β}
    (h : ((access r).bind f).Runs xs (.ok b)) : ∃ a, r = .ok a ∧ (f a).Runs xs (.ok b) := by
  obtain ⟨a, ys, zs, hfirst, hrest, rfl⟩ := h.of_bind
  obtain ⟨rfl, hr⟩ := runs_access hfirst
  exact ⟨a, hr, hrest⟩

theorem runs_perform_bind {c : Cmd} {f : Ans c → Program β} {b : β} (h : ((perform c).bind f).Runs xs (.ok b)) :
    ∃ a ys, xs = ⟨c, .ok a⟩ :: ys ∧ (f a).Runs ys (.ok b) := by
  obtain ⟨a, ys, zs, hc, hf, rfl⟩ := h.of_bind
  rw [Runs.of_perform hc]
  exact ⟨a, zs, rfl, hf⟩

theorem runs_load {action : ActionDefinition} (h : (load ctx rid).Runs xs (.ok action)) :
    ∃ node, xs = [⟨.getObjectType rid ctx.tenantId, .ok (some node)⟩] ∧ definitionOf rid node = .ok action := by
  simp only [load, bind_eq] at h
  obtain ⟨node, ys, rfl, hnode⟩ := runs_perform_bind h
  rcases node with _ | _ | ⟨e, node⟩
  · cases hnode
  · cases hnode
  · obtain ⟨rfl, haction⟩ := runs_access hnode
    exact ⟨_, rfl, haction⟩

theorem runs_executeEngine {execution : Value} {values : Assoc Value} {instances : Assoc Row} {result : EngineResult}
    (h : (executeEngine rt execution values instances).Runs xs (.ok result)) :
    ∃ call handle, Names execution call ∧ call.params = values ∧ call.instances = instances ∧
      xs = [⟨.invoke call, .ok handle⟩, ⟨.await handle, .ok result⟩] := by
  simp only [executeEngine, bind_eq] at h
  obtain ⟨execType, htype, hrest⟩ := runs_access_bind h
  cases hengine : EngineType.ofValue execType with
  | none =>
    rw [hengine] at hrest
    cases hrest
  | some t =>
    rw [hengine] at hrest
    obtain ⟨config, hconfig, hstart⟩ := runs_access_bind hrest
    obtain ⟨handle, ys, rfl, hawait⟩ := runs_perform_bind hstart
    rw [Runs.of_perform hawait]
    exact ⟨⟨t, config, values, instances⟩, handle, ⟨⟨execType, htype, hengine⟩, hconfig⟩, rfl, rfl, rfl⟩

theorem runs_sendWrite {results results' : List Value} {w : Write}
    (h : (sendWrite rt ctx rid branch results w).Runs xs (.ok results')) :
    w.operation ∈ editOperations ∧ ∃ entry, SentBy ctx rid branch w entry ∧ storedEntries xs = [entry] ∧
      results' = results ++ [w.credit entry] := by
  simp only [sendWrite, writeEditlog, bind_eq, Prog.bind_assoc] at h
  obtain ⟨entryId, ys, rfl, hminted⟩ := runs_perform_bind h
  obtain ⟨createdAt, ys, rfl, hread⟩ := runs_perform_bind hminted
  by_cases hvalid : w.operation ∈ editOperations
  · simp only [dif_pos hvalid, Prog.bind_assoc] at hread
    obtain ⟨_, ys, rfl, hinserted⟩ := runs_perform_bind hread
    obtain ⟨_, ys, rfl, hcommitted⟩ := runs_perform_bind hinserted
    cases hcommitted
    exact ⟨hvalid, w.entry ctx entryId rid branch createdAt hvalid, ⟨w.sent hvalid, rfl, rfl, rfl, rfl⟩, rfl, rfl⟩
  · simp only [dif_neg hvalid] at hread
    cases hread

/-- The loop of the write-back stores one entry for each write, and lists it. -/
theorem runs_writeBacks {result : EngineResult} {instances : Assoc Row} {outputs results results' : List Value}
    (h : (forEach outputs results (writeBack rt ctx result instances rid branch)).Runs xs (.ok results')) :
    List.Forall₂ (SentBy ctx rid branch) (writes result instances outputs) (storedEntries xs) ∧
      results' = results ++ List.zipWith Write.credit (writes result instances outputs) (storedEntries xs) := by
  induction outputs generalizing xs results with
  | nil =>
    cases h
    exact ⟨.nil, (List.append_nil _).symm⟩
  | cons output outputs ih =>
    obtain ⟨next, ys, zs, hfirst, hrest, rfl⟩ := Runs.of_bind h
    rw [writeBack_eq] at hfirst
    obtain ⟨planned, hplanned, hsend⟩ := runs_access_bind hfirst
    obtain ⟨hsent, rfl⟩ := ih hrest
    cases planned with
    | none =>
      cases hsend
      simp only [writes, hplanned]
      exact ⟨hsent, rfl⟩
    | some w =>
      obtain ⟨hvalid, entry, hentry, hstored, rfl⟩ := runs_sendWrite rt hsend
      simp only [writes, hplanned, if_pos hvalid, storedEntries_append, hstored]
      exact ⟨.cons hentry hsent, List.append_assoc _ _ _⟩

theorem runs_finishAction {action : ActionDefinition} {resolved : ResolvedParams} {result : EngineResult}
    {ran : EngineResult × List Value} (h : (finishAction rt ctx action resolved rid branch result).Runs xs (.ok ran)) :
    ran.1 = result ∧ ∃ outputs, action.outputs.elems = .ok outputs ∧
      List.Forall₂ (SentBy ctx rid branch) (writes result resolved.instances outputs) (storedEntries xs) ∧
      ran.2 = List.zipWith Write.credit (writes result resolved.instances outputs) (storedEntries xs) := by
  simp only [finishAction, bind_eq] at h
  obtain ⟨outputs, houtputs, hchecked⟩ := runs_access_bind h
  obtain ⟨any, hany, hrest⟩ := runs_access_bind hchecked
  cases any with
  | true =>
    obtain ⟨written, ys, zs, hwritten, hend, rfl⟩ := Runs.of_bind hrest
    cases hend
    simp only [processWriteback, bind_eq] at hwritten
    obtain ⟨outputs', houtputs', hloop⟩ := runs_access_bind hwritten
    obtain rfl : outputs = outputs' := Except.ok.inj (houtputs.symm.trans houtputs')
    obtain ⟨hsent, hcredits⟩ := runs_writeBacks rt hloop
    rw [List.append_nil]
    exact ⟨rfl, outputs, houtputs, hsent, hcredits⟩
  | false =>
    cases hrest
    have hnone : writes result resolved.instances outputs = [] := by
      by_contra hne
      rw [anyWriteback_of_writes hne] at hany
      cases hany
    exact ⟨rfl, outputs, houtputs, by rw [hnone]; exact .nil, by rw [hnone]; rfl⟩

/-- A call that is asked to skip the confirmation does not ask for one. -/
theorem runs_asks {id : String} {action : ActionDefinition} {decision : SafetyDecision}
    (h : (untilEngine rt ctx rid params skip).Runs xs (.ok (.asks id action decision))) : skip = false := by
  simp only [untilEngine, bind_eq] at h
  obtain ⟨hex, ys, rfl, hminted⟩ := runs_perform_bind h
  obtain ⟨action', ys, zs, hload, hloaded, rfl⟩ := hminted.of_bind
  obtain ⟨resolved, ys, zs, hresolve, hresolved, rfl⟩ := hloaded.of_bind
  obtain ⟨decision', hcheck, hchecked⟩ := runs_access_bind hresolved
  cases skip with
  | false => rfl
  | true =>
    cases hcheck
    obtain ⟨result, ys, zs, hengine, hend, rfl⟩ := Runs.of_bind hchecked
    cases hend

theorem runs_untilEngine {id : String} {action : ActionDefinition} {resolved : ResolvedParams} {result : EngineResult}
    (h : (untilEngine rt ctx rid params skip).Runs xs (.ok (.ran id action resolved result))) :
    ∃ hex run engine, xs = ⟨.uuid4, .ok hex⟩ :: run ∧ id = executionIdOf hex ∧ engine.instances = resolved.instances ∧
      storedEntries run = [] ∧ Started rt ctx rid params skip run action engine result := by
  simp only [untilEngine, bind_eq] at h
  obtain ⟨hex, ys, rfl, hminted⟩ := runs_perform_bind h
  obtain ⟨action', ys, zs, hload, hloaded, rfl⟩ := hminted.of_bind
  obtain ⟨resolved', part, zs, hresolve, hresolved, rfl⟩ := hloaded.of_bind
  obtain ⟨decision, hcheck, hchecked⟩ := runs_access_bind hresolved
  cases hrequires : decision.requiresConfirmation with
  | true =>
    rw [if_pos hrequires] at hchecked
    cases hchecked
  | false =>
    rw [if_neg (by simp [hrequires])] at hchecked
    obtain ⟨result', ys, zs, hengine, hend, rfl⟩ := Runs.of_bind hchecked
    cases hend
    obtain ⟨node, rfl, haction⟩ := runs_load hload
    obtain ⟨engine, handle, hnames, hparams, hinstances, rfl⟩ := runs_executeEngine rt hengine
    have hidle : Idle part := by
      refine idle_of_lines fun l hl => ?_
      have hreads : l.1.reads = true := ((keeps_resolve rt (fun _ hc => hc) _ _ _).of_runs hresolve).1 l hl
      obtain ⟨c, r⟩ := l
      cases c <;> first | rfl | cases hreads
    refine ⟨hex, _, engine, rfl, rfl, hinstances, ?_, ?_⟩
    · rw [storedEntries_append, storedEntries_append, hidle.entries]
      rfl
    · refine ⟨⟨node, by simp, haction⟩, ⟨part, ⟨_, _, List.append_assoc _ _ _⟩, ?_⟩, ⟨decision, hcheck, hrequires⟩, hnames, ?_, ?_⟩
      · rw [hparams, hinstances]
        exact hresolve
      · rw [engineCalls_append, engineCalls_append, hidle.calls]
        rfl
      · rw [engineResults_append, engineResults_append, hidle.results]
        rfl

/-- A run whose engine has returned, and then its write-back. -/
theorem Started.finished {run ys : Lines} {action : ActionDefinition} {engine : EngineCall} {resolved : ResolvedParams}
    {result : EngineResult} {ran : EngineResult × List Value}
    (h : Started rt ctx rid params skip run action engine result) (hinstances : engine.instances = resolved.instances)
    (hnone : storedEntries run = [])
    (hr : (finishAction rt ctx action resolved rid branch result).Runs ys (.ok ran)) :
    Ran rt ctx rid params branch skip (run ++ ys) action engine ran.1 ran.2 := by
  obtain ⟨hresult, outputs, houtputs, hsent, hwritten⟩ := runs_finishAction rt hr
  have hlines : ∀ l ∈ ys, l.1.writesBack = true :=
    ((keeps_finishAction rt (fun _ hc => hc) _ _ _ _ _ _).of_runs hr).1
  have hcalls : engineCalls ys = [] := List.filterMap_eq_nil_iff.mpr fun l hl => by
    have hback := hlines l hl
    obtain ⟨c, r⟩ := l
    cases c <;> first | rfl | cases hback
  have hresults : engineResults ys = [] := List.filterMap_eq_nil_iff.mpr fun l hl => by
    have hback := hlines l hl
    obtain ⟨c, r⟩ := l
    cases c <;> first | rfl | cases hback
  rw [← hinstances] at hsent hwritten
  rw [hresult]
  obtain ⟨node, hnode, haction⟩ := h.read
  obtain ⟨part, hpart, hresolve⟩ := h.resolved
  refine { read := ⟨node, List.mem_append_left _ hnode, haction⟩, resolved := ⟨part, ?_, hresolve⟩,
           passed := h.passed, names := h.names, started := ?_, returned := ?_, stored := ⟨outputs, houtputs, ?_, ?_⟩ }
  · exact hpart.trans (List.prefix_append run ys).isInfix
  · rw [engineCalls_append, h.started, hcalls, List.append_nil]
  · rw [engineResults_append, h.returned, hresults, List.append_nil]
  · rw [storedEntries_append, hnone, List.nil_append]
    exact hsent
  · rw [storedEntries_append, hnone, List.nil_append]
    exact hwritten

end Runs

end Lingshu.Function
