import Lingshu.Workflow.Order
import Lingshu.Workflow.Runs

/-! # What a run reports

A task's exception becomes a step of the result. That of a condition on an edge ends the run, and so do a task's
`SystemExit` and an exception without a text. -/
namespace Lingshu.Workflow
open Json Chains
set_option autoImplicit false

variable {O : Type} {rt : Runtime O} {run : Run O} {st st' : RunState O} {nid : String} {layer : List String}
  {layers : List (List String)} {k : ℕ}

/-- One step for each node that was executed, and the status of success without a failed one. -/
structure Reported (rt : Runtime O) (run : Run O) (result : ExecutionResult O) : Prop where
  nodup : (result.steps.map Step.nodeId).Nodup
  steps : ∀ nid, nid ∈ result.steps.map Step.nodeId ↔ ∃ st, Executed rt run nid st
  status : result.status = "success" ↔ ∀ s ∈ result.steps, s.result.isSuccess = true

/-- At each layer the run comes to, the conditions on the edges into it evaluate; and each task that is started finishes,
with a value or with an exception that stays in the event loop and has a text. -/
structure Smooth (rt : Runtime O) (run : Run O) : Prop where
  conditions : ∀ k layer st, StateBefore rt run (executables rt run) k layer st → ∀ nid ∈ layer,
    ∃ b, shouldExecute rt.toPython st.context (incoming run.definition.edges nid) = .ok b
  tasks : ∀ nid st, Executed rt run nid st →
    ∃ o, taskOf rt run st nid = .ok o ∧ Calm rt o ∧ ∃ r, stepResult rt o = .ok r

/-! ## Layers that end -/

/-- Some nodes of a layer run to their end when each of their tasks does. -/
theorem runNodes_isOk {executable : List String} : (∃ st', runNodes rt run k st executable = .ok st') ↔
    ∀ nid ∈ executable, ∃ o, taskOf rt run st nid = .ok o ∧ Calm rt o ∧ ∃ r, stepResult rt o = .ok r := by
  have htask (nid : String) : (∃ r, taskResult rt run st nid = some r) ↔
      ∃ o, taskOf rt run st nid = .ok o ∧ Calm rt o ∧ ∃ r, stepResult rt o = .ok r := by
    simp only [taskResult_eq_some]
    exact ⟨fun ⟨r, o, ho, hcalm, hr⟩ => ⟨o, ho, hcalm, r, hr⟩, fun ⟨o, ho, hcalm, r, hr⟩ => ⟨r, o, ho, hcalm, hr⟩⟩
  simp only [← htask, ← mapM_isSome]
  constructor
  · rintro ⟨st', h⟩
    obtain ⟨results, hresults, -⟩ := runNodes_ok_iff.mp h
    exact ⟨results, hresults⟩
  · rintro ⟨results, hresults⟩
    exact ⟨_, runNodes_ok_iff.mpr ⟨results, hresults, rfl⟩⟩

theorem runLayer_isOk : (∃ st', runLayer rt run (executables rt run) k st layer = .ok st') ↔
    ∃ executable, executables rt run st layer = .ok executable ∧
      ∀ nid ∈ executable, ∃ o, taskOf rt run st nid = .ok o ∧ Calm rt o ∧ ∃ r, stepResult rt o = .ok r := by
  rw [runLayer]
  cases executables rt run st layer with
  | error e => simp
  | ok executable =>
    refine runNodes_isOk.trans ?_
    simp

/-! ## Runs that end -/

/-- A run goes through its layers when, and only when, nothing ends it on the way. -/
theorem runLayers_isOk (hsort : topologicalSort run.ids run.definition.edges = .ok layers) :
    (∃ st, runLayers rt run (executables rt run) 0 (initial rt run) layers = .ok st) ↔ Smooth rt run := by
  constructor
  · rintro ⟨st, hrun⟩
    have hstep : ∀ k layer st, StateBefore rt run (executables rt run) k layer st →
        ∃ st', runLayer rt run (executables rt run) k st layer = .ok st' := by
      rintro k layer st ⟨layers', hsort', hlayer, hbefore⟩
      obtain rfl := Except.ok.inj (hsort.symm.trans hsort')
      obtain ⟨before, after, hbefore', hafter, -⟩ := runLayers_split hrun hlayer
      obtain rfl := Except.ok.inj (hbefore.symm.trans hbefore')
      exact ⟨after, hafter⟩
    refine ⟨fun k layer st hstate => ?_, ?_⟩
    · obtain ⟨executable, hexecutables, -⟩ := runLayer_isOk.mp (hstep k layer st hstate)
      exact executables_isOk.mp ⟨executable, hexecutables⟩
    · rintro nid st ⟨k, layer, executable, hstate, hexecutables, hnid⟩
      obtain ⟨executable', hexecutables', htasks⟩ := runLayer_isOk.mp (hstep k layer st hstate)
      obtain rfl := Except.ok.inj (hexecutables.symm.trans hexecutables')
      exact htasks nid hnid
  · intro h
    suffices hall : ∀ k, ∃ st, runLayers rt run (executables rt run) 0 (initial rt run) (layers.take k) = .ok st by
      have hlast := hall layers.length
      rwa [List.take_length] at hlast
    intro k
    induction k with
    | zero => exact ⟨_, rfl⟩
    | succ k ih =>
      cases hlayer : layers[k]? with
      | none =>
        rw [List.take_add_one, hlayer, Option.toList_none, List.append_nil]
        exact ih
      | some layer =>
        obtain ⟨st, hst⟩ := ih
        have hstate : StateBefore rt run (executables rt run) k layer st := ⟨layers, hsort, hlayer, hst⟩
        obtain ⟨executable, hexecutables⟩ := executables_isOk.mpr (h.conditions k layer st hstate)
        obtain ⟨st', hst'⟩ := runLayer_isOk.mpr ⟨executable, hexecutables, fun nid hnid =>
          h.tasks nid st ⟨k, layer, executable, hstate, hexecutables, hnid⟩⟩
        exact ⟨st', by rw [runLayers_take_succ _ _ hlayer, hst]; exact hst'⟩

/-- The final state of a run has a step for each node that was executed. -/
theorem mem_steps_of_executed (hrun : runLayers rt run (executables rt run) 0 (initial rt run) layers = .ok st')
    (hsort : topologicalSort run.ids run.definition.edges = .ok layers) (h : Executed rt run nid st) :
    nid ∈ st'.steps.map Step.nodeId := by
  obtain ⟨k, layer, executable, ⟨layers', hsort', hlayer, hbefore⟩, hexecutables, hnid⟩ := h
  obtain rfl := Except.ok.inj (hsort.symm.trans hsort')
  obtain ⟨before, after, hbefore', hafter, hrest⟩ := runLayers_split hrun hlayer
  obtain rfl := Except.ok.inj (hbefore.symm.trans hbefore')
  obtain ⟨executable', now, hchoose, hsteps, hids⟩ := steps_runLayer hafter
  obtain rfl := Except.ok.inj (hexecutables.symm.trans hchoose)
  obtain ⟨later, hsteps', -⟩ := steps_runLayers hrest
  rw [hsteps', hsteps, List.map_append, List.map_append, hids]
  exact List.mem_append_left _ (List.mem_append_right _ hnid)

theorem reported (hsort : topologicalSort run.ids run.definition.edges = .ok layers)
    (hrun : runLayers rt run (executables rt run) 0 (initial rt run) layers = .ok st) (outputs : Context O) :
    Reported rt run ⟨st.overallStatus, st.steps, outputs⟩ where
  nodup := by
    obtain ⟨new, hsteps, hsub⟩ := steps_runLayers hrun
    have hnew : st.steps = new := hsteps
    exact hnew ▸ (layering_of_sort hsort).1.nodup_flatten.sublist hsub
  steps nid := by
    constructor
    · intro h
      obtain ⟨s, hs, rfl⟩ := List.mem_map.mp h
      rw [← List.take_length (l := layers)] at hrun
      obtain ⟨st', hexecuted, -⟩ := executed_of_mem_steps hsort hrun hs
      exact ⟨st', hexecuted⟩
    · rintro ⟨st', h⟩
      exact mem_steps_of_executed hrun hsort h
  status := reporting_runLayers (iff_of_true rfl fun s hs => absurd hs List.not_mem_nil) hrun

/-- Without nodes there are no layers. -/
theorem layers_eq_nil (hsort : topologicalSort run.ids run.definition.edges = .ok layers)
    (hnodes : run.definition.nodes = []) : layers = [] := by
  obtain ⟨hlayering, -, -⟩ := layering_of_sort hsort
  cases hlayering with
  | done => rfl
  | round _ _ hlayer hne _ =>
    obtain ⟨nid, hnid⟩ := List.exists_mem_of_ne_nil _ hne
    have hmem := (run.ids.mem_iff nid).mp ((hlayer nid).mp hnid).1.grounded.mem
    rw [hnodes] at hmem
    cases hmem

/-- Everything inside a run is reported when, and only when, its conditions evaluate and its tasks finish without leaving
the event loop. -/
theorem execute_reported_iff (rt : Runtime O) (run : Run O) (layers : List (List String))
    (hsort : topologicalSort run.ids run.definition.edges = .ok layers) :
    (∃ result, execute rt run = .ok result ∧ Reported rt run result) ↔ Smooth rt run := by
  rw [← runLayers_isOk hsort]
  simp only [execute_ok_iff]
  constructor
  · rintro ⟨result, ⟨hnodes, -⟩ | ⟨-, layers', st, hsort', hrun, -⟩, -⟩
    · exact ⟨_, by rw [layers_eq_nil hsort hnodes]; rfl⟩
    · obtain rfl := Except.ok.inj (hsort.symm.trans hsort')
      exact ⟨st, hrun⟩
  · rintro ⟨st, hrun⟩
    by_cases hnodes : run.definition.nodes = []
    · refine ⟨_, .inl ⟨hnodes, rfl⟩, ?_⟩
      rw [layers_eq_nil hsort hnodes] at hsort
      exact reported hsort rfl []
    · exact ⟨_, .inr ⟨hnodes, layers, st, hsort, hrun, rfl⟩, reported hsort hrun _⟩

theorem sort_branching : topologicalSort branchingRun.ids branchingRun.definition.edges = .ok [["a"], ["b", "c"], ["d"]] := by
  rfl

theorem execute_reported_branching :
    ∃ result, execute jsonRuntime branchingRun = .ok result ∧ Reported jsonRuntime branchingRun result :=
  (execute_reported_iff jsonRuntime branchingRun _ sort_branching).mpr ((runLayers_isOk sort_branching).mp ⟨_, rfl⟩)

/-! ## A condition that raises -/

def comparingNodes : List WorkflowNodeSchema := ["a", "b"].map fun nid => { nodeId := nid, type := "action" }

theorem nodup_comparing : (comparingNodes.map WorkflowNodeSchema.nodeId).Nodup := by decide

/-- `b` waits for a number that `a` does not return. -/
def comparingRun : Run Empty where
  definition := ⟨comparingNodes, [⟨"a", "b", some "a.missing > 10"⟩]⟩
  inputs := []
  nodeExecutor := none
  ids := .ofPerm nodup_comparing (.refl _)
  schedule := fun _ => inOrder

/-- `None > 10` raises. -/
theorem condition_raises : ¬∀ (run : Run Empty) (layers : List (List String)),
    topologicalSort run.ids run.definition.edges = .ok layers →
      ∃ result, execute jsonRuntime run = .ok result ∧ Reported jsonRuntime run result := by
  intro h
  obtain ⟨result, hresult, -⟩ := h comparingRun [["a"], ["b"]] rfl
  have hraises : execute jsonRuntime comparingRun =
      .error (.raised (.typeError "'>' not supported between instances of 'NoneType' and 'int'")) := by rfl
  rw [hraises] at hresult
  cases hresult

end Lingshu.Workflow
