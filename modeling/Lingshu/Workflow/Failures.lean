import Lingshu.Workflow.Order
import Lingshu.Workflow.Runs

/-! # After a failure

The engine looks at the conditions of the edges only. It is compared with a run that also waits for the success of all
sources: the two are the same where each node that would wait is kept out by a condition. -/
namespace Lingshu.Workflow
open Json
set_option autoImplicit false

variable {O : Type} {rt : Runtime O} {run : Run O} {choose choose' : Choice O} {st : RunState O} {nid : String}
  {layer : List String} {layers : List (List String)} {k : ℕ}

/-- All sources of the edges into the node have succeeded. -/
def Ready (run : Run O) (st : RunState O) (nid : String) : Prop :=
  ∀ e ∈ incoming run.definition.edges nid, Succeeded st e.sourceNodeId

instance (run : Run O) (st : RunState O) (nid : String) : Decidable (Ready run st nid) :=
  inferInstanceAs (Decidable (∀ e ∈ incoming run.definition.edges nid, Succeeded st e.sourceNodeId))

/-- Of the nodes that the engine would run, those whose sources have all succeeded. -/
def prudent (rt : Runtime O) (run : Run O) : Choice O := fun st layer =>
  (executables rt run st layer).map (List.filter fun nid => Ready run st nid)

/-- A node runs only after the success of its sources and with all conditions on its edges satisfied, and never
downstream of a node that has not succeeded. -/
structure RunsAfterSuccess (rt : Runtime O) (run : Run O) : Prop where
  sources : ∀ nid st, Executed rt run nid st → ∀ e ∈ incoming run.definition.edges nid,
    Succeeded st e.sourceNodeId ∧ edgeHolds rt.toPython st.context e = .ok true
  upstream : ∀ nid st, Executed rt run nid st →
    ∀ a, Relation.TransGen (Leads run.definition.edges) a nid → Succeeded st a

/-- In the prudent run, a node with a source that has not succeeded has an edge whose condition is false. -/
def KeptOut (rt : Runtime O) (run : Run O) : Prop :=
  ∀ k layer st, StateBefore rt run (prudent rt run) k layer st →
    (∀ nid ∈ layer, ∃ b, shouldExecute rt.toPython st.context (incoming run.definition.edges nid) = .ok b) →
    ∀ nid ∈ layer, ¬Ready run st nid →
      ∃ e ∈ incoming run.definition.edges nid, edgeHolds rt.toPython st.context e = .ok false

/-! ## Two choices -/

/-- Choices that agree on each state of a run lead to the same states. -/
theorem runLayers_eq (hsort : topologicalSort run.ids run.definition.edges = .ok layers)
    (h : ∀ k layer st, StateBefore rt run choose k layer st → choose' st layer = choose st layer) (k : ℕ) :
    runLayers rt run choose' 0 (initial rt run) (layers.take k) =
      runLayers rt run choose 0 (initial rt run) (layers.take k) := by
  induction k with
  | zero => rfl
  | succ k ih =>
    cases hlayer : layers[k]? with
    | none =>
      rw [List.take_add_one, hlayer, Option.toList_none, List.append_nil]
      exact ih
    | some layer =>
      rw [runLayers_take_succ _ _ hlayer, runLayers_take_succ _ _ hlayer, ih]
      cases hbefore : runLayers rt run choose 0 (initial rt run) (layers.take k) with
      | error e => rfl
      | ok st =>
        have hchoose := h k layer st ⟨layers, hsort, hlayer, hbefore⟩
        show runLayer rt run choose' k st layer = runLayer rt run choose k st layer
        rw [runLayer, runLayer, hchoose]

theorem stateBefore_congr (h : ∀ k layer st, StateBefore rt run choose k layer st → choose' st layer = choose st layer) :
    StateBefore rt run choose' k layer st ↔ StateBefore rt run choose k layer st := by
  refine exists_congr fun layers => and_congr_right fun hsort => and_congr_right fun _ => ?_
  rw [runLayers_eq hsort h]

/-- The prudent run leaves out nothing in a state where all executables are ready. -/
theorem prudent_eq (h : ∀ executable, executables rt run st layer = .ok executable → ∀ nid ∈ executable, Ready run st nid) :
    prudent rt run st layer = executables rt run st layer := by
  rw [prudent]
  cases hexecutables : executables rt run st layer with
  | error e => rfl
  | ok executable =>
    have hall : executable.filter (fun nid => Ready run st nid) = executable :=
      List.filter_eq_self.mpr fun nid hnid => decide_eq_true (h executable hexecutables nid hnid)
    rw [Except.map, hall]

/-! ## Upstream -/

/-- A node with a recorded success was executed, with a part of the steps before it. -/
theorem Succeeded.executed {a : String} (h : Succeeded st a)
    (hstate : StateBefore rt run (executables rt run) k layer st) :
    ∃ st', Executed rt run a st' ∧ st'.steps ⊆ st.steps := by
  obtain ⟨layers, hsort, -, hrun⟩ := hstate
  obtain ⟨s, hs, rfl, -⟩ := h
  exact executed_of_mem_steps hsort hrun hs

theorem mem_incoming {edges : List WorkflowEdgeSchema} {e : WorkflowEdgeSchema} :
    e ∈ incoming edges nid ↔ e ∈ edges ∧ e.targetNodeId = nid := by
  simp [incoming]

/-- When the sources of each executed node have succeeded, so has everything upstream. -/
theorem upstream_of_ready (h : ∀ nid st, Executed rt run nid st → Ready run st nid) (hexecuted : Executed rt run nid st)
    {a : String} (hpath : Relation.TransGen (Leads run.definition.edges) a nid) : Succeeded st a := by
  induction hpath generalizing st with
  | single hleads =>
    obtain ⟨e, he, rfl, rfl⟩ := hleads
    exact h _ st hexecuted e (mem_incoming.mpr ⟨he, rfl⟩)
  | tail _ hleads ih =>
    obtain ⟨e, he, rfl, rfl⟩ := hleads
    have hsource := h _ st hexecuted e (mem_incoming.mpr ⟨he, rfl⟩)
    obtain ⟨k, layer, -, hstate, -⟩ := hexecuted
    obtain ⟨st', hsource', hsub⟩ := hsource.executed hstate
    exact (ih hsource').mono hsub

/-! ## When nothing runs after a failure -/

theorem Executed.shouldExecute (h : Executed rt run nid st) :
    shouldExecute rt.toPython st.context (incoming run.definition.edges nid) = .ok true := by
  obtain ⟨k, layer, executable, -, hexecutables, hnid⟩ := h
  exact ((mem_executables hexecutables).mp hnid).2

/-- Nothing runs after a failure or a skip when, and only when, conditions keep out each node that follows one. -/
theorem runsAfterSuccess_iff (rt : Runtime O) (run : Run O) : RunsAfterSuccess rt run ↔ KeptOut rt run := by
  constructor
  · intro h k layer st hstate hevaluate nid hnid hnot
    have hready : ∀ k layer st, StateBefore rt run (executables rt run) k layer st →
        prudent rt run st layer = executables rt run st layer := fun k layer st hstate =>
      prudent_eq fun executable hexecutables nid hnid e he =>
        (h.sources nid st ⟨k, layer, executable, hstate, hexecutables, hnid⟩ e he).1
    obtain ⟨executable, hexecutables⟩ := executables_isOk.mpr hevaluate
    obtain ⟨b, hb⟩ := hevaluate nid hnid
    cases b with
    | false => exact edgeFails_of_shouldExecute hb
    | true =>
      have hmem := (mem_executables hexecutables).mpr ⟨hnid, hb⟩
      have hexecuted : Executed rt run nid st :=
        ⟨k, layer, executable, (stateBefore_congr hready).mp hstate, hexecutables, hmem⟩
      exact absurd (fun e he => (h.sources nid st hexecuted e he).1) hnot
  · intro h
    have hready : ∀ k layer st, StateBefore rt run (prudent rt run) k layer st → ∀ executable,
        executables rt run st layer = .ok executable → ∀ nid ∈ executable, Ready run st nid := by
      intro k layer st hstate executable hexecutables nid hnid
      obtain ⟨hlayer, hshould⟩ := (mem_executables hexecutables).mp hnid
      by_contra hnot
      obtain ⟨e, he, hfalse⟩ := h k layer st hstate (executables_isOk.mp ⟨executable, hexecutables⟩) nid hlayer hnot
      rw [edgeHolds_of_shouldExecute hshould e he] at hfalse
      cases hfalse
    have hsame : ∀ k layer st, StateBefore rt run (executables rt run) k layer st ↔
        StateBefore rt run (prudent rt run) k layer st := fun k layer st =>
      stateBefore_congr fun k layer st hstate => (prudent_eq (hready k layer st hstate)).symm
    have hsources : ∀ nid st, Executed rt run nid st → Ready run st nid := by
      rintro nid st ⟨k, layer, executable, hstate, hexecutables, hnid⟩
      exact hready k layer st ((hsame k layer st).mp hstate) executable hexecutables nid hnid
    refine ⟨fun nid st hexecuted e he => ?_, fun nid st hexecuted a hpath => upstream_of_ready hsources hexecuted hpath⟩
    exact ⟨hsources nid st hexecuted e he, edgeHolds_of_shouldExecute hexecuted.shouldExecute e he⟩

/-! ## A failure that is not noticed -/

def failingNodes : List WorkflowNodeSchema := ["a", "b"].map fun nid => { nodeId := nid, type := "action" }

theorem nodup_failing : (failingNodes.map WorkflowNodeSchema.nodeId).Nodup := by decide

/-- `a` raises a `TypeError` and leads to `b`, without a condition. -/
def failingRun : Run Empty where
  definition := ⟨failingNodes, [⟨"a", "b", none⟩]⟩
  inputs := []
  nodeExecutor := some fun node _ =>
    if node.nodeId = "a" then .raised (.typeError "boom") else .returned (.json (.dict []))
  ids := .ofPerm nodup_failing (.refl _)
  schedule := fun _ => inOrder

theorem sort_failing : topologicalSort failingRun.ids failingRun.definition.edges = .ok [["a"], ["b"]] := by rfl

/-- `b` runs although `a` has failed. -/
theorem runs_after_failure : ¬∀ (run : Run Empty) (layers : List (List String)),
    topologicalSort run.ids run.definition.edges = .ok layers → RunsAfterSuccess jsonRuntime run := by
  intro h
  have hexecuted : Executed jsonRuntime failingRun "b"
      ⟨[("_inputs", .json (.dict []))], [⟨"a", .failed "boom"⟩], "partial_failure"⟩ :=
    ⟨1, ["b"], ["b"], ⟨[["a"], ["b"]], sort_failing, rfl, rfl⟩, rfl, List.mem_singleton.mpr rfl⟩
  have hsource := (h failingRun _ sort_failing).sources "b" _ hexecuted ⟨"a", "b", none⟩ (List.mem_singleton.mpr rfl)
  revert hsource
  decide

end Lingshu.Workflow
