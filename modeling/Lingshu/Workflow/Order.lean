import Lingshu.Workflow.Layers
import Lingshu.Workflow.Steps

/-! # Workflows in another order

Listing the nodes and the edges differently, iterating the set of node ids differently and finishing the tasks of a layer
in another order all lead to the same result. -/
namespace Lingshu.Workflow
open Json
set_option autoImplicit false

variable {O : Type} {rt : Runtime O} {run run' : Run O} {st : RunState O} {layers : List (List String)} {k : ℕ}

/-! ## The choice of the nodes -/

theorem shouldExecute_iff {py : Python O} {context : Context O} {es : List WorkflowEdgeSchema}
    (h : ∀ e ∈ es, ∃ b, edgeHolds py context e = .ok b) :
    ∃ b, shouldExecute py context es = .ok b ∧ (b = true ↔ ∀ e ∈ es, edgeHolds py context e = .ok true) := by
  induction es with
  | nil => exact ⟨true, rfl, by simp⟩
  | cons e es ih =>
    obtain ⟨⟨b, hb⟩, hrest⟩ := List.forall_mem_cons.mp h
    obtain ⟨b', hb', hiff⟩ := ih hrest
    rw [List.forall_mem_cons, ← hiff, hb]
    cases b with
    | true => exact ⟨b', by simp [shouldExecute, hb, hb', bind, Except.bind], by simp⟩
    | false => exact ⟨false, by simp [shouldExecute, hb, bind, Except.bind, pure, Except.pure], by simp⟩

/-- Conditions that evaluate can be tested in any order. -/
theorem shouldExecute_perm {py : Python O} {context : Context O} {es es' : List WorkflowEdgeSchema} (hperm : es'.Perm es)
    (h : ∀ e ∈ es, ∃ b, edgeHolds py context e = .ok b) :
    shouldExecute py context es' = shouldExecute py context es := by
  obtain ⟨b, hb, hiff⟩ := shouldExecute_iff h
  obtain ⟨b', hb', hiff'⟩ := shouldExecute_iff fun e he => h e (hperm.mem_iff.mp he)
  have hsame : b' = true ↔ b = true := by
    rw [hiff, hiff']
    exact ⟨fun hall e he => hall e (hperm.mem_iff.mpr he), fun hall e he => hall e (hperm.mem_iff.mp he)⟩
  rw [hb, hb', Bool.eq_iff_iff.mpr hsame]

theorem nodeMap_eq_some_iff {nodes : List WorkflowNodeSchema} (hdistinct : (nodes.map WorkflowNodeSchema.nodeId).Nodup)
    {nid : String} {node : WorkflowNodeSchema} : nodeMap nodes nid = some node ↔ node ∈ nodes ∧ node.nodeId = nid := by
  constructor
  · intro h
    exact ⟨List.mem_reverse.mp (List.mem_of_find?_eq_some h), by simpa using List.find?_some h⟩
  · rintro ⟨hmem, rfl⟩
    cases h : nodeMap nodes node.nodeId with
    | none =>
      have hnone := List.find?_eq_none.mp h node (List.mem_reverse.mpr hmem)
      simp at hnone
    | some node' =>
      have hmem' : node' ∈ nodes := List.mem_reverse.mp (List.mem_of_find?_eq_some h)
      have hid : node'.nodeId = node.nodeId := by simpa using List.find?_some h
      rw [List.inj_on_of_nodup_map hdistinct hmem' hmem hid]

/-- The same definition with the same inputs and the same executor, listed and scheduled in another way. -/
structure Reordered (run run' : Run O) : Prop where
  distinct : (run.definition.nodes.map WorkflowNodeSchema.nodeId).Nodup
  nodes : run'.definition.nodes.Perm run.definition.nodes
  edges : run'.definition.edges.Perm run.definition.edges
  inputs : run'.inputs = run.inputs
  nodeExecutor : run'.nodeExecutor = run.nodeExecutor

theorem Reordered.nodeMap_eq (h : Reordered run run') (nid : String) :
    nodeMap run'.definition.nodes nid = nodeMap run.definition.nodes nid := by
  have hdistinct : (run'.definition.nodes.map WorkflowNodeSchema.nodeId).Nodup :=
    (h.nodes.map _).nodup_iff.mpr h.distinct
  refine Option.ext fun node => ?_
  rw [nodeMap_eq_some_iff hdistinct, nodeMap_eq_some_iff h.distinct, h.nodes.mem_iff]

theorem Reordered.taskResult_eq (h : Reordered run run') (st : RunState O) (nid : String) :
    taskResult rt run' st nid = taskResult rt run st nid := by
  unfold taskResult taskOf
  rw [h.nodeMap_eq, h.inputs, h.nodeExecutor]

/-- The conditions on the edges into the nodes of a layer evaluate without error. -/
def Evaluates (rt : Runtime O) (run : Run O) (st : RunState O) (layer : List String) : Prop :=
  ∀ nid ∈ layer, ∀ e ∈ incoming run.definition.edges nid, ∃ b, edgeHolds rt.toPython st.context e = .ok b

theorem Reordered.executables_eq (h : Reordered run run') {layer : List String} (hevaluates : Evaluates rt run st layer) :
    executables rt run' st layer = executables rt run st layer := by
  induction layer with
  | nil => rfl
  | cons nid layer ih =>
    obtain ⟨hnid, hrest⟩ := List.forall_mem_cons.mp hevaluates
    have hperm : (incoming run'.definition.edges nid).Perm (incoming run.definition.edges nid) := h.edges.filter _
    rw [executables, executables, ih hrest, shouldExecute_perm hperm hnid]

/-! ## Layer by layer -/

theorem Reordered.runLayer_iff (h : Reordered run run') {k k' : ℕ} {layer : List String} {st' : RunState O}
    (hevaluates : Evaluates rt run st layer) :
    runLayer rt run' (executables rt run') k' st layer = .ok st' ↔
      runLayer rt run (executables rt run) k st layer = .ok st' := by
  rw [runLayer, runLayer, h.executables_eq hevaluates]
  cases executables rt run st layer with
  | error e => simp
  | ok executable =>
    refine runNodes_ok_iff.trans (Iff.trans ?_ runNodes_ok_iff.symm)
    have htasks : taskResult rt run' st = taskResult rt run st := funext (h.taskResult_eq st)
    rw [htasks]

/-- At each layer of the run the conditions on the edges into it evaluate without error. -/
def EvaluatesFrom (rt : Runtime O) (run : Run O) (k : ℕ) (st : RunState O) (layers : List (List String)) : Prop :=
  ∀ i layer st', layers[i]? = some layer → runLayers rt run (executables rt run) k st (layers.take i) = .ok st' →
    Evaluates rt run st' layer

theorem Reordered.runLayers_iff (h : Reordered run run') {k' : ℕ} {st' : RunState O}
    (hevaluates : EvaluatesFrom rt run k st layers) :
    runLayers rt run' (executables rt run') k' st layers = .ok st' ↔
      runLayers rt run (executables rt run) k st layers = .ok st' := by
  induction layers generalizing st k k' with
  | nil => rfl
  | cons layer layers ih =>
    rw [runLayers, runLayers, bind_ok_iff, bind_ok_iff]
    refine exists_congr fun next => ?_
    rw [h.runLayer_iff (hevaluates 0 layer st rfl rfl)]
    refine and_congr_right fun hnext => ih fun i layer' st' hlayer' hrun => ?_
    refine hevaluates (i + 1) layer' st' hlayer' ?_
    rw [List.take_succ_cons, runLayers, hnext]
    exact hrun

/-! ## The whole run -/

theorem Reordered.sort_iff (h : Reordered run run') (layers : List (List String)) :
    topologicalSort run'.ids run'.definition.edges = .ok layers ↔
      topologicalSort run.ids run.definition.edges = .ok layers := by
  have hids : (· ∈ run.ids.items) = (· ∈ run'.ids.items) := by
    rw [mem_items_eq_known run.ids, mem_items_eq_known run'.ids]
    exact funext fun nid => propext (h.nodes.map _).mem_iff.symm
  have hedges : Leads run.definition.edges = Leads run'.definition.edges := by
    funext a b
    refine propext (exists_congr fun e => and_congr_left fun _ => h.edges.mem_iff.symm)
  exact ⟨topologicalSort_congr hids.symm hedges.symm, topologicalSort_congr hids hedges⟩

/-- The conditions that the run tests, all of them, evaluate without error. -/
def ConditionsEvaluate (rt : Runtime O) (run : Run O) : Prop :=
  ∀ layers, topologicalSort run.ids run.definition.edges = .ok layers → EvaluatesFrom rt run 0 (initial rt run) layers

theorem execute_ok_iff {result : ExecutionResult O} : execute rt run = .ok result ↔
    (run.definition.nodes = [] ∧ result = ⟨"success", [], []⟩) ∨
      run.definition.nodes ≠ [] ∧ ∃ layers st, topologicalSort run.ids run.definition.edges = .ok layers ∧
        runLayers rt run (executables rt run) 0 (initial rt run) layers = .ok st ∧
        result = ⟨st.overallStatus, st.steps, Assoc.pop st.context "_inputs"⟩ := by
  rw [execute]
  by_cases hnodes : run.definition.nodes = []
  · simp [hnodes, eq_comm]
  · rw [if_neg hnodes]
    cases topologicalSort run.ids run.definition.edges with
    | error e => simp [hnodes]
    | ok layers =>
      cases hrun : runLayers rt run (executables rt run) 0 (initial rt run) layers with
      | error e => simp [hnodes, hrun, Except.map]
      | ok st => simp [hnodes, hrun, Except.map, eq_comm]

/-- The result does not depend on the order of the lists of nodes and edges, on the iteration of the set of ids, nor on
the order in which concurrent tasks finish. -/
theorem execute_reordered (rt : Runtime O) (run run' : Run O) (h : Reordered run run')
    (hevaluate : ConditionsEvaluate rt run) (result : ExecutionResult O) :
    execute rt run' = .ok result ↔ execute rt run = .ok result := by
  have hempty : run'.definition.nodes = [] ↔ run.definition.nodes = [] := by
    rw [← List.length_eq_zero_iff, ← List.length_eq_zero_iff, h.nodes.length_eq]
  have hinitial : initial rt run' = initial rt run := by rw [initial, initial, h.inputs]
  rw [execute_ok_iff, execute_ok_iff, ne_eq, hempty, hinitial]
  refine or_congr_right (and_congr_right fun _ => exists_congr fun layers => exists_congr fun st => ?_)
  rw [h.sort_iff]
  exact and_congr_right fun hsort => and_congr_left fun _ => h.runLayers_iff (hevaluate layers hsort)

/-! ## An example -/

/-- The task with this result finishes. -/
def finishes : Option (Outcome O) → Bool
  | none | some .pending => false
  | some _ => true

theorem finishes_iff {o : Option (Outcome O)} : finishes o = true ↔ ∃ o', o = some o' ∧ o' ≠ .pending := by
  constructor
  · intro h
    cases o with
    | none => cases h
    | some o =>
      refine ⟨o, rfl, ?_⟩
      rintro rfl
      cases h
  · rintro ⟨o', rfl, hne⟩
    cases o' with
    | pending => exact absurd rfl hne
    | returned | raised => rfl

/-- The tasks finish in the order in which they are listed. -/
def inOrder (outcomes : List (Outcome O)) : Completion outcomes where
  order := (List.range outcomes.length).filter fun i => finishes outcomes[i]?
  nodup := List.nodup_range.filter _
  finished i := by
    rw [List.mem_filter, List.mem_range, finishes_iff]
    constructor
    · exact fun h => h.2
    · rintro ⟨o, ho, hne⟩
      exact ⟨(List.getElem?_eq_some_iff.mp ho).1, o, ho, hne⟩

def lastFirst (outcomes : List (Outcome O)) : Completion outcomes where
  order := (inOrder outcomes).order.reverse
  nodup := List.nodup_reverse.mpr (inOrder outcomes).nodup
  finished i := by rw [List.mem_reverse, (inOrder outcomes).finished]

/-- Python with JSON values only; no task sleeps for long. -/
def jsonRuntime : Runtime Empty where
  floats _ _ _ := false
  entry o := o.elim
  compare _ o _ := o.elim
  truthy o := o.elim
  str v := match v with
    | .str s => s
    | v => dumps v
  sleep _ := some (.ok ())
  dict entries := .json (.dict (entries.map fun e => (e.1, match e.2 with
    | .json v => v
    | .object o => o.elim)))
  isException o := o.elim
  exits o := o.elim
  text o := o.elim

/-- `a` leads to `b` and `c`, and both to `d`, from `c` never. -/
def branching : WorkflowDefinition where
  nodes := diamondNodes
  edges := [⟨"a", "b", none⟩, ⟨"a", "c", some "true"⟩, ⟨"b", "d", none⟩, ⟨"c", "d", some "false"⟩]

def branchingRun : Run Empty := ⟨branching, [], none, diamondIds, fun _ => inOrder⟩

theorem nodup_reversed : (diamondNodes.reverse.map WorkflowNodeSchema.nodeId).Nodup := by decide

/-- The same workflow listed backwards, its tasks finishing backwards too. -/
def backwardsRun : Run Empty :=
  ⟨⟨diamondNodes.reverse, branching.edges.reverse⟩, [], none, .ofPerm nodup_reversed (.refl _), fun _ => lastFirst⟩

theorem reordered_branching : Reordered branchingRun backwardsRun where
  distinct := nodup_diamond
  nodes := List.reverse_perm _
  edges := List.reverse_perm _
  inputs := rfl
  nodeExecutor := rfl

theorem evaluate_branching : ConditionsEvaluate jsonRuntime branchingRun := by
  intro layers _ i layer st _ _ nid _ e he
  have hcondition : ∀ e ∈ branching.edges, e.condition = none ∨ e.condition = some "true" ∨ e.condition = some "false" := by
    decide
  obtain h | h | h := hcondition e (List.mem_filter.mp he).1
  · exact ⟨true, by rw [edgeHolds, h]⟩
  · exact ⟨true, by rw [edgeHolds, h]; rfl⟩
  · exact ⟨false, by rw [edgeHolds, h]; rfl⟩

theorem execute_reordered_backwards : ∃ result, execute jsonRuntime branchingRun = .ok result ∧
    execute jsonRuntime backwardsRun = .ok result ∧ result.steps.map Step.nodeId = ["a", "b", "c"] := by
  refine ⟨_, rfl, (execute_reordered jsonRuntime branchingRun backwardsRun reordered_branching evaluate_branching _).mpr ?_, ?_⟩
  · rfl
  · rfl

end Lingshu.Workflow
