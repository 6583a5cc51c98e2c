import Lingshu.Workflow.Layers
import Lingshu.Workflow.Steps

/-! # Runs of a workflow

The states in which a run comes to its layers, the nodes it executes there, and the steps it has recorded before. -/
namespace Lingshu.Workflow
open Json
set_option autoImplicit false

variable {O : Type} {rt : Runtime O} {run : Run O} {choose : Choice O} {st st' : RunState O} {nid : String}
  {layer executable : List String} {layers : List (List String)} {k : ℕ}

/-- The state in which the run comes to its layer `k`. -/
def StateBefore (rt : Runtime O) (run : Run O) (choose : Choice O) (k : ℕ) (layer : List String) (st : RunState O) : Prop :=
  ∃ layers, topologicalSort run.ids run.definition.edges = .ok layers ∧ layers[k]? = some layer ∧
    runLayers rt run choose 0 (initial rt run) (layers.take k) = .ok st

/-- The node is executed, in a run that comes to its layer in this state. -/
def Executed (rt : Runtime O) (run : Run O) (nid : String) (st : RunState O) : Prop :=
  ∃ k layer executable, StateBefore rt run (executables rt run) k layer st ∧
    executables rt run st layer = .ok executable ∧ nid ∈ executable

def StepResult.isSuccess : StepResult O → Bool
  | .success _ => true
  | .failed _ => false

/-- The run has recorded a step of success of the node. -/
def Succeeded (st : RunState O) (nid : String) : Prop := ∃ s ∈ st.steps, s.nodeId = nid ∧ s.result.isSuccess = true

instance (st : RunState O) (nid : String) : Decidable (Succeeded st nid) :=
  inferInstanceAs (Decidable (∃ s ∈ st.steps, s.nodeId = nid ∧ s.result.isSuccess = true))

theorem Succeeded.mono (h : Succeeded st nid) (hsub : st.steps ⊆ st'.steps) : Succeeded st' nid := by
  obtain ⟨s, hs, hsuccess⟩ := h
  exact ⟨s, hsub hs, hsuccess⟩

/-! ## Which nodes are chosen -/

theorem mem_executables (h : executables rt run st layer = .ok executable) :
    nid ∈ executable ↔
      nid ∈ layer ∧ shouldExecute rt.toPython st.context (incoming run.definition.edges nid) = .ok true := by
  induction layer generalizing executable with
  | nil =>
    cases h
    simp
  | cons n layer ih =>
    obtain ⟨should, hshould, h⟩ := bind_ok_iff.mp h
    obtain ⟨rest, hrest, h⟩ := bind_ok_iff.mp h
    have hrest := ih hrest
    cases should with
    | true =>
      cases h
      rw [if_pos rfl, List.mem_cons, List.mem_cons, hrest]
      constructor
      · rintro (rfl | h)
        · exact ⟨.inl rfl, hshould⟩
        · exact ⟨.inr h.1, h.2⟩
      · rintro ⟨rfl | h, htrue⟩
        · exact .inl rfl
        · exact .inr ⟨h, htrue⟩
    | false =>
      cases h
      rw [if_neg Bool.false_ne_true, List.mem_cons, hrest]
      constructor
      · exact fun h => ⟨.inr h.1, h.2⟩
      · rintro ⟨rfl | h, htrue⟩
        · rw [hshould] at htrue
          cases htrue
        · exact ⟨h, htrue⟩

theorem executables_sublist (h : executables rt run st layer = .ok executable) : executable.Sublist layer := by
  induction layer generalizing executable with
  | nil =>
    cases h
    exact List.Sublist.refl _
  | cons n layer ih =>
    obtain ⟨should, -, h⟩ := bind_ok_iff.mp h
    obtain ⟨rest, hrest, h⟩ := bind_ok_iff.mp h
    cases should with
    | true =>
      cases h
      exact (ih hrest).cons_cons n
    | false =>
      cases h
      exact (ih hrest).cons n

/-- The nodes of a layer can be chosen when all the tests on them evaluate. -/
theorem executables_isOk : (∃ executable, executables rt run st layer = .ok executable) ↔
    ∀ nid ∈ layer, ∃ b, shouldExecute rt.toPython st.context (incoming run.definition.edges nid) = .ok b := by
  induction layer with
  | nil => exact iff_of_true ⟨[], rfl⟩ fun nid h => absurd h List.not_mem_nil
  | cons n layer ih =>
    rw [List.forall_mem_cons, ← ih]
    constructor
    · rintro ⟨executable, h⟩
      obtain ⟨should, hshould, h⟩ := bind_ok_iff.mp h
      obtain ⟨rest, hrest, -⟩ := bind_ok_iff.mp h
      exact ⟨⟨should, hshould⟩, rest, hrest⟩
    · rintro ⟨⟨should, hshould⟩, rest, hrest⟩
      exact ⟨_, bind_ok_iff.mpr ⟨should, hshould, bind_ok_iff.mpr ⟨rest, hrest, rfl⟩⟩⟩

/-- All conditions on the edges into an executed node hold. -/
theorem edgeHolds_of_shouldExecute {py : Python O} {context : Context O} {es : List WorkflowEdgeSchema}
    (h : shouldExecute py context es = .ok true) : ∀ e ∈ es, edgeHolds py context e = .ok true := by
  induction es with
  | nil => exact fun e he => absurd he List.not_mem_nil
  | cons e es ih =>
    obtain ⟨b, hb, h⟩ := bind_ok_iff.mp h
    cases b with
    | true => exact List.forall_mem_cons.mpr ⟨hb, ih h⟩
    | false => cases h

/-- A node that is skipped has an edge whose condition does not hold. -/
theorem edgeFails_of_shouldExecute {py : Python O} {context : Context O} {es : List WorkflowEdgeSchema}
    (h : shouldExecute py context es = .ok false) : ∃ e ∈ es, edgeHolds py context e = .ok false := by
  induction es with
  | nil => cases h
  | cons e es ih =>
    obtain ⟨b, hb, h⟩ := bind_ok_iff.mp h
    cases b with
    | true =>
      obtain ⟨e', he', hfalse⟩ := ih h
      exact ⟨e', List.mem_cons_of_mem e he', hfalse⟩
    | false => exact ⟨e, List.mem_cons_self, hb⟩

/-! ## What is recorded -/

theorem steps_foldl_addStep (l : List (String × StepResult O)) (st : RunState O) :
    (l.foldl addStep st).steps = st.steps ++ l.map fun s => ⟨s.1, s.2⟩ := by
  induction l generalizing st with
  | nil => simp
  | cons s l ih =>
    rw [List.foldl_cons, ih]
    obtain ⟨nid, r⟩ := s
    cases r <;> simp [addStep]

/-- A layer records one step for each node that it ran. -/
theorem steps_runNodes (h : runNodes rt run k st executable = .ok st') :
    ∃ new, st'.steps = st.steps ++ new ∧ new.map Step.nodeId = executable := by
  obtain ⟨results, hresults, rfl⟩ := runNodes_ok_iff.mp h
  refine ⟨_, steps_foldl_addStep _ st, ?_⟩
  have hlength : executable.length = results.length := by simpa using congrArg List.length (mapM_eq_some.mp hresults)
  rw [List.map_map]
  exact List.map_fst_zip hlength.le

theorem steps_runLayer (h : runLayer rt run choose k st layer = .ok st') :
    ∃ executable new, choose st layer = .ok executable ∧ st'.steps = st.steps ++ new ∧
      new.map Step.nodeId = executable := by
  unfold runLayer at h
  cases hchoose : choose st layer with
  | error e =>
    rw [hchoose] at h
    cases h
  | ok executable =>
    rw [hchoose] at h
    obtain ⟨new, hsteps, hids⟩ := steps_runNodes h
    exact ⟨executable, new, rfl, hsteps, hids⟩

/-- The status says whether a step has failed. -/
def Reporting (st : RunState O) : Prop :=
  st.overallStatus = "success" ↔ ∀ s ∈ st.steps, s.result.isSuccess = true

theorem reporting_addStep (s : String × StepResult O) (h : Reporting st) : Reporting (addStep st s) := by
  obtain ⟨nid, r⟩ := s
  cases r with
  | success v =>
    refine h.trans ?_
    rw [addStep, List.forall_mem_append]
    exact (and_iff_left fun s hs => by rw [List.mem_singleton.mp hs]; rfl).symm
  | failed error => simp [Reporting, addStep, StepResult.isSuccess]

theorem reporting_runLayers (h : Reporting st) (hrun : runLayers rt run choose k st layers = .ok st') : Reporting st' := by
  induction layers generalizing k st with
  | nil =>
    cases hrun
    exact h
  | cons layer layers ih =>
    obtain ⟨next, hnext, hrest⟩ := bind_ok_iff.mp hrun
    refine ih ?_ hrest
    unfold runLayer at hnext
    split at hnext
    · cases hnext
    · obtain ⟨results, -, rfl⟩ := runNodes_ok_iff.mp hnext
      exact List.foldlRecOn _ addStep h fun _ hb s _ => reporting_addStep s hb

/-! ## Layer after layer -/

theorem runLayers_append (choose : Choice O) (k : ℕ) (st : RunState O) (first second : List (List String)) :
    runLayers rt run choose k st (first ++ second) =
      runLayers rt run choose k st first >>= fun st => runLayers rt run choose (k + first.length) st second := by
  induction first generalizing k st with
  | nil => rfl
  | cons layer first ih =>
    rw [List.cons_append, runLayers, runLayers, List.length_cons, bind_assoc]
    refine congrArg _ (funext fun next => ?_)
    rw [ih, Nat.add_assoc, Nat.add_comm 1]

theorem runLayers_take_succ (choose : Choice O) (st : RunState O) (h : layers[k]? = some layer) :
    runLayers rt run choose 0 st (layers.take (k + 1)) =
      runLayers rt run choose 0 st (layers.take k) >>= fun st => runLayer rt run choose k st layer := by
  have hlength : (layers.take k).length = k := by
    have hlt := (List.getElem?_eq_some_iff.mp h).1
    rw [List.length_take]
    omega
  rw [List.take_add_one, h, runLayers_append, hlength, Nat.zero_add]
  refine congrArg _ (funext fun next => ?_)
  exact bind_pure _

/-- A run that ends comes to each of its layers, and on from there. -/
theorem runLayers_split (h : runLayers rt run choose 0 st layers = .ok st') (hlayer : layers[k]? = some layer) :
    ∃ before after, runLayers rt run choose 0 st (layers.take k) = .ok before ∧
      runLayer rt run choose k before layer = .ok after ∧
        runLayers rt run choose (k + 1) after (layers.drop (k + 1)) = .ok st' := by
  have hlength : (layers.take (k + 1)).length = k + 1 := by
    have hlt := (List.getElem?_eq_some_iff.mp hlayer).1
    rw [List.length_take]
    omega
  rw [← List.take_append_drop (k + 1) layers, runLayers_append, hlength, Nat.zero_add] at h
  obtain ⟨after, hafter, hrest⟩ := bind_ok_iff.mp h
  rw [runLayers_take_succ _ _ hlayer] at hafter
  obtain ⟨before, hbefore, hstep⟩ := bind_ok_iff.mp hafter
  exact ⟨before, after, hbefore, hstep, hrest⟩

/-- The layers add steps for some of their nodes, in order. -/
theorem steps_runLayers (h : runLayers rt run (executables rt run) k st layers = .ok st') :
    ∃ new, st'.steps = st.steps ++ new ∧ (new.map Step.nodeId).Sublist layers.flatten := by
  induction layers generalizing k st with
  | nil =>
    cases h
    exact ⟨[], (List.append_nil _).symm, List.Sublist.refl _⟩
  | cons layer layers ih =>
    obtain ⟨next, hnext, hrest⟩ := bind_ok_iff.mp h
    obtain ⟨executable, now, hchoose, hsteps, hids⟩ := steps_runLayer hnext
    obtain ⟨later, hsteps', hsub⟩ := ih hrest
    refine ⟨now ++ later, by rw [hsteps', hsteps, List.append_assoc], ?_⟩
    rw [List.map_append, hids, List.flatten_cons]
    exact (executables_sublist hchoose).append hsub

/-- Each step that is recorded belongs to a node that was executed, with a part of the steps before it. -/
theorem executed_of_mem_steps (hsort : topologicalSort run.ids run.definition.edges = .ok layers)
    (hrun : runLayers rt run (executables rt run) 0 (initial rt run) (layers.take k) = .ok st) {s : Step O}
    (hs : s ∈ st.steps) : ∃ st', Executed rt run s.nodeId st' ∧ st'.steps ⊆ st.steps := by
  induction k generalizing st with
  | zero =>
    cases hrun
    cases hs
  | succ k ih =>
    cases hlayer : layers[k]? with
    | none =>
      rw [List.take_add_one, hlayer] at hrun
      exact ih (by simpa using hrun) hs
    | some layer =>
      rw [runLayers_take_succ _ _ hlayer] at hrun
      obtain ⟨before, hbefore, hrun⟩ := bind_ok_iff.mp hrun
      obtain ⟨executable, new, hchoose, hsteps, hids⟩ := steps_runLayer hrun
      have hsub : before.steps ⊆ st.steps := hsteps ▸ List.subset_append_left _ _
      rw [hsteps, List.mem_append] at hs
      obtain hold | hnew := hs
      · obtain ⟨st', hexecuted, hsub'⟩ := ih hbefore hold
        exact ⟨st', hexecuted, fun s hs => hsub (hsub' hs)⟩
      · have hmem : s.nodeId ∈ executable := hids ▸ List.mem_map_of_mem hnew
        exact ⟨before, ⟨k, layer, executable, ⟨layers, hsort, hlayer, hbefore⟩, hchoose, hmem⟩, hsub⟩

end Lingshu.Workflow
