import Lingshu.Workflow.Condition
import Lingshu.Workflow.Sort

/-! # Running a workflow

`WorkflowEngine.execute`. The nodes of a layer run at once; what each of them does depends on the context before the
layer only, and the order in which they finish is a parameter. -/
namespace Lingshu.Workflow
open Json
set_option autoImplicit false

variable {O : Type}

/-! ## Nodes -/

/-- What becomes of a task: a value, an exception, or nothing ever. -/
inductive Outcome (O : Type) where
  | returned (v : Val O)
  | raised (e : Exc O)
  | pending
  deriving DecidableEq

/-- The rest of Python that the engine uses. -/
structure Runtime (O : Type) extends Python O where
  /-- `str(v)`. -/
  str : Value → String
  /-- `await asyncio.sleep(float(v) if v else 0)`; `none` when it never wakes up. -/
  sleep : Value → Option (Except (Exc O) Unit)
  /-- A dict of values. -/
  dict : Assoc (Val O) → Val O
  /-- `isinstance(o, Exception)`. -/
  isException : O → Bool
  /-- `SystemExit` and `KeyboardInterrupt` leave the event loop. -/
  exits : O → Bool
  /-- `str(o)` of an exception. -/
  text : O → Except (Exc O) String

/-- `node_executor`. -/
abbrev Executor (O : Type) : Type := WorkflowNodeSchema → Assoc (Val O) → Outcome O

variable (rt : Runtime O)

/-- `{**context, "_inputs": inputs}`. -/
def withInputs (context : Context O) (inputs : Assoc (Val O)) : Context O := Assoc.set context "_inputs" (rt.dict inputs)

def resolveInput (context : Context O) (inputs : Assoc (Val O)) : Value → Val O
  | .str path => resolveValue rt.toPython path.toList (withInputs rt context inputs)
  | v => .json v

def resolvedInputs (node : WorkflowNodeSchema) (context : Context O) (inputs : Assoc (Val O)) : Assoc (Val O) :=
  node.inputMappings.map fun e => (e.1, resolveInput rt context inputs e.2)

/-- `_execute_node`. -/
def executeNode (node : WorkflowNodeSchema) (context : Context O) (inputs : Assoc (Val O))
    (nodeExecutor : Option (Executor O)) : Outcome O :=
  if node.type = "condition" then
    let expr := rt.str ((node.inputMappings.lookup "expression").getD (.str "true"))
    match evaluateCondition rt.toPython expr.toList context with
    | .ok b => .returned (.json (.dict [("result", .bool b)]))
    | .error e => .raised e
  else if node.type = "wait" then
    let delay := (node.inputMappings.lookup "seconds").getD (.int 0)
    match rt.sleep delay with
    | some (.ok ()) => .returned (.json (.dict [("waited", delay)]))
    | some (.error e) => .raised e
    | none => .pending
  else
    let resolved := resolvedInputs rt node context inputs
    match nodeExecutor with
    | some run => run node resolved
    | none => .returned (rt.dict [("node_id", .json (.str node.nodeId)), ("inputs", rt.dict resolved)])

/-! ## Conditions on edges -/

/-- `edge_map.get(node_id, [])`. -/
def incoming (edges : List WorkflowEdgeSchema) (nid : String) : List WorkflowEdgeSchema :=
  edges.filter fun e => e.targetNodeId = nid

/-- The condition of an edge: none is as good as an empty one. -/
def edgeHolds (py : Python O) (context : Context O) (e : WorkflowEdgeSchema) : Except (Exc O) Bool :=
  match e.condition with
  | none => .ok true
  | some condition => if condition = "" then .ok true else evaluateCondition py condition.toList context

/-- `_should_execute`. -/
def shouldExecute (py : Python O) (context : Context O) : List WorkflowEdgeSchema → Except (Exc O) Bool
  | [] => .ok true
  | e :: es => do
    if ← edgeHolds py context e then shouldExecute py context es else return false

/-! ## Concurrent tasks -/

/-- What ends `execute` without a result. -/
inductive Stop (O : Type) where
  | sort (e : SortError)
  | keyError (nid : String)
  | raised (e : Exc O)
  | exit (o : O)
  | hangs
  deriving DecidableEq

/-- An order in which those tasks finish that do. -/
structure Completion (outcomes : List (Outcome O)) where
  order : List ℕ
  nodup : order.Nodup
  finished : ∀ i, i ∈ order ↔ ∃ o, outcomes[i]? = some o ∧ o ≠ .pending

/-- The exception with which a task leaves the event loop. -/
def exitOf : Outcome O → Option O
  | .raised (.raised o) => if rt.exits o then some o else none
  | _ => none

/-- The tasks finish one after the other, and each result goes to the task's place. -/
def settle (outcomes : List (Outcome O)) :
    List ℕ → List (Option (Outcome O)) → Except (Stop O) (List (Option (Outcome O)))
  | [], places => .ok places
  | i :: order, places =>
    match outcomes[i]? with
    | none => settle outcomes order places
    | some o =>
      match exitOf rt o with
      | some e => .error (.exit e)
      | none => settle outcomes order (places.set i (some o))

/-- The results once every place is filled. -/
def collect (places : List (Option (Outcome O))) : Except (Stop O) (List (Outcome O)) :=
  match places.mapM id with
  | some results => .ok results
  | none => .error .hangs

/-- `asyncio.gather(*tasks, return_exceptions=True)`. -/
def gather (outcomes : List (Outcome O)) (completion : Completion outcomes) : Except (Stop O) (List (Outcome O)) := do
  let places ← settle rt outcomes completion.order (outcomes.map fun _ => none)
  collect places

/-! ## Layers -/

inductive StepResult (O : Type) where
  | success (result : Val O)
  | failed (error : String)
  deriving DecidableEq

structure Step (O : Type) where
  nodeId : String
  result : StepResult O
  deriving DecidableEq

structure RunState (O : Type) where
  context : Context O
  steps : List (Step O)
  overallStatus : String

/-- The result of a task: `.error` for an instance of `Exception`, with its text. -/
def stepResult : Outcome O → Except (Exc O) (StepResult O)
  | .returned (.object o) => if rt.isException o then (rt.text o).map .failed else .ok (.success (.object o))
  | .returned v => .ok (.success v)
  | .raised (.typeError message) => .ok (.failed message)
  | .raised (.raised o) => if rt.isException o then (rt.text o).map .failed else .ok (.success (.object o))
  | .pending => .ok (.success (.json .null))

/-- A step in the record of the run. -/
def addStep (st : RunState O) (s : String × StepResult O) : RunState O :=
  match s.2 with
  | .failed error => { st with steps := st.steps ++ [⟨s.1, .failed error⟩], overallStatus := "partial_failure" }
  | .success v => { st with steps := st.steps ++ [⟨s.1, .success v⟩], context := Assoc.set st.context s.1 v }

/-- The body of the loop over the results. -/
def record (st : RunState O) (r : String × Outcome O) : Except (Stop O) (RunState O) :=
  match stepResult rt r.2 with
  | .error e => .error (.raised e)
  | .ok result => .ok (addStep st (r.1, result))

/-- A run of one definition: which order the tasks of each layer finish in is given with it. -/
structure Run (O : Type) where
  definition : WorkflowDefinition
  inputs : Assoc (Val O)
  nodeExecutor : Option (Executor O)
  ids : NodeIds definition.nodes
  schedule : ℕ → (outcomes : List (Outcome O)) → Completion outcomes

/-- `node_map[nid]`. -/
def nodeMap (nodes : List WorkflowNodeSchema) (nid : String) : Option WorkflowNodeSchema :=
  nodes.reverse.find? fun n => n.nodeId = nid

variable (run : Run O)

def taskOf (st : RunState O) (nid : String) : Except (Stop O) (Outcome O) :=
  match nodeMap run.definition.nodes nid with
  | some node => .ok (executeNode rt node st.context run.inputs run.nodeExecutor)
  | none => .error (.keyError nid)

/-- The nodes of a layer whose conditions are satisfied. -/
def executables (st : RunState O) : List String → Except (Exc O) (List String)
  | [] => .ok []
  | nid :: layer => do
    let should ← shouldExecute rt.toPython st.context (incoming run.definition.edges nid)
    let rest ← executables st layer
    return if should then nid :: rest else rest

/-- The rest of the body of the loop over the layers, once the nodes to run are known; with none it does nothing. -/
def runNodes (k : ℕ) (st : RunState O) (executable : List String) : Except (Stop O) (RunState O) := do
  let outcomes ← executable.mapM (taskOf rt run st)
  let results ← gather rt outcomes (run.schedule k outcomes)
  (executable.zip results).foldlM (record rt) st

/-- Which nodes of a layer run. -/
abbrev Choice (O : Type) : Type := RunState O → List String → Except (Exc O) (List String)

/-- The body of the loop over the layers. -/
def runLayer (choose : Choice O) (k : ℕ) (st : RunState O) (layer : List String) : Except (Stop O) (RunState O) :=
  match choose st layer with
  | .error e => .error (.raised e)
  | .ok executable => runNodes rt run k st executable

def runLayers (choose : Choice O) : ℕ → RunState O → List (List String) → Except (Stop O) (RunState O)
  | _, st, [] => .ok st
  | k, st, layer :: layers => do
    let st ← runLayer rt run choose k st layer
    runLayers choose (k + 1) st layers

def initial : RunState O := ⟨[("_inputs", rt.dict run.inputs)], [], "success"⟩

structure ExecutionResult (O : Type) where
  status : String
  steps : List (Step O)
  outputs : Context O

/-- `WorkflowEngine.execute`. -/
def execute : Except (Stop O) (ExecutionResult O) :=
  if run.definition.nodes = [] then .ok ⟨"success", [], []⟩
  else
    match topologicalSort run.ids run.definition.edges with
    | .error e => .error (.sort e)
    | .ok layers =>
      (runLayers rt run (executables rt run) 0 (initial rt run) layers).map fun st =>
        ⟨st.overallStatus, st.steps, Assoc.pop st.context "_inputs"⟩

end Lingshu.Workflow
