import Lingshu.Json.Access
import Mathlib.Data.List.Perm.Basic

/-! # Workflow definitions

`function/workflows/models.py`, and what the workflow engine raises. -/
namespace Lingshu.Workflow
open Json
set_option autoImplicit false

structure WorkflowNodeSchema where
  nodeId : String
  /-- `action`, `global_function`, `condition` or `wait`; any other text is accepted too. -/
  type : String
  capabilityRid : Option String := none
  inputMappings : Assoc Value := []
  position : Assoc Value := [("x", .int 0), ("y", .int 0)]
  label : Option String := none
  deriving DecidableEq

structure WorkflowEdgeSchema where
  sourceNodeId : String
  targetNodeId : String
  condition : Option String := none
  deriving DecidableEq, Repr

structure WorkflowDefinition where
  nodes : List WorkflowNodeSchema := []
  edges : List WorkflowEdgeSchema := []
  deriving DecidableEq

/-- What `topological_sort` raises. `unfinished` stands for a loop that is still running after as many rounds as
there are nodes. -/
inductive SortError where
  | app (message : String)
  | keyError (key : String)
  | unfinished
  deriving DecidableEq, Repr

/-- A set of Python built from a list: the order in which it is iterated is not determined. -/
structure PySet (elements : List String) where
  items : List String
  nodup : items.Nodup
  mem_iff : ∀ a, a ∈ items ↔ a ∈ elements

/-- `{n.node_id for n in nodes}`. -/
abbrev NodeIds (nodes : List WorkflowNodeSchema) : Type := PySet (nodes.map WorkflowNodeSchema.nodeId)

/-- An edge leads from one node to the other. -/
def Leads (edges : List WorkflowEdgeSchema) (a b : String) : Prop :=
  ∃ e ∈ edges, e.sourceNodeId = a ∧ e.targetNodeId = b

instance (edges : List WorkflowEdgeSchema) (a b : String) : Decidable (Leads edges a b) :=
  inferInstanceAs (Decidable (∃ e ∈ edges, e.sourceNodeId = a ∧ e.targetNodeId = b))

/-- The set whose iteration follows a list. -/
def PySet.ofPerm {elements items : List String} (hnodup : elements.Nodup) (h : items.Perm elements) : PySet elements :=
  ⟨items, h.nodup_iff.mpr hnodup, fun _ => h.mem_iff⟩

/-- A loop over optional values that finds all of them. -/
theorem mapM_eq_some {α β : Type} {f : α → Option β} {l : List α} {l' : List β} :
    l.mapM f = some l' ↔ l.map f = l'.map some := by
  induction l generalizing l' with
  | nil => cases l' <;> simp
  | cons a l ih =>
    rw [List.mapM_cons, List.map_cons]
    cases hrest : l.mapM f <;> cases f a <;> cases l' <;> simp [← ih, hrest]

theorem mapM_isSome {α β : Type} {f : α → Option β} {l : List α} :
    (∃ l', l.mapM f = some l') ↔ ∀ a ∈ l, ∃ b, f a = some b := by
  induction l with
  | nil => simp
  | cons a l ih =>
    rw [List.forall_mem_cons, ← ih, List.mapM_cons]
    cases l.mapM f <;> cases f a <;> simp

end Lingshu.Workflow
