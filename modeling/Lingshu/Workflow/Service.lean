import Lingshu.Workflow.Schema
import Mathlib.Data.List.Basic

/-! # Stored workflows

`workflows/service.py` and `workflows/repository.py`: the table of workflows, and the calls that write it. pydantic's
validation of one node and of one edge is a parameter. -/
namespace Lingshu.Workflow
open Json
set_option autoImplicit false
set_option linter.dupNamespace false

/-! ## Safety levels -/

def safetyLevelOrder : Assoc ℕ :=
  [("SAFETY_READ_ONLY", 0), ("SAFETY_IDEMPOTENT_WRITE", 1), ("SAFETY_NON_IDEMPOTENT", 2), ("SAFETY_CRITICAL", 3)]

def safetyLevelsByRank : List (ℕ × String) := safetyLevelOrder.map fun e => (e.2, e.1)

/-- `SAFETY_LEVEL_ORDER.get(lvl, 0)`. -/
def rank (level : String) : ℕ := (safetyLevelOrder.lookup level).getD 0

/-- `compute_safety_level`. -/
def computeSafetyLevel (nodeSafetyLevels : List String) : String :=
  match (nodeSafetyLevels.map rank).max? with
  | none => "SAFETY_READ_ONLY"
  | some maxRank => (safetyLevelsByRank.lookup maxRank).getD "SAFETY_READ_ONLY"

/-! ## The table -/

/-- The `definition` column: dicts as the calls got them. -/
structure StoredDefinition where
  nodes : List Value
  edges : List Value
  deriving DecidableEq

structure Workflow where
  rid : String
  tenantId : String
  apiName : String
  displayName : String
  description : Option String
  definition : StoredDefinition
  safetyLevel : String
  isActive : Bool := true
  deriving DecidableEq

inductive WorkflowError where
  | functionNotFound (message : String)
  | validationError
  | integrityError
  deriving DecidableEq, Repr

/-- pydantic on one item of a list. -/
structure Pydantic where
  node : Value → Option WorkflowNodeSchema
  edge : Value → Option WorkflowEdgeSchema

variable (px : Pydantic)

/-- `WorkflowDefinition.model_validate`. -/
def modelValidate (definition : StoredDefinition) : Except WorkflowError WorkflowDefinition :=
  match definition.nodes.mapM px.node, definition.edges.mapM px.edge with
  | some nodes, some edges => .ok ⟨nodes, edges⟩
  | _, _ => .error .validationError

/-- The level that `recompute_safety_level` takes from a node, if it takes one. -/
def nodeLevel (node : WorkflowNodeSchema) : Option String :=
  match (node.inputMappings.lookup "safety_level").getD (.str "SAFETY_READ_ONLY") with
  | .str level => some level
  | _ => none

/-- `recompute_safety_level`. -/
def recomputeSafetyLevel (definition : StoredDefinition) : Except WorkflowError String := do
  let parsed ← modelValidate px definition
  return computeSafetyLevel (parsed.nodes.filterMap nodeLevel)

/-! ## Calls -/

def getByRid (table : List Workflow) (rid tenantId : String) : Option Workflow :=
  table.find? fun w => w.rid = rid ∧ w.tenantId = tenantId

def notFound (rid : String) : WorkflowError := .functionNotFound ("Workflow " ++ rid ++ " not found")

structure NewWorkflow where
  apiName : String
  displayName : String
  description : Option String := none
  nodes : List Value := []
  edges : List Value := []

/-- `create_workflow`; `rid` is the one drawn for it. -/
def createWorkflow (tenantId rid : String) (new : NewWorkflow) (table : List Workflow) :
    Except WorkflowError Workflow × List Workflow :=
  match recomputeSafetyLevel px ⟨new.nodes, new.edges⟩ with
  | .error e => (.error e, table)
  | .ok safety =>
    let workflow : Workflow := {
      rid := rid
      tenantId := tenantId
      apiName := new.apiName
      displayName := new.displayName
      description := new.description
      definition := ⟨new.nodes, new.edges⟩
      safetyLevel := safety }
    if rid ∈ table.map Workflow.rid then (.error .integrityError, table) else (.ok workflow, table ++ [workflow])

/-- The keys of `updates`. -/
structure WorkflowUpdates where
  displayName : Option String := none
  description : Option String := none
  status : Option String := none
  nodes : Option (List Value) := none
  edges : Option (List Value) := none

/-- The columns that `update_fields` sets. -/
structure Fields where
  displayName : Option String := none
  description : Option String := none
  isActive : Option Bool := none
  definition : Option (StoredDefinition × String) := none

/-- The new definition with its level, if nodes or edges are given. -/
def rebuild (workflow : Workflow) (updates : WorkflowUpdates) :
    Except WorkflowError (Option (StoredDefinition × String)) :=
  if updates.nodes.isSome ∨ updates.edges.isSome then
    let definition : StoredDefinition :=
      ⟨updates.nodes.getD workflow.definition.nodes, updates.edges.getD workflow.definition.edges⟩
    match recomputeSafetyLevel px definition with
    | .error e => .error e
    | .ok safety => .ok (some (definition, safety))
  else .ok none

def Fields.apply (fields : Fields) (w : Workflow) : Workflow :=
  { w with
    displayName := fields.displayName.getD w.displayName
    description := fields.description.or w.description
    isActive := fields.isActive.getD w.isActive
    definition := (fields.definition.map Prod.fst).getD w.definition
    safetyLevel := (fields.definition.map Prod.snd).getD w.safetyLevel }

def updateFields (table : List Workflow) (rid tenantId : String) (fields : Fields) : List Workflow :=
  table.map fun w => if w.rid = rid ∧ w.tenantId = tenantId then fields.apply w else w

/-- `update_workflow`. -/
def updateWorkflow (tenantId rid : String) (updates : WorkflowUpdates) (table : List Workflow) :
    Except WorkflowError Workflow × List Workflow :=
  match getByRid table rid tenantId with
  | none => (.error (notFound rid), table)
  | some workflow =>
    match rebuild px workflow updates with
    | .error e => (.error e, table)
    | .ok definition =>
      let table' := updateFields table rid tenantId {
        displayName := updates.displayName
        description := updates.description
        isActive := updates.status.map (· = "active")
        definition := definition }
      match getByRid table' rid tenantId with
      | some updated => (.ok updated, table')
      | none => (.error (.functionNotFound ("Workflow " ++ rid ++ " not found after update")), table')

/-- `delete_workflow`. -/
def deleteWorkflow (tenantId rid : String) (table : List Workflow) : Except WorkflowError Unit × List Workflow :=
  match getByRid table rid tenantId with
  | none => (.error (notFound rid), table)
  | some _ => (.ok (), table.filter fun w => ¬(w.rid = rid ∧ w.tenantId = tenantId))

inductive Call where
  | create (tenantId rid : String) (new : NewWorkflow)
  | update (tenantId rid : String) (updates : WorkflowUpdates)
  | delete (tenantId rid : String)

/-- The table after a call. -/
def call (table : List Workflow) : Call → List Workflow
  | .create tenantId rid new => (createWorkflow px tenantId rid new table).2
  | .update tenantId rid updates => (updateWorkflow px tenantId rid updates table).2
  | .delete tenantId rid => (deleteWorkflow tenantId rid table).2

/-- The table after a sequence of calls. -/
def calls (cs : List Call) : List Workflow := cs.foldl (call px) []

end Lingshu.Workflow
