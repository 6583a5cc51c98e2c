import Lingshu.Json.Access

/-! # Tools, messages, responses

What the agent exchanges with the function service and with a provider: the descriptors of `list_capabilities`, the
rows of `sub_agents`, the tool schemas made of both, and the messages of a conversation. -/
namespace Lingshu.Copilot
open Json
set_option autoImplicit false

/-! ## What is registered -/

/-- A parameter of a capability; `api_name` is a string where it is given. -/
structure Parameter where
  apiName : String := ""
  displayName : Option String := none
  dataType : String := "DT_STRING"
  required : Bool := false
  deriving DecidableEq

structure CapabilityDescriptor where
  type : String
  rid : String
  apiName : String
  displayName : String
  description : Option String
  parameters : List Parameter
  safetyLevel : String := "SAFETY_READ_ONLY"
  deriving DecidableEq

structure GlobalFunction where
  rid : String
  apiName : String
  displayName : String
  description : Option String
  parameters : List Parameter

structure ActionTypeNode where
  rid : String
  apiName : String
  displayName : String
  description : Option String
  parameters : List Parameter
  safetyLevel : String

structure Workflow where
  rid : String
  apiName : String
  displayName : String
  description : Option String
  parameters : List Parameter
  safetyLevel : String

structure SubAgent where
  rid : String
  apiName : String
  displayName : String
  description : Option String
  modelRid : Option String
  systemPrompt : Option String
  toolBindings : List (Assoc Value)
  safetyPolicy : Assoc Value
  enabled : Bool

/-- The active rows and nodes of one tenant, as the queries return them. -/
structure Registry where
  functions : List GlobalFunction
  actionTypes : List ActionTypeNode
  workflows : List Workflow
  subAgents : List SubAgent

/-- `list_capabilities`. -/
def Registry.listCapabilities (registry : Registry) : List CapabilityDescriptor :=
  (registry.functions.take 1000).map (fun f =>
    ⟨"function", f.rid, f.apiName, f.displayName, f.description, f.parameters, "SAFETY_READ_ONLY"⟩) ++
  (registry.actionTypes.take 1000).map (fun node =>
    ⟨"action", node.rid, node.apiName, node.displayName, node.description, node.parameters, node.safetyLevel⟩) ++
  (registry.workflows.take 1000).map fun wf =>
    ⟨"workflow", wf.rid, wf.apiName, wf.displayName, wf.description, wf.parameters,
      if wf.safetyLevel = "" then "SAFETY_READ_ONLY" else wf.safetyLevel⟩

/-! ## Tools -/

inductive SchemaType where
  | string
  | integer
  | boolean
  | number
  deriving DecidableEq

structure PropertySchema where
  type : SchemaType
  description : String
  deriving DecidableEq

inductive Metadata where
  | capability (type rid safetyLevel : String)
  | subagent (rid : String) (modelRid systemPrompt : Option String) (toolBindings : List (Assoc Value))
      (safetyPolicy : Assoc Value)
  deriving DecidableEq

/-- A tool schema; its parameters are an object with `properties` and `required`. -/
structure Tool where
  name : String
  description : String
  properties : Assoc PropertySchema
  required : List String
  metadata : Metadata
  deriving DecidableEq

/-- `a or b` on texts. -/
def orText (a : Option String) (b : String) : String :=
  match a with
  | none | some "" => b
  | some a => a

def Parameter.schema (param : Parameter) : PropertySchema where
  type :=
    if param.dataType = "DT_INTEGER" then .integer
    else if param.dataType = "DT_BOOLEAN" then .boolean
    else if param.dataType = "DT_DOUBLE" then .number
    else .string
  description := param.displayName.getD param.apiName

def makeToolSchema (cap : CapabilityDescriptor) : Tool where
  name := cap.apiName
  description := orText cap.description cap.displayName
  properties := Assoc.ofEntries (cap.parameters.map fun param => (param.apiName, param.schema))
  required := (cap.parameters.filter Parameter.required).map Parameter.apiName
  metadata := .capability cap.type cap.rid cap.safetyLevel

def buildToolSchemas (capabilities : List CapabilityDescriptor) : List Tool := capabilities.map makeToolSchema

def loadAsTool (agent : SubAgent) : Tool where
  name := "subagent_" ++ agent.apiName
  description := orText agent.description ("Delegate to sub-agent: " ++ agent.displayName)
  properties := [("input", ⟨.string, "The task or question to delegate to this sub-agent."⟩)]
  required := ["input"]
  metadata := .subagent agent.rid agent.modelRid agent.systemPrompt agent.toolBindings agent.safetyPolicy

/-- `SHELL_MODULE_CAPABILITIES`. -/
def shellModuleCapabilities (module : String) : List String :=
  if module = "ontology" then ["function"]
  else if module = "data" then ["function", "action"]
  else if module = "function" then ["function", "action"]
  else if module = "setting" then ["function"]
  else []

def filterCapabilitiesForShell (capabilities : List CapabilityDescriptor) (module : String) :
    List CapabilityDescriptor :=
  if module = "ontology" then
    capabilities.filter fun cap => cap.type ∈ shellModuleCapabilities module ∧ cap.safetyLevel = "SAFETY_READ_ONLY"
  else capabilities.filter fun cap => cap.type ∈ shellModuleCapabilities module

/-! ## Conversations -/

/-- `{"name", "args"}`, with the provider's `call_id` where it gives one. -/
structure ToolCall where
  name : String
  args : Value
  callId : Option String := none

structure ToolResult where
  name : String
  result : Assoc Value
  callId : Option String := none

/-- A message as a dict: an absent key is `none`, and so is an empty list. -/
structure Message where
  role : Option String := none
  content : Option String := none
  toolCalls : List ToolCall := []
  toolResults : List ToolResult := []

/-- What `chat_with_tools` returns. -/
structure Response where
  text : String
  toolCalls : List ToolCall

structure SessionContext where
  mode : String := "agent"
  module : String := ""
  branch : String := "main"

inductive AgentEvent where
  | textDelta (content : String)
  | toolStart (toolName : String) (params : Value)
  | toolEnd (toolName status : String)
  | done
  deriving DecidableEq

end Lingshu.Copilot
