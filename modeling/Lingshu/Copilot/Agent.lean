import Lingshu.Copilot.Schema
import Lingshu.Interaction.Prog

/-! # AgentGraph

`graph.py` and `tools.py` as programs over the calls that they make: of the provider, of the function service, of the
table of sub-agents. -/
namespace Lingshu.Copilot
open Interaction Json
set_option autoImplicit false

/-! ## Commands -/

/-- The methods that execute a capability. -/
inductive Method where
  | executeAction
  | executeFunction
  | executeWorkflow
  deriving DecidableEq

inductive Argument where
  | value (v : Value)
  | session
  deriving DecidableEq

/-- A call in Python: positional arguments, then keyword arguments. -/
structure Invocation where
  method : Method
  args : List Argument
  kwargs : Assoc Argument
  deriving DecidableEq

inductive Cmd where
  | listCapabilities
  | querySubAgents (offset limit : ℕ)
  | chat (systemPrompt : String) (messages : List Message) (tools : Option (List Tool))
  | chatWithTools (systemPrompt : String) (messages : List Message) (tools : List Tool)
  | invoke (call : Invocation)

def Cmd.Answer : Cmd → Type
  | .listCapabilities => List CapabilityDescriptor
  | .querySubAgents .. => List SubAgent
  | .chat .. => List String
  | .chatWithTools .. => Response
  | .invoke _ => Assoc Value

/-- An exception with its text. -/
inductive Exc where
  | runtimeError (text : String)
  | other (text : String)

def Exc.text : Exc → String
  | .runtimeError text | .other text => text

abbrev Program (α : Type) := Prog Cmd Cmd.Answer Exc α

def ask (c : Cmd) : Program c.Answer := Prog.perform c

def invoke (call : Invocation) : Program (Assoc Value) := ask (.invoke call)

/-! ## Tool calls -/

def executeToolCall (toolName : String) (toolArgs : Value) (capabilities : List CapabilityDescriptor)
    (branch : String) : Program (Assoc Value) :=
  match capabilities.find? fun c => c.apiName = toolName with
  | none => return [("error", .str ("Unknown tool: " ++ toolName))]
  | some cap =>
    if cap.type = "action" then
      invoke ⟨.executeAction, [.value (.str cap.rid), .value toolArgs],
        [("branch", .value (.str branch)), ("skip_confirmation", .value (.bool true))]⟩
    else if cap.type = "function" then
      invoke ⟨.executeFunction, [.value (.str cap.rid), .value toolArgs], [("branch", .value (.str branch))]⟩
    else return [("error", .str ("Unsupported capability type: " ++ cap.type))]

section Loop
variable (serviceAvailable : Bool) (capabilities : List CapabilityDescriptor) (branch : String)

/-- One tool call of a response; an exception becomes its result. -/
def runToolCall (tc : ToolCall) : Program (Assoc Value) :=
  if serviceAvailable then
    (executeToolCall tc.name tc.args capabilities branch).tryCatch fun e => return [("error", .str e.text)]
  else return [("error", .str "Function service not available")]

/-- Execute each tool call. -/
def runToolCalls : List ToolCall → Program (List AgentEvent × List ToolResult)
  | [] => return ([], [])
  | tc :: tcs => do
    let result ← runToolCall serviceAvailable capabilities branch tc
    let status := if "error" ∈ result.keys then "error" else "success"
    let (events, results) ← runToolCalls tcs
    return (.toolStart tc.name tc.args :: .toolEnd tc.name status :: events, { name := tc.name, result := result } :: results)

/-- Emit any text. -/
def textEvents (text : String) : List AgentEvent := if text = "" then [] else [.textDelta text]

/-- The messages that a response with tool calls and their results add to the conversation. -/
def turn (response : Response) (results : List ToolResult) : List Message :=
  [{ role := some "assistant", content := some response.text, toolCalls := response.toolCalls },
    { role := some "user", toolResults := results }]

/-- The iterations that are left. -/
def agentLoop (systemPrompt : String) (tools : List Tool) : ℕ → List Message → Program (List AgentEvent)
  | 0, _ => return []
  | n + 1, messages =>
    if tools = [] then do
      let chunks ← (ask (.chat systemPrompt messages none) : Program (List String))
      return chunks.map .textDelta
    else do
      let response ← (ask (.chatWithTools systemPrompt messages tools) : Program Response)
      if response.toolCalls = [] then return textEvents response.text
      else do
        let (events, results) ← runToolCalls serviceAvailable capabilities branch response.toolCalls
        let rest ← agentLoop systemPrompt tools n (messages ++ turn response results)
        return textEvents response.text ++ events ++ rest

/-- `_process_with_llm`. -/
def processWithLlm (systemPrompt userMessage : String) (tools : List Tool) : Program (List AgentEvent) := do
  let events ← agentLoop serviceAvailable capabilities branch systemPrompt tools 10
    [{ role := some "user", content := some userMessage }]
  return events ++ [.done]

end Loop

/-! ## Sub-agents -/

/-- The keys of `bound_names`; a list or a dict cannot be one. -/
def boundNames (toolBindings : List (Assoc Value)) : Except AccessError (List (Option String)) :=
  toolBindings.mapM fun b => ((b.lookup "capability_rid").getD .null).key

/-- The tools of a sub-agent: those of the capabilities that its bindings name. -/
def subTools (toolBindings : List (Assoc Value)) (capabilities : List CapabilityDescriptor) : List Tool :=
  match boundNames toolBindings with
  | .ok names => buildToolSchemas (capabilities.filter fun c => some c.rid ∈ names)
  | .error _ => []

def loadSubTools (serviceAvailable : Bool) (toolBindings : List (Assoc Value)) : Program (List Tool) :=
  if toolBindings ≠ [] ∧ serviceAvailable then
    Prog.tryCatch (do
      let capabilities ← (ask .listCapabilities : Program (List CapabilityDescriptor))
      return subTools toolBindings capabilities) fun _ => return []
  else return []

/-- Wrap a nested event with the name of the sub-agent; the parent controls the end. -/
def wrapNested (agentName : String) : AgentEvent → List AgentEvent
  | .textDelta content => [.textDelta ("[" ++ agentName ++ "] " ++ content)]
  | .done => []
  | e => [e]

/-- `execute_subagent` with a provider. -/
def executeSubagent (serviceAvailable : Bool) (tool : Tool) (userInput : String) : Program (List AgentEvent) := do
  let (systemPrompt, toolBindings) := match tool.metadata with
    | .subagent _ _ systemPrompt toolBindings _ => (systemPrompt, toolBindings)
    | .capability .. => (some "", [])
  let subPrompt := orText systemPrompt ("You are " ++ tool.name ++ ", a specialized sub-agent.")
  let tools ← loadSubTools serviceAvailable toolBindings
  let nested ← processWithLlm serviceAvailable [] "main" subPrompt userInput tools
  return .toolStart tool.name (.dict [("input", .str userInput)]) :: nested.flatMap (wrapNested tool.name) ++
    [.toolEnd tool.name "success"]

/-! ## Messages of a session -/

/-- The capabilities of the context: those of the module in shell mode. -/
def SessionContext.capabilities (context : SessionContext) (capabilities : List CapabilityDescriptor) :
    List CapabilityDescriptor :=
  if context.mode = "shell" then filterCapabilitiesForShell capabilities context.module else capabilities

def getAvailableTools (context : SessionContext) (hasService hasSession : Bool) : Program (List CapabilityDescriptor) :=
  if hasSession && hasService then do
    let capabilities ← (ask .listCapabilities : Program (List CapabilityDescriptor))
    return context.capabilities capabilities
  else return []

def subagentTools (agents : List SubAgent) : List Tool := (agents.filter SubAgent.enabled).map loadAsTool

/-- `except RuntimeError`: the context has no tenant. -/
def withoutTenant : Exc → Program (List Tool)
  | .runtimeError _ => return []
  | e => .throw e

def getSubagentTools (hasSession : Bool) : Program (List Tool) :=
  if hasSession then
    Prog.tryCatch (do
      let agents ← (ask (.querySubAgents 0 100) : Program (List SubAgent))
      return subagentTools agents) withoutTenant
  else return []

/-- `process_message` with a provider, for the system prompt of the context. -/
def processMessage (hasService hasSession : Bool) (context : SessionContext) (systemPrompt userMessage : String) :
    Program (List AgentEvent) := do
  let capabilities ← getAvailableTools context hasService hasSession
  let agentTools ← getSubagentTools hasSession
  processWithLlm (hasService && hasSession) capabilities context.branch systemPrompt userMessage
    (buildToolSchemas capabilities ++ agentTools)

end Lingshu.Copilot
