import Lingshu.Copilot.Agent

/-! # Formats of the providers

`_format_messages` of the OpenAI and of the Anthropic provider, and what both say of tool calls: which ids the calls of
an assistant message have, and which id a result carries. -/
namespace Lingshu.Copilot
open Json
set_option autoImplicit false

def ToolCall.id (tc : ToolCall) : String := tc.callId.getD tc.name

def ToolResult.id (tr : ToolResult) : String := tr.callId.getD tr.name

/-! ## OpenAI -/

structure OpenAIToolCall where
  id : String
  name : String
  arguments : String

inductive OpenAIMessage where
  | plain (role content : String)
  | tool (toolCallId content : String)
  | assistant (toolCalls : List OpenAIToolCall) (content : Option String)

def OpenAIMessage.ofToolResult (tr : ToolResult) : OpenAIMessage := .tool tr.id (dumps (.dict tr.result))

def OpenAIToolCall.ofToolCall (tc : ToolCall) : OpenAIToolCall := ⟨tc.id, tc.name, dumps tc.args⟩

def formatOpenAIMessage (msg : Message) : List OpenAIMessage :=
  let role := msg.role.getD "user"
  let content := msg.content.getD ""
  if msg.toolResults ≠ [] then msg.toolResults.map .ofToolResult
  else if msg.toolCalls ≠ [] ∧ role = "assistant" then
    [.assistant (msg.toolCalls.map .ofToolCall) (if content ≠ "" then some content else none)]
  else if content ≠ "" then [.plain role content]
  else []

def formatOpenAI (systemPrompt : String) (messages : List Message) : List OpenAIMessage :=
  (if systemPrompt ≠ "" then [.plain "system" systemPrompt] else []) ++ messages.flatMap formatOpenAIMessage

/-! ## Anthropic -/

inductive ContentBlock where
  | text (text : String)
  | toolUse (id name : String) (input : Value)
  | toolResult (toolUseId content : String)

inductive AnthropicMessage where
  | plain (role content : String)
  | blocks (role : String) (content : List ContentBlock)

def ContentBlock.ofToolResult (tr : ToolResult) : ContentBlock := .toolResult tr.id (dumps (.dict tr.result))

def ContentBlock.ofToolCall (tc : ToolCall) : ContentBlock := .toolUse tc.id tc.name tc.args

def formatAnthropicMessage (msg : Message) : List AnthropicMessage :=
  let role := msg.role.getD "user"
  let content := msg.content.getD ""
  if msg.toolResults ≠ [] then [.blocks "user" (msg.toolResults.map .ofToolResult)]
  else if msg.toolCalls ≠ [] ∧ role = "assistant" then
    [.blocks "assistant" ((if content ≠ "" then [.text content] else []) ++ msg.toolCalls.map .ofToolCall)]
  else if content ≠ "" then [.plain role content]
  else []

def formatAnthropic (messages : List Message) : List AnthropicMessage := messages.flatMap formatAnthropicMessage

/-! ## Calls and results -/

/-- An assistant message with the ids of its calls, or a result with the id it carries. -/
inductive Item where
  | assistant (ids : List String)
  | result (id : String)
  deriving DecidableEq

def plainItems (role : String) : List Item := if role = "assistant" then [.assistant []] else []

def OpenAIMessage.items : OpenAIMessage → List Item
  | .plain role _ => plainItems role
  | .tool toolCallId _ => [.result toolCallId]
  | .assistant toolCalls _ => [.assistant (toolCalls.map OpenAIToolCall.id)]

def ContentBlock.callId : ContentBlock → Option String
  | .toolUse id _ _ => some id
  | _ => none

def ContentBlock.resultId : ContentBlock → Option String
  | .toolResult id _ => some id
  | _ => none

def AnthropicMessage.items : AnthropicMessage → List Item
  | .plain role _ => plainItems role
  | .blocks role content =>
    if role = "assistant" then [.assistant (content.filterMap ContentBlock.callId)]
    else (content.filterMap ContentBlock.resultId).map .result

/-- The providers that identify tool calls. -/
inductive Provider where
  | openai
  | anthropic

/-- The calls and results of a conversation as the provider formats it. -/
def Provider.items : Provider → (systemPrompt : String) → List Message → List Item
  | .openai, systemPrompt, messages => (formatOpenAI systemPrompt messages).flatMap OpenAIMessage.items
  | .anthropic, _, messages => (formatAnthropic messages).flatMap AnthropicMessage.items

/-- The results up to the next assistant message. -/
def leadingResults : List Item → List String
  | .result id :: items => id :: leadingResults items
  | _ => []

/-- Each result carries the id of exactly one call, and each call has exactly one result. -/
def Answered (ids results : List String) : Prop :=
  (∀ id ∈ results, ids.count id = 1) ∧ ∀ id ∈ ids, results.count id = 1

instance (ids results : List String) : Decidable (Answered ids results) :=
  inferInstanceAs (Decidable (_ ∧ _))

/-- Every assistant message is answered by the results that follow it. -/
def AllAnswered : List Item → Prop
  | .assistant ids :: items => Answered ids (leadingResults items) ∧ AllAnswered items
  | .result _ :: items => AllAnswered items
  | [] => True

instance AllAnswered.decidable : (items : List Item) → Decidable (AllAnswered items)
  | .assistant ids :: items =>
    have := AllAnswered.decidable items
    inferInstanceAs (Decidable (Answered ids (leadingResults items) ∧ AllAnswered items))
  | .result _ :: items => AllAnswered.decidable items
  | [] => isTrue trivial

/-- Every result belongs to a call of the assistant message before it, and every call has one result. -/
def Paired (items : List Item) : Prop := leadingResults items = [] ∧ AllAnswered items

instance (items : List Item) : Decidable (Paired items) :=
  inferInstanceAs (Decidable (leadingResults items = [] ∧ AllAnswered items))

end Lingshu.Copilot
