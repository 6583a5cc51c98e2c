import Lingshu.Copilot.Providers
import Lingshu.Interaction.Yields
import Mathlib.Data.List.Perm.Basic
import Mathlib.Data.List.Nodup

/-! # Tool calls and their results

The agent loop gives a result the name of its tool and no id, so a provider takes the name for the id. -/
namespace Lingshu.Copilot
open Interaction Json
set_option autoImplicit false

/-! ## Formats -/

section Format
variable (provider : Provider) (systemPrompt : String) (messages messages' : List Message)

theorem items_append : provider.items systemPrompt (messages ++ messages') =
    provider.items systemPrompt messages ++ provider.items "" messages' := by
  cases provider <;> simp [Provider.items, formatOpenAI, formatAnthropic]

theorem items_user (userMessage : String) :
    provider.items systemPrompt [{ role := some "user", content := some userMessage }] = [] := by
  have hopenai : ∀ text : String, (if text ≠ "" then [OpenAIMessage.plain "user" text] else []).flatMap OpenAIMessage.items = [] := by
    intro text
    split <;> rfl
  have hanthropic : (if userMessage ≠ "" then [AnthropicMessage.plain "user" userMessage] else []).flatMap
      AnthropicMessage.items = [] := by
    split <;> rfl
  have hsystem : (if systemPrompt ≠ "" then [OpenAIMessage.plain "system" systemPrompt] else []).flatMap
      OpenAIMessage.items = [] := by
    split <;> rfl
  cases provider
  · rw [Provider.items, formatOpenAI, List.flatMap_append, hsystem, List.flatMap_singleton]
    exact hopenai userMessage
  · rw [Provider.items, formatAnthropic, List.flatMap_singleton]
    exact hanthropic

theorem openAI_results (results : List ToolResult) :
    (formatOpenAIMessage { role := some "user", toolResults := results }).flatMap OpenAIMessage.items =
      (results.map ToolResult.id).map .result := by
  cases results with
  | nil => rfl
  | cons tr results =>
    have hformat : formatOpenAIMessage { role := some "user", toolResults := tr :: results } =
        (tr :: results).map .ofToolResult := by simp [formatOpenAIMessage]
    rw [hformat, List.flatMap_map, List.map_map, List.map_eq_flatMap]
    rfl

theorem anthropic_results (results : List ToolResult) :
    (formatAnthropicMessage { role := some "user", toolResults := results }).flatMap AnthropicMessage.items =
      (results.map ToolResult.id).map .result := by
  cases results with
  | nil => rfl
  | cons tr results =>
    have hformat : formatAnthropicMessage { role := some "user", toolResults := tr :: results } =
        [.blocks "user" ((tr :: results).map .ofToolResult)] := by simp [formatAnthropicMessage]
    have hids : ((tr :: results).map ContentBlock.ofToolResult).filterMap ContentBlock.resultId =
        (tr :: results).map ToolResult.id := by
      rw [List.filterMap_map, ← List.filterMap_eq_map]
      rfl
    rw [hformat, List.flatMap_singleton, AnthropicMessage.items, if_neg (by decide), hids]

/-- A response with tool calls and its results, as either provider formats them. -/
theorem items_turn {response : Response} {results : List ToolResult} (hcalls : response.toolCalls ≠ []) :
    provider.items "" (turn response results) =
      .assistant (response.toolCalls.map ToolCall.id) :: (results.map ToolResult.id).map .result := by
  let call : Message := { role := some "assistant", content := some response.text, toolCalls := response.toolCalls }
  cases provider with
  | openai =>
    have hcall : (formatOpenAIMessage call).flatMap OpenAIMessage.items = [.assistant (response.toolCalls.map ToolCall.id)] := by
      have hformat : formatOpenAIMessage call = [.assistant (response.toolCalls.map .ofToolCall)
          (if response.text ≠ "" then some response.text else none)] := by
        simp [formatOpenAIMessage, call, hcalls]
      rw [hformat, List.flatMap_singleton, OpenAIMessage.items, List.map_map]
      rfl
    rw [Provider.items, formatOpenAI, if_neg (by simp), List.nil_append, List.flatMap_assoc, turn, List.flatMap_cons,
      List.flatMap_singleton, hcall, openAI_results]
    rfl
  | anthropic =>
    have hcall : (formatAnthropicMessage call).flatMap AnthropicMessage.items = [.assistant (response.toolCalls.map ToolCall.id)] := by
      have hformat : formatAnthropicMessage call = [.blocks "assistant" ((if response.text ≠ "" then [.text response.text] else []) ++
          response.toolCalls.map .ofToolCall)] := by simp [formatAnthropicMessage, call, hcalls]
      have htext : (if response.text ≠ "" then [ContentBlock.text response.text] else []).filterMap ContentBlock.callId = [] := by
        split <;> rfl
      have hids : (response.toolCalls.map ContentBlock.ofToolCall).filterMap ContentBlock.callId =
          response.toolCalls.map ToolCall.id := by
        rw [List.filterMap_map, ← List.filterMap_eq_map]
        rfl
      rw [hformat, List.flatMap_singleton, AnthropicMessage.items, if_pos rfl, List.filterMap_append, htext, hids]
      rfl
    rw [Provider.items, formatAnthropic, List.flatMap_assoc, turn, List.flatMap_cons, List.flatMap_singleton, hcall,
      anthropic_results]
    rfl

end Format

/-! ## Pairing -/

theorem leadingResults_append (items : List Item) (ids : List String) (rest : List Item) :
    leadingResults (items ++ .assistant ids :: rest) = leadingResults items := by
  induction items with
  | nil => rfl
  | cons item items ih =>
    cases item with
    | assistant => rfl
    | result id => exact congrArg (id :: ·) ih

theorem leadingResults_results (results : List String) : leadingResults (results.map .result) = results := by
  induction results with
  | nil => rfl
  | cons id results ih => exact congrArg (id :: ·) ih

theorem allAnswered_results (results : List String) : AllAnswered (results.map .result) := by
  induction results with
  | nil => trivial
  | cons id results ih => exact ih

/-- A conversation that goes on with one more assistant message and its results. -/
theorem paired_append (items : List Item) (ids results : List String) :
    Paired (items ++ .assistant ids :: results.map .result) ↔ Paired items ∧ Answered ids results := by
  have hall : AllAnswered (items ++ .assistant ids :: results.map .result) ↔ AllAnswered items ∧ Answered ids results := by
    induction items with
    | nil =>
      rw [List.nil_append, AllAnswered, leadingResults_results]
      simp [allAnswered_results, AllAnswered]
    | cons item items ih =>
      cases item with
      | assistant ids' =>
        simp only [List.cons_append, AllAnswered, leadingResults_append, ih]
        exact and_assoc.symm
      | result id => exact ih
  rw [Paired, Paired, leadingResults_append, hall, and_assoc]

/-- The names of the calls are distinct, and they are the ids. -/
def Response.Named (response : Response) : Prop :=
  (response.toolCalls.map ToolCall.name).Nodup ∧
    (response.toolCalls.map ToolCall.id).Perm (response.toolCalls.map ToolCall.name)

instance (response : Response) : Decidable response.Named := inferInstanceAs (Decidable (_ ∧ _))

theorem answered_iff {ids results : List String} : Answered ids results ↔ results.Nodup ∧ ids.Perm results := by
  constructor
  · rintro ⟨hresults, hids⟩
    have hmem : ∀ id, id ∈ results → id ∈ ids := fun id h => List.count_pos_iff.mp (by rw [hresults id h]; exact Nat.one_pos)
    have hmem' : ∀ id, id ∈ ids → id ∈ results := fun id h => List.count_pos_iff.mp (by rw [hids id h]; exact Nat.one_pos)
    have hnodup : results.Nodup := List.nodup_iff_count_le_one.mpr fun id => by
      by_cases h : id ∈ results
      · exact Nat.le_of_eq (hids id (hmem id h))
      · rw [List.count_eq_zero.mpr h]
        exact Nat.zero_le 1
    refine ⟨hnodup, List.perm_iff_count.mpr fun id => ?_⟩
    by_cases h : id ∈ results
    · rw [hresults id h, hids id (hmem id h)]
    · rw [List.count_eq_zero.mpr h, List.count_eq_zero.mpr fun hid => h (hmem' id hid)]
  · rintro ⟨hnodup, hperm⟩
    have hone : ∀ id ∈ results, results.count id = 1 := fun id h => List.count_eq_one_of_mem hnodup h
    exact ⟨fun id h => (hperm.count_eq id).trans (hone id h), fun id h => hone id (hperm.subset h)⟩

theorem answered_names (response : Response) :
    Answered (response.toolCalls.map ToolCall.id) (response.toolCalls.map ToolCall.name) ↔ response.Named := answered_iff

/-! ## The agent loop -/

/-- A request to the provider, and its response if there is one with tool calls or text. -/
structure Exchange where
  systemPrompt : String
  messages : List Message
  response : Option Response

def exchange : (c : Cmd) × Except Exc c.Answer → Option Exchange
  | ⟨.chatWithTools systemPrompt messages _, .ok response⟩ => some ⟨systemPrompt, messages, some response⟩
  | ⟨.chatWithTools systemPrompt messages _, .error _⟩ => some ⟨systemPrompt, messages, none⟩
  | ⟨.chat systemPrompt messages _, _⟩ => some ⟨systemPrompt, messages, none⟩
  | _ => none

/-- The requests that a program makes of the provider. -/
def exchanges {σ α : Type} (h : Prog.Handler Cmd Cmd.Answer Exc σ) (p : Program α) (s : σ) : List Exchange :=
  (p.transcript h s).filterMap exchange

/-- In every request, every result belongs to one call and every call has one result. -/
def AllPaired (provider : Provider) (xs : List Exchange) : Prop :=
  ∀ x ∈ xs, Paired (provider.items x.systemPrompt x.messages)

/-- Every response that another request follows names its calls by their ids. -/
def NamedBefore (xs : List Exchange) : Prop := ∀ x ∈ xs.dropLast, ∀ response ∈ x.response, response.Named

section Loop
variable {σ : Type} (h : Prog.Handler Cmd Cmd.Answer Exc σ)
variable (serviceAvailable : Bool) (capabilities : List CapabilityDescriptor) (branch : String)

/-- The command makes no request of the provider. -/
def Cmd.IsAside : Cmd → Prop
  | .chat .. | .chatWithTools .. => False
  | _ => True

theorem meets_invoke (call : Invocation) : (invoke call).Meets Cmd.IsAside (fun _ _ => True) fun _ => True :=
  ⟨trivial, fun _ _ => trivial, fun _ => trivial⟩

theorem meets_executeToolCall (toolName : String) (toolArgs : Value) :
    (executeToolCall toolName toolArgs capabilities branch).Meets Cmd.IsAside (fun _ _ => True) fun _ => True := by
  unfold executeToolCall
  split
  · trivial
  · split
    · exact meets_invoke _
    · split
      · exact meets_invoke _
      · trivial

theorem meets_runToolCall (tc : ToolCall) :
    (runToolCall serviceAvailable capabilities branch tc).Meets Cmd.IsAside (fun _ _ => True) fun _ => True := by
  unfold runToolCall
  split
  · exact (meets_executeToolCall capabilities branch tc.name tc.args).tryCatch fun _ => trivial
  · trivial

/-- The results of tool calls are identified by the names of the tools. -/
theorem meets_runToolCalls (tcs : List ToolCall) :
    (runToolCalls serviceAvailable capabilities branch tcs).Meets Cmd.IsAside (fun _ _ => True)
      fun out => out.2.map ToolResult.id = tcs.map ToolCall.name := by
  induction tcs with
  | nil => rfl
  | cons tc tcs ih =>
    refine (meets_runToolCall serviceAvailable capabilities branch tc).bind fun result _ => ?_
    refine ih.bind ?_
    rintro ⟨events, results⟩ hids
    exact congrArg (tc.name :: ·) hids

theorem exchanges_of_asides {α : Type} {Q : α → Prop} {p : Program α} (hp : p.Meets Cmd.IsAside (fun _ _ => True) Q)
    (s : σ) : exchanges h p s = [] := by
  refine List.filterMap_eq_nil_iff.mpr fun x hx => ?_
  have haside := hp.transcript h s x hx
  obtain ⟨c, r⟩ := x
  cases c with
  | chat | chatWithTools => exact haside.elim
  | _ => rfl

theorem exchanges_pure {α : Type} (a : α) (s : σ) : exchanges h (.pure a : Program α) s = [] := rfl

theorem exchanges_bind_ok {α β : Type} {p : Program α} {a : α} {s s' : σ} (hp : p.run h s = (.ok a, s')) (f : α → Program β) :
    exchanges h (p.bind f) s = exchanges h p s ++ exchanges h (f a) s' := by
  rw [exchanges, Prog.transcript_bind, List.filterMap_append, hp]
  rfl

theorem exchanges_bind_error {α β : Type} {p : Program α} {e : Exc} {s s' : σ} (hp : p.run h s = (.error e, s'))
    (f : α → Program β) : exchanges h (p.bind f) s = exchanges h p s := by
  rw [exchanges, Prog.transcript_bind, List.filterMap_append, hp]
  exact List.append_nil _

theorem exchanges_map {α β : Type} (p : Program α) (g : α → β) (s : σ) :
    exchanges h (p.bind fun a => .pure (g a)) s = exchanges h p s := by
  cases hp : p.run h s with
  | mk r s' =>
    cases r with
    | ok a => rw [exchanges_bind_ok h hp, exchanges_pure, List.append_nil]
    | error e => exact exchanges_bind_error h hp _

theorem exchanges_call {α : Type} (c : Cmd) (k : Except Exc c.Answer → Program α) (s : σ) :
    exchanges h (.call c k) s = (exchange ⟨c, (h c s).1⟩).toList ++ exchanges h (k (h c s).1) (h c s).2 := by
  have htranscript : exchanges h (.call c k) s =
      List.filterMap exchange (⟨c, (h c s).1⟩ :: (k (h c s).1).transcript h (h c s).2) := rfl
  rw [htranscript, List.filterMap_cons]
  cases exchange ⟨c, (h c s).1⟩ <;> rfl

/-- What the loop asks of the provider, from a request on. -/
inductive Loops (systemPrompt : String) : List Message → List Exchange → Prop where
  | ended (messages : List Message) : Loops systemPrompt messages []
  | last (messages : List Message) (response : Option Response) : Loops systemPrompt messages [⟨systemPrompt, messages, response⟩]
  | next {messages : List Message} {response : Response} {results : List ToolResult} {xs : List Exchange}
      (hcalls : response.toolCalls ≠ []) (hids : results.map ToolResult.id = response.toolCalls.map ToolCall.name)
      (rest : Loops systemPrompt (messages ++ turn response results) xs) :
      Loops systemPrompt messages (⟨systemPrompt, messages, some response⟩ :: xs)

theorem loops_agentLoop (systemPrompt : String) (tools : List Tool) (n : ℕ) (messages : List Message) (s : σ) :
    Loops systemPrompt messages
      (exchanges h (agentLoop serviceAvailable capabilities branch systemPrompt tools n messages) s) := by
  induction n generalizing messages s with
  | zero => exact .ended messages
  | succ n ih =>
    unfold agentLoop
    by_cases htools : tools = []
    · rw [if_pos htools, Prog.bind_eq, ask, Prog.perform, Prog.call_bind, exchanges_call]
      cases (h (.chat systemPrompt messages none) s).1 <;> exact .last messages none
    · rw [if_neg htools, Prog.bind_eq, ask, Prog.perform, Prog.call_bind, exchanges_call]
      generalize (h (.chatWithTools systemPrompt messages tools) s).2 = s'
      cases (h (.chatWithTools systemPrompt messages tools) s).1 with
      | error e => exact .last messages none
      | ok response =>
        change Response at response
        change Loops systemPrompt messages (⟨systemPrompt, messages, some response⟩ :: exchanges h (ite _ _ _) s')
        by_cases hcalls : response.toolCalls = []
        · rw [if_pos hcalls]
          exact .last messages (some response)
        · rw [if_neg hcalls, Prog.bind_eq]
          have hmeets := meets_runToolCalls serviceAvailable capabilities branch response.toolCalls
          have hnone := exchanges_of_asides h hmeets s'
          cases hrun : (runToolCalls serviceAvailable capabilities branch response.toolCalls).run h s' with
          | mk r s'' =>
            cases r with
            | error e =>
              rw [exchanges_bind_error h hrun, hnone]
              exact .last messages (some response)
            | ok out =>
              have hnames := (hmeets.run (J := fun _ => True) (fun _ _ _ _ _ => ⟨trivial, fun _ _ => trivial⟩) trivial).2 out
                (by rw [hrun])
              obtain ⟨events, results⟩ := out
              rw [exchanges_bind_ok h hrun, hnone, List.nil_append]
              refine .next hcalls hnames ?_
              have hrest := ih (messages ++ turn response results) s''
              rw [← exchanges_map h _ fun rest => textEvents response.text ++ events ++ rest] at hrest
              exact hrest

end Loop

/-- Where the conversation is paired so far, it stays so exactly when the responses that are followed by another request
name their calls by their ids. -/
theorem Loops.allPaired_iff {provider : Provider} {systemPrompt : String} {messages : List Message} {xs : List Exchange}
    (h : Loops systemPrompt messages xs) (hpaired : Paired (provider.items systemPrompt messages)) :
    AllPaired provider xs ↔ NamedBefore xs := by
  induction h with
  | ended => simp [AllPaired, NamedBefore]
  | last messages response => simp [AllPaired, NamedBefore, hpaired]
  | @next messages response results xs hcalls hids rest ih =>
    have hnext : Paired (provider.items systemPrompt (messages ++ turn response results)) ↔ response.Named := by
      rw [items_append, items_turn provider hcalls, paired_append, hids, answered_names]
      exact and_iff_right hpaired
    have hall : AllPaired provider (⟨systemPrompt, messages, some response⟩ :: xs) ↔ AllPaired provider xs := by
      simp [AllPaired, hpaired]
    rw [hall]
    cases rest with
    | ended => simp [AllPaired, NamedBefore]
    | last _ response' =>
      simp [AllPaired, NamedBefore, hnext]
    | @next _ response' results' xs' hcalls' hids' rest' =>
      have hnamed : NamedBefore (⟨systemPrompt, messages, some response⟩ ::
          ⟨systemPrompt, messages ++ turn response results, some response'⟩ :: xs') ↔ response.Named ∧
          NamedBefore (⟨systemPrompt, messages ++ turn response results, some response'⟩ :: xs') := by
        simp [NamedBefore]
      rw [hnamed]
      by_cases hr : response.Named
      · rw [ih (hnext.mpr hr)]
        exact (and_iff_right hr).symm
      · refine iff_of_false (fun hpairs => hr (hnext.mp ?_)) fun hn => hr hn.1
        exact hpairs _ List.mem_cons_self

/-! ## Every run of the agent -/

section Runs
variable {σ : Type} (h : Prog.Handler Cmd Cmd.Answer Exc σ) (provider : Provider)

/-- Whatever the state, calls and results are paired exactly when calls are named by their ids. -/
def PairedIffNamed {α : Type} (p : Program α) : Prop :=
  ∀ s : σ, AllPaired provider (exchanges h p s) ↔ NamedBefore (exchanges h p s)

variable {h provider}

/-- What precedes the requests does not matter. -/
theorem PairedIffNamed.after {α β : Type} {Q : α → Prop} {p : Program α} {f : α → Program β}
    (hp : p.Meets Cmd.IsAside (fun _ _ => True) Q) (hf : ∀ a, PairedIffNamed h provider (f a)) :
    PairedIffNamed h provider (p.bind f) := by
  intro s
  have hnone := exchanges_of_asides h hp s
  cases hrun : p.run h s with
  | mk r s' =>
    cases r with
    | ok a =>
      rw [exchanges_bind_ok h hrun, hnone, List.nil_append]
      exact hf a s'
    | error e =>
      rw [exchanges_bind_error h hrun, hnone]
      simp [AllPaired, NamedBefore]

theorem PairedIffNamed.map {α β : Type} {p : Program α} (hp : PairedIffNamed h provider p) (g : α → β) :
    PairedIffNamed h provider (p.bind fun a => .pure (g a)) := by
  intro s
  rw [exchanges_map]
  exact hp s

theorem pairedIffNamed_processWithLlm (serviceAvailable : Bool) (capabilities : List CapabilityDescriptor)
    (branch systemPrompt userMessage : String) (tools : List Tool) :
    PairedIffNamed h provider (processWithLlm serviceAvailable capabilities branch systemPrompt userMessage tools) := by
  refine PairedIffNamed.map (p := agentLoop serviceAvailable capabilities branch systemPrompt tools 10 _) (fun s => ?_)
    fun events => events ++ [AgentEvent.done]
  refine (loops_agentLoop h serviceAvailable capabilities branch systemPrompt tools 10 _ s).allPaired_iff ?_
  rw [items_user]
  exact ⟨rfl, trivial⟩

theorem meets_loadSubTools (serviceAvailable : Bool) (toolBindings : List (Assoc Value)) :
    (loadSubTools serviceAvailable toolBindings).Meets Cmd.IsAside (fun _ _ => True) fun _ => True := by
  unfold loadSubTools
  split
  · exact Prog.Meets.tryCatch ⟨trivial, fun _ _ => trivial, fun _ => trivial⟩ fun _ => trivial
  · trivial

theorem meets_getAvailableTools (context : SessionContext) (hasService hasSession : Bool) :
    (getAvailableTools context hasService hasSession).Meets Cmd.IsAside (fun _ _ => True) fun _ => True := by
  unfold getAvailableTools
  split
  · exact ⟨trivial, fun _ _ => trivial, fun _ => trivial⟩
  · trivial

theorem meets_getSubagentTools (hasSession : Bool) :
    (getSubagentTools hasSession).Meets Cmd.IsAside (fun _ _ => True) fun _ => True := by
  unfold getSubagentTools
  split
  · refine Prog.Meets.tryCatch ⟨trivial, fun _ _ => trivial, fun _ => trivial⟩ fun e => ?_
    cases e <;> trivial
  · trivial

end Runs

/-- The runs of the agent loop: for a message of the user, and for a sub-agent. -/
inductive AgentRun where
  | message (hasService hasSession : Bool) (context : SessionContext) (systemPrompt userMessage : String)
  | subagent (serviceAvailable : Bool) (tool : Tool) (userInput : String)

def AgentRun.program : AgentRun → Program (List AgentEvent)
  | .message hasService hasSession context systemPrompt userMessage =>
    processMessage hasService hasSession context systemPrompt userMessage
  | .subagent serviceAvailable tool userInput => executeSubagent serviceAvailable tool userInput

/-- In every request that the agent makes of its provider, results and calls are paired exactly when every response that
another request follows gives its calls distinct names and has these names for their ids. -/
theorem requests_paired_iff {σ : Type} (h : Prog.Handler Cmd Cmd.Answer Exc σ) (s : σ) (provider : Provider) (run : AgentRun) :
    AllPaired provider (exchanges h run.program s) ↔ NamedBefore (exchanges h run.program s) := by
  revert s
  change PairedIffNamed h provider run.program
  cases run with
  | message hasService hasSession context systemPrompt userMessage =>
    exact PairedIffNamed.after (meets_getAvailableTools context hasService hasSession) fun capabilities =>
      PairedIffNamed.after (meets_getSubagentTools hasSession) fun tools =>
        pairedIffNamed_processWithLlm _ capabilities context.branch systemPrompt userMessage _
  | subagent serviceAvailable tool userInput =>
    exact PairedIffNamed.after (meets_loadSubTools serviceAvailable _) fun tools =>
      PairedIffNamed.map (pairedIffNamed_processWithLlm serviceAvailable [] "main" _ userInput tools) _

def searchCapability : CapabilityDescriptor := ⟨"function", "ri.func.1", "search", "Search", none, [], "SAFETY_READ_ONLY"⟩

/-- A provider that gives these responses, in a tenant with one function. -/
def scripted : Prog.Handler Cmd Cmd.Answer Exc (List Response)
  | .chatWithTools .., r :: rs => (.ok r, rs)
  | .chatWithTools .., [] => (.error (.other "no response"), [])
  | .listCapabilities, rs => (.ok [searchCapability], rs)
  | .querySubAgents .., rs => (.ok ([] : List SubAgent), rs)
  | .chat .., rs => (.ok ([] : List String), rs)
  | .invoke _, rs => (.ok ([] : Assoc Value), rs)

/-- A tool is called with an id, as OpenAI and Anthropic give one to every call; then comes a text. -/
def searches : List Response :=
  [⟨"", [⟨"search", .dict [], some "call_1"⟩]⟩, ⟨"Found.", []⟩]

def asked : AgentRun := .message true true {} "" "Find it."

theorem result_unpaired : ¬ ∀ (h : Prog.Handler Cmd Cmd.Answer Exc (List Response)) (responses : List Response)
    (provider : Provider) (run : AgentRun), AllPaired provider (exchanges h run.program responses) := by
  intro h
  have hlast : ¬ ∀ x ∈ exchanges scripted asked.program searches, Paired (Provider.openai.items x.systemPrompt x.messages) := by
    decide
  exact hlast (h scripted searches .openai asked)

end Lingshu.Copilot
