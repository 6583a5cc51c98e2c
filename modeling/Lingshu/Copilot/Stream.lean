import Lingshu.Copilot.Pairing

/-! # The event stream of the agent

What the agent loop emits against what the provider returns to it. -/
namespace Lingshu.Copilot
open Interaction Json
set_option autoImplicit false

/-! ## Streams -/

/-- What a request of the provider returns. -/
inductive Output where
  | streamed (chunks : List String)
  | answered (response : Response)

/-- The pieces of text, of which the loop emits none that is empty but for chunks. -/
def Output.pieces : Output → List String
  | .streamed chunks => chunks
  | .answered response => if response.text = "" then [] else [response.text]

def Output.toolCalls : Output → List ToolCall
  | .streamed _ => []
  | .answered response => response.toolCalls

def output : (c : Cmd) × Except Exc c.Answer → Option Output
  | ⟨.chat .., .ok chunks⟩ => some (.streamed chunks)
  | ⟨.chatWithTools .., .ok response⟩ => some (.answered response)
  | _ => none

/-- What the provider returns to a program. -/
def outputs {σ α : Type} (h : Prog.Handler Cmd Cmd.Answer Exc σ) (p : Program α) (s : σ) : List Output :=
  (p.transcript h s).filterMap output

def AgentEvent.text? : AgentEvent → Option String
  | .textDelta content => some content
  | _ => none

/-- The events of tools are, for each call in turn, its start and right after it its end; text may stand between. -/
inductive Bracketed : List ToolCall → List AgentEvent → Prop where
  | nil : Bracketed [] []
  | text {tcs : List ToolCall} {events : List AgentEvent} (content : String) (rest : Bracketed tcs events) :
      Bracketed tcs (.textDelta content :: events)
  | call {tcs : List ToolCall} {events : List AgentEvent} (tc : ToolCall) (status : String)
      (hstatus : status = "success" ∨ status = "error") (rest : Bracketed tcs events) :
      Bracketed (tc :: tcs) (.toolStart tc.name tc.args :: .toolEnd tc.name status :: events)

/-- The stream of a run in which the provider returned `outs`. -/
structure Streams (outs : List Output) (events : List AgentEvent) : Prop where
  /-- One `done`, the last event; before it the tools of every call that the provider made, in order. -/
  ended : ∃ body, events = body ++ [.done] ∧ .done ∉ body ∧ Bracketed (outs.flatMap Output.toolCalls) body
  texts : events.filterMap AgentEvent.text? = outs.flatMap Output.pieces

section Bracketed
variable {tcs tcs' : List ToolCall} {events events' : List AgentEvent}

theorem Bracketed.append (h : Bracketed tcs events) (h' : Bracketed tcs' events') :
    Bracketed (tcs ++ tcs') (events ++ events') := by
  induction h with
  | nil => exact h'
  | text content _ ih => exact .text content ih
  | call tc status hstatus _ ih => exact .call tc status hstatus ih

theorem bracketed_texts (texts : List String) : Bracketed [] (texts.map .textDelta) := by
  induction texts with
  | nil => exact .nil
  | cons text texts ih => exact .text text ih

theorem Bracketed.done_notMem (h : Bracketed tcs events) : .done ∉ events := by
  induction h with
  | nil => exact List.not_mem_nil
  | text content _ ih => simpa using ih
  | call tc status _ _ ih => simpa using ih

theorem text_of_texts (texts : List String) : (texts.map AgentEvent.textDelta).filterMap AgentEvent.text? = texts := by
  rw [List.filterMap_map]
  exact List.filterMap_some

theorem textEvents_eq (text : String) :
    textEvents text = (if text = "" then [] else [text]).map AgentEvent.textDelta := by
  unfold textEvents
  split <;> rfl

end Bracketed

/-! ## The loop -/

section Loop
variable {σ : Type} {h : Prog.Handler Cmd Cmd.Answer Exc σ}
variable (serviceAvailable : Bool) (capabilities : List CapabilityDescriptor) (branch : String)

/-- The requests of the provider are answered, whatever becomes of other commands. -/
def ProviderReturns (h : Prog.Handler Cmd Cmd.Answer Exc σ) : Prop :=
  ∀ (c : Cmd) (s : σ), ¬ c.IsAside → ∃ a, (h c s).1 = .ok a

theorem outputs_of_asides {α : Type} {Q : α → Prop} {p : Program α} (hp : p.Meets Cmd.IsAside (fun _ _ => True) Q)
    (s : σ) : outputs h p s = [] := by
  refine List.filterMap_eq_nil_iff.mpr fun x hx => ?_
  have haside := hp.transcript h s x hx
  obtain ⟨c, r⟩ := x
  cases c with
  | chat | chatWithTools => exact haside.elim
  | _ => rfl

theorem outputs_bind_ok {α β : Type} {p : Program α} {a : α} {s s' : σ} (hp : p.run h s = (.ok a, s'))
    (f : α → Program β) : outputs h (p.bind f) s = outputs h p s ++ outputs h (f a) s' := by
  rw [outputs, Prog.transcript_bind_ok h s hp, List.filterMap_append]
  rfl

/-- A tool call returns something, whatever its method raises. -/
theorem returns_runToolCall (tc : ToolCall) (s : σ) :
    ∃ result s', (runToolCall serviceAvailable capabilities branch tc).run h s = (.ok result, s') := by
  unfold runToolCall
  split
  · rw [Prog.run_tryCatch]
    split
    · exact ⟨_, _, rfl⟩
    · exact ⟨_, _, rfl⟩
  · exact ⟨_, _, rfl⟩

theorem returns_runToolCalls (tcs : List ToolCall) (s : σ) :
    ∃ events results s', (runToolCalls serviceAvailable capabilities branch tcs).run h s = (.ok (events, results), s') ∧
      Bracketed tcs events ∧ events.filterMap AgentEvent.text? = [] := by
  induction tcs generalizing s with
  | nil => exact ⟨[], [], s, rfl, .nil, rfl⟩
  | cons tc tcs ih =>
    obtain ⟨result, s₁, hresult⟩ := returns_runToolCall (h := h) serviceAvailable capabilities branch tc s
    obtain ⟨events, results, s₂, hrest, hbracketed, htext⟩ := ih s₁
    refine ⟨_, { name := tc.name, result := result } :: results, s₂, ?_,
      .call tc (if "error" ∈ result.keys then "error" else "success") ?_ hbracketed, htext⟩
    · unfold runToolCalls
      rw [Prog.bind_eq, Prog.run_bind_ok h hresult, Prog.bind_eq, Prog.run_bind_ok h hrest]
      rfl
    · split
      · exact .inr rfl
      · exact .inl rfl

/-- From `s` the program asks the provider at most `n` times, returns, and emits what it is told, in order. -/
structure Emits (h : Prog.Handler Cmd Cmd.Answer Exc σ) (n : ℕ) (p : Program (List AgentEvent)) (s : σ) : Prop where
  bounded : (exchanges h p s).length ≤ n
  returns : ∃ events s', p.run h s = (.ok events, s') ∧
    Bracketed ((outputs h p s).flatMap Output.toolCalls) events ∧
    events.filterMap AgentEvent.text? = (outputs h p s).flatMap Output.pieces

theorem outputs_ask {c : Cmd} {s : σ} {a : c.Answer} (ha : (h c s).1 = .ok a) :
    outputs h (ask c) s = (output ⟨c, .ok a⟩).toList := by
  have htranscript : (ask c).transcript h s = [⟨c, .ok a⟩] := by
    unfold ask Prog.perform Prog.transcript
    rw [ha]
    rfl
  rw [outputs, htranscript, List.filterMap_cons]
  cases output ⟨c, .ok a⟩ <;> rfl

theorem exchanges_ask_length (c : Cmd) (s : σ) : (exchanges h (ask c) s).length ≤ 1 := by
  rw [ask, Prog.perform, exchanges_call]
  cases exchange ⟨c, (h c s).1⟩ <;> cases (h c s).1 <;> simp [exchanges]

/-- A request, after which the program returns what it emits for the answer. -/
theorem emits_answer {c : Cmd} {s : σ} {a : c.Answer} (ha : (h c s).1 = .ok a) {out : Output}
    (hout : output ⟨c, .ok a⟩ = some out) (n : ℕ) {f : c.Answer → Program (List AgentEvent)} {events : List AgentEvent}
    (hf : f a = .pure events) (hbracketed : Bracketed out.toolCalls events)
    (htext : events.filterMap AgentEvent.text? = out.pieces) : Emits h (n + 1) ((ask c).bind f) s := by
  have hask : (ask c).run h s = (.ok a, (h c s).2) := by rw [ask, Prog.run_perform, ← ha]
  have houtputs : outputs h ((ask c).bind f) s = [out] := by
    rw [outputs_bind_ok hask, outputs_ask ha, hout, hf]
    rfl
  refine ⟨?_, events, (h c s).2, ?_, ?_, ?_⟩
  · rw [exchanges_bind_ok h hask, hf, exchanges_pure, List.append_nil]
    exact Nat.le_trans (exchanges_ask_length c s) (Nat.le_add_left 1 n)
  · rw [Prog.run_bind_ok h hask, hf]
    rfl
  · rwa [houtputs, List.flatMap_singleton]
  · rwa [houtputs, List.flatMap_singleton]

/-- A response with tool calls, which are executed before the next iteration. -/
theorem emits_turn {systemPrompt : String} {tools : List Tool} {messages : List Message} {s : σ} {response : Response}
    (ha : (h (.chatWithTools systemPrompt messages tools) s).1 = .ok response) {n : ℕ}
    (ih : ∀ messages s, Emits h n (agentLoop serviceAvailable capabilities branch systemPrompt tools n messages) s)
    {f : (Cmd.chatWithTools systemPrompt messages tools).Answer → Program (List AgentEvent)}
    (hf : f response = (runToolCalls serviceAvailable capabilities branch response.toolCalls).bind fun out =>
      (agentLoop serviceAvailable capabilities branch systemPrompt tools n (messages ++ turn response out.2)).bind
        fun rest => .pure (textEvents response.text ++ out.1 ++ rest)) :
    Emits h (n + 1) ((ask (.chatWithTools systemPrompt messages tools)).bind f) s := by
  generalize hs₁ : (h (.chatWithTools systemPrompt messages tools) s).2 = s₁
  have hask : (ask (.chatWithTools systemPrompt messages tools)).run h s = (.ok response, s₁) := by
    rw [ask, Prog.run_perform, ← hs₁, ← ha]
  obtain ⟨events, results, s₂, htools, hbracketed, hnotext⟩ :=
    returns_runToolCalls (h := h) serviceAvailable capabilities branch response.toolCalls s₁
  have hmeets := meets_runToolCalls serviceAvailable capabilities branch response.toolCalls
  obtain ⟨hbound, rest, s₃, hrest, hrestBracketed, hrestText⟩ := ih (messages ++ turn response results) s₂
  have houtputs : outputs h ((ask (.chatWithTools systemPrompt messages tools)).bind f) s = .answered response ::
      outputs h (agentLoop serviceAvailable capabilities branch systemPrompt tools n
        (messages ++ turn response results)) s₂ := by
    rw [outputs_bind_ok hask, outputs_ask ha, hf, outputs_bind_ok htools, outputs_of_asides hmeets,
      outputs_bind_ok hrest]
    exact congrArg (_ :: ·) (List.append_nil _)
  refine ⟨?_, textEvents response.text ++ events ++ rest, s₃, ?_, ?_, ?_⟩
  · rw [exchanges_bind_ok h hask, hf, exchanges_bind_ok h htools, exchanges_of_asides h hmeets, List.nil_append,
      exchanges_map, List.length_append, Nat.add_comm]
    exact Nat.add_le_add hbound (exchanges_ask_length _ s)
  · rw [Prog.run_bind_ok h hask, hf, Prog.run_bind_ok h htools, Prog.run_bind_ok h hrest]
    rfl
  · rw [houtputs, List.flatMap_cons, textEvents_eq]
    exact ((bracketed_texts _).append hbracketed).append hrestBracketed
  · rw [houtputs, List.flatMap_cons, List.filterMap_append, List.filterMap_append, hnotext, hrestText, textEvents_eq,
      text_of_texts, List.append_nil]
    rfl

theorem emits_agentLoop (hprovider : ProviderReturns h) (systemPrompt : String) (tools : List Tool) (n : ℕ)
    (messages : List Message) (s : σ) :
    Emits h n (agentLoop serviceAvailable capabilities branch systemPrompt tools n messages) s := by
  induction n generalizing messages s with
  | zero => exact ⟨Nat.le_refl 0, [], s, rfl, .nil, rfl⟩
  | succ n ih =>
    unfold agentLoop
    by_cases htools : tools = []
    · rw [if_pos htools]
      obtain ⟨chunks, hchunks⟩ := hprovider (.chat systemPrompt messages none) s id
      exact emits_answer hchunks rfl n rfl (bracketed_texts chunks) (text_of_texts chunks)
    · rw [if_neg htools]
      obtain ⟨response, hresponse⟩ := hprovider (.chatWithTools systemPrompt messages tools) s id
      change Response at response
      by_cases hcalls : response.toolCalls = []
      · refine emits_answer hresponse rfl n (if_pos hcalls) ?_ ?_
        · rw [Output.toolCalls, hcalls, textEvents_eq]
          exact bracketed_texts _
        · rw [textEvents_eq]
          exact text_of_texts _
      · exact emits_turn serviceAvailable capabilities branch hresponse ih (if_neg hcalls)

/-- A program that emits, closed by `done`. -/
theorem Emits.closed {n : ℕ} {p : Program (List AgentEvent)} {s : σ} (hp : Emits h n p s) :
    (exchanges h (p.bind fun body => pure (body ++ [.done])) s).length ≤ n ∧
    ∃ events s', (p.bind fun body => pure (body ++ [.done])).run h s = (.ok events, s') ∧
      Streams (outputs h (p.bind fun body => pure (body ++ [.done])) s) events := by
  obtain ⟨hbound, body, s', hrun, hbracketed, htext⟩ := hp
  have houtputs : outputs h (p.bind fun body => pure (body ++ [.done])) s = outputs h p s := by
    rw [outputs_bind_ok hrun]
    exact List.append_nil _
  refine ⟨?_, body ++ [.done], s', ?_, ⟨body, rfl, hbracketed.done_notMem, houtputs ▸ hbracketed⟩, ?_⟩
  · exact (exchanges_map h _ _ s).symm ▸ hbound
  · rw [Prog.run_bind_ok h hrun]
    rfl
  · rw [houtputs, List.filterMap_append, htext]
    exact List.append_nil _

/-- The agent loop asks at most ten times, and its stream is well formed, whatever the provider returns and whatever
becomes of the tools. -/
theorem processWithLlm_streams (hprovider : ProviderReturns h) (systemPrompt userMessage : String) (tools : List Tool)
    (s : σ) :
    (exchanges h (processWithLlm serviceAvailable capabilities branch systemPrompt userMessage tools) s).length ≤ 10 ∧
    ∃ events s', (processWithLlm serviceAvailable capabilities branch systemPrompt userMessage tools).run h s =
        (.ok events, s') ∧
      Streams (outputs h (processWithLlm serviceAvailable capabilities branch systemPrompt userMessage tools) s)
        events := by
  obtain ⟨hbound, body, s', hrun, hbracketed, htext⟩ := emits_agentLoop serviceAvailable capabilities branch hprovider
    systemPrompt tools 10 [{ role := some "user", content := some userMessage }] s
  have houtputs : outputs h (processWithLlm serviceAvailable capabilities branch systemPrompt userMessage tools) s =
      outputs h (agentLoop serviceAvailable capabilities branch systemPrompt tools 10
        [{ role := some "user", content := some userMessage }]) s := by
    rw [processWithLlm, Prog.bind_eq, outputs_bind_ok hrun]
    exact List.append_nil _
  refine ⟨?_, body ++ [.done], s', ?_, ⟨body, rfl, hbracketed.done_notMem, ?_⟩, ?_⟩
  · rw [processWithLlm, Prog.bind_eq]
    exact (exchanges_map h _ _ s).symm ▸ hbound
  · rw [processWithLlm, Prog.bind_eq, Prog.run_bind_ok h hrun]
    rfl
  · rwa [houtputs]
  · rw [houtputs, List.filterMap_append, htext]
    exact List.append_nil _

/-! ## Messages and sub-agents -/

variable {serviceAvailable capabilities branch}

/-- What precedes the loop asks the provider nothing. -/
theorem streams_after {α : Type} {Q : α → Prop} {p : Program α} {f : α → Program (List AgentEvent)}
    (hp : p.Meets Cmd.IsAside (fun _ _ => True) Q)
    (hf : ∀ a s, (exchanges h (f a) s).length ≤ 10 ∧
      ∀ events s', (f a).run h s = (.ok events, s') → Streams (outputs h (f a) s) events) (s : σ) :
    (exchanges h (p.bind f) s).length ≤ 10 ∧
      ∀ events s', (p.bind f).run h s = (.ok events, s') → Streams (outputs h (p.bind f) s) events := by
  cases hrun : p.run h s with
  | mk r s₁ =>
    cases r with
    | ok a =>
      rw [exchanges_bind_ok h hrun, exchanges_of_asides h hp, outputs_bind_ok hrun, outputs_of_asides hp,
        Prog.run_bind_ok h hrun]
      exact hf a s₁
    | error e =>
      rw [exchanges_bind_error h hrun, exchanges_of_asides h hp, Prog.run_bind_error h hrun]
      exact ⟨Nat.zero_le 10, nofun⟩

theorem processMessage_streams (hprovider : ProviderReturns h) (hasService hasSession : Bool) (context : SessionContext)
    (systemPrompt userMessage : String) (s : σ) :
    (exchanges h (processMessage hasService hasSession context systemPrompt userMessage) s).length ≤ 10 ∧
      ∀ events s', (processMessage hasService hasSession context systemPrompt userMessage).run h s = (.ok events, s') →
        Streams (outputs h (processMessage hasService hasSession context systemPrompt userMessage) s) events := by
  refine streams_after (meets_getAvailableTools context hasService hasSession) (fun capabilities s => ?_) s
  refine streams_after (meets_getSubagentTools hasSession) (fun tools s => ?_) s
  obtain ⟨hbound, events, s', hrun, hstreams⟩ := (emits_agentLoop (hasService && hasSession) capabilities
    context.branch hprovider systemPrompt (buildToolSchemas capabilities ++ tools) 10
    [{ role := some "user", content := some userMessage }] s).closed
  refine ⟨hbound, fun other s'' hother => ?_⟩
  obtain rfl := Except.ok.inj (congrArg Prod.fst (hrun.symm.trans hother))
  exact hstreams

theorem Bracketed.wrap {tcs : List ToolCall} {events : List AgentEvent} (hevents : Bracketed tcs events)
    (name : String) : Bracketed tcs (events.flatMap (wrapNested name)) := by
  induction hevents with
  | nil => exact .nil
  | text content _ ih => exact .text _ ih
  | call tc status hstatus _ ih => exact .call tc status hstatus ih

/-- A sub-agent's stream stands between its own start and end, and does not end the stream of its parent. -/
theorem executeSubagent_brackets (hprovider : ProviderReturns h) (tool : Tool) (userInput : String) {s s' : σ}
    {events : List AgentEvent} (hrun : (executeSubagent serviceAvailable tool userInput).run h s = (.ok events, s')) :
    ∃ nested tcs, events =
        .toolStart tool.name (.dict [("input", .str userInput)]) :: nested ++ [.toolEnd tool.name "success"] ∧
      Bracketed tcs nested := by
  unfold executeSubagent at hrun
  split at hrun
  rename_i systemPrompt toolBindings _
  rw [Prog.bind_eq] at hrun
  cases hload : (loadSubTools serviceAvailable toolBindings).run h s with
  | mk r s₁ =>
    cases r with
    | error e =>
      rw [Prog.run_bind_error h hload] at hrun
      cases hrun
    | ok tools =>
      obtain ⟨-, nested, s₂, hnested, ⟨body, rfl, -, hbracketed⟩, -⟩ :=
        (emits_agentLoop serviceAvailable [] "main" hprovider
          (orText systemPrompt ("You are " ++ tool.name ++ ", a specialized sub-agent.")) tools 10
          [{ role := some "user", content := some userInput }] s₁).closed
      rw [Prog.run_bind_ok h hload, Prog.bind_eq, processWithLlm, Prog.bind_eq] at hrun
      rw [Prog.run_bind_ok h hnested] at hrun
      obtain rfl := Except.ok.inj (congrArg Prod.fst hrun)
      refine ⟨body.flatMap (wrapNested tool.name), _, ?_, hbracketed.wrap tool.name⟩
      rw [List.flatMap_append, List.flatMap_singleton]
      exact congrArg (_ :: · ++ _) (List.append_nil _)

end Loop

/-- A provider that gives these responses and then an empty one, while every method raises. -/
def answering : Prog.Handler Cmd Cmd.Answer Exc (List Response)
  | .chatWithTools .., r :: rs => (.ok r, rs)
  | .chatWithTools .., [] => (.ok ⟨"", []⟩, [])
  | .chat .., rs => (.ok ["Hello"], rs)
  | .listCapabilities, rs => (.ok [searchCapability], rs)
  | .querySubAgents .., rs => (.ok ([] : List SubAgent), rs)
  | .invoke _, rs => (.error (.runtimeError "unavailable"), rs)

theorem answering_returns : ProviderReturns answering := by
  intro c s hc
  cases c with
  | chat => exact ⟨_, rfl⟩
  | chatWithTools => cases s <;> exact ⟨_, rfl⟩
  | listCapabilities | querySubAgents | invoke => exact absurd trivial hc

theorem processWithLlm_streams_answering :
    (exchanges answering (processWithLlm true [searchCapability] "main" "" "find it" [makeToolSchema searchCapability])
      searches).length ≤ 10 ∧
    ∃ events s', (processWithLlm true [searchCapability] "main" "" "find it" [makeToolSchema searchCapability]).run
        answering searches = (.ok events, s') ∧
      Streams (outputs answering
        (processWithLlm true [searchCapability] "main" "" "find it" [makeToolSchema searchCapability]) searches)
        events :=
  processWithLlm_streams true [searchCapability] "main" answering_returns "" "find it" [makeToolSchema searchCapability]
    searches

end Lingshu.Copilot
