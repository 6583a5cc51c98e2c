import Lingshu.Copilot.Agent

/-! # Where tool calls end

The tools that are offered to the provider against the calls that the agent loop makes for them. -/
namespace Lingshu.Copilot
open Interaction Json
set_option autoImplicit false

/-! ## Calls of the services -/

/-- The parameters of a method after `self`: those without defaults, by position or name, and those by name only. -/
structure Signature where
  params : List String
  keywordOnly : List String

/-- The methods of `FunctionServiceImpl` and of the workflow service. -/
def Method.signature : Method → Signature
  | .executeAction => ⟨["action_type_rid", "params", "session"], ["branch", "skip_confirmation"]⟩
  | .executeFunction => ⟨["rid", "params", "session"], ["branch"]⟩
  | .executeWorkflow => ⟨["rid", "inputs", "session"], []⟩

/-- Python binds the arguments: each to one parameter, and each parameter without default has one. -/
def Signature.Accepts (signature : Signature) (positional : ℕ) (keywords : List String) : Prop :=
  positional ≤ signature.params.length ∧ keywords.Nodup ∧
    (∀ name ∈ keywords, name ∈ signature.params.drop positional ++ signature.keywordOnly) ∧
    ∀ name ∈ signature.params.drop positional, name ∈ keywords

instance (signature : Signature) (positional : ℕ) (keywords : List String) :
    Decidable (signature.Accepts positional keywords) := inferInstanceAs (Decidable (_ ∧ _ ∧ _ ∧ _))

def Invocation.Accepted (call : Invocation) : Prop := call.method.signature.Accepts call.args.length call.kwargs.keys

/-- The method that executes a capability of a type. -/
def methodOf (type : String) : Option Method :=
  if type = "action" then some .executeAction
  else if type = "function" then some .executeFunction
  else if type = "workflow" then some .executeWorkflow
  else none

/-! ## Routes -/

def SchemaType.Admits : SchemaType → Value → Prop
  | .string, .str _ | .integer, .int _ | .boolean, .bool _ | .number, .int _ | .number, .float _ => True
  | _, _ => False

/-- The arguments are an object with the required keys, and values of the types of the schema. -/
def Tool.Matches (tool : Tool) (args : Value) : Prop :=
  ∃ entries : Assoc Value, args = .dict entries ∧ (∀ name ∈ tool.required, name ∈ entries.keys) ∧
    ∀ name v schema, (name, v) ∈ entries → tool.properties.lookup name = some schema → schema.type.Admits v

/-- The program calls what the tool was made from with these arguments, whatever it makes of an exception. -/
def Tool.RoutedTo (tool : Tool) (args : Value) (p : Program (Assoc Value)) : Prop :=
  match tool.metadata with
  | .capability type rid _ => ∃ (call : Invocation) (recover : Exc → Program (Assoc Value)) (rest : List Argument),
      p = (invoke call).tryCatch recover ∧ call.Accepted ∧ methodOf type = some call.method ∧
        call.args = .value (.str rid) :: .value args :: rest
  | .subagent .. => ∃ (input : String) (result : List AgentEvent → Assoc Value) (recover : Exc → Program (Assoc Value)),
      (∃ entries : Assoc Value, args = .dict entries ∧ entries.lookup "input" = some (.str input)) ∧
        p = ((executeSubagent true tool input).bind fun events => .pure (result events)).tryCatch recover

/-- The tools have distinct names, and a call that matches the schema of a tool is routed to what it was made from. -/
def Dispatchable (tools : List Tool) (capabilities : List CapabilityDescriptor) (branch : String) : Prop :=
  (tools.map Tool.name).Nodup ∧ ∀ tool ∈ tools, ∀ args, tool.Matches args →
    ∀ callId, tool.RoutedTo args (runToolCall true capabilities branch ⟨tool.name, args, callId⟩)

/-- The sub-agents that are loaded. -/
def Registry.enabledAgents (registry : Registry) : List SubAgent := (registry.subAgents.take 100).filter SubAgent.enabled

/-- What the agent offers its provider in a context. -/
def Registry.offered (registry : Registry) (context : SessionContext) : List Tool :=
  buildToolSchemas (context.capabilities registry.listCapabilities) ++ registry.enabledAgents.map loadAsTool

/-- The tools of a message, and those of the nested run of each sub-agent. -/
def Registry.AllDispatchable (registry : Registry) (context : SessionContext) : Prop :=
  Dispatchable (registry.offered context) (context.capabilities registry.listCapabilities) context.branch ∧
    ∀ agent ∈ registry.enabledAgents, Dispatchable (subTools agent.toolBindings registry.listCapabilities) [] "main"

/-! ## What the loop makes of a tool call -/

section Head
variable {α β : Type}

theorem head_bind {p : Program α} {c : Cmd} (h : p.head = some c) (f : α → Program β) : (p.bind f).head = some c := by
  cases p with
  | call => exact h
  | pure | throw => cases h

theorem head_tryCatch {p : Program α} {c : Cmd} (h : p.head = some c) (f : Exc → Program α) :
    (p.tryCatch f).head = some c := by
  cases p with
  | call => exact h
  | pure | throw => cases h

end Head

theorem executeAction_requires : ¬ Method.executeAction.signature.Accepts 2 ["branch", "skip_confirmation"] := by decide

theorem executeFunction_requires : ¬ Method.executeFunction.signature.Accepts 2 ["branch"] := by decide

/-- No call of the loop passes the session that every method requires. -/
theorem head_runToolCall (capabilities : List CapabilityDescriptor) (branch : String) (tc : ToolCall) :
    (runToolCall true capabilities branch tc).head = none ∨
      ∃ call, (runToolCall true capabilities branch tc).head = some (.invoke call) ∧ ¬ call.Accepted := by
  have hrun : runToolCall true capabilities branch tc = (executeToolCall tc.name tc.args capabilities branch).tryCatch
      fun e => return [("error", .str e.text)] := rfl
  rw [hrun]
  unfold executeToolCall
  split
  · exact .inl rfl
  · split
    · exact .inr ⟨_, rfl, executeAction_requires⟩
    · split
      · exact .inr ⟨_, rfl, executeFunction_requires⟩
      · exact .inl rfl

/-- A sub-agent starts with a request of the provider, or by looking for its tools. -/
theorem head_executeSubagent (tool : Tool) (input : String) :
    ∃ c, (executeSubagent true tool input).head = some c ∧ ∀ call, c ≠ .invoke call := by
  obtain ⟨toolBindings, systemPrompt, hload⟩ : ∃ toolBindings systemPrompt, executeSubagent true tool input =
      (loadSubTools true toolBindings).bind fun tools =>
        (processWithLlm true [] "main" systemPrompt input tools).bind fun nested =>
          .pure (.toolStart tool.name (.dict [("input", .str input)]) :: nested.flatMap (wrapNested tool.name) ++
            [.toolEnd tool.name "success"]) := by
    unfold executeSubagent
    split
    rename_i systemPrompt toolBindings _
    exact ⟨toolBindings, _, rfl⟩
  rw [hload]
  by_cases hbindings : toolBindings = []
  · rw [hbindings]
    exact ⟨_, rfl, fun call h => nomatch h⟩
  · have htools : loadSubTools true toolBindings = Prog.tryCatch (do
        let capabilities ← (ask .listCapabilities : Program (List CapabilityDescriptor))
        return subTools toolBindings capabilities) fun _ => return [] := if_pos ⟨hbindings, rfl⟩
    rw [htools]
    exact ⟨_, rfl, fun call h => nomatch h⟩

theorem not_routedTo (tool : Tool) (args : Value) (capabilities : List CapabilityDescriptor) (branch : String) (tc : ToolCall) :
    ¬ tool.RoutedTo args (runToolCall true capabilities branch tc) := by
  have hhead := head_runToolCall capabilities branch tc
  intro hrouted
  unfold Tool.RoutedTo at hrouted
  split at hrouted
  · obtain ⟨call, recover, rest, hp, haccepted, -⟩ := hrouted
    rw [hp] at hhead
    rcases hhead with hnone | ⟨call', hcall, hrefused⟩
    · cases hnone
    · cases hcall
      exact hrefused haccepted
  · obtain ⟨input, result, recover, -, hp⟩ := hrouted
    obtain ⟨c, hc, hinvoke⟩ := head_executeSubagent tool input
    rw [hp, head_tryCatch (head_bind hc _) recover] at hhead
    rcases hhead with hnone | ⟨call, hcall, -⟩
    · cases hnone
    · exact hinvoke call (Option.some.inj hcall)

/-! ## Offered tools -/

def SchemaType.sample : SchemaType → Value
  | .string => .str ""
  | .integer => .int 0
  | .boolean => .bool false
  | .number => .int 0

theorem SchemaType.admits_sample (t : SchemaType) : t.Admits t.sample := by
  cases t <;> trivial

/-- A tool whose required properties are declared can be called. -/
theorem Tool.exists_matches {tool : Tool} (h : ∀ name ∈ tool.required, name ∈ tool.properties.keys) :
    ∃ args, tool.Matches args := by
  let sample : String → Value := fun name => ((tool.properties.lookup name).map fun p => p.type.sample).getD .null
  refine ⟨_, tool.properties.keys.map fun name => (name, sample name), rfl, ?_, ?_⟩
  · intro name hname
    rw [Assoc.keys_map_self]
    exact h name hname
  · intro name v schema hmem hschema
    obtain ⟨name', _, heq⟩ := List.mem_map.mp hmem
    obtain ⟨rfl, rfl⟩ := Prod.mk.inj heq
    have hsample : sample name' = schema.type.sample := by simp [sample, hschema]
    rw [hsample]
    exact schema.type.admits_sample

theorem exists_matches_makeToolSchema (cap : CapabilityDescriptor) : ∃ args, (makeToolSchema cap).Matches args := by
  refine Tool.exists_matches fun name hname => ?_
  obtain ⟨param, hparam, rfl⟩ := List.mem_map.mp hname
  change param.apiName ∈ (Assoc.ofEntries (cap.parameters.map fun param => (param.apiName, param.schema))).keys
  rw [Assoc.keys_ofEntries, Assoc.mem_keysOf, List.map_map]
  exact List.mem_map_of_mem (f := Prod.fst ∘ _) (List.mem_filter.mp hparam).1

theorem exists_matches_loadAsTool (agent : SubAgent) : ∃ args, (loadAsTool agent).Matches args :=
  Tool.exists_matches fun _ hname => hname

theorem Registry.exists_matches {registry : Registry} {context : SessionContext} {tool : Tool}
    (h : tool ∈ registry.offered context) : ∃ args, tool.Matches args := by
  rcases List.mem_append.mp h with h | h
  · obtain ⟨cap, _, rfl⟩ := List.mem_map.mp h
    exact exists_matches_makeToolSchema cap
  · obtain ⟨agent, _, rfl⟩ := List.mem_map.mp h
    exact exists_matches_loadAsTool agent

/-- The offered tools are dispatchable exactly when none is offered. -/
theorem offered_dispatchable_iff (registry : Registry) (context : SessionContext) :
    registry.AllDispatchable context ↔
      context.capabilities registry.listCapabilities = [] ∧ registry.enabledAgents = [] := by
  constructor
  · rintro ⟨⟨-, hrouted⟩, -⟩
    have hnone : registry.offered context = [] := by
      refine List.eq_nil_iff_forall_not_mem.mpr fun tool htool => ?_
      obtain ⟨args, hargs⟩ := registry.exists_matches htool
      exact not_routedTo tool args _ _ _ (hrouted tool htool args hargs none)
    obtain ⟨hcapabilities, hagents⟩ := List.append_eq_nil_iff.mp hnone
    exact ⟨List.map_eq_nil_iff.mp hcapabilities, List.map_eq_nil_iff.mp hagents⟩
  · rintro ⟨hcapabilities, hagents⟩
    have hnone : registry.offered context = [] := by
      rw [Registry.offered, hcapabilities, hagents]
      rfl
    constructor
    · rw [Dispatchable, hnone]
      exact ⟨List.nodup_nil, fun _ htool => (nomatch htool)⟩
    · rw [hagents]
      exact fun agent hagent => nomatch hagent

/-- A tenant with one function. -/
def oneFunction : Registry := ⟨[⟨"ri.func.1", "search", "Search", none, []⟩], [], [], []⟩

theorem function_not_dispatched : ¬ ∀ (registry : Registry) (context : SessionContext), registry.AllDispatchable context := by
  intro h
  obtain ⟨⟨-, hrouted⟩, -⟩ := h oneFunction {}
  have hmatches : (makeToolSchema ⟨"function", "ri.func.1", "search", "Search", none, [], "SAFETY_READ_ONLY"⟩).Matches (.dict []) :=
    ⟨[], rfl, fun _ hname => (nomatch hname), fun _ _ _ hmem => (nomatch hmem)⟩
  exact not_routedTo _ _ _ _ _ (hrouted _ List.mem_cons_self _ hmatches none)

end Lingshu.Copilot
