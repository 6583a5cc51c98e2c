import Lingshu.Copilot.Dispatch
import Lingshu.Copilot.Pairing

/-! # Shell mode

What is executed while a message is processed, against the capabilities that shell mode keeps. -/
namespace Lingshu.Copilot
open Interaction Json
set_option autoImplicit false

/-- The call is of the method for the capability, and on its rid. -/
def Invocation.Executes (call : Invocation) (cap : CapabilityDescriptor) : Prop :=
  methodOf cap.type = some call.method ∧ call.args.head? = some (.value (.str cap.rid))

/-- If the command executes something, it is one of these. -/
def Cmd.Within (kept : List CapabilityDescriptor) : Cmd → Prop
  | .invoke call => ∃ cap ∈ kept, call.Executes cap
  | _ => True

section Loop
variable (serviceAvailable : Bool) (capabilities : List CapabilityDescriptor) (branch : String)

/-- A tool call executes a capability of the list, the first one of the name, or nothing. -/
theorem within_executeToolCall (toolName : String) (toolArgs : Value) :
    (executeToolCall toolName toolArgs capabilities branch).Meets (Cmd.Within capabilities) (fun _ _ => True)
      fun _ => True := by
  unfold executeToolCall
  split
  · trivial
  · rename_i cap hcap
    have hmem : cap ∈ capabilities := List.mem_of_find?_eq_some hcap
    have hinvoke : ∀ call : Invocation, call.Executes cap →
        (invoke call).Meets (Cmd.Within capabilities) (fun _ _ => True) fun _ => True :=
      fun _ hcall => ⟨⟨cap, hmem, hcall⟩, fun _ _ => trivial, fun _ => trivial⟩
    split
    · rename_i haction
      exact hinvoke _ ⟨if_pos haction, rfl⟩
    · split
      · rename_i haction hfunction
        exact hinvoke _ ⟨(if_neg haction).trans (if_pos hfunction), rfl⟩
      · trivial

theorem within_runToolCall (tc : ToolCall) :
    (runToolCall serviceAvailable capabilities branch tc).Meets (Cmd.Within capabilities) (fun _ _ => True)
      fun _ => True := by
  unfold runToolCall
  split
  · exact (within_executeToolCall capabilities branch tc.name tc.args).tryCatch fun _ => trivial
  · trivial

theorem within_runToolCalls (tcs : List ToolCall) :
    (runToolCalls serviceAvailable capabilities branch tcs).Meets (Cmd.Within capabilities) (fun _ _ => True)
      fun _ => True := by
  induction tcs with
  | nil => trivial
  | cons tc tcs ih =>
    exact (within_runToolCall serviceAvailable capabilities branch tc).bind fun _ _ => ih.bind fun _ _ => trivial

/-- Whatever tools are offered and named, one iteration after the other stays within the capabilities. -/
theorem within_agentLoop (systemPrompt : String) (tools : List Tool) (n : ℕ) (messages : List Message) :
    (agentLoop serviceAvailable capabilities branch systemPrompt tools n messages).Meets (Cmd.Within capabilities)
      (fun _ _ => True) fun _ => True := by
  induction n generalizing messages with
  | zero => trivial
  | succ n ih =>
    unfold agentLoop
    split
    · exact (Prog.Meets.perform trivial).bind fun _ _ => trivial
    · refine (Prog.Meets.perform trivial).bind fun response _ => ?_
      split
      · trivial
      · exact (within_runToolCalls serviceAvailable capabilities branch response.toolCalls).bind fun _ _ =>
          (ih _).bind fun _ _ => trivial

theorem within_processWithLlm (systemPrompt userMessage : String) (tools : List Tool) :
    (processWithLlm serviceAvailable capabilities branch systemPrompt userMessage tools).Meets
      (Cmd.Within capabilities) (fun _ _ => True) fun _ => True :=
  (within_agentLoop serviceAvailable capabilities branch systemPrompt tools 10 _).bind fun _ _ => trivial

end Loop

section Message
variable {σ : Type} (h : Prog.Handler Cmd Cmd.Answer Exc σ)

/-- The capabilities of the context are those kept of what was listed, or none. -/
theorem run_getAvailableTools {context : SessionContext} {hasService hasSession : Bool} {s s' : σ}
    {capabilities : List CapabilityDescriptor}
    (hrun : (getAvailableTools context hasService hasSession).run h s = (.ok capabilities, s')) :
    capabilities = [] ∨ ∃ listed : List CapabilityDescriptor,
      ⟨.listCapabilities, .ok listed⟩ ∈ (getAvailableTools context hasService hasSession).transcript h s ∧
        capabilities = context.capabilities listed := by
  unfold getAvailableTools at *
  split at hrun
  · rename_i havailable
    rw [if_pos havailable]
    right
    rw [Prog.bind_eq, ask, Prog.perform, Prog.call_bind] at *
    cases hanswer : h .listCapabilities s with
    | mk r s₁ =>
      cases r with
      | ok listed =>
        rw [Prog.run_call, hanswer] at hrun
        refine ⟨listed, ?_, (Except.ok.inj (congrArg Prod.fst hrun)).symm⟩
        rw [Prog.transcript, hanswer]
        exact List.mem_cons_self
      | error e =>
        rw [Prog.run_call, hanswer] at hrun
        cases hrun
  · exact .inl (Except.ok.inj (congrArg Prod.fst hrun)).symm

theorem within_getAvailableTools (context : SessionContext) (hasService hasSession : Bool) :
    (getAvailableTools context hasService hasSession).Meets (Cmd.Within []) (fun _ _ => True) fun _ => True := by
  unfold getAvailableTools
  split
  · exact ⟨trivial, fun _ _ => trivial, fun _ => trivial⟩
  · trivial

theorem within_getSubagentTools (hasSession : Bool) :
    (getSubagentTools hasSession).Meets (Cmd.Within []) (fun _ _ => True) fun _ => True := by
  unfold getSubagentTools
  split
  · refine Prog.Meets.tryCatch ⟨trivial, fun _ _ => trivial, fun _ => trivial⟩ fun e => ?_
    cases e <;> trivial
  · trivial

theorem not_within_nil {call : Invocation} : ¬ (Cmd.invoke call).Within [] := by
  rintro ⟨cap, hcap, -⟩
  exact List.not_mem_nil hcap

/-- What is executed for a message was listed before, and is one of what the context keeps of the list. -/
theorem executes_kept (hasService hasSession : Bool) (context : SessionContext) (systemPrompt userMessage : String)
    (s : σ) {x : (c : Cmd) × Except Exc c.Answer} {call : Invocation}
    (hx : x ∈ (processMessage hasService hasSession context systemPrompt userMessage).transcript h s)
    (hcall : x.1 = .invoke call) : ∃ listed : List CapabilityDescriptor, ⟨.listCapabilities, .ok listed⟩ ∈
        (processMessage hasService hasSession context systemPrompt userMessage).transcript h s ∧
      ∃ cap ∈ context.capabilities listed, call.Executes cap := by
  rw [processMessage, Prog.bind_eq, Prog.transcript_bind] at *
  rcases List.mem_append.mp hx with hx | hx
  · exact absurd (hcall ▸ (within_getAvailableTools context hasService hasSession).transcript h s x hx) not_within_nil
  cases hrun : (getAvailableTools context hasService hasSession).run h s with
  | mk r s₁ =>
    rw [hrun] at hx
    cases r with
    | error e => cases hx
    | ok capabilities =>
      have hwithin : (Cmd.invoke call).Within capabilities := by
        rw [← hcall]
        refine Prog.Meets.transcript h s₁ (Prog.Meets.bind (Q := fun _ => True) ?_ fun tools _ =>
          within_processWithLlm _ capabilities context.branch systemPrompt userMessage _) x hx
        refine (within_getSubagentTools hasSession).mono (fun c hc => ?_) (fun _ _ h => h) fun _ h => h
        cases c with
        | invoke => exact absurd hc not_within_nil
        | _ => trivial
      obtain ⟨cap, hcap, hexecutes⟩ := hwithin
      rcases run_getAvailableTools h hrun with rfl | ⟨listed, hlisted, rfl⟩
      · exact absurd hcap List.not_mem_nil
      · exact ⟨listed, List.mem_append_left _ hlisted, cap, hcap, hexecutes⟩

/-- In shell mode everything that is executed is what the filter keeps for the module: in the ontology module, functions
that are read-only. -/
theorem shell_confined (hasService hasSession : Bool) (module branch systemPrompt userMessage : String) (s : σ) :
    ∀ x ∈ (processMessage hasService hasSession ⟨"shell", module, branch⟩ systemPrompt userMessage).transcript h s,
      ∀ call, x.1 = .invoke call →
        ∃ listed : List CapabilityDescriptor, ⟨.listCapabilities, .ok listed⟩ ∈
            (processMessage hasService hasSession ⟨"shell", module, branch⟩ systemPrompt userMessage).transcript h s ∧
          ∃ cap ∈ filterCapabilitiesForShell listed module, call.Executes cap ∧
            (module = "ontology" → call.method = .executeFunction ∧ cap.safetyLevel = "SAFETY_READ_ONLY") := by
  intro x hx call hcall
  obtain ⟨listed, hlisted, cap, hcap, hexecutes⟩ :=
    executes_kept h hasService hasSession _ systemPrompt userMessage s hx hcall
  refine ⟨listed, hlisted, cap, hcap, hexecutes, ?_⟩
  rintro rfl
  obtain ⟨htype, hsafety⟩ : cap.type = "function" ∧ cap.safetyLevel = "SAFETY_READ_ONLY" := by
    simpa [SessionContext.capabilities, filterCapabilitiesForShell, shellModuleCapabilities] using
      (List.mem_filter.mp hcap).2
  refine ⟨?_, hsafety⟩
  have hmethod := hexecutes.1
  rw [htype] at hmethod
  exact (Option.some.inj hmethod).symm

end Message

/-- The call that the loop makes for the tool call of `searches`. -/
def searchCall : Invocation :=
  ⟨.executeFunction, [.value (.str "ri.func.1"), .value (.dict [])], [("branch", .value (.str "main"))]⟩

theorem shell_confined_search : ∃ listed : List CapabilityDescriptor, ⟨.listCapabilities, .ok listed⟩ ∈
      (processMessage true true ⟨"shell", "ontology", "main"⟩ "" "Find it.").transcript scripted searches ∧
    ∃ cap ∈ filterCapabilitiesForShell listed "ontology", searchCall.Executes cap ∧
      ("ontology" = "ontology" → searchCall.method = .executeFunction ∧ cap.safetyLevel = "SAFETY_READ_ONLY") :=
  shell_confined scripted true true "ontology" "main" "" "Find it." searches
    ⟨.invoke searchCall, .ok ([] : Assoc Value)⟩ (.tail _ (.tail _ (.tail _ (.head _)))) searchCall rfl

end Lingshu.Copilot
