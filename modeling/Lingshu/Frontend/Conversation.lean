import Lingshu.Copilot.Stream
import Lingshu.Frontend.Chat

/-! # From the provider to the panel

The agent, the service, the connection and the hook one after the other: what a provider returns for a message is what
the panel shows. -/
namespace Lingshu.Frontend
open Interaction Json
open Copilot (AgentEvent Bracketed Output ToolCall)
open Copilot.Sessions
set_option autoImplicit false

/-! ## The events of the agent -/

/-- An event as the agent gives it to the service. -/
def raw : AgentEvent → Assoc Value
  | .textDelta content => [("type", .str "text_delta"), ("content", .str content)]
  | .toolStart toolName params => [("type", .str "tool_start"), ("tool_name", .str toolName), ("params", params)]
  | .toolEnd toolName status => [("type", .str "tool_end"), ("tool_name", .str toolName), ("status", .str status)]
  | .done => [("type", .str "done")]

/-- What the service sends of it. -/
def passedOn : AgentEvent → Option (EventType × Assoc Value)
  | .textDelta content => some (.textDelta, [("content", .str content)])
  | .toolStart toolName params => some (.toolStart, [("tool_name", .str toolName), ("params", params)])
  | .toolEnd toolName status => some (.toolEnd, [("tool_name", .str toolName), ("status", .str status)])
  | .done => none

theorem tells_raw (events : List AgentEvent) : Tells (events.map raw) := by
  intro event he htype
  obtain ⟨e, _, rfl⟩ := List.mem_map.mp he
  cases e with
  | textDelta content => exact ⟨content, rfl⟩
  | toolStart | toolEnd | done => exact absurd htype (by simp [raw])

section Service
variable (ctx : Ctx) (sessionId : String)

theorem sends_append (xs ys : List ((c : Cmd) × Except Exc c.Answer)) : sends (xs ++ ys) = sends xs ++ sends ys :=
  List.filterMap_append

theorem showEvent_raw (e : AgentEvent) : showEvent (raw e) = (passedOn e).elim (.pure ()) fun x => render x.1 x.2 := by
  cases e <;> rfl

/-- One event on its way. -/
theorem run_showEvent (e : AgentEvent) (s : Server) : ∃ s', (showEvent (raw e)).run Cmd.exec s = (.ok (), s') ∧
    sends ((showEvent (raw e)).transcript Cmd.exec s) = (passedOn e).toList := by
  rw [showEvent_raw]
  cases passedOn e with
  | none => exact ⟨s, rfl, rfl⟩
  | some x => exact ⟨_, rfl, rfl⟩

theorem run_stream (context : Assoc Value) (events : List AgentEvent) (s : Server) :
    ∃ s', (stream ctx sessionId context (events.map raw)).run Cmd.exec s = (.ok false, s') ∧
      sends ((stream ctx sessionId context (events.map raw)).transcript Cmd.exec s) =
        events.filterMap passedOn ++ [(.done, [])] := by
  induction events generalizing s with
  | nil => exact ⟨_, rfl, rfl⟩
  | cons e events ih =>
    obtain ⟨s₁, hshow, hsent⟩ := run_showEvent e s
    obtain ⟨s₂, hrest, hsentRest⟩ := ih s₁
    have hgo : ¬ (entry (raw e) "type" (.str "") = .str "interrupt") := by cases e <;> simp [raw, entry]
    rw [List.map_cons, stream, if_neg hgo]
    refine ⟨s₂, ?_, ?_⟩
    · rw [Prog.bind_eq, Prog.run_bind_ok _ hshow]
      exact hrest
    · rw [Prog.bind_eq, Prog.transcript_bind_ok _ _ hshow, sends_append, hsent, hsentRest, List.filterMap_cons]
      cases passedOn e <;> rfl

theorem run_ensureTitle (row : CopilotSession) (content : String) (s : Server) : ∃ s',
    (ensureTitle ctx sessionId row content).run Cmd.exec s = (.ok (), s') ∧ s'.world = s.world := by
  unfold ensureTitle
  split
  · exact ⟨_, rfl, rfl⟩
  · exact ⟨s, rfl, rfl⟩

variable {ctx sessionId} {s : Server}

theorem run_getSession {row : CopilotSession} (h : s.table.getById sessionId ctx.tenantId = some row) :
    (getSession ctx sessionId).run Cmd.exec s = (.ok row, s) := by
  have hask : (ask (.getById sessionId ctx.tenantId) : Program (Option CopilotSession)).run Cmd.exec s =
      (.ok (some row), s) := by
    rw [ask, Prog.run_perform, Cmd.exec, h]
  rw [getSession, Prog.bind_eq, Prog.run_bind_ok _ hask]
  rfl

/-- A message that the agent answers. -/
theorem sends_sendMessage {row : CopilotSession} (h : s.table.getById sessionId ctx.tenantId = some row)
    {content : String} {events : List AgentEvent}
    (hagent : s.world.processMessage (buildContext row.mode row.context) content = .ok (events.map raw)) :
    sends ((sendMessage ctx sessionId content).transcript Cmd.exec s) = events.filterMap passedOn ++ [(.done, [])] := by
  obtain ⟨s₁, htitle, hworld⟩ := run_ensureTitle ctx sessionId row content s
  have hask : (ask (.processMessage (buildContext row.mode row.context) content) :
      Program (List (Assoc Value))).run Cmd.exec s₁ = (.ok (events.map raw), s₁) := by
    rw [ask, Prog.run_perform, Cmd.exec, hworld, hagent]
    rfl
  obtain ⟨s₂, hstream, hsent⟩ := run_stream ctx sessionId row.context events s₁
  have hconverse : (converse ctx sessionId row content).run Cmd.exec s₁ = (.ok false, s₂) := by
    rw [converse, Prog.bind_eq, Prog.run_bind_ok _ hask]
    exact hstream
  have hsends : sends ((converse ctx sessionId row content).transcript Cmd.exec s₁) =
      events.filterMap passedOn ++ [(.done, [])] := by
    rw [converse, Prog.bind_eq, Prog.transcript_bind_ok _ _ hask, sends_append, hsent, (silent_ask rfl).sends]
    rfl
  have hcaught : ((converse ctx sessionId row content).tryCatch showError).run Cmd.exec s₁ = (.ok false, s₂) := by
    rw [Prog.run_tryCatch, hconverse]
  rw [sendMessage, Prog.bind_eq, Prog.transcript_bind_ok _ _ (run_getSession h), Prog.bind_eq,
    Prog.transcript_bind_ok _ _ htitle, process, Prog.bind_eq, Prog.transcript_bind_ok _ _ hcaught,
    Prog.transcript_tryCatch_ok _ hconverse, sends_append, sends_append, sends_append, silent_getSession.sends,
    (silent_ensureTitle row content).sends, hsends, if_neg Bool.false_ne_true, touch, (silent_setFields _).sends,
    List.append_nil]
  rfl

end Service

/-! ## The reply -/

/-- The type of an event that the panel shows, and the tool that it names. -/
def labelOf (x : Option Value × Value) : Option Value × Option Value := (x.1, property x.2 "tool_name")

/-- A call is shown as its start and its end. -/
def labels (tc : ToolCall) : List (Option Value × Option Value) :=
  [(some (.str "tool_start"), some (.str tc.name)), (some (.str "tool_end"), some (.str tc.name))]

section Reply
variable {js : JavaScript} {events body : List AgentEvent} {tcs : List ToolCall} {replies : List A2UIEvent}

/-- The text that an event adds to the reply, by its entries. -/
def toldBy (x : String × Assoc Value) : Option String :=
  if x.1 = "text_delta" then
    match x.2.lookup "content" with
    | some (.str text) => some text
    | _ => none
  else none

/-- The label that an event adds to the reply, by its entries. -/
def labelBy (x : String × Assoc Value) : Option (Option Value × Option Value) :=
  if x.1 = "text_delta" ∨ x.1 = "done" then none else some (some (.str x.1), x.2.lookup "tool_name")

theorem toldBy_passedOn (e : AgentEvent) : (passedOn e).bind (toldBy ∘ wire) = e.text? := by
  cases e <;> rfl

theorem labels_bracketed (h : Bracketed tcs body) :
    body.filterMap (fun e => (passedOn e).bind (labelBy ∘ wire)) = tcs.flatMap labels := by
  induction h with
  | nil => rfl
  | text content _ ih => exact ih
  | call tc status _ _ ih => exact congrArg (fun rest => _ :: _ :: rest) ih

/-- The entries of an event that names a tool come back. -/
theorem Wired.label (h : Wired js replies) (hnamed : ∀ event ∈ replies, event.eventType ≠ "text_delta" →
    event.eventType ≠ "done" → ∃ name, event.data.lookup "tool_name" = some (.str name)) :
    (replies.filterMap (A2UIEvent.shown js)).map labelOf = replies.filterMap fun event => labelBy event.pair := by
  rw [List.map_filterMap]
  refine List.filterMap_congr fun event he => ?_
  rw [A2UIEvent.shown, labelBy, A2UIEvent.pair]
  dsimp only
  split
  · rfl
  next hplain =>
    rw [not_or] at hplain
    obtain ⟨name, hname⟩ := hnamed event he hplain.1 hplain.2
    obtain ⟨entries, hparse, htexts⟩ := h.reads event he
    have hlookup : property (.dict entries) "tool_name" = some (.str name) :=
      htexts "tool_name" name (by rw [h.lookup he (by decide), hname])
    rw [hparse, Option.map_some, Option.getD_some, labelOf, hlookup, hname]

/-- What the service passes on names its tools. -/
theorem named_passedOn {x : EventType × Assoc Value} (hx : x ∈ events.filterMap passedOn ++ [(.done, [])])
    (htext : x.1.name ≠ "text_delta") (hdone : x.1.name ≠ "done") : ∃ name, x.2.lookup "tool_name" = some (.str name) := by
  rcases List.mem_append.mp hx with hx | hx
  · obtain ⟨e, _, hpassed⟩ := List.mem_filterMap.mp hx
    cases e with
    | textDelta content =>
      cases hpassed
      exact absurd rfl htext
    | toolStart name | toolEnd name =>
      cases hpassed
      exact ⟨name, rfl⟩
    | done => cases hpassed
  · rw [List.mem_singleton.mp hx] at hdone
    exact absurd rfl hdone

theorem shaped_passedOn {x : EventType × Assoc Value} (hx : x ∈ events.filterMap passedOn ++ [(.done, [])]) :
    Shaped x.1 x.2 := by
  rcases List.mem_append.mp hx with hx | hx
  · obtain ⟨e, _, hpassed⟩ := List.mem_filterMap.mp hx
    cases e with
    | textDelta content =>
      cases hpassed
      exact ⟨List.pairwise_singleton _ _, rfl, fun _ => ⟨content, rfl⟩⟩
    | toolStart name params =>
      cases hpassed
      exact shaped_of_keys ["tool_name", "params"] rfl (by decide) nofun
    | toolEnd name status =>
      cases hpassed
      exact shaped_of_keys ["tool_name", "status"] rfl (by decide) nofun
    | done => cases hpassed
  · rw [List.mem_singleton.mp hx]
    exact ⟨List.nodup_nil, rfl, nofun⟩

theorem open_passedOn {x : EventType × Assoc Value} (hx : x ∈ (events.filterMap passedOn ++ [(EventType.done, [])]).dropLast) :
    x.1 ≠ .done := by
  rw [List.dropLast_concat] at hx
  obtain ⟨e, _, hpassed⟩ := List.mem_filterMap.mp hx
  cases e <;> cases hpassed <;> exact nofun

end Reply

/-- What the provider returns for a message, whatever the tools do, is what the panel shows of the reply when it has all
arrived: its texts joined, and each of its calls as a start and an end, in order. -/
theorem reply_of_provider {σ : Type} {h : Prog.Handler Copilot.Cmd Copilot.Cmd.Answer Copilot.Exc σ}
    (hprovider : Copilot.ProviderReturns h) {hasService hasSession : Bool} {session : Copilot.SessionContext}
    {systemPrompt content : String} {t t' : σ} {events : List AgentEvent}
    (hagent : (Copilot.processMessage hasService hasSession session systemPrompt content).run h t = (.ok events, t'))
    {ctx : Ctx} {sessionId : String} {s : Server} {row : CopilotSession}
    (hrow : s.table.getById sessionId ctx.tenantId = some row)
    (hservice : s.world.processMessage (buildContext row.mode row.context) content = .ok (events.map raw))
    {js : JavaScript} {replies : List A2UIEvent} (hwellFormed : ∀ event ∈ replies, event.payload.wellFormed)
    (hreads : ∀ event ∈ replies, Reads js event) (hsent : replies.map A2UIEvent.pair = (sends ((sendMessage ctx sessionId content).transcript Cmd.exec s)).map wire)
    {chunks : List (List UInt8)} (hchunks : chunks.flatten = streamed replies)
    (harrived : arrivals chunks 0 replies = replies) :
    let outs := Copilot.outputs h (Copilot.processMessage hasService hasSession session systemPrompt content) t
    let shown := (connectSSE js.parse chunks).foldl (Message.call js) ⟨.assistant, "", []⟩
    shown.content = String.join (outs.flatMap Output.pieces) ∧
      shown.events.map labelOf = (outs.flatMap Output.toolCalls).flatMap labels := by
  intro outs shown
  obtain ⟨⟨body, rfl, _, hbracketed⟩, htexts⟩ :=
    (Copilot.processMessage_streams hprovider hasService hasSession session systemPrompt content t).2 events t' hagent
  rw [sends_sendMessage hrow hservice] at hsent
  have hreplies := wired_of_shaped (fun _ => open_passedOn) (fun _ => shaped_passedOn) hsent hwellFormed hreads
  have hshown : shown = reply js replies := by
    have hreply := hreplies.reply ⟨[], by rw [List.append_nil, hchunks]⟩
    rwa [harrived] at hreply
  have htold : replies.filterMap A2UIEvent.told = (replies.map A2UIEvent.pair).filterMap toldBy := by
    rw [List.filterMap_map]
    rfl
  have hlabels := hreplies.label fun event he htext hdone => by
    have hmem : event.pair ∈ replies.map A2UIEvent.pair := List.mem_map_of_mem he
    rw [hsent] at hmem
    obtain ⟨x, hx, heq⟩ := List.mem_map.mp hmem
    obtain ⟨htype, hdata⟩ := Prod.mk.inj heq
    exact hdata ▸ named_passedOn hx (htype ▸ htext) (htype ▸ hdone)
  have hlabel : (replies.filterMap fun event => labelBy event.pair) = (replies.map A2UIEvent.pair).filterMap labelBy := by
    rw [List.filterMap_map]
    rfl
  rw [hshown, reply]
  dsimp only
  constructor
  · rw [htold, hsent, List.filterMap_map, List.filterMap_append, List.filterMap_filterMap, ← htexts,
      List.filterMap_congr fun e _ => toldBy_passedOn e]
    exact congrArg String.join (List.append_nil _)
  · rw [hlabels, hlabel, hsent, List.filterMap_map, List.filterMap_append, List.filterMap_filterMap,
      List.filterMap_append, labels_bracketed hbracketed]
    exact (List.append_nil _).trans (List.append_nil _)

/-- A provider that says something, calls a tool and says something more. -/
def twoTurns : List Copilot.Response := [⟨"Ich suche… ", [⟨"search", .dict [], some "call_1"⟩]⟩, ⟨"Gefunden.", []⟩]

def found : List AgentEvent :=
  [.textDelta "Ich suche… ", .toolStart "search" (.dict []), .toolEnd "search" "error", .textDelta "Gefunden.", .done]

def bureau : Server :=
  { desk with
    world :=
      { processMessage := fun _ _ => .ok (found.map raw)
        decide := fun _ => .ok none } }

theorem reply_of_provider_twoTurns :
    let outs := Copilot.outputs Copilot.answering (Copilot.processMessage true true {} "" "Such es") twoTurns
    let shown := (connectSSE loads [streamed (answered bureau "Such es")]).foldl (Message.call browser)
      ⟨.assistant, "", []⟩
    shown.content = "Ich suche… Gefunden." ∧
      shown.content = String.join (outs.flatMap Output.pieces) ∧
      shown.events.map labelOf = (outs.flatMap Output.toolCalls).flatMap labels := by
  have hagent : (Copilot.processMessage true true {} "" "Such es").run Copilot.answering twoTurns = (.ok found, []) := rfl
  have hrow : bureau.table.getById "s1" speaker.tenantId =
      some ⟨"s1", "t1", "u1", "agent", some "Hi", [], none, .active, 0, 0⟩ := rfl
  have hreads : ∀ event ∈ answered bureau "Such es", loads (dumpsRaw event.payload) = some event.payload := by
    decide +kernel
  exact ⟨by decide +kernel, reply_of_provider Copilot.answering_returns hagent hrow rfl (by decide +kernel)
    (fun event he => reads_of_loads (hreads event he)) (answered_pairs bureau "Such es") (List.append_nil _)
    (by decide +kernel)⟩

end Lingshu.Frontend
