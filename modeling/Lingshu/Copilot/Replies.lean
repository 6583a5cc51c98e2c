import Lingshu.Copilot.Sessions
import Lingshu.Interaction.Typestate

/-! # What a message is answered with

`send_message` sends nothing after `done`, whatever the repository and the agent answer it. -/
namespace Lingshu.Copilot.Sessions
open Interaction Json
set_option autoImplicit false

def EventType.name : EventType → String
  | .textDelta => "text_delta"
  | .component => "component"
  | .toolStart => "tool_start"
  | .toolEnd => "tool_end"
  | .interrupt => "interrupt"
  | .error => "error"
  | .done => "done"

/-- The event that a command sends. -/
def Cmd.event : Cmd → Option (EventType × Assoc Value)
  | .render eventType data => some (eventType, data)
  | .yield event => some (event.eventType, event.data)
  | _ => none

/-- The events that are sent on a trail; a command that raises has sent none. -/
def sentOf : (c : Cmd) × Except Exc c.Answer → Option (EventType × Assoc Value)
  | ⟨c, .ok _⟩ => c.event
  | ⟨_, .error _⟩ => none

abbrev sends (xs : List ((c : Cmd) × Except Exc c.Answer)) : List (EventType × Assoc Value) := xs.filterMap sentOf

theorem sentOf_silent {c : Cmd} (hc : c.event = none) (r : Except Exc c.Answer) : sentOf ⟨c, r⟩ = none := by
  cases r with
  | ok a => exact hc
  | error e => rfl

/-! ## The agent -/

/-- What stands as text in an event of the agent is text. -/
def Tells (events : List (Assoc Value)) : Prop :=
  ∀ event ∈ events, event.lookup "type" = some (.str "text_delta") → ∃ text, event.lookup "content" = some (.str text)

/-- The agent returns events whose text is text; of other answers nothing is known. -/
def AgentTells : (c : Cmd) → c.Answer → Prop
  | .processMessage .., events => Tells events
  | _, _ => True

/-! ## The discipline of a stream -/

/-- The entries of an event leave its type as it is, and the text of a `text_delta` is text. -/
structure Shaped (eventType : EventType) (data : Assoc Value) : Prop where
  keys : data.keys.Nodup
  typed : data.lookup "type" = none
  text : eventType = .textDelta → ∃ text, data.lookup "content" = some (.str text)

theorem shaped_of_keys {eventType : EventType} {data : Assoc Value} (names : List String) (h : data.keys = names)
    (hnames : names.Nodup ∧ "type" ∉ names) (htext : eventType ≠ .textDelta) : Shaped eventType data where
  keys := h ▸ hnames.1
  typed := Assoc.lookup_eq_none_of_notMem (h ▸ hnames.2)
  text heq := absurd heq htext

/-- The phase says whether `done` has been sent. -/
def untilDone : Discipline Cmd Cmd.Answer Exc Bool where
  admits done c := ∀ eventType data, c.event = some (eventType, data) → done = false ∧ Shaped eventType data
  after done c r := done || ((sentOf ⟨c, r⟩).map Prod.fst == some .done)

theorem admits_sends {done : Bool} {xs : List ((c : Cmd) × Except Exc c.Answer)} (h : untilDone.Admits done xs) :
    (done = true → sends xs = []) ∧ (∀ x ∈ (sends xs).dropLast, x.1 ≠ .done) ∧ ∀ x ∈ sends xs, Shaped x.1 x.2 := by
  induction xs generalizing done with
  | nil => exact ⟨fun _ => rfl, nofun, nofun⟩
  | cons x xs ih =>
    obtain ⟨c, r⟩ := x
    obtain ⟨hadmits, hrest⟩ := h
    obtain ⟨hdone, hlast, hshaped⟩ := ih hrest
    cases hsent : sentOf ⟨c, r⟩ with
    | none =>
      have hsame : untilDone.after done c r = done := by simp [untilDone, hsent]
      rw [sends, List.filterMap_cons, hsent]
      rw [hsame] at hdone
      exact ⟨hdone, hlast, hshaped⟩
    | some event =>
      have hevent : c.event = some (event.1, event.2) := by
        cases r with
        | ok a => exact hsent
        | error e => cases hsent
      obtain ⟨hopen, hevent⟩ := hadmits _ _ hevent
      have hmore : sends (⟨c, r⟩ :: xs) = event :: sends xs := by rw [sends, List.filterMap_cons, hsent]
      rw [hmore]
      refine ⟨fun h => absurd (hopen.symm.trans h) Bool.false_ne_true, ?_, ?_⟩
      · intro x hx
        cases hxs : sends xs with
        | nil =>
          rw [hxs] at hx
          cases hx
        | cons y ys =>
          rw [hxs, List.dropLast_cons_cons, ← hxs] at hx
          rcases List.mem_cons.mp hx with rfl | hx
          · intro hdone'
            have hafter : untilDone.after done c r = true := by simp [untilDone, hsent, hdone']
            rw [hdone hafter] at hxs
            cases hxs
          · exact hlast x hx
      · intro x hx
        rcases List.mem_cons.mp hx with rfl | hx
        · exact hevent
        · exact hshaped x hx

/-! ## send_message -/

section Stream
variable {ctx : Ctx} {sessionId : String}

/-- A program that sends nothing. -/
abbrev Program.Silent {α : Type} (p : Program α) : Prop :=
  p.Meets (fun c => c.event = none) (fun _ _ => True) fun _ => True

abbrev Program.Untils {α : Type} (p : Program α) (F : Bool → Except Exc α → Prop) (done : Bool) : Prop :=
  p.Follows untilDone AgentTells F done

theorem silent_ask {c : Cmd} (hc : c.event = none) : (ask c).Silent := ⟨hc, fun _ _ => trivial, fun _ => trivial⟩

theorem Program.Silent.follows {α : Type} {p : Program α} (h : p.Silent) (done : Bool) :
    p.Untils (fun ψ _ => ψ = done) done := by
  have hmeets : p.Meets (fun c => c.event = none) AgentTells fun _ => True :=
    h.mono (fun _ hc => hc) (fun _ _ _ => trivial) fun _ ha => ha
  refine Prog.Follows.mono (Prog.Meets.follows hmeets fun c hc => ⟨?_, fun r => ?_⟩) fun ψ r hr => hr.1
  · intro eventType data hevent
    rw [hc] at hevent
    cases hevent
  · simp [untilDone, sentOf_silent hc r]

theorem Program.Silent.sends {α : Type} {p : Program α} (h : p.Silent) (s : Server) :
    sends (p.transcript Cmd.exec s) = [] :=
  List.filterMap_eq_nil_iff.mpr fun x hx => sentOf_silent (Prog.Meets.transcript Cmd.exec s h x hx) x.2

theorem silent_orNotFound (row : Option CopilotSession) : (orNotFound sessionId row).Silent := by
  cases row <;> trivial

theorem silent_getSession : (getSession ctx sessionId).Silent :=
  Prog.Meets.bind (silent_ask rfl) fun row _ => silent_orNotFound row

theorem silent_updateContext (context : Assoc Value) : (updateContext ctx sessionId context).Silent :=
  Prog.Meets.bind (silent_ask rfl) fun row _ => (silent_orNotFound row).bind fun _ _ =>
    Prog.Meets.bind (silent_ask rfl) fun _ _ => trivial

theorem silent_setFields (fields : Fields) : (setFields ctx sessionId fields).Silent :=
  Prog.Meets.bind (silent_ask rfl) fun _ _ => silent_ask rfl

theorem silent_ensureTitle (row : CopilotSession) (content : String) : (ensureTitle ctx sessionId row content).Silent := by
  unfold ensureTitle
  split
  · exact silent_setFields _
  · trivial

/-- An event while the stream goes on, which ends with `done` only if that is sent. -/
theorem follows_render {eventType : EventType} {data : Assoc Value} (h : Shaped eventType data) :
    (render eventType data).Untils (fun ψ r => ψ = true → eventType = .done ∧ r = .ok ()) false := by
  refine Prog.Follows.mono (Prog.Follows.perform fun eventType' data' hevent => ?_) ?_
  · cases hevent
    exact ⟨rfl, h⟩
  · rintro ψ r ⟨rfl, _⟩ hdone
    cases r with
    | ok a => exact ⟨by simpa [untilDone, sentOf, Cmd.event] using hdone, rfl⟩
    | error e => exact absurd hdone Bool.false_ne_true

theorem follows_render_open {eventType : EventType} {data : Assoc Value} (h : Shaped eventType data)
    (hopen : eventType ≠ .done) : (render eventType data).Untils (fun ψ _ => ψ = false) false := by
  refine (follows_render h).mono fun ψ r hr => ?_
  cases ψ with
  | false => rfl
  | true => exact absurd (hr rfl).1 hopen

theorem follows_showEvent {event : Assoc Value} (h : event.lookup "type" = some (.str "text_delta") →
    ∃ text, event.lookup "content" = some (.str text)) : (showEvent event).Untils (fun ψ _ => ψ = false) false := by
  unfold showEvent
  dsimp only
  split
  next htype =>
    have hlookup : event.lookup "type" = some (.str "text_delta") := by
      unfold entry at htype
      cases hl : event.lookup "type" with
      | none =>
        rw [hl] at htype
        exact absurd htype (by decide)
      | some v =>
        rw [hl] at htype
        exact congrArg some htype
    obtain ⟨text, htext⟩ := h hlookup
    refine follows_render_open ⟨List.pairwise_singleton _ _, rfl, fun _ => ⟨text, ?_⟩⟩ nofun
    simp [entry, htext]
  next =>
    split
    · exact follows_render_open (shaped_of_keys ["component"] rfl (by decide) nofun) nofun
    split
    · exact follows_render_open (shaped_of_keys ["tool_name", "params"] rfl (by decide) nofun) nofun
    split
    · exact follows_render_open (shaped_of_keys ["tool_name", "status"] rfl (by decide) nofun) nofun
    · rfl

/-- Where the events of a message end with an exception, `done` has not been sent. -/
theorem follows_stream (context : Assoc Value) {events : List (Assoc Value)} (h : Tells events) :
    (stream ctx sessionId context events).Untils (fun ψ r => ∀ e, r = .error e → ψ = false) false := by
  have hended : ∀ (ψ a : Bool) (e : Exc), (.ok a : Except Exc Bool) = .error e → ψ = false := by
    rintro ψ a e ⟨⟩
  induction events with
  | nil =>
    have hdone : Shaped .done [] := ⟨List.nodup_nil, rfl, by rintro ⟨⟩⟩
    refine Prog.Follows.bind (follows_render hdone) (fun ψ _ _ e he => hended ψ _ e he) ?_
    intro ψ e hψ e' _
    cases ψ with
    | false => rfl
    | true => cases (hψ rfl).2
  | cons event events ih =>
    unfold stream
    split
    · refine Prog.Follows.bind ((silent_updateContext _).follows false) ?_ fun ψ e hψ _ _ => hψ
      rintro _ _ rfl
      have hshaped : ∀ v : Value, Shaped .interrupt [("confirmation", v)] := fun v =>
        shaped_of_keys ["confirmation"] rfl (by decide) (by decide)
      exact Prog.Follows.bind (follows_render_open (hshaped _) (by decide)) (fun ψ _ _ e he => hended ψ _ e he)
        fun ψ e hψ _ _ => hψ
    · refine Prog.Follows.bind (follows_showEvent (h event List.mem_cons_self)) ?_ fun ψ e hψ _ _ => hψ
      rintro _ _ rfl
      exact ih fun event hevent => h event (List.mem_cons_of_mem _ hevent)

theorem follows_converse (row : CopilotSession) (content : String) :
    (converse ctx sessionId row content).Untils (fun ψ r => ∀ e, r = .error e → ψ = false) false := by
  refine Prog.Follows.bind (Prog.Follows.perform nofun) ?_ ?_
  · rintro _ events ⟨rfl, htells⟩
    exact follows_stream _ (htells events rfl)
  · rintro _ e ⟨rfl, _⟩ _ _
    rfl

theorem follows_showError (e : Exc) : (showError e).Untils (fun _ _ => True) false := by
  refine Prog.Follows.bind (follows_render_open (shaped_of_keys ["message"] rfl (by decide) nofun) nofun) ?_ fun _ _ _ => trivial
  rintro _ _ rfl
  exact Prog.Follows.bind (follows_render ⟨List.nodup_nil, rfl, nofun⟩) (fun _ _ _ => trivial) fun _ _ _ => trivial

theorem follows_process (row : CopilotSession) (content : String) :
    (process ctx sessionId row content).Untils (fun _ _ => True) false := by
  refine Prog.Follows.bind (Prog.Follows.tryCatch (G := fun _ _ => True) (follows_converse row content)
    (fun _ _ _ => trivial) ?_) ?_ fun _ _ _ => trivial
  · intro ψ e hψ
    rw [hψ e rfl]
    exact follows_showError e
  · intro ψ stopped _
    cases stopped with
    | true => trivial
    | false => exact ((silent_setFields _).follows ψ).mono fun _ _ _ => trivial

theorem follows_sendMessage (content : String) :
    (sendMessage ctx sessionId content).Untils (fun _ _ => True) false := by
  refine Prog.Follows.bind (silent_getSession.follows false) ?_ fun _ _ _ => trivial
  rintro _ row rfl
  refine Prog.Follows.bind ((silent_ensureTitle row content).follows false) ?_ fun _ _ _ => trivial
  rintro _ _ rfl
  exact follows_process row content

end Stream

/-- What `send_message` sends for a message, at most: the generator may be given up, and may raise, at any command. -/
def Served (events : List (EventType × Assoc Value)) : Prop :=
  ∃ (ctx : Ctx) (sessionId content : String) (xs : List ((c : Cmd) × Except Exc c.Answer)),
    (sendMessage ctx sessionId content).Trail xs ∧ (∀ c a, ⟨c, .ok a⟩ ∈ xs → AgentTells c a) ∧ sends xs = events

/-- The agent of a server. -/
def World.Tells (world : World) : Prop :=
  ∀ context content events, world.processMessage context content = .ok events → Sessions.Tells events

theorem exec_world (c : Cmd) (s : Server) : (c.exec s).2.world = s.world := by
  cases c with
  | create row =>
    rw [Cmd.exec]
    split <;> rfl
  | softDelete sessionId tenantId =>
    rw [Cmd.exec]
    split <;> rfl
  | _ => rfl

theorem tells_transcript {α : Type} (p : Program α) {s : Server} (h : s.world.Tells) {c : Cmd} {a : c.Answer}
    (hmem : ⟨c, .ok a⟩ ∈ p.transcript Cmd.exec s) : AgentTells c a := by
  induction p generalizing s with
  | pure a => cases hmem
  | throw e => cases hmem
  | call d k ih =>
    rcases List.mem_cons.mp hmem with heq | hmem
    · obtain ⟨rfl, hanswer⟩ := Sigma.mk.inj heq
      cases c with
      | processMessage context content => exact h context content a (eq_of_heq hanswer).symm
      | _ => trivial
    · exact ih _ ((exec_world d s).symm ▸ h) hmem

/-- What a server sends that answers one call alone. -/
theorem served_run (ctx : Ctx) (sessionId content : String) {s : Server} (h : s.world.Tells) :
    Served (sends ((sendMessage ctx sessionId content).transcript Cmd.exec s)) :=
  ⟨ctx, sessionId, content, _, Prog.trail_transcript _ _ _, fun _ _ => tells_transcript _ h, rfl⟩

theorem Served.shaped {events : List (EventType × Assoc Value)} (h : Served events) :
    (∀ x ∈ events.dropLast, x.1 ≠ .done) ∧ ∀ x ∈ events, Shaped x.1 x.2 := by
  obtain ⟨ctx, sessionId, content, xs, htrail, htells, rfl⟩ := h
  exact (admits_sends ((follows_sendMessage content).trail htrail htells)).2

end Lingshu.Copilot.Sessions
