import Lingshu.Copilot.Replies
import Lingshu.Frontend.Sse

/-! # The copilot panel

`useCopilot` with all the connections that it opens, each of which gives its bytes whenever it likes, against the
exchanges that a user has: a message, and what has come in reply to it. -/
namespace Lingshu.Frontend
open Json Text
set_option autoImplicit false

/-! ## The hook -/

inductive Role where
  | user
  | assistant
  deriving DecidableEq

structure Message where
  role : Role
  content : String
  events : List (Option Value × Value)
  deriving DecidableEq

/-- `JSON.parse`, and the text that `+` makes of a value that is none. -/
structure JavaScript where
  parse : String → Option Value
  text : Value → String

/-- A connection that `connectSSE` has opened: `live` until it is closed, fails or is at its end. -/
structure Connection where
  reader : Reader
  live : Bool

structure Hook where
  messages : List Message
  isStreaming : Bool
  connectionRef : Option ℕ
  connections : List Connection

def Hook.start : Hook := ⟨[], false, none, []⟩

section Hook
variable (js : JavaScript)

/-- `(event.data.content as string) ?? ""`, as it is added to a text. -/
def delta (data : Value) : String :=
  match property data "content" with
  | none | some .null => ""
  | some (.str content) => content
  | some v => js.text v

/-- `onEvent`, which changes the last message. -/
def Message.onEvent (last : Message) (type : Option Value) (data : Value) : Message :=
  if type = some (.str "text_delta") then { last with content := last.content ++ delta js data }
  else if type = some (.str "component") then { last with events := last.events ++ [(some (.str "component"), data)] }
  else if type ≠ some (.str "done") then { last with events := last.events ++ [(type, data)] }
  else last

def Hook.call (h : Hook) : Callback → Hook
  | .onEvent type data =>
    { h with messages := h.messages.modify (h.messages.length - 1) fun last => last.onEvent js type data }
  | .onDone => { h with isStreaming := false, connectionRef := none }

/-- `controller.abort()`. -/
def Hook.close (h : Hook) (i : ℕ) : Hook :=
  { h with connections := h.connections.modify i fun c => { c with live := false } }

/-- What the user does, and what becomes of a connection: `reader.read()` gives it a chunk, it fails, or it is at its
end. -/
inductive Act where
  | sendMessage (sessionId : Option String) (content : String)
  | stopStreaming
  | read (i : ℕ) (value : List UInt8)
  | fail (i : ℕ)
  | finish (i : ℕ)

def Hook.next (h : Hook) : Act → Hook
  | .sendMessage sessionId content =>
    if sessionId.getD "" = "" ∨ h.isStreaming = true then h
    else
      { messages := h.messages ++ [⟨.user, content, []⟩, ⟨.assistant, "", []⟩]
        isStreaming := true
        connectionRef := some h.connections.length
        connections := h.connections ++ [⟨.start, true⟩] }
  | .stopStreaming => { h.connectionRef.elim h h.close with connectionRef := none, isStreaming := false }
  | .read i value =>
    match h.connections[i]? with
    | some ⟨reader, true⟩ =>
      { ((reader.read value).1.flatMap (callbacks js.parse)).foldl (Hook.call js) h with
        connections := h.connections.set i ⟨(reader.read value).2, true⟩ }
    | _ => h
  | .fail i =>
    match h.connections[i]? with
    | some ⟨_, true⟩ => { h.close i with isStreaming := false }
    | _ => h
  | .finish i => h.close i

def Hook.run (acts : List Act) : Hook := acts.foldl (Hook.next js) .start

end Hook

/-! ## Exchanges -/

inductive Standing where
  | live
  | finished
  | failed
  | stopped
  deriving DecidableEq

/-- A message of the user, with what has come over the connection that was opened for it. -/
structure Exchange where
  content : String
  chunks : List (List UInt8)
  standing : Standing

abbrev Chat := List Exchange

section Chat
variable (js : JavaScript)

/-- Neither `done`, nor a failure, nor the user has ended the wait for the reply. -/
def Exchange.Awaited (e : Exchange) : Prop :=
  (e.standing = .live ∨ e.standing = .finished) ∧ .onDone ∉ connectSSE js.parse e.chunks

instance (e : Exchange) : Decidable (e.Awaited js) := inferInstanceAs (Decidable (_ ∧ _))

def Chat.Awaits (chat : Chat) : Prop := ∃ e ∈ chat.getLast?, e.Awaited js

instance (chat : Chat) : Decidable (Chat.Awaits js chat) :=
  inferInstanceAs (Decidable (∃ e ∈ chat.getLast?, Exchange.Awaited js e))

/-- What is live changes. -/
def Exchange.goOn (e : Exchange) (e' : Exchange) : Exchange := if e.standing = .live then e' else e

def Chat.next (chat : Chat) : Act → Chat
  | .sendMessage sessionId content =>
    if sessionId.getD "" = "" ∨ Chat.Awaits js chat then chat else chat ++ [⟨content, [], .live⟩]
  | .stopStreaming => chat.modify (chat.length - 1) fun e => if e.Awaited js then { e with standing := .stopped } else e
  | .read i value => chat.modify i fun e => e.goOn { e with chunks := e.chunks ++ [value] }
  | .fail i => chat.modify i fun e => e.goOn { e with standing := .failed }
  | .finish i => chat.modify i fun e => e.goOn { e with standing := .finished }

def Chat.run (acts : List Act) : Chat := acts.foldl (Chat.next js) []

end Chat

/-! ## The reader -/

def Reader.after (r : Reader) (chunks : List (List UInt8)) : Reader := chunks.foldl (fun r value => (r.read value).2) r

theorem Reader.readAll_append (r : Reader) (chunks chunks' : List (List UInt8)) :
    r.readAll (chunks ++ chunks') = r.readAll chunks ++ (r.after chunks).readAll chunks' := by
  induction chunks generalizing r with
  | nil => rfl
  | cons chunk chunks ih =>
    rw [List.cons_append, Reader.readAll, ih, Reader.readAll, List.append_assoc]
    rfl

theorem Reader.after_concat (r : Reader) (chunks : List (List UInt8)) (value : List UInt8) :
    r.after (chunks ++ [value]) = ((r.after chunks).read value).2 := by
  rw [Reader.after, List.foldl_concat]
  rfl

theorem newline_notMem_after (chunks : List (List UInt8)) : '\n' ∉ (Reader.start.after chunks).buffer := by
  induction chunks using List.reverseRecOn with
  | nil => exact List.not_mem_nil
  | append_singleton chunks chunk ih =>
    rw [Reader.after_concat]
    exact newline_notMem_last _

theorem connectSSE_concat (parse : String → Option Value) (chunks : List (List UInt8)) (value : List UInt8) :
    connectSSE parse (chunks ++ [value]) =
      connectSSE parse chunks ++ ((Reader.start.after chunks).read value).1.flatMap (callbacks parse) := by
  have hone (r : Reader) : r.readAll [value] = (r.read value).1 := List.append_nil _
  rw [connectSSE, Reader.readAll_append, List.flatMap_append, hone]
  rfl

/-- Nothing more comes with an empty chunk. -/
theorem read_nil (chunks : List (List UInt8)) : ((Reader.start.after chunks).read []).1 = [] := by
  have hdecode (d : Utf8) : textDecoder.feed d [] = ([], d) := rfl
  rw [Reader.read, hdecode, List.append_nil, List.splitOn_eq_singleton (newline_notMem_after chunks)]
  rfl

/-! ## Callbacks -/

section Callbacks
variable (js : JavaScript)

/-- What a callback makes of the last message. -/
def Message.call (last : Message) : Callback → Message
  | .onEvent type data => last.onEvent js type data
  | .onDone => last

theorem modify_last {α : Type} (xs : List α) (x : α) (f : α → α) :
    (xs ++ [x]).modify ((xs ++ [x]).length - 1) f = xs ++ [f x] := by
  rw [List.length_append, List.length_singleton, Nat.add_sub_cancel]
  exact List.modifyTailIdx_add (List.modifyHead f) 0 xs [x]

/-- The callbacks of a chunk, one after the other. -/
theorem foldl_call {h : Hook} {messages : List Message} {last : Message} (hmessages : h.messages = messages ++ [last])
    (called : List Callback) : called.foldl (Hook.call js) h =
      { h with
        messages := messages ++ [called.foldl (Message.call js) last]
        isStreaming := h.isStreaming && !decide (.onDone ∈ called)
        connectionRef := if .onDone ∈ called then none else h.connectionRef } := by
  induction called generalizing h last with
  | nil => simp [← hmessages]
  | cons c called ih =>
    cases c with
    | onEvent type data =>
      have hnext : (h.call js (.onEvent type data)).messages = messages ++ [last.onEvent js type data] := by
        rw [Hook.call, hmessages]
        exact modify_last _ _ _
      rw [List.foldl_cons, ih hnext]
      simp [Hook.call, Message.call]
    | onDone =>
      rw [List.foldl_cons, ih (h := h.call js .onDone) hmessages]
      simp [Hook.call, Message.call]

end Callbacks

/-! ## Replies -/

section Replies
variable (js : JavaScript)

def A2UIEvent.fields (event : A2UIEvent) : Assoc Value := Assoc.update [("type", .str event.eventType)] event.data

/-- `JSON.parse` reads the texts of an event back. -/
def Reads (event : A2UIEvent) : Prop :=
  ∃ entries : Assoc Value, js.parse (dumpsRaw event.payload) = some (.dict entries) ∧
    ∀ name text, event.fields.lookup name = some (.str text) → entries.lookup name = some (.str text)

/-- The text that an event adds to a reply. -/
def A2UIEvent.told (event : A2UIEvent) : Option String :=
  if event.eventType = "text_delta" then
    match event.data.lookup "content" with
    | some (.str text) => some text
    | _ => none
  else none

/-- What an event adds to the events of a reply. -/
def A2UIEvent.shown (event : A2UIEvent) : Option (Option Value × Value) :=
  if event.eventType = "text_delta" ∨ event.eventType = "done" then none
  else some (some (.str event.eventType), (js.parse (dumpsRaw event.payload)).getD .null)

/-- The reply that is made of events. -/
def reply (events : List A2UIEvent) : Message :=
  ⟨.assistant, String.join (events.filterMap A2UIEvent.told), events.filterMap (A2UIEvent.shown js)⟩

/-- What the front end may count on: JSON that it can read, whose entries leave the type as it is, and nothing after
`done`. -/
structure Wired (events : List A2UIEvent) : Prop where
  wellFormed : ∀ event ∈ events, event.payload.wellFormed
  reads : ∀ event ∈ events, Reads js event
  keys : ∀ event ∈ events, event.data.keys.Nodup
  typed : ∀ event ∈ events, event.data.lookup "type" = none
  text : ∀ event ∈ events, event.eventType = "text_delta" → ∃ text, event.data.lookup "content" = some (.str text)
  doneLast : ∀ event ∈ events.dropLast, event.eventType ≠ "done"

variable {js} {event : A2UIEvent} {events : List A2UIEvent} {chunks : List (List UInt8)}

theorem Wired.lookup (h : Wired js events) (he : event ∈ events) {name : String} (hname : name ≠ "type") :
    event.fields.lookup name = event.data.lookup name := by
  rw [A2UIEvent.fields, Assoc.lookup_update, Assoc.lookup_reverse (h.keys event he), Assoc.lookup_cons, if_neg hname]
  exact Option.or_none

theorem Wired.lookup_type (h : Wired js events) (he : event ∈ events) :
    event.fields.lookup "type" = some (.str event.eventType) := by
  rw [A2UIEvent.fields, Assoc.lookup_update, Assoc.lookup_reverse (h.keys event he), h.typed event he]
  rfl

/-- What is called for an event. -/
theorem Wired.callbacks (h : Wired js events) (he : event ∈ events) : ∃ entries : Assoc Value,
    js.parse (dumpsRaw event.payload) = some (.dict entries) ∧
    (∀ text, event.data.lookup "content" = some (.str text) → entries.lookup "content" = some (.str text)) ∧
    callbacks js.parse event.text = .onEvent (some (.str event.eventType)) (.dict entries) ::
      (if event.eventType = "done" then [.onDone] else []) := by
  obtain ⟨entries, hparse, htexts⟩ := h.reads event he
  have htype : property (.dict entries) "type" = some (.str event.eventType) :=
    htexts "type" event.eventType (h.lookup_type he)
  refine ⟨entries, hparse, fun text htext => htexts "content" text (by rw [h.lookup he (by decide), htext]), ?_⟩
  rw [Frontend.callbacks, A2UIEvent.text, String.ofList_toList, hparse]
  simp only [htype, Option.some.injEq, Value.str.injEq]

/-- What the callbacks of an event make of a message. -/
theorem Wired.foldl_callbacks (h : Wired js events) (he : event ∈ events) (last : Message) :
    (Frontend.callbacks js.parse event.text).foldl (Message.call js) last =
      { last with
        content := last.content ++ event.told.getD ""
        events := last.events ++ (event.shown js).toList } := by
  obtain ⟨entries, hparse, hcontent, hcallbacks⟩ := h.callbacks he
  have hone : (Frontend.callbacks js.parse event.text).foldl (Message.call js) last =
      last.onEvent js (some (.str event.eventType)) (.dict entries) := by
    rw [hcallbacks, List.foldl_cons]
    split <;> rfl
  rw [hone, Message.onEvent, A2UIEvent.told, A2UIEvent.shown, hparse]
  simp only [Option.some.injEq, Value.str.injEq]
  by_cases htext : event.eventType = "text_delta"
  · obtain ⟨text, hlookup⟩ := h.text event he htext
    have hdelta : delta js (.dict entries) = text := by
      rw [delta, property, hcontent text hlookup]
    simp [htext, hlookup, hdelta]
  by_cases hdone : event.eventType = "done"
  · simp [hdone]
  by_cases hcomponent : event.eventType = "component"
  · simp [hcomponent]
  · simp [htext, hdone, hcomponent]

/-- Every event of these is one of the stream. -/
theorem mem_of_mem_arrivals {start : ℕ} (h : event ∈ arrivals chunks start events) : event ∈ events := by
  induction events generalizing start with
  | nil => cases h
  | cons e events ih =>
    rw [arrivals] at h
    split at h
    · rcases List.mem_cons.mp h with rfl | h
      · exact List.mem_cons_self
      · exact List.mem_cons_of_mem e (ih h)
    · exact List.mem_cons_of_mem e (ih h)

/-- The reply is made of the events that arrive. -/
theorem Wired.foldl_arrived (h : Wired js events) {arrived : List A2UIEvent} (harrived : ∀ event ∈ arrived, event ∈ events)
    (last : Message) : (arrived.flatMap fun event => Frontend.callbacks js.parse event.text).foldl (Message.call js) last =
      { last with
        content := last.content ++ String.join (arrived.filterMap A2UIEvent.told)
        events := last.events ++ arrived.filterMap (A2UIEvent.shown js) } := by
  induction arrived generalizing last with
  | nil => simp
  | cons event arrived ih =>
    rw [List.flatMap_cons, List.foldl_append, h.foldl_callbacks (harrived event List.mem_cons_self),
      ih fun e he => harrived e (List.mem_cons_of_mem _ he)]
    cases htold : event.told <;> cases hshown : event.shown js <;>
      simp [htold, hshown, String.append_assoc]

theorem Wired.reply (h : Wired js events) (hchunks : chunks.flatten <+: streamed events) :
    (connectSSE js.parse chunks).foldl (Message.call js) ⟨.assistant, "", []⟩ =
      Frontend.reply js (arrivals chunks 0 events) := by
  rw [connectSSE, readAll_arrivals h.wellFormed hchunks, List.flatMap_map,
    h.foldl_arrived fun event he => mem_of_mem_arrivals he]
  simp [Frontend.reply]

/-! ## After `done` -/

/-- An event that arrives has come with all its bytes, and so have those before it. -/
theorem length_of_arrived {start : ℕ} (hlast : ∀ event ∈ events.dropLast, event.eventType ≠ "done")
    (h : event ∈ arrivals chunks start events) (hdone : event.eventType = "done") :
    start + (streamed events).length ≤ chunks.flatten.length := by
  induction events generalizing start with
  | nil => cases h
  | cons e events ih =>
    have hmore : streamed (e :: events) = e.bytes ++ streamed events := List.flatMap_cons
    rw [hmore, List.length_append]
    cases events with
    | nil =>
      rw [arrivals] at h
      split at h
      next hwhole =>
        have := hwhole.1
        simpa [streamed, Nat.add_assoc] using this
      next => cases h
    | cons e' events =>
      have hne : event ≠ e := fun heq => hlast e List.mem_cons_self (heq ▸ hdone)
      have hrest : event ∈ arrivals chunks (start + e.bytes.length) (e' :: events) := by
        rw [arrivals] at h
        split at h
        · exact (List.mem_cons.mp h).resolve_left hne
        · exact h
      have := ih (fun event he => hlast event (List.mem_cons_of_mem e he)) hrest
      omega

/-- Once `done` has been shown, nothing more comes. -/
theorem Wired.silent (h : Wired js events) {value : List UInt8} (hchunks : (chunks ++ [value]).flatten <+: streamed events)
    (hdone : .onDone ∈ connectSSE js.parse chunks) : ((Reader.start.after chunks).read value).1 = [] := by
  have hflat : (chunks ++ [value]).flatten = chunks.flatten ++ value := by simp
  have hprefix : chunks.flatten <+: streamed events := (hflat ▸ List.prefix_append _ _ :
    chunks.flatten <+: (chunks ++ [value]).flatten).trans hchunks
  rw [connectSSE, readAll_arrivals h.wellFormed hprefix, List.flatMap_map, List.mem_flatMap] at hdone
  obtain ⟨event, harrived, hcalled⟩ := hdone
  obtain ⟨entries, _, _, hcallbacks⟩ := h.callbacks (mem_of_mem_arrivals harrived)
  rw [hcallbacks] at hcalled
  have htype : event.eventType = "done" := by
    by_contra hne
    simp [hne] at hcalled
  have hall := length_of_arrived h.doneLast harrived htype
  have hlength := hchunks.length_le
  rw [hflat, List.length_append] at hlength
  have hempty : value = [] := List.eq_nil_of_length_eq_zero (by omega)
  rw [hempty]
  exact read_nil chunks

end Replies

/-! ## The hook shows the exchanges -/

section Shows
variable (js : JavaScript)

def Exchange.connection (e : Exchange) : Connection := ⟨Reader.start.after e.chunks, e.standing = .live⟩

/-- The two messages of an exchange. -/
def Exchange.messages (e : Exchange) : List Message :=
  [⟨.user, e.content, []⟩, (connectSSE js.parse e.chunks).foldl (Message.call js) ⟨.assistant, "", []⟩]

/-- The hook, where `e` is the last exchange and `es` are those before it, for which it waits no more. -/
structure ShowsLast (h : Hook) (es : Chat) (e : Exchange) : Prop where
  connections : h.connections = (es ++ [e]).map Exchange.connection
  messages : h.messages = (es ++ [e]).flatMap (Exchange.messages js)
  isStreaming : h.isStreaming = true ↔ e.Awaited js
  current : e.Awaited js → h.connectionRef = some es.length
  held : ∀ i, h.connectionRef = some i → i = es.length ∧ (e.Awaited js ∨ e.standing ≠ .live)
  earlier : ∀ e ∈ es, ¬ e.Awaited js

def Shows (h : Hook) (chat : Chat) : Prop :=
  (chat = [] ∧ h = Hook.start) ∨ ∃ es e, chat = es ++ [e] ∧ ShowsLast js h es e

/-- What has come is what the server sends for the messages, and no connection fails after `done`. -/
structure Delivered (replies : ℕ → List A2UIEvent) (chat : Chat) : Prop where
  wired : ∀ i < chat.length, Wired js (replies i)
  sent : ∀ i e, chat[i]? = some e → e.chunks.flatten <+: streamed (replies i)
  kept : ∀ e ∈ chat, e.standing = .failed → .onDone ∉ connectSSE js.parse e.chunks

variable {js} {h h' : Hook} {es : Chat} {e e' : Exchange} {chat : Chat} {replies : ℕ → List A2UIEvent}

theorem awaits_concat : Chat.Awaits js (es ++ [e]) ↔ e.Awaited js := by
  rw [Chat.Awaits, List.getLast?_concat]
  simp

/-- The hook with the exchanges that it shows. -/
theorem Shows.fields (hshows : Shows js h chat) : h.connections = chat.map Exchange.connection ∧
    h.messages = chat.flatMap (Exchange.messages js) ∧ (h.isStreaming = true ↔ Chat.Awaits js chat) := by
  rcases hshows with ⟨rfl, rfl⟩ | ⟨es, e, rfl, hlast⟩
  · exact ⟨rfl, rfl, by simp [Hook.start, Chat.Awaits]⟩
  · exact ⟨hlast.connections, hlast.messages, hlast.isStreaming.trans awaits_concat.symm⟩

/-- Where the last exchange is not awaited, none is. -/
theorem Shows.idle (hshows : Shows js h chat) (hidle : ¬ Chat.Awaits js chat) : ∀ e ∈ chat, ¬ e.Awaited js := by
  rcases hshows with ⟨rfl, rfl⟩ | ⟨es, e, rfl, hlast⟩
  · exact nofun
  · intro e' he'
    rcases List.mem_append.mp he' with he' | he'
    · exact hlast.earlier e' he'
    · rw [List.mem_singleton.mp he']
      exact fun hawaited => hidle (awaits_concat.mpr hawaited)

/-- A message that is sent. -/
theorem Shows.sendMessage (hshows : Shows js h chat) (sessionId : Option String) (content : String) :
    Shows js (h.next js (.sendMessage sessionId content)) (Chat.next js chat (.sendMessage sessionId content)) := by
  obtain ⟨hconnections, hmessages, hstreaming⟩ := hshows.fields
  rw [Hook.next, Chat.next]
  by_cases hrefused : sessionId.getD "" = "" ∨ Chat.Awaits js chat
  · rw [if_pos hrefused, if_pos (hrefused.imp id hstreaming.mpr)]
    exact hshows
  · have hnew : Exchange.Awaited js ⟨content, [], .live⟩ := ⟨.inl rfl, List.not_mem_nil⟩
    rw [if_neg hrefused, if_neg fun hor => hrefused (hor.imp id hstreaming.mp)]
    refine .inr ⟨chat, ⟨content, [], .live⟩, rfl, ?_, ?_, ⟨fun _ => hnew, fun _ => rfl⟩, ?_, ?_, ?_⟩
    · rw [hconnections, List.map_append]
      rfl
    · rw [hmessages, List.flatMap_append]
      rfl
    · intro _
      rw [hconnections, List.length_map]
    · intro i hi
      rw [hconnections, List.length_map] at hi
      exact ⟨(Option.some.inj hi).symm, .inl hnew⟩
    · exact hshows.idle fun hawaits => hrefused (.inr hawaits)

/-- The last exchange changes. -/
theorem ShowsLast.change (hlast : ShowsLast js h es e) (hconnections : h'.connections = (es ++ [e']).map Exchange.connection)
    (hmessages : h'.messages = (es ++ [e']).flatMap (Exchange.messages js))
    (hstreaming : h'.isStreaming = true ↔ e'.Awaited js) (hcurrent : e'.Awaited js → h'.connectionRef = some es.length)
    (hheld : ∀ i, h'.connectionRef = some i → i = es.length ∧ (e'.Awaited js ∨ e'.standing ≠ .live)) :
    Shows js h' (es ++ [e']) :=
  .inr ⟨es, e', rfl, hconnections, hmessages, hstreaming, hcurrent, hheld, hlast.earlier⟩

/-- The messages stand with another last exchange, if it shows the same. -/
theorem ShowsLast.messages_of (hlast : ShowsLast js h es e) (hsame : e'.messages js = e.messages js) :
    h.messages = (es ++ [e']).flatMap (Exchange.messages js) := by
  rw [hlast.messages, List.flatMap_append, List.flatMap_append, List.flatMap_singleton, List.flatMap_singleton, hsame]

theorem split_of_getElem? {α : Type} {l : List α} {i : ℕ} {x : α} (hx : l[i]? = some x) :
    ∃ xs ys, l = xs ++ x :: ys ∧ xs.length = i := by
  obtain ⟨hi, rfl⟩ := List.getElem?_eq_some_iff.mp hx
  refine ⟨l.take i, l.drop (i + 1), ?_, by rw [List.length_take]; omega⟩
  rw [← List.drop_eq_getElem_cons hi, List.take_append_drop]

theorem modify_at {α : Type} (xs : List α) (x : α) (ys : List α) (f : α → α) :
    (xs ++ x :: ys).modify xs.length f = xs ++ f x :: ys := List.modifyTailIdx_add (List.modifyHead f) 0 xs (x :: ys)

/-- An exchange changes in what the hook does not show. -/
theorem Shows.replace {a a' : Exchange} {bs : Chat} (hshows : Shows js h (es ++ a :: bs))
    (hconnections : h'.connections = (es ++ a' :: bs).map Exchange.connection) (hmessages : h'.messages = h.messages)
    (hstreaming : h'.isStreaming = h.isStreaming) (hcurrent : h'.connectionRef = h.connectionRef)
    (hsame : a'.messages js = a.messages js) (hawaited : a'.Awaited js ↔ a.Awaited js)
    (hended : a.standing ≠ .live → a'.standing ≠ .live) : Shows js h' (es ++ a' :: bs) := by
  rcases hshows with ⟨hnil, _⟩ | ⟨cs, e, heq, hlast⟩
  · simp at hnil
  · have hshown : (es ++ a' :: bs).flatMap (Exchange.messages js) = (es ++ a :: bs).flatMap (Exchange.messages js) := by
      rw [List.flatMap_append, List.flatMap_append, List.flatMap_cons, List.flatMap_cons, hsame]
    rw [heq, ← hlast.messages] at hshown
    rcases List.eq_nil_or_concat' bs with rfl | ⟨ds, d, rfl⟩
    · obtain ⟨rfl, hd⟩ := List.append_inj' heq rfl
      obtain rfl : a = e := (List.cons.inj hd).1
      exact hlast.change hconnections (hmessages.trans hshown.symm) (by rw [hstreaming, hlast.isStreaming, hawaited])
        (fun h => hcurrent.trans (hlast.current (hawaited.mp h)))
        fun i hi => (hlast.held i (hcurrent ▸ hi)).imp id (Or.imp hawaited.mpr hended)
    · have hsplit (x : Exchange) : es ++ x :: (ds ++ [d]) = (es ++ x :: ds) ++ [d] := by simp
      rw [hsplit] at heq hconnections hshown ⊢
      obtain ⟨rfl, hd⟩ := List.append_inj' heq rfl
      obtain rfl : d = e := (List.cons.inj hd).1
      have hlength : (es ++ a' :: ds).length = (es ++ a :: ds).length := by simp
      refine .inr ⟨es ++ a' :: ds, d, rfl, hconnections, hmessages.trans hshown.symm,
        by rw [hstreaming, hlast.isStreaming], ?_, ?_, ?_⟩
      · intro h
        rw [hcurrent, hlast.current h, hlength]
      · intro i hi
        rw [hlength]
        exact hlast.held i (hcurrent ▸ hi)
      · intro x hx
        rcases List.mem_append.mp hx with hx | hx
        · exact hlast.earlier x (List.mem_append_left _ hx)
        · rcases List.mem_cons.mp hx with rfl | hx
          · rw [hawaited]
            exact hlast.earlier a (List.mem_append_right _ List.mem_cons_self)
          · exact hlast.earlier x (List.mem_append_right _ (List.mem_cons_of_mem _ hx))

/-- What is awaited is the last exchange. -/
theorem Shows.last {a : Exchange} {bs : Chat} (hshows : Shows js h (es ++ a :: bs)) (hawaited : a.Awaited js) :
    bs = [] ∧ ShowsLast js h es a := by
  rcases hshows with ⟨hnil, _⟩ | ⟨cs, e, heq, hlast⟩
  · simp at hnil
  · rcases List.eq_nil_or_concat' bs with rfl | ⟨ds, d, rfl⟩
    · obtain ⟨rfl, hd⟩ := List.append_inj' heq rfl
      obtain rfl : a = e := (List.cons.inj hd).1
      exact ⟨rfl, hlast⟩
    · have hsplit : es ++ a :: (ds ++ [d]) = (es ++ a :: ds) ++ [d] := by simp
      rw [hsplit] at heq
      obtain ⟨rfl, _⟩ := List.append_inj' heq rfl
      exact absurd hawaited (hlast.earlier a (List.mem_append_right _ List.mem_cons_self))

/-- The connection of an exchange. -/
theorem Shows.getElem? (hshows : Shows js h chat) (i : ℕ) : h.connections[i]? = chat[i]?.map Exchange.connection := by
  rw [hshows.fields.1, List.getElem?_map]

theorem ShowsLast.lastMessages (hlast : ShowsLast js h es e) : h.messages =
    es.flatMap (Exchange.messages js) ++ [⟨.user, e.content, []⟩] ++
      [(connectSSE js.parse e.chunks).foldl (Message.call js) ⟨.assistant, "", []⟩] := by
  rw [hlast.messages, List.flatMap_append, List.append_assoc]
  rfl

/-- A chunk for the last exchange, while it is awaited. -/
theorem ShowsLast.read (hlast : ShowsLast js h es e) (hlive : e.standing = .live) (hawaited : e.Awaited js)
    (value : List UInt8) : Shows js
      { (((Reader.start.after e.chunks).read value).1.flatMap (callbacks js.parse)).foldl (Hook.call js) h with
        connections := h.connections.set es.length ⟨((Reader.start.after e.chunks).read value).2, true⟩ }
      (es ++ [{ e with chunks := e.chunks ++ [value] }]) := by
  have hcalled := connectSSE_concat js.parse e.chunks value
  generalize ((Reader.start.after e.chunks).read value).1.flatMap (callbacks js.parse) = called at hcalled ⊢
  have hawaited' : Exchange.Awaited js { e with chunks := e.chunks ++ [value] } ↔ .onDone ∉ called := by
    rw [Exchange.Awaited, hcalled, List.mem_append, not_or]
    exact ⟨fun h => h.2.2, fun h => ⟨hawaited.1, hawaited.2, h⟩⟩
  rw [foldl_call js hlast.lastMessages]
  refine hlast.change ?_ ?_ ?_ ?_ ?_
  · dsimp only
    rw [hlast.connections, List.map_append, List.set_append_right _ _ (by rw [List.length_map]), List.length_map,
      Nat.sub_self, List.map_append]
    congr 1
    simp [Exchange.connection, Reader.after_concat, hlive]
  · dsimp only
    rw [List.flatMap_append, List.flatMap_singleton, Exchange.messages, hcalled, List.foldl_append, List.append_assoc]
    rfl
  · dsimp only
    rw [hawaited', hlast.isStreaming.mpr hawaited]
    simp
  · intro h
    dsimp only
    rw [if_neg (hawaited'.mp h)]
    exact hlast.current hawaited
  · intro i hi
    dsimp only at hi
    split at hi
    · cases hi
    next hnotdone => exact ⟨(hlast.held i hi).1, .inl (hawaited'.mpr hnotdone)⟩

/-- What the browser reads. -/
theorem Shows.read (hshows : Shows js h chat) (i : ℕ) (value : List UInt8)
    (hdelivered : Delivered js replies (Chat.next js chat (.read i value))) :
    Shows js (h.next js (.read i value)) (Chat.next js chat (.read i value)) := by
  have hconnection := hshows.getElem? i
  rw [Chat.next] at hdelivered ⊢
  rw [Hook.next]
  cases ha : chat[i]? with
  | none =>
    rw [ha] at hconnection
    rw [hconnection, List.modify_eq_self (List.getElem?_eq_none_iff.mp ha)]
    exact hshows
  | some a =>
    obtain ⟨es, bs, rfl, rfl⟩ := split_of_getElem? ha
    rw [ha] at hconnection
    rw [modify_at] at hdelivered ⊢
    by_cases hlive : a.standing = .live
    · have hopen : h.connections[es.length]? = some ⟨Reader.start.after a.chunks, true⟩ := by
        rw [hconnection, Option.map_some, Exchange.connection, hlive]
        rfl
      have hgo : a.goOn { a with chunks := a.chunks ++ [value] } = { a with chunks := a.chunks ++ [value] } := if_pos hlive
      rw [hgo] at hdelivered ⊢
      rw [hopen]
      dsimp only
      by_cases hdone : .onDone ∈ connectSSE js.parse a.chunks
      · have hat : (es ++ { a with chunks := a.chunks ++ [value] } :: bs)[es.length]? =
            some { a with chunks := a.chunks ++ [value] } := by simp
        have hsilent := (hdelivered.wired es.length (by simp)).silent (hdelivered.sent _ _ hat) hdone
        have hcalled : connectSSE js.parse (a.chunks ++ [value]) = connectSSE js.parse a.chunks := by
          rw [connectSSE_concat, hsilent]
          exact List.append_nil _
        rw [hsilent]
        refine hshows.replace ?_ rfl rfl rfl ?_ ?_ id
        · dsimp only [List.flatMap_nil, List.foldl_nil]
          rw [hshows.fields.1]
          simp [Exchange.connection, Reader.after_concat, hlive]
        · rw [Exchange.messages, hcalled]
          rfl
        · rw [Exchange.Awaited, hcalled]
          rfl
      · obtain ⟨rfl, hlast⟩ := hshows.last ⟨.inl hlive, hdone⟩
        exact hlast.read hlive ⟨.inl hlive, hdone⟩ value
    · have hclosed : h.connections[es.length]? = some ⟨Reader.start.after a.chunks, false⟩ := by
        rw [hconnection, Option.map_some, Exchange.connection, decide_eq_false hlive]
      have hgo : a.goOn { a with chunks := a.chunks ++ [value] } = a := if_neg hlive
      rw [hgo, hclosed]
      exact hshows

/-- A connection is closed, or is at its end. -/
theorem Shows.close_connections {a : Exchange} {bs : Chat} (hshows : Shows js h (es ++ a :: bs)) {a' : Exchange}
    (hchunks : a'.chunks = a.chunks) (hended : a'.standing ≠ .live) :
    (h.close es.length).connections = (es ++ a' :: bs).map Exchange.connection := by
  have hlength : es.length = (es.map Exchange.connection).length := by rw [List.length_map]
  rw [Hook.close, hshows.fields.1, List.map_append, List.map_cons, hlength, modify_at]
  simp [Exchange.connection, hchunks, hended]

theorem Shows.finish (hshows : Shows js h chat) (i : ℕ) :
    Shows js (h.next js (.finish i)) (Chat.next js chat (.finish i)) := by
  rw [Chat.next, Hook.next]
  cases ha : chat[i]? with
  | none =>
    have hlength := List.getElem?_eq_none_iff.mp ha
    have hclose : h.close i = h := by
      rw [Hook.close, List.modify_eq_self (by rw [hshows.fields.1, List.length_map]; exact hlength)]
    rw [List.modify_eq_self hlength, hclose]
    exact hshows
  | some a =>
    obtain ⟨es, bs, rfl, rfl⟩ := split_of_getElem? ha
    rw [modify_at]
    by_cases hlive : a.standing = .live
    · rw [Exchange.goOn, if_pos hlive]
      refine hshows.replace (hshows.close_connections rfl nofun) rfl rfl rfl rfl ?_ fun _ => nofun
      simp [Exchange.Awaited, hlive]
    · rw [Exchange.goOn, if_neg hlive]
      exact hshows.replace (hshows.close_connections rfl hlive) rfl rfl rfl rfl Iff.rfl id

theorem Shows.fail (hshows : Shows js h chat) (i : ℕ) (hdelivered : Delivered js replies (Chat.next js chat (.fail i))) :
    Shows js (h.next js (.fail i)) (Chat.next js chat (.fail i)) := by
  have hconnection := hshows.getElem? i
  rw [Chat.next] at hdelivered ⊢
  rw [Hook.next]
  cases ha : chat[i]? with
  | none =>
    rw [ha] at hconnection
    rw [hconnection, List.modify_eq_self (List.getElem?_eq_none_iff.mp ha)]
    exact hshows
  | some a =>
    obtain ⟨es, bs, rfl, rfl⟩ := split_of_getElem? ha
    rw [ha] at hconnection
    rw [modify_at] at hdelivered ⊢
    by_cases hlive : a.standing = .live
    · have hopen : h.connections[es.length]? = some ⟨Reader.start.after a.chunks, true⟩ := by
        rw [hconnection, Option.map_some, Exchange.connection, hlive]
        rfl
      rw [Exchange.goOn, if_pos hlive] at hdelivered ⊢
      have hwaits : a.Awaited js := ⟨.inl hlive,
        hdelivered.kept { a with standing := .failed } (List.mem_append_right _ List.mem_cons_self) rfl⟩
      obtain ⟨rfl, hlast⟩ := hshows.last hwaits
      have hends : ¬ Exchange.Awaited js { a with standing := .failed } := by simp [Exchange.Awaited]
      rw [hopen]
      refine hlast.change (hshows.close_connections rfl nofun) (hlast.messages_of rfl) ?_ (fun h => absurd h hends) ?_
      · exact ⟨fun h => absurd h Bool.false_ne_true, fun h => absurd h hends⟩
      · exact fun i hi => ⟨(hlast.held i hi).1, .inr nofun⟩
    · have hclosed : h.connections[es.length]? = some ⟨Reader.start.after a.chunks, false⟩ := by
        rw [hconnection, Option.map_some, Exchange.connection, decide_eq_false hlive]
      rw [Exchange.goOn, if_neg hlive, hclosed]
      exact hshows

theorem Shows.stopStreaming (hshows : Shows js h chat) :
    Shows js (h.next js .stopStreaming) (Chat.next js chat .stopStreaming) := by
  rcases hshows with ⟨rfl, rfl⟩ | ⟨es, e, rfl, hlast⟩
  · exact .inl ⟨rfl, rfl⟩
  · have hshows : Shows js h (es ++ [e]) := .inr ⟨es, e, rfl, hlast⟩
    rw [Chat.next, Hook.next, modify_last]
    by_cases hawaited : e.Awaited js
    · have hends : ¬ Exchange.Awaited js { e with standing := .stopped } := by simp [Exchange.Awaited]
      rw [if_pos hawaited, hlast.current hawaited]
      exact hlast.change (hshows.close_connections rfl nofun) (hlast.messages_of rfl)
        ⟨fun h => absurd h Bool.false_ne_true, fun h => absurd h hends⟩ (fun h => absurd h hends) nofun
    · rw [if_neg hawaited]
      have hconnections : (h.connectionRef.elim h h.close).connections = (es ++ [e]).map Exchange.connection := by
        cases hheld : h.connectionRef with
        | none => exact hlast.connections
        | some i =>
          obtain ⟨rfl, hended⟩ := hlast.held i hheld
          exact hshows.close_connections rfl (hended.resolve_left hawaited)
      have hmessages : (h.connectionRef.elim h h.close).messages = (es ++ [e]).flatMap (Exchange.messages js) := by
        cases h.connectionRef <;> exact hlast.messages
      exact hlast.change hconnections hmessages ⟨fun h => absurd h Bool.false_ne_true, fun h => absurd h hawaited⟩
        (fun h => absurd h hawaited) nofun

/-- One step. -/
theorem Shows.next (hshows : Shows js h chat) (act : Act) (hdelivered : Delivered js replies (Chat.next js chat act)) :
    Shows js (h.next js act) (Chat.next js chat act) := by
  cases act with
  | sendMessage sessionId content => exact hshows.sendMessage sessionId content
  | stopStreaming => exact hshows.stopStreaming
  | read i value => exact hshows.read i value hdelivered
  | fail i => exact hshows.fail i hdelivered
  | finish i => exact hshows.finish i

/-! ## Along a run -/

/-- What becomes of an exchange: more may come, and a failed one stays as it is. -/
structure Exchange.Grows (e e' : Exchange) : Prop where
  chunks : e.chunks <+: e'.chunks
  failed : e.standing = .failed → e' = e

theorem Exchange.Grows.refl (e : Exchange) : e.Grows e := ⟨List.prefix_rfl, fun _ => rfl⟩

theorem grows_goOn (hchunks : e.chunks <+: e'.chunks) : e.Grows (e.goOn e') := by
  unfold Exchange.goOn
  split
  next hlive => exact ⟨hchunks, fun hfailed => Standing.noConfusion (hlive.symm.trans hfailed)⟩
  next => exact .refl e

theorem grows_modify {i : ℕ} {f : Exchange → Exchange} (hf : ∀ e : Exchange, e.Grows (f e)) {j : ℕ} (he : chat[j]? = some e) :
    ∃ e', (chat.modify i f)[j]? = some e' ∧ e.Grows e' := by
  rw [List.getElem?_modify, he]
  refine ⟨_, rfl, ?_⟩
  dsimp only
  split
  · exact hf e
  · exact .refl e

/-- An exchange stays in its place. -/
theorem grows_next (js : JavaScript) (act : Act) {j : ℕ} (he : chat[j]? = some e) :
    ∃ e', (Chat.next js chat act)[j]? = some e' ∧ e.Grows e' := by
  cases act with
  | sendMessage sessionId content =>
    rw [Chat.next]
    split
    · exact ⟨e, he, .refl e⟩
    · exact ⟨e, by rw [List.getElem?_append_left (List.getElem?_eq_some_iff.mp he).1, he], .refl e⟩
  | stopStreaming =>
    refine grows_modify (fun e => ?_) he
    split
    next hawaited =>
      refine ⟨List.prefix_rfl, fun hfailed => ?_⟩
      simp [Exchange.Awaited, hfailed] at hawaited
    next => exact .refl e
  | read i value =>
    refine grows_modify (fun e => ?_) he
    exact grows_goOn (List.prefix_append _ _)
  | fail i | finish i =>
    refine grows_modify (fun e => ?_) he
    exact grows_goOn List.prefix_rfl

/-- What is delivered in the end, is before. -/
theorem Delivered.before {act : Act} (h : Delivered js replies (Chat.next js chat act)) : Delivered js replies chat where
  wired i hi := by
    obtain ⟨e', he', _⟩ := grows_next js act (List.getElem?_eq_getElem hi)
    exact h.wired i (List.getElem?_eq_some_iff.mp he').1
  sent i e he := by
    obtain ⟨e', he', hgrows⟩ := grows_next js act he
    obtain ⟨chunks, hchunks⟩ := hgrows.chunks
    refine List.IsPrefix.trans ?_ (h.sent i e' he')
    rw [← hchunks, List.flatten_append]
    exact List.prefix_append _ _
  kept e he hfailed := by
    obtain ⟨i, hi⟩ := List.mem_iff_getElem?.mp he
    obtain ⟨e', he', hgrows⟩ := grows_next js act hi
    obtain rfl := hgrows.failed hfailed
    exact h.kept e' (List.mem_of_getElem? he') hfailed

theorem shows_run (acts : List Act) (hdelivered : Delivered js replies (Chat.run js acts)) :
    Shows js (Hook.run js acts) (Chat.run js acts) := by
  induction acts using List.reverseRecOn with
  | nil => exact .inl ⟨rfl, rfl⟩
  | append_singleton acts act ih =>
    have hchat : Chat.run js (acts ++ [act]) = Chat.next js (Chat.run js acts) act := List.foldl_concat ..
    have hhook : Hook.run js (acts ++ [act]) = (Hook.run js acts).next js act := List.foldl_concat ..
    rw [hchat] at hdelivered ⊢
    rw [hhook]
    exact (ih hdelivered.before).next act hdelivered

end Shows

/-- What is left of an event without its number. -/
def A2UIEvent.pair (event : A2UIEvent) : String × Assoc Value := (event.eventType, event.data)

def wire (x : Copilot.Sessions.EventType × Assoc Value) : String × Assoc Value := (x.1.name, x.2)

theorem wired_of_shaped {js : JavaScript} {events : List A2UIEvent}
    {sent : List (Copilot.Sessions.EventType × Assoc Value)} (hlast : ∀ x ∈ sent.dropLast, x.1 ≠ .done)
    (hshaped : ∀ x ∈ sent, Copilot.Sessions.Shaped x.1 x.2) (hsent : events.map A2UIEvent.pair = sent.map wire)
    (hwellFormed : ∀ event ∈ events, event.payload.wellFormed) (hreads : ∀ event ∈ events, Reads js event) :
    Wired js events := by
  have hof (event : A2UIEvent) (he : event ∈ events) : ∃ x ∈ sent, event.eventType = x.1.name ∧ event.data = x.2 := by
    have hmem : event.pair ∈ sent.map wire := hsent ▸ List.mem_map_of_mem he
    obtain ⟨x, hx, heq⟩ := List.mem_map.mp hmem
    exact ⟨x, hx, (congrArg Prod.fst heq).symm, (congrArg Prod.snd heq).symm⟩
  refine ⟨hwellFormed, hreads, ?_, ?_, ?_, ?_⟩
  · intro event he
    obtain ⟨x, hx, _, hdata⟩ := hof event he
    exact hdata ▸ (hshaped x hx).keys
  · intro event he
    obtain ⟨x, hx, _, hdata⟩ := hof event he
    exact hdata ▸ (hshaped x hx).typed
  · intro event he htype
    obtain ⟨x, hx, hname, hdata⟩ := hof event he
    refine hdata ▸ (hshaped x hx).text ?_
    cases hx' : x.1 <;> rw [hname, hx'] at htype <;> first | rfl | exact absurd htype (by decide)
  · intro event he hdone
    have hmem : event.pair ∈ (sent.map wire).dropLast := by
      rw [← hsent, ← List.map_dropLast]
      exact List.mem_map_of_mem he
    rw [← List.map_dropLast] at hmem
    obtain ⟨x, hx, heq⟩ := List.mem_map.mp hmem
    have hname : x.1.name = "done" := (congrArg Prod.fst heq).trans hdone
    refine hlast x hx ?_
    cases hx' : x.1 <;> rw [hx'] at hname <;> first | rfl | exact absurd hname (by decide)

/-- The events are those of one message, which the browser can read. -/
structure Answers (js : JavaScript) (events : List A2UIEvent) : Prop where
  served : ∃ sent, Copilot.Sessions.Served sent ∧ events.map A2UIEvent.pair = sent.map wire
  wellFormed : ∀ event ∈ events, event.payload.wellFormed
  reads : ∀ event ∈ events, Reads js event

theorem Answers.wired {js : JavaScript} {events : List A2UIEvent} (h : Answers js events) : Wired js events := by
  obtain ⟨sent, hserved, hsent⟩ := h.served
  exact wired_of_shaped hserved.shaped.1 hserved.shaped.2 hsent h.wellFormed h.reads

/-- In every interleaving of messages, stops, chunks of any size over any of the connections, their failures and ends, in
which a connection brings what the server sends for its message and does not fail after `done`: the panel shows the
exchanges in order, each reply made of the events of its own message that have arrived, and it is streaming if the last
reply is awaited. -/
theorem panel_shows_exchanges (js : JavaScript) (acts : List Act) {replies : ℕ → List A2UIEvent}
    (hanswers : ∀ i < (Chat.run js acts).length, Answers js (replies i))
    (hsent : ∀ i e, (Chat.run js acts)[i]? = some e → e.chunks.flatten <+: streamed (replies i))
    (hkept : ∀ e ∈ Chat.run js acts, e.standing = .failed → .onDone ∉ connectSSE js.parse e.chunks) :
    (Hook.run js acts).messages = (Chat.run js acts).zipIdx.flatMap (fun x =>
      [⟨.user, x.1.content, []⟩, reply js (arrivals x.1.chunks 0 (replies x.2))]) ∧
    ((Hook.run js acts).isStreaming = true ↔ Chat.Awaits js (Chat.run js acts)) := by
  have hdelivered : Delivered js replies (Chat.run js acts) := ⟨fun i hi => (hanswers i hi).wired, hsent, hkept⟩
  obtain ⟨_, hmessages, hstreaming⟩ := (shows_run acts hdelivered).fields
  refine ⟨?_, hstreaming⟩
  have hchat : (Chat.run js acts).flatMap (Exchange.messages js) =
      (Chat.run js acts).zipIdx.flatMap fun x => Exchange.messages js x.1 := by
    conv_lhs => rw [← List.zipIdx_map_fst 0 (Chat.run js acts), List.flatMap_map]
  rw [hmessages, hchat]
  refine List.flatMap_congr fun x hx => ?_
  have hat : (Chat.run js acts)[x.2]? = some x.1 := List.mem_zipIdx_iff_getElem?.mp hx
  have hwired := hdelivered.wired x.2 (List.getElem?_eq_some_iff.mp hat).1
  rw [Exchange.messages, hwired.reply (hsent x.2 x.1 hat)]

/-! ## Two messages -/

section Examples
open Copilot.Sessions

def browser : JavaScript := ⟨loads, fun _ => ""⟩

def desk : Server where
  table := ⟨[⟨"s1", "t1", "u1", "agent", some "Hi", [], none, .active, 0, 0⟩], by decide⟩
  saved := ⟨[], by decide⟩
  world :=
    { processMessage := fun _ content =>
        if content = "Hi" then
          .ok [[("type", .str "text_delta"), ("content", .str "Grüß dich")], [("type", .str "done")]]
        else .ok [[("type", .str "interrupt"), ("confirmation", .dict [("execution_id", .str "e1")])]]
      decide := fun _ => .ok none }
  counter := 0
  decisions := []
  sent := []

def speaker : Ctx := ⟨"t1", "u1", 1⟩

/-- The numbered events of a message. -/
def answered (s : Server) (content : String) : List A2UIEvent :=
  (sends ((sendMessage speaker "s1" content).transcript Cmd.exec s)).zipIdx.map fun x =>
    ⟨x.1.1.name, x.1.2, some (x.2 + 1)⟩

theorem desk_tells : desk.world.Tells := by
  intro context content events h event he htype
  by_cases hcontent : content = "Hi"
  · simp only [desk, hcontent, if_true] at h
    cases h
    rcases List.mem_cons.mp he with rfl | he
    · exact ⟨_, rfl⟩
    · rw [List.mem_singleton.mp he] at htype
      exact absurd htype (by decide)
  · simp only [desk, hcontent, if_false] at h
    cases h
    rw [List.mem_singleton.mp he] at htype
    exact absurd htype (by decide)

theorem reads_of_loads {event : A2UIEvent} (h : loads (dumpsRaw event.payload) = some event.payload) :
    Reads browser event := ⟨event.fields, h, fun _ _ hlookup => hlookup⟩

theorem answered_pairs (s : Server) (content : String) : (answered s content).map A2UIEvent.pair =
    (sends ((sendMessage speaker "s1" content).transcript Cmd.exec s)).map wire := by
  rw [answered, List.map_map]
  conv_rhs => rw [← List.zipIdx_map_fst 0 (sends _), List.map_map]
  rfl

theorem answers_answered {content : String} (h : ∀ event ∈ answered desk content, event.payload.wellFormed ∧
    loads (dumpsRaw event.payload) = some event.payload) : Answers browser (answered desk content) where
  served := ⟨_, served_run speaker "s1" content desk_tells, answered_pairs desk content⟩
  wellFormed event he := (h event he).1
  reads event he := reads_of_loads (h event he).2

def replied : ℕ → List A2UIEvent
  | 0 => answered desk "Hi"
  | _ => answered desk "Delete it"

/-- A message that is sent too early, and one that is interrupted, after which the user stops. -/
def talk : List Act :=
  [.sendMessage (some "s1") "Hi", .read 0 ((streamed (replied 0)).take 62), .sendMessage (some "s1") "Too early",
    .read 0 ((streamed (replied 0)).drop 62), .sendMessage (some "s1") "Delete it", .finish 0,
    .read 1 (streamed (replied 1)), .finish 1, .stopStreaming]

theorem panel_shows_exchanges_talk :
    ((Chat.run browser talk).map Exchange.content = ["Hi", "Delete it"]) ∧
    (Hook.run browser talk).messages = (Chat.run browser talk).zipIdx.flatMap (fun x =>
      [⟨.user, x.1.content, []⟩, reply browser (arrivals x.1.chunks 0 (replied x.2))]) ∧
    ((Hook.run browser talk).isStreaming = true ↔ Chat.Awaits browser (Chat.run browser talk)) := by
  have hcontents : (Chat.run browser talk).map Exchange.content = ["Hi", "Delete it"] := by decide +kernel
  have hlength : (Chat.run browser talk).length = 2 := by rw [← List.length_map Exchange.content, hcontents]; rfl
  refine ⟨hcontents, panel_shows_exchanges browser talk ?_ ?_ ?_⟩
  · intro i hi
    match i with
    | 0 => exact answers_answered (by decide +kernel)
    | 1 => exact answers_answered (by decide +kernel)
    | i + 2 => omega
  · have hall : ∀ i < 2, ∀ e ∈ (Chat.run browser talk)[i]?, e.chunks.flatten <+: streamed (replied i) := by decide +kernel
    intro i e he
    exact hall i (hlength ▸ (List.getElem?_eq_some_iff.mp he).1) e he
  · decide +kernel

/-- A connection that fails after `done` ends the wait for another reply, and the next message gets that reply. -/
example : (Hook.run browser [.sendMessage (some "s1") "Hi", .read 0 (streamed (replied 0)),
    .sendMessage (some "s1") "Delete it", .fail 0, .sendMessage (some "s1") "Hi",
    .read 1 (streamed (replied 1))]).messages.map (fun m => m.events.map Prod.fst) =
      [[], [], [], [], [], [some (.str "interrupt")]] := by decide +kernel

end Examples
end Lingshu.Frontend
