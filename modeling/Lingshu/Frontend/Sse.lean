import Lingshu.Json.Access
import Lingshu.Json.Raw
import Lingshu.Text.Chunks
import Lingshu.Text.Utf8

/-! # Server-sent events

`A2UIEvent.to_sse` writes them, and `connectSSE` of `sse.ts` reads them out of chunks of bytes. It forgets the data line
of an event when a chunk ends before the blank line after it. -/
namespace Lingshu.Frontend
open Json Text
set_option autoImplicit false

/-! ## Writing -/

structure A2UIEvent where
  eventType : String
  data : Assoc Value
  eventId : Option ℤ
  deriving DecidableEq

/-- `{"type": self.event_type, **self.data}`. -/
def A2UIEvent.payload (event : A2UIEvent) : Value :=
  .dict (Assoc.update [("type", .str event.eventType)] event.data)

def A2UIEvent.idLines (event : A2UIEvent) : List String :=
  match event.eventId with
  | some i => ["id: " ++ toString i]
  | none => []

/-- `to_sse`. -/
def A2UIEvent.toSse (event : A2UIEvent) : String :=
  "\n".intercalate (event.idLines ++ ["event: a2ui", "data: " ++ dumpsRaw event.payload, ""]) ++ "\n"

def utf8 (text : List Char) : List UInt8 := text.flatMap String.utf8EncodeChar

def A2UIEvent.bytes (event : A2UIEvent) : List UInt8 := utf8 event.toSse.toList

/-- What the server sends. -/
def streamed (events : List A2UIEvent) : List UInt8 := events.flatMap A2UIEvent.bytes

/-! ## Reading -/

def dataPrefix : List Char := "data: ".toList

/-- The loop over the lines of a chunk; what goes to `JSON.parse`. -/
def readLine (currentData line : List Char) : List (List Char) × List Char :=
  if dataPrefix.isPrefixOf line then ([], line.drop 6)
  else if line = [] ∧ currentData ≠ [] then ([currentData], [])
  else ([], currentData)

def lineLoop : Machine (List Char) (List Char) (List Char) := ⟨readLine, id⟩

/-- `new TextDecoder()`, with `stream: true`. -/
def textDecoder : Machine Utf8 UInt8 Char := ⟨Utf8.next, id⟩

structure Reader where
  decoder : Utf8
  buffer : List Char

def Reader.start : Reader := ⟨Utf8.idle, []⟩

/-- One `reader.read()`. -/
def Reader.read (r : Reader) (value : List UInt8) : List (List Char) × Reader :=
  let decoded := textDecoder.feed r.decoder value
  let lines := (r.buffer ++ decoded.1).splitOn '\n'
  ((lineLoop.feed [] lines.dropLast).1, ⟨decoded.2, lines.getLast?.getD []⟩)

def Reader.readAll : Reader → List (List UInt8) → List (List Char)
  | _, [] => []
  | r, value :: values => (r.read value).1 ++ (r.read value).2.readAll values

/-- A call of the front end's callbacks. -/
inductive Callback where
  | onEvent (type : Option Value) (data : Value)
  | onDone
  deriving DecidableEq

/-- A property of what `JSON.parse` has returned; `undefined` where there is none. -/
def property (parsed : Value) (name : String) : Option Value :=
  match parsed with
  | .dict entries => entries.lookup name
  | _ => none

/-- What is called for the data of an event; nothing where `JSON.parse`, or the access to the type, throws. -/
def callbacks (parse : String → Option Value) (currentData : List Char) : List Callback :=
  match parse (String.ofList currentData) with
  | none | some .null => []
  | some parsed =>
    .onEvent (property parsed "type") parsed :: (if property parsed "type" = some (.str "done") then [.onDone] else [])

/-- `connectSSE`, for the chunks that the connection gives. -/
def connectSSE (parse : String → Option Value) (chunks : List (List UInt8)) : List Callback :=
  (Reader.start.readAll chunks).flatMap (callbacks parse)

/-! ## Character by character -/

/-- The reader between two characters: the line so far, and the data of the event. -/
def lines : Machine (List Char × List Char) Char (List Char) where
  next s c :=
    if c = '\n' then ((readLine s.2 s.1).1, [], (readLine s.2 s.1).2) else ([], s.1 ++ [c], s.2)
  cut s := (s.1, [])

def sse : Machine (Utf8 × List Char × List Char) UInt8 (List Char) := textDecoder.andThen lines

/-- Splitting what has come at its newlines, and reading the lines but for the last, is reading character by
character. -/
theorem feed_lines (text : List Char) {buffer : List Char} (data : List Char) (h : '\n' ∉ buffer) :
    lines.feed (buffer, data) text =
      ((lineLoop.feed data ((buffer ++ text).splitOn '\n').dropLast).1,
        ((buffer ++ text).splitOn '\n').getLast?.getD [],
        (lineLoop.feed data ((buffer ++ text).splitOn '\n').dropLast).2) := by
  induction text generalizing buffer data with
  | nil =>
    rw [List.append_nil, List.splitOn_eq_singleton h]
    rfl
  | cons c text ih =>
    by_cases hc : c = '\n'
    · subst hc
      have hsplit : (buffer ++ '\n' :: text).splitOn '\n' = buffer :: text.splitOn '\n' := by
        rw [List.splitOn_append_cons_self, List.splitOn_eq_singleton h]
        rfl
      obtain ⟨piece, pieces, hpieces⟩ := List.exists_cons_of_ne_nil (List.splitOn_ne_nil '\n' text)
      have hrest := @ih [] (readLine data buffer).2 List.not_mem_nil
      rw [List.nil_append] at hrest
      have hlast : (buffer :: text.splitOn '\n').getLast? = (text.splitOn '\n').getLast? := by
        rw [hpieces, List.getLast?_cons_cons]
      have hinit : (buffer :: text.splitOn '\n').dropLast = buffer :: (text.splitOn '\n').dropLast := by
        rw [hpieces, List.dropLast_cons_cons]
      have hnext : lines.next (buffer, data) '\n' = ((readLine data buffer).1, [], (readLine data buffer).2) := by
        simp [lines]
      rw [Machine.feed, hnext, hsplit, hinit, hlast, Machine.feed]
      exact congrArg (fun r : List (List Char) × List Char × List Char => ((readLine data buffer).1 ++ r.1, r.2)) hrest
    · have hbuffer : '\n' ∉ buffer ++ [c] := by
        rw [List.mem_append, List.mem_singleton, not_or]
        exact ⟨h, Ne.symm hc⟩
      have hnext : lines.next (buffer, data) c = ([], buffer ++ [c], data) := if_neg hc
      rw [Machine.feed, hnext, ih data hbuffer, List.append_assoc]
      rfl

/-- What a chunk leaves in the buffer is no whole line. -/
theorem newline_notMem_last (text : List Char) : '\n' ∉ (text.splitOn '\n').getLast?.getD [] := by
  induction text with
  | nil => exact List.not_mem_nil
  | cons c text ih =>
    obtain ⟨piece, pieces, hpieces⟩ := List.exists_cons_of_ne_nil (List.splitOn_ne_nil '\n' text)
    rw [List.splitOn_cons_eq_if_modifyHead]
    by_cases hc : c = '\n'
    · rw [if_pos (by simpa using hc), hpieces, List.getLast?_cons_cons, ← hpieces]
      exact ih
    · rw [if_neg (by simpa using hc), hpieces, List.modifyHead_cons]
      rw [hpieces] at ih
      cases pieces with
      | nil =>
        rw [List.getLast?_singleton, Option.getD_some, List.mem_cons, not_or]
        exact ⟨Ne.symm hc, ih⟩
      | cons piece' pieces =>
        rw [List.getLast?_cons_cons] at ih ⊢
        exact ih

/-- The reader of `connectSSE` is the machine, which forgets the data at the end of each chunk. -/
theorem readAll_eq (chunks : List (List UInt8)) {r : Reader} (h : '\n' ∉ r.buffer) :
    r.readAll chunks = (sse.chunked (r.decoder, r.buffer, []) chunks).1 := by
  induction chunks generalizing r with
  | nil => rfl
  | cons chunk chunks ih =>
    have hfeed := Machine.feed_andThen textDecoder lines r.decoder (r.buffer, []) chunk
    rw [feed_lines _ [] h] at hfeed
    rw [Reader.readAll, Machine.chunked, ih (newline_notMem_last _)]
    show _ = ((textDecoder.andThen lines).feed (r.decoder, r.buffer, []) chunk).1 ++ _
    rw [show sse = textDecoder.andThen lines from rfl, hfeed]
    rfl

/-! ## The bytes of an event -/

/-- The data that is left after bytes, if a chunk ends among them. -/
def kept (data : List Char) (bytes : List (UInt8 × Bool)) : List Char := if bytes.any Prod.snd then [] else data

theorem kept_cons (data : List Char) (b : UInt8) (ends : Bool) (bytes : List (UInt8 × Bool)) :
    kept data ((b, ends) :: bytes) = kept (if ends then [] else data) bytes := by
  unfold kept
  cases ends with
  | true => exact (ite_self _).symm
  | false => rfl

theorem kept_nil (bytes : List (UInt8 × Bool)) : kept [] bytes = [] := ite_self _

theorem kept_append (data : List Char) (xs ys : List (UInt8 × Bool)) : kept data (xs ++ ys) = kept (kept data xs) ys := by
  induction xs generalizing data with
  | nil => rfl
  | cons x xs ih => rw [List.cons_append, kept_cons, ih, kept_cons]

theorem sse_next (d : Utf8) (buffer data : List Char) (b : UInt8) : sse.next (d, buffer, data) b =
    ((lines.feed (buffer, data) (d.next b).1).1, (d.next b).2, (lines.feed (buffer, data) (d.next b).1).2) := rfl

/-- The next byte, and the end of the chunk if it is there. -/
theorem tagged_cons {d d' : Utf8} {buffer buffer' data data' : List Char} {b : UInt8} {out : List (List Char)}
    (h : sse.next (d, buffer, data) b = (out, d', buffer', data')) (ends : Bool) (bytes : List (UInt8 × Bool)) :
    sse.tagged (d, buffer, data) ((b, ends) :: bytes) =
      (out ++ (sse.tagged (d', buffer', if ends then [] else data') bytes).1,
        (sse.tagged (d', buffer', if ends then [] else data') bytes).2) := by
  rw [Machine.tagged, h]
  cases ends <;> rfl

section Bytes
variable {buffer data text : List Char} {bytes : List (UInt8 × Bool)}

/-- Bytes that end no character. -/
theorem tagged_silent {d d' : Utf8} {plain : List UInt8} (h : d.Silent plain d') (data : List Char)
    (hbytes : bytes.map Prod.fst = plain) :
    sse.tagged (d, buffer, data) bytes = ([], d', buffer, kept data bytes) := by
  induction h generalizing bytes data with
  | nil d =>
    rw [List.map_eq_nil_iff.mp hbytes]
    rfl
  | @cons d d' d'' byte plain hnext _ ih =>
    obtain ⟨⟨b, ends⟩, rest, rfl, rfl, hrest⟩ := List.map_eq_cons_iff.mp hbytes
    have hstep : sse.next (d, buffer, data) b = ([], d', buffer, data) := by
      rw [sse_next, hnext]
      rfl
    rw [tagged_cons hstep, ih _ hrest, kept_cons]
    rfl

/-- The bytes of a character, up to what the line makes of it. -/
theorem tagged_char (c : Char) (data : List Char) (hbytes : bytes.map Prod.fst = String.utf8EncodeChar c)
    (hc : c ≠ '\n') : sse.tagged (Utf8.idle, buffer, data) bytes = ([], Utf8.idle, buffer ++ [c], kept data bytes) := by
  obtain ⟨plain, byte, d, hencode, hsilent, hlast⟩ := Utf8.decodes c
  rw [hencode] at hbytes
  obtain ⟨first, last, rfl, hfirst, hrest⟩ := List.map_eq_append_iff.mp hbytes
  obtain ⟨⟨b, ends⟩, hsingle, rfl⟩ := List.map_eq_singleton_iff.mp hrest
  subst hsingle
  have hline : lines.feed (buffer, kept data first) [c] = ([], buffer ++ [c], kept data first) := by
    simp [Machine.feed, lines, hc]
  have hstep : sse.next (d, buffer, kept data first) b = ([], Utf8.idle, buffer ++ [c], kept data first) := by
    rw [sse_next, hlast, hline]
  rw [Machine.tagged_append, tagged_silent hsilent data hfirst, tagged_cons hstep, kept_append, kept_cons]
  cases ends <;> rfl

/-- A text on one line. -/
theorem tagged_text (text : List Char) (data : List Char) (hbytes : bytes.map Prod.fst = utf8 text) (h : '\n' ∉ text) :
    sse.tagged (Utf8.idle, buffer, data) bytes = ([], Utf8.idle, buffer ++ text, kept data bytes) := by
  induction text generalizing bytes buffer data with
  | nil =>
    rw [List.map_eq_nil_iff.mp hbytes, List.append_nil]
    rfl
  | cons c text ih =>
    rw [List.mem_cons, not_or] at h
    rw [utf8, List.flatMap_cons] at hbytes
    obtain ⟨first, rest, rfl, hfirst, hrest⟩ := List.map_eq_append_iff.mp hbytes
    rw [Machine.tagged_append, tagged_char c data hfirst (Ne.symm h.1), ih _ hrest h.2, kept_append,
      List.append_assoc]
    rfl

/-- The newline that ends a line. -/
theorem tagged_newline (buffer data : List Char) (ends : Bool) :
    sse.tagged (Utf8.idle, buffer, data) [(10, ends)] = ((readLine data buffer).1, Utf8.idle, [],
      if ends then [] else (readLine data buffer).2) := by
  have hdecode : Utf8.idle.next 10 = (['\n'], Utf8.idle) := rfl
  have hline : lines.feed (buffer, data) ['\n'] = ((readLine data buffer).1, [], (readLine data buffer).2) := by
    simp [Machine.feed, lines]
  have hstep : sse.next (Utf8.idle, buffer, data) 10 =
      ((readLine data buffer).1, Utf8.idle, [], (readLine data buffer).2) := by
    rw [sse_next, hdecode, hline]
  rw [tagged_cons hstep, Machine.tagged, List.append_nil]

/-- A line with its newline. -/
theorem tagged_line (line : List Char) (data : List Char) (h : '\n' ∉ line)
    (hbytes : bytes.map Prod.fst = utf8 (line ++ ['\n'])) : ∃ (before : List (UInt8 × Bool)) (ends : Bool),
      bytes = before ++ [(10, ends)] ∧ sse.tagged (Utf8.idle, [], data) bytes = ((readLine (kept data before) line).1,
        Utf8.idle, [], if ends then [] else (readLine (kept data before) line).2) := by
  rw [utf8, List.flatMap_append] at hbytes
  obtain ⟨before, last, rfl, hbefore, hlast⟩ := List.map_eq_append_iff.mp hbytes
  obtain ⟨⟨b, ends⟩, rfl, hb⟩ := List.map_eq_singleton_iff.mp (hlast : last.map Prod.fst = [10])
  obtain rfl : b = 10 := hb
  refine ⟨before, ends, rfl, ?_⟩
  rw [Machine.tagged_append, tagged_text line data hbefore h, List.nil_append, tagged_newline]
  rfl

theorem readLine_nil (line : List Char) (h : dataPrefix.isPrefixOf line = false) : readLine [] line = ([], []) := by
  rw [readLine, h, if_neg Bool.false_ne_true, if_neg (fun hempty => hempty.2 rfl)]

/-- Lines without data. -/
theorem tagged_heads (lines : List (List Char)) (h : ∀ line ∈ lines, '\n' ∉ line ∧ dataPrefix.isPrefixOf line = false)
    (hbytes : bytes.map Prod.fst = utf8 (lines.flatMap fun line => line ++ ['\n'])) :
    sse.tagged (Utf8.idle, [], []) bytes = ([], Utf8.idle, [], []) := by
  induction lines generalizing bytes with
  | nil =>
    rw [List.map_eq_nil_iff.mp hbytes]
    rfl
  | cons line lines ih =>
    obtain ⟨hline, hprefix⟩ := h line List.mem_cons_self
    rw [List.flatMap_cons, utf8, List.flatMap_append] at hbytes
    obtain ⟨first, rest, rfl, hfirst, hrest⟩ := List.map_eq_append_iff.mp hbytes
    obtain ⟨before, ends, rfl, hread⟩ := tagged_line line [] hline hfirst
    rw [kept_nil, readLine_nil line hprefix, ite_self] at hread
    rw [Machine.tagged_append, hread, ih (fun l hl => h l (List.mem_cons_of_mem line hl)) hrest]
    rfl

/-- All but the blank line of an event: what is left is its data, unless the chunk ends there. -/
theorem tagged_data (heads : List (List Char)) (payload : List Char)
    (hheads : ∀ line ∈ heads, '\n' ∉ line ∧ dataPrefix.isPrefixOf line = false) (hpayload : '\n' ∉ payload)
    (hbytes : bytes.map Prod.fst =
      utf8 (heads.flatMap (fun line => line ++ ['\n']) ++ (dataPrefix ++ payload ++ ['\n']))) :
    ∃ (before : List (UInt8 × Bool)) (ends : Bool), bytes = before ++ [(10, ends)] ∧
      sse.tagged (Utf8.idle, [], []) bytes = ([], Utf8.idle, [], if ends then [] else payload) := by
  rw [utf8, List.flatMap_append] at hbytes
  obtain ⟨first, rest, rfl, hfirst, hrest⟩ := List.map_eq_append_iff.mp hbytes
  have hline : '\n' ∉ dataPrefix ++ payload := by
    rw [List.mem_append, not_or]
    exact ⟨by decide, hpayload⟩
  obtain ⟨before, ends, rfl, hread⟩ := tagged_line (dataPrefix ++ payload) [] hline hrest
  have hdata : readLine [] (dataPrefix ++ payload) = ([], payload) := by
    rw [readLine, if_pos (List.isPrefixOf_iff_prefix.mpr (List.prefix_append _ _))]
    rfl
  refine ⟨first ++ before, ends, by rw [List.append_assoc], ?_⟩
  rw [kept_nil, hdata] at hread
  rw [Machine.tagged_append, tagged_heads heads hheads hfirst, hread]
  rfl

/-- A whole event gives its data, unless a chunk ends between its last two bytes. -/
theorem tagged_event (heads : List (List Char)) (payload : List Char)
    (hheads : ∀ line ∈ heads, '\n' ∉ line ∧ dataPrefix.isPrefixOf line = false) (hpayload : '\n' ∉ payload)
    (hsome : payload ≠ []) (hbytes : bytes.map Prod.fst =
      utf8 (heads.flatMap (fun line => line ++ ['\n']) ++ (dataPrefix ++ payload ++ ['\n']) ++ ['\n'])) :
    ∃ (before : List (UInt8 × Bool)) (ends ends' : Bool), bytes = before ++ [(10, ends), (10, ends')] ∧
      sse.tagged (Utf8.idle, [], []) bytes = (if ends then [] else [payload], Utf8.idle, [], []) := by
  rw [utf8, List.flatMap_append] at hbytes
  obtain ⟨first, rest, rfl, hfirst, hrest⟩ := List.map_eq_append_iff.mp hbytes
  obtain ⟨before, ends, rfl, hread⟩ := tagged_data heads payload hheads hpayload hfirst
  obtain ⟨⟨b, ends'⟩, rfl, hb⟩ := List.map_eq_singleton_iff.mp (hrest : rest.map Prod.fst = [10])
  obtain rfl : b = 10 := hb
  refine ⟨before, ends, ends', by rw [List.append_assoc]; rfl, ?_⟩
  rw [Machine.tagged_append, hread, tagged_newline]
  cases ends with
  | true => exact congrArg (fun data => (([] : List (List Char)), Utf8.idle, ([] : List Char), data)) (ite_self _)
  | false =>
    have hblank : readLine payload [] = ([payload], []) := by
      rw [readLine, if_neg (by decide), if_pos ⟨rfl, hsome⟩]
    simp only [Bool.false_eq_true, if_false, hblank, ite_self, List.nil_append]

end Bytes

/-! ## The stream -/

/-- What `JSON.parse` gets of an event. -/
def A2UIEvent.text (event : A2UIEvent) : List Char := (dumpsRaw event.payload).toList

/-- The lines before the data of an event. -/
def A2UIEvent.heads (event : A2UIEvent) : List (List Char) := (event.idLines ++ ["event: a2ui"]).map String.toList

theorem toSse_toList (event : A2UIEvent) : event.toSse.toList =
    event.heads.flatMap (fun line => line ++ ['\n']) ++ (dataPrefix ++ event.text ++ ['\n']) ++ ['\n'] := by
  unfold A2UIEvent.toSse A2UIEvent.heads A2UIEvent.idLines A2UIEvent.text
  cases event.eventId <;>
    simp [String.intercalate_cons_cons, String.intercalate_singleton, String.toList_append, dataPrefix]

theorem heads_plain (event : A2UIEvent) : ∀ line ∈ event.heads, '\n' ∉ line ∧ dataPrefix.isPrefixOf line = false := by
  unfold A2UIEvent.heads A2UIEvent.idLines
  have hevent : '\n' ∉ "event: a2ui".toList ∧ dataPrefix.isPrefixOf "event: a2ui".toList = false := by decide
  cases event.eventId with
  | none =>
    intro line hline
    rw [List.mem_singleton.mp hline]
    exact hevent
  | some i =>
    intro line hline
    simp only [List.cons_append, List.nil_append, List.map_cons, List.map_nil, List.mem_cons, List.not_mem_nil,
      or_false] at hline
    rcases hline with rfl | rfl
    · refine ⟨OneLine.append (by decide) (oneLine_int i), ?_⟩
      rw [String.toList_append]
      rfl
    · exact hevent

theorem text_plain {event : A2UIEvent} (h : event.payload.wellFormed) : '\n' ∉ event.text ∧ event.text ≠ [] := by
  refine ⟨oneLine_dumpsRaw _ h, fun hempty => ?_⟩
  have hopen : event.text = '\x7b' :: (dumpsRawEntries (Assoc.update [("type", .str event.eventType)] event.data) ++
      "\x7d").toList := by
    rw [A2UIEvent.text, A2UIEvent.payload, dumpsRaw, String.append_assoc, String.toList_append]
    rfl
  rw [hopen] at hempty
  cases hempty

/-- The first `n` bytes have come, and no chunk ends right before the last of them. -/
def Whole (chunks : List (List UInt8)) (n : ℕ) : Prop :=
  n ≤ chunks.flatten.length ∧ ∀ k ≤ chunks.length, (chunks.take k).flatten.length + 1 ≠ n

instance (chunks : List (List UInt8)) (n : ℕ) : Decidable (Whole chunks n) := inferInstanceAs (Decidable (_ ∧ _))

/-- The events that arrive, of those whose bytes begin after `start` bytes. -/
def arrivals (chunks : List (List UInt8)) : ℕ → List A2UIEvent → List A2UIEvent
  | _, [] => []
  | start, event :: events =>
    let stop := start + event.bytes.length
    if Whole chunks stop then event :: arrivals chunks stop events else arrivals chunks stop events

section Stream
variable {chunks : List (List UInt8)} {events : List A2UIEvent} {event : A2UIEvent} {start : ℕ}

theorem arrivals_none (h : chunks.flatten.length < start) (events : List A2UIEvent) : arrivals chunks start events = [] := by
  induction events generalizing start with
  | nil => rfl
  | cons event events ih =>
    have hstop : chunks.flatten.length < start + event.bytes.length := by omega
    rw [arrivals, if_neg (fun hwhole => absurd hwhole.1 (by omega)), ih hstop]

/-- Part of an event gives nothing. -/
theorem tagged_part (h : event.payload.wellFormed) {bytes : List (UInt8 × Bool)}
    (hbytes : bytes.map Prod.fst <+: event.bytes) (hlt : bytes.length < event.bytes.length) :
    (sse.tagged (Utf8.idle, [], []) bytes).1 = [] := by
  obtain ⟨hline, _⟩ := text_plain h
  have hsplit : event.bytes = utf8 (event.heads.flatMap (fun line => line ++ ['\n']) ++
      (dataPrefix ++ event.text ++ ['\n'])) ++ [10] := by
    rw [A2UIEvent.bytes, toSse_toList, utf8, List.flatMap_append]
    rfl
  have hmost : bytes.map Prod.fst <+: utf8 (event.heads.flatMap (fun line => line ++ ['\n']) ++
      (dataPrefix ++ event.text ++ ['\n'])) := by
    rw [hsplit] at hbytes hlt
    refine List.prefix_of_prefix_length_le hbytes (List.prefix_append _ _) ?_
    rw [List.length_map]
    rw [List.length_append, List.length_singleton] at hlt
    omega
  obtain ⟨rest, hrest⟩ := hmost
  have hall : (bytes ++ rest.map fun b => (b, false)).map Prod.fst = utf8 (event.heads.flatMap
      (fun line => line ++ ['\n']) ++ (dataPrefix ++ event.text ++ ['\n'])) := by
    rw [List.map_append, List.map_map, ← hrest]
    exact congrArg _ (List.map_id _)
  obtain ⟨_, ends, _, hread⟩ := tagged_data event.heads event.text (heads_plain event) hline hall
  rw [Machine.tagged_append] at hread
  exact (List.append_eq_nil_iff.mp (congrArg Prod.fst hread)).1

/-- A whole event gives its text if it arrives. -/
theorem tagged_whole (h : event.payload.wellFormed) {bytes rest : List (UInt8 × Bool)}
    (hbytes : bytes.map Prod.fst = event.bytes) (htags : (tags chunks).drop start = bytes ++ rest) :
    sse.tagged (Utf8.idle, [], []) bytes =
      (if Whole chunks (start + event.bytes.length) then [event.text] else [], Utf8.idle, [], []) := by
  obtain ⟨hline, hsome⟩ := text_plain h
  have hall : bytes.map Prod.fst = utf8 (event.heads.flatMap (fun line => line ++ ['\n']) ++
      (dataPrefix ++ event.text ++ ['\n']) ++ ['\n']) := by
    rw [hbytes, A2UIEvent.bytes, toSse_toList]
  obtain ⟨before, ends, ends', hsplit, hread⟩ := tagged_event event.heads event.text (heads_plain event) hline hsome hall
  have hlength : event.bytes.length = before.length + 2 := by
    rw [← hbytes, List.length_map, hsplit, List.length_append]
    rfl
  have hat : (tags chunks)[start + before.length]? = some (10, ends) := by
    rw [← List.getElem?_drop, htags, hsplit, List.append_assoc, List.getElem?_append_right (le_refl _), Nat.sub_self]
    rfl
  have hends := tags_getElem? hat
  have hbound : start + event.bytes.length ≤ chunks.flatten.length := by
    have hdrop := congrArg List.length htags
    rw [List.length_drop, length_tags, List.length_append, hsplit, List.length_append] at hdrop
    simp only [List.length_cons, List.length_nil] at hdrop
    omega
  have hiff : Whole chunks (start + event.bytes.length) ↔ ends = false := by
    rw [← Bool.not_eq_true, hends, Whole]
    constructor
    · rintro ⟨_, hno⟩ ⟨k, hk, hcut⟩
      exact hno k hk (by omega)
    · intro hno
      exact ⟨hbound, fun k hk hcut => hno ⟨k, hk, by omega⟩⟩
  rw [hread]
  cases ends with
  | true => rw [if_pos rfl, if_neg (fun hwhole => Bool.noConfusion (hiff.mp hwhole))]
  | false => rw [if_neg Bool.false_ne_true, if_pos (hiff.mpr rfl)]

/-- From the beginning of an event on, the texts of the events that arrive. -/
theorem tagged_stream (h : ∀ event ∈ events, event.payload.wellFormed) (start : ℕ)
    (hbytes : ((tags chunks).drop start).map Prod.fst <+: streamed events) :
    (sse.tagged (Utf8.idle, [], []) ((tags chunks).drop start)).1 =
      (arrivals chunks start events).map A2UIEvent.text := by
  induction events generalizing start with
  | nil =>
    rw [List.map_eq_nil_iff.mp (List.prefix_nil.mp hbytes)]
    rfl
  | cons event events ih =>
    have hevent := h event List.mem_cons_self
    have hmore : streamed (event :: events) = event.bytes ++ streamed events := List.flatMap_cons
    rw [hmore] at hbytes
    by_cases hlt : ((tags chunks).drop start).length < event.bytes.length
    · have hpart : ((tags chunks).drop start).map Prod.fst <+: event.bytes :=
        List.prefix_of_prefix_length_le hbytes (List.prefix_append _ _) (by rw [List.length_map]; omega)
      have hover : chunks.flatten.length < start + event.bytes.length := by
        rw [List.length_drop, length_tags] at hlt
        omega
      rw [tagged_part hevent hpart hlt, arrivals, if_neg (fun hwhole => absurd hwhole.1 (by omega)),
        arrivals_none hover]
      rfl
    · obtain ⟨stream, hstream⟩ := hbytes
      have hsplit : (tags chunks).drop start =
          ((tags chunks).drop start).take event.bytes.length ++ (tags chunks).drop (start + event.bytes.length) := by
        rw [← List.drop_drop, List.take_append_drop]
      have hlen : event.bytes.length ≤ (((tags chunks).drop start).map Prod.fst).length := by
        rw [List.length_map]
        omega
      have hfirst : (((tags chunks).drop start).take event.bytes.length).map Prod.fst = event.bytes := by
        rw [List.map_take, ← List.take_append_of_le_length hlen, hstream, List.take_left]
      have hrest : ((tags chunks).drop (start + event.bytes.length)).map Prod.fst <+: streamed events := by
        refine ⟨stream, ?_⟩
        rw [← List.drop_drop, List.map_drop, ← List.drop_append_of_le_length hlen, hstream, List.drop_left]
      rw [hsplit, Machine.tagged_append, tagged_whole hevent hfirst hsplit,
        ih (fun e he => h e (List.mem_cons_of_mem event he)) _ hrest, arrivals]
      dsimp only
      split
      · rfl
      · rfl

/-- What the reader gives to `JSON.parse`. -/
theorem readAll_arrivals (h : ∀ event ∈ events, event.payload.wellFormed) (hchunks : chunks.flatten <+: streamed events) :
    Reader.start.readAll chunks = (arrivals chunks 0 events).map A2UIEvent.text := by
  have hbytes : ((tags chunks).drop 0).map Prod.fst <+: streamed events := by
    rw [List.drop_zero, tags_fst]
    exact hchunks
  have hstream := tagged_stream h 0 hbytes
  rw [List.drop_zero] at hstream
  have hmachine := Machine.chunked_eq_tagged (m := sse) (fun s => rfl) (s := (Utf8.idle, [], [])) rfl chunks
  rw [readAll_eq chunks (r := .start) List.not_mem_nil, ← hstream, ← hmachine]
  rfl

end Stream

/-- Of any events, sent over a connection that may end at any byte and gives its bytes in chunks of any sizes, the front
end is told, each once and in order, of those whose two last bytes come in one chunk. -/
theorem connectSSE_arrivals (parse : String → Option Value) {events : List A2UIEvent} {chunks : List (List UInt8)}
    (h : ∀ event ∈ events, event.payload.wellFormed) (hchunks : chunks.flatten <+: streamed events) :
    connectSSE parse chunks = (arrivals chunks 0 events).flatMap fun event => callbacks parse event.text := by
  rw [connectSSE, readAll_arrivals h hchunks, List.flatMap_map]

def spoken : List A2UIEvent :=
  [⟨"text_delta", [("content", .str "Größe")], some 1⟩, ⟨"text_delta", [("content", .str "!")], some 2⟩,
    ⟨"done", [], some 3⟩]

/-- A chunk ends inside a character of the first event, and another before the blank line of the second. -/
def cutTwice : List (List UInt8) :=
  [(streamed spoken).take 62, ((streamed spoken).drop 62).take 71, (streamed spoken).drop 133]

theorem connectSSE_arrivals_cutTwice :
    (arrivals cutTwice 0 spoken).map A2UIEvent.eventType = ["text_delta", "done"] ∧
    connectSSE loads cutTwice = (arrivals cutTwice 0 spoken).flatMap fun event => callbacks loads event.text :=
  ⟨by decide +kernel, connectSSE_arrivals loads (by decide +kernel) (by decide +kernel)⟩

end Lingshu.Frontend
