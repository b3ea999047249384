import ECN.AuditStore
import ECN.EventStream
import ECN.HandOver
import ECN.RingBuffers
import ECN.WireText

/-!
# The event stream on the wire

The generator's chunks are written as the text of an event stream. A client that cuts the
bytes into messages and parses the data of each decodes what was sent, in order and however
the bytes are split; of a message that has not come whole it decodes nothing. With the
hand-over from the replay to the live stream it decodes a piece of the topic's own log.
-/
namespace ECN

open EventStream (Frame Message Reader)

/-- An audit event that can be written as JSON. -/
structure StreamedEvent where
  event : AuditEvent
  isJson : IsJsonDoc (.dict event.transaction)

namespace SseChunk

/-! ## Writing -/

def fields (seq : ℕ) (payload : StreamedEvent) : PyDict :=
  [(.str "seq", .int seq), (.str "payload", .dict payload.event.toDict)]

/-- What `sse_generator` yields. -/
def text (py : Interp) : SseChunk StreamedEvent → String
  | .data seq payload => "data: " ++ (Value.dict (fields seq payload)).jsonText py ++ "\n\n"
  | .heartbeat => ": heartbeat\n\n"

/-- The chunk as the reader of the stream sees it. -/
def frame (py : Interp) : SseChunk StreamedEvent → Frame
  | .data seq payload => .data (utf8 ((Value.dict (fields seq payload)).jsonText py))
  | .heartbeat => .comment (utf8 " heartbeat")

end SseChunk

/-! ## Reading -/

/-- The number and the event that a message carries. -/
def readEntry (m : Message) : Option (ℕ × AuditEvent) := do
  let text ← decodeUtf8 m.data
  let d ← (← jsonLoads text).asDict.toOption
  let seq ← ((d.item (.str "seq")).bind Value.asNat).toOption
  let payload ← ((d.item (.str "payload")).bind Value.asDict).toOption
  let event ← (AuditEvent.ofDict payload).toOption
  return (seq, event)

/-- What a client decodes of the pieces that it has got. -/
def received (pieces : List (List UInt8)) : List (Option (ℕ × AuditEvent)) :=
  (pieces.foldl Reader.feedAll Reader.start).messages.map readEntry

namespace SseGenerator

/-- The bytes of everything yielded so far. -/
def wire (py : Interp) (gen : SseGenerator StreamedEvent) : List UInt8 :=
  gen.yielded.flatMap fun chunk => utf8 (chunk.text py)

end SseGenerator

/-! ## A chunk -/

/-- A printable text holds no control character. -/
theorem control_not_mem {cs : List Char} (h : ∀ c ∈ cs, isPrintable c = true) {b : UInt8}
    (hb : b.toNat < 32) : b ∉ utf8 (String.ofList cs) := by
  rw [utf8_of_isPrintable h]
  intro hmem
  obtain ⟨c, hc, hbyte⟩ := List.mem_map.mp hmem
  have hprint := h c hc
  simp only [isPrintable, Bool.and_eq_true, decide_eq_true_eq] at hprint
  have hval : c.val.toUInt8.toNat = c.toNat % 256 := rfl
  rw [hbyte] at hval
  omega

namespace SseChunk

theorem isJsonDoc_fields (seq : ℕ) (payload : StreamedEvent) :
    IsJsonDoc (.dict (fields seq payload)) := by
  refine .dict (by simp [fields]) (by simp [fields]) ?_
  simp only [fields, List.mem_cons, List.not_mem_nil, or_false, forall_eq_or_imp, forall_eq]
  exact ⟨.scalar rfl, AuditEvent.isJsonDoc payload.isJson⟩

theorem utf8_text (py : Interp) (chunk : SseChunk StreamedEvent) :
    utf8 (chunk.text py) = (chunk.frame py).bytes := by
  cases chunk with
  | data seq payload =>
    rw [text, utf8_append, utf8_append]
    have hname : utf8 "data: " =
        EventStream.dataName ++ [EventStream.colon, EventStream.space] := by decide
    have hend : utf8 "\n\n" = [EventStream.lineFeed, EventStream.lineFeed] := by decide
    rw [hname, hend]
    simp [frame, Frame.bytes, Frame.line]
  | heartbeat =>
    show utf8 ": heartbeat\n\n" = (Frame.comment (utf8 " heartbeat")).bytes
    decide

variable {py : Interp} (hpy : py.ReprReads)

include hpy

/-- No chunk holds the end of a line before its own. -/
theorem plain_frame (chunk : SseChunk StreamedEvent) :
    EventStream.Plain (chunk.frame py).text := by
  cases chunk with
  | data seq payload =>
    have hprint := (isJsonDoc_fields seq payload).isPrintable hpy
    rw [frame, Frame.text, Value.jsonText]
    constructor
    · exact control_not_mem hprint (by decide)
    · exact control_not_mem hprint (by decide)
  | heartbeat =>
    rw [frame, Frame.text]
    constructor
    · decide
    · decide

/-- The message of a chunk carries what the chunk carries. -/
theorem map_readEntry (chunk : SseChunk StreamedEvent) :
    (chunk.frame py).message.map readEntry =
      chunk.entry.map fun e => some (e.1, e.2.event) := by
  cases chunk with
  | heartbeat => rfl
  | data seq payload =>
    have hload := jsonLoads_jsonText hpy (isJsonDoc_fields seq payload)
    have hseq : (PyDict.item (fields seq payload) (.str "seq")).bind Value.asNat = .ok seq := by
      simp [fields, PyDict.item, PyDict.get?, Except.bind, Value.asNat]
    have hpayload : (PyDict.item (fields seq payload) (.str "payload")).bind Value.asDict =
        .ok payload.event.toDict := by
      simp [fields, PyDict.item, PyDict.get?, Except.bind, Value.asDict]
    show some (readEntry ⟨[], utf8 ((Value.dict (fields seq payload)).jsonText py)⟩) =
      some (some (seq, payload.event))
    rw [readEntry, decodeUtf8_utf8, Option.bind_eq_bind, Option.bind_some, hload]
    simp only [Value.asDict, Except.toOption, Option.bind_eq_bind, Option.bind_some, hseq,
      hpayload, AuditEvent.ofDict_toDict]
    rfl

end SseChunk

/-! ## What the client has decoded -/

/-- An entry as the client decodes it. -/
def decoded (e : ℕ × StreamedEvent) : Option (ℕ × AuditEvent) := some (e.1, e.2.event)

section

variable {py : Interp} {gen : SseGenerator StreamedEvent}

theorem SseGenerator.wire_eq (py : Interp) (gen : SseGenerator StreamedEvent) :
    gen.wire py = (gen.yielded.map (SseChunk.frame py)).flatMap Frame.bytes := by
  rw [SseGenerator.wire, List.flatMap_map]
  exact List.flatMap_congr fun chunk _ => chunk.utf8_text py

variable (hpy : py.ReprReads)

include hpy

/-- The messages of some chunks carry the entries of the chunks. -/
theorem map_readEntry_messages (chunks : List (SseChunk StreamedEvent)) :
    ((chunks.map (SseChunk.frame py)).filterMap Frame.message).map readEntry =
      (chunks.filterMap SseChunk.entry).map decoded := by
  induction chunks with
  | nil => rfl
  | cons chunk chunks ih =>
    have hchunk := chunk.map_readEntry hpy
    cases hentry : chunk.entry with
    | none =>
      rw [hentry, Option.map_none, Option.map_eq_none_iff] at hchunk
      rw [List.map_cons, List.filterMap_cons_none hchunk, List.filterMap_cons_none hentry, ih]
    | some e =>
      rw [hentry, Option.map_some, Option.map_eq_some_iff] at hchunk
      obtain ⟨m, hm, hread⟩ := hchunk
      rw [List.map_cons, List.filterMap_cons_some hm, List.filterMap_cons_some hentry,
        List.map_cons, List.map_cons, hread, ih, decoded]

/-- The bytes that have come are those of the first chunks and a part of one more, and the
client has decoded the first chunks. -/
theorem received_of_initial {pieces : List (List UInt8)}
    (hpieces : pieces.flatten <+: gen.wire py) :
    received pieces <+: gen.emitted.map decoded := by
  rw [SseGenerator.wire_eq] at hpieces
  have hplain : ∀ f ∈ gen.yielded.map (SseChunk.frame py), EventStream.Plain f.text := by
    intro f hf
    obtain ⟨chunk, -, rfl⟩ := List.mem_map.mp hf
    exact chunk.plain_frame hpy
  obtain ⟨k, hk⟩ := Reader.messages_of_prefix Reader.fresh_start hplain hpieces
  have hreceived : received pieces = ((gen.yielded.take k).filterMap SseChunk.entry).map decoded := by
    rw [received, Reader.feedAll_flatten, hk, ← List.map_take]
    exact map_readEntry_messages hpy (gen.yielded.take k)
  rw [hreceived]
  exact ((List.take_prefix k gen.yielded).filterMap SseChunk.entry).map decoded

theorem received_of_all {pieces : List (List UInt8)} (hpieces : pieces.flatten = gen.wire py) :
    received pieces = gen.emitted.map decoded := by
  have hplain : ∀ f ∈ gen.yielded.map (SseChunk.frame py), EventStream.Plain f.text := by
    intro f hf
    obtain ⟨chunk, -, rfl⟩ := List.mem_map.mp hf
    exact chunk.plain_frame hpy
  rw [received, Reader.feedAll_flatten, hpieces, SseGenerator.wire_eq,
    Reader.feedAll_frames Reader.fresh_start hplain]
  exact map_readEntry_messages hpy gen.yielded

end

/-! ## The whole way -/

namespace Streaming

variable {topic : Topic}

theorem Complete.run {π : Type*} {first : ℕ} {published : Topic → List π} {s : Streaming π}
    (h : Complete topic first published s) {moves : List (StreamMove π)}
    (hroom : StepsMeet Streaming.step HasRoom s moves)
    (hquiet : StepsMeet Streaming.step (QuietReplay topic) s moves) :
    Complete topic first (fun t => published t ++ moves.flatMap (StreamMove.payloads t))
      (moves.foldl Streaming.step s) := by
  induction moves generalizing s published with
  | nil => simpa using h
  | cons move moves ih =>
    have hrest := ih (h.append hroom.1 hquiet.1) hroom.2 hquiet.2
    simpa [List.append_assoc] using hrest

/-- A client that connects with a replay to a bus on which nothing is published on the topic
while the replay is being sent, and whose queue never fills up, has decoded at any moment the
first of the events that were due to it: those of the topic's log from the first backfilled
one on, each under its number in the log. When all bytes have come and the generator waits on
an empty queue it has decoded every one of them. -/
theorem received_of_stream {py : Interp} (hpy : py.ReprReads) (maxlen : ℕ)
    (past : List (BusMove StreamedEvent)) (topic : Topic) {backfill : ℕ} (hb : 0 < backfill)
    (moves : List (StreamMove StreamedEvent))
    (hroom : StepsMeet step HasRoom (connect (EventBus.run maxlen past) topic backfill) moves)
    (hquiet : StepsMeet step (QuietReplay topic)
      (connect (EventBus.run maxlen past) topic backfill) moves)
    (pieces : List (List UInt8)) :
    let s := moves.foldl step (connect (EventBus.run maxlen past) topic backfill)
    let log := EventBus.publishedOn past topic ++ moves.flatMap (StreamMove.payloads topic)
    let first := (EventBus.publishedOn past topic).length - min backfill maxlen
    let due := ((RetainedLog.numbered log).drop first).map decoded
    pieces.flatten <+: s.gen.wire py →
      received pieces <+: due ∧
      (pieces.flatten = s.gen.wire py → s.Idle → received pieces = due) := by
  intro s log first due hpieces
  obtain ⟨hmax, hholds⟩ := EventBus.holds_run maxlen past
  obtain ⟨hcarries, htaken, hdone⟩ := carries_connect hholds hb
  have hfirst : firstBackfilled (EventBus.run maxlen past) topic backfill = first := by
    rw [firstBackfilled_eq hholds, hmax]
    omega
  rw [hfirst] at htaken
  have hstart : Complete topic first (EventBus.publishedOn past)
      (connect (EventBus.run maxlen past) topic backfill) :=
    ⟨hcarries, Nat.sub_le _ _, by rw [htaken], fun _ => htaken⟩
  have hcomplete : Complete topic first _ s := hstart.run hroom hquiet
  have hemitted : s.gen.emitted <+: (RetainedLog.numbered log).drop first :=
    (List.prefix_append s.gen.emitted s.backlog).trans hcomplete.taken
  refine ⟨(received_of_initial hpy hpieces).trans (hemitted.map decoded), ?_⟩
  intro hall hidle
  obtain ⟨hbacklog, hrunning⟩ := hidle.backlog
  have hwhole := hcomplete.whole hrunning
  rw [Streaming.taken, hbacklog, List.append_nil] at hwhole
  rw [received_of_all hpy hall, hwhole]

/-- The event of a round in which nobody voted. -/
def emptyRound (n : ℕ) : StreamedEvent where
  event := {
    roundId := n
    timestamp := "2024-01-01T00:00:00Z"
    transaction := []
    votes := []
    agreedHash := none
    consensusReached := false
    honestNodes := []
    faultyNodes := []
    invalidSigNodes := []
    voteCounts := .empty }
  isJson := .dict (by simp) (by simp) (by simp)

/-- One event is in the buffer, one is published after the subscription, a heartbeat goes out
between them, and the bytes come in two pieces. -/
theorem received_of_stream_split :
    let bus := EventBus.run 10 [.publish "transactions" (emptyRound 1)]
    let moves := [.resume false, .publish "transactions" (emptyRound 2), .resume false]
    let s := moves.foldl step (connect bus .transactions 1)
    let bytes := s.gen.wire printingInterp
    received [bytes.take 40, bytes.drop 40] =
      [some (0, (emptyRound 1).event), some (1, (emptyRound 2).event)] := by
  intro bus moves s bytes
  have hbytes : [bytes.take 40, bytes.drop 40].flatten = bytes := by
    rw [List.flatten_cons, List.flatten_singleton, List.take_append_drop]
  have hprefix : [bytes.take 40, bytes.drop 40].flatten <+: bytes := by
    rw [hbytes]
  have hidle : s.Idle := by decide +kernel
  have hrun := received_of_stream reprReads_printingInterp 10
    [.publish "transactions" (emptyRound 1)] .transactions Nat.one_pos moves
    (by decide +kernel) (by decide +kernel) [bytes.take 40, bytes.drop 40]
  exact (hrun hprefix).2 hbytes hidle

end Streaming

end ECN
