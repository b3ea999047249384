import Mathlib.Data.List.Basic
import Mathlib.Tactic

/-!
# Event streams

A stream of bytes that carries messages in lines. A line is a field with its name and its
value, or a comment when it starts with a colon; an empty line dispatches the message that
the fields so far describe. Lines end with a line feed, a carriage return or both.
-/
namespace ECN.EventStream

def lineFeed : UInt8 := 10
def carriageReturn : UInt8 := 13
def colon : UInt8 := 58
def space : UInt8 := 32

/-- `data`. -/
def dataName : List UInt8 := [100, 97, 116, 97]

/-- `event`. -/
def eventName : List UInt8 := [101, 118, 101, 110, 116]

structure Message where
  eventType : List UInt8
  data : List UInt8
  deriving DecidableEq

/-! ## Reading -/

/-- What a reader has of the current line and the current message, and the messages that it
has dispatched. -/
structure Reader where
  line : List UInt8
  afterReturn : Bool
  data : List UInt8
  eventType : List UInt8
  messages : List Message
  deriving DecidableEq

namespace Reader

def start : Reader := ⟨[], false, [], [], []⟩

/-- An identifier, a retry time or an unknown field does not bear on the messages. -/
def field (r : Reader) (name value : List UInt8) : Reader :=
  if name = dataName then { r with data := r.data ++ value ++ [lineFeed] }
  else if name = eventName then { r with eventType := value }
  else r

/-- A message without data is dropped. -/
def dispatch (r : Reader) : Reader :=
  if r.data = [] then { r with eventType := [] }
  else { r with
    data := []
    eventType := []
    messages := r.messages ++ [⟨r.eventType, r.data.dropLast⟩] }

/-- The value without its first space. -/
def stripSpace : List UInt8 → List UInt8
  | [] => []
  | b :: bs => if b = space then bs else b :: bs

def endLine (r : Reader) : Reader :=
  match r.line with
  | [] => r.dispatch
  | b :: bs =>
    let r := { r with line := [] }
    if b = colon then r
    else r.field ((b :: bs).takeWhile (· ≠ colon))
      (stripSpace (((b :: bs).dropWhile (· ≠ colon)).drop 1))

/-- A line feed after a carriage return ends no second line. -/
def feed (r : Reader) (b : UInt8) : Reader :=
  if b = lineFeed then
    if r.afterReturn then { r with afterReturn := false } else r.endLine
  else if b = carriageReturn then { r.endLine with afterReturn := true }
  else { r with line := r.line ++ [b], afterReturn := false }

def feedAll (r : Reader) (bytes : List UInt8) : Reader := bytes.foldl feed r

theorem feedAll_append (r : Reader) (as bs : List UInt8) :
    r.feedAll (as ++ bs) = (r.feedAll as).feedAll bs := List.foldl_append

/-- The bytes may come in any pieces. -/
theorem feedAll_flatten (r : Reader) (pieces : List (List UInt8)) :
    pieces.foldl feedAll r = r.feedAll pieces.flatten := by
  induction pieces generalizing r with
  | nil => rfl
  | cons piece pieces ih => rw [List.foldl_cons, ih, List.flatten_cons, feedAll_append]

end Reader

/-! ## Writing -/

/-- Bytes that end no line. -/
def Plain (bytes : List UInt8) : Prop := lineFeed ∉ bytes ∧ carriageReturn ∉ bytes

/-- A message in one line, or a comment, with the empty line after it. -/
inductive Frame where
  | data (text : List UInt8)
  | comment (text : List UInt8)

namespace Frame

def text : Frame → List UInt8
  | data t => t
  | comment t => t

def line : Frame → List UInt8
  | data t => dataName ++ colon :: space :: t
  | comment t => colon :: t

def bytes (f : Frame) : List UInt8 := f.line ++ [lineFeed, lineFeed]

def message : Frame → Option Message
  | data t => some ⟨[], t⟩
  | comment _ => none

theorem plain_line {f : Frame} (h : Plain f.text) : Plain f.line := by
  obtain ⟨hlf, hcr⟩ := h
  cases f with
  | data t =>
    have hdata : Plain dataName := ⟨by decide, by decide⟩
    constructor
    · simp only [line, List.mem_append, List.mem_cons, not_or]
      exact ⟨hdata.1, by decide, by decide, hlf⟩
    · simp only [line, List.mem_append, List.mem_cons, not_or]
      exact ⟨hdata.2, by decide, by decide, hcr⟩
  | comment t =>
    constructor
    · simp only [line, List.mem_cons, not_or]
      exact ⟨by decide, hlf⟩
    · simp only [line, List.mem_cons, not_or]
      exact ⟨by decide, hcr⟩

end Frame

/-! ## Reading what was written -/

namespace Reader

variable {r : Reader} {f : Frame}

/-- Between two messages. -/
def Fresh (r : Reader) : Prop :=
  r.line = [] ∧ r.afterReturn = false ∧ r.data = [] ∧ r.eventType = []

theorem fresh_start : start.Fresh := ⟨rfl, rfl, rfl, rfl⟩

theorem feedAll_plain (hr : r.afterReturn = false) {bs : List UInt8} (h : Plain bs) :
    r.feedAll bs = { r with line := r.line ++ bs } := by
  induction bs generalizing r with
  | nil => simp [feedAll]
  | cons b bs ih =>
    obtain ⟨hlf, hcr⟩ := h
    simp only [List.mem_cons, not_or] at hlf hcr
    have hstep : r.feed b = { r with line := r.line ++ [b] } := by
      rw [feed, if_neg (Ne.symm hlf.1), if_neg (Ne.symm hcr.1), ← hr]
    have hrest := ih (r := { r with line := r.line ++ [b] }) hr ⟨hlf.2, hcr.2⟩
    rw [feedAll, List.foldl_cons, hstep]
    simpa [feedAll] using hrest

/-- What the line of a frame leaves before its empty line. -/
theorem feedAll_line (hr : r.Fresh) (h : Plain f.text) :
    r.feedAll (f.line ++ [lineFeed]) =
      { r with data := (f.message.map fun m => m.data ++ [lineFeed]).getD [] } := by
  obtain ⟨line, after, data, event, messages⟩ := r
  obtain ⟨rfl, rfl, rfl, rfl⟩ := hr
  rw [feedAll_append, feedAll_plain rfl (Frame.plain_line h), List.nil_append]
  show (Reader.mk f.line false [] [] messages).endLine = _
  cases f with
  | comment t => rfl
  | data t =>
    have hname : (dataName ++ colon :: space :: t).takeWhile (· ≠ colon) = dataName := by
      simp [dataName, colon]
    have hvalue : stripSpace (((dataName ++ colon :: space :: t).dropWhile (· ≠ colon)).drop 1) =
        t := by
      simp [dataName, colon, stripSpace]
    have hend : (Reader.mk (dataName ++ colon :: space :: t) false [] [] messages).endLine =
        (Reader.mk [] false [] [] messages).field
          ((dataName ++ colon :: space :: t).takeWhile (· ≠ colon))
          (stripSpace (((dataName ++ colon :: space :: t).dropWhile (· ≠ colon)).drop 1)) := rfl
    show (Reader.mk (dataName ++ colon :: space :: t) false [] [] messages).endLine = _
    rw [hend, hname, hvalue]
    rfl

/-- A whole frame gives its message and leaves the reader between two messages. -/
theorem feedAll_frame (hr : r.Fresh) (h : Plain f.text) :
    r.feedAll f.bytes = { r with messages := r.messages ++ f.message.toList } := by
  have hsplit : f.bytes = (f.line ++ [lineFeed]) ++ [lineFeed] := by
    rw [Frame.bytes, List.append_assoc]
    rfl
  rw [hsplit, feedAll_append, feedAll_line hr h]
  obtain ⟨line, after, data, event, messages⟩ := r
  obtain ⟨rfl, rfl, rfl, rfl⟩ := hr
  cases f with
  | comment t =>
    show Reader.mk [] false [] [] messages = _
    rw [Frame.message, Option.toList_none, List.append_nil]
  | data t =>
    show (Reader.mk [] false (t ++ [lineFeed]) [] messages).dispatch = _
    rw [dispatch, if_neg (by simp)]
    simp [Frame.message]

theorem feedAll_frames (hr : r.Fresh) {frames : List Frame} (h : ∀ f ∈ frames, Plain f.text) :
    r.feedAll (frames.flatMap Frame.bytes) =
      { r with messages := r.messages ++ frames.filterMap Frame.message } := by
  induction frames generalizing r with
  | nil => simp [feedAll]
  | cons f frames ih =>
    have hfresh : Fresh { r with messages := r.messages ++ f.message.toList } := hr
    rw [List.flatMap_cons, feedAll_append, feedAll_frame hr (h f List.mem_cons_self),
      ih hfresh fun g hg => h g (List.mem_cons_of_mem f hg)]
    cases hm : f.message with
    | none => simp [hm]
    | some m => simp [hm]

/-- A part of a frame dispatches nothing. -/
theorem feedAll_part (hr : r.Fresh) (h : Plain f.text) {part : List UInt8}
    (hpart : part <+: f.bytes) (hne : part ≠ f.bytes) :
    (r.feedAll part).messages = r.messages := by
  have hsplit : f.bytes = (f.line ++ [lineFeed]) ++ [lineFeed] := by
    rw [Frame.bytes, List.append_assoc]
    rfl
  rw [hsplit] at hpart hne
  have hfirst : part <+: f.line ++ [lineFeed] :=
    (List.prefix_concat_iff.mp hpart).resolve_left hne
  cases List.prefix_concat_iff.mp hfirst with
  | inl hline => rw [hline, feedAll_line hr h]
  | inr hline =>
    have hwhole := Frame.plain_line h
    have hplain : Plain part :=
      ⟨fun hmem => hwhole.1 (hline.subset hmem), fun hmem => hwhole.2 (hline.subset hmem)⟩
    rw [feedAll_plain hr.2.1 hplain]

/-- The bytes that have come give the messages of the frames that have come whole, and no
other. -/
theorem messages_of_prefix (hr : r.Fresh) {frames : List Frame}
    (h : ∀ f ∈ frames, Plain f.text) {bytes : List UInt8}
    (hbytes : bytes <+: frames.flatMap Frame.bytes) :
    ∃ k, (r.feedAll bytes).messages = r.messages ++ (frames.take k).filterMap Frame.message := by
  induction frames generalizing r bytes with
  | nil =>
    rw [List.flatMap_nil, List.prefix_nil] at hbytes
    exact ⟨0, by simp [hbytes, feedAll]⟩
  | cons f frames ih =>
    have hf : Plain f.text := h f List.mem_cons_self
    rw [List.flatMap_cons] at hbytes
    by_cases hwhole : f.bytes <+: bytes
    · obtain ⟨rest, rfl⟩ := hwhole
      have hrest : rest <+: frames.flatMap Frame.bytes :=
        (List.prefix_append_right_inj f.bytes).mp hbytes
      have hfresh : Fresh { r with messages := r.messages ++ f.message.toList } := hr
      obtain ⟨k, hk⟩ := ih hfresh (fun g hg => h g (List.mem_cons_of_mem f hg)) hrest
      refine ⟨k + 1, ?_⟩
      rw [feedAll_append, feedAll_frame hr hf, hk]
      cases hm : f.message with
      | none => simp [hm]
      | some m => simp [hm]
    · have hpart : bytes <+: f.bytes :=
        (List.prefix_or_prefix_of_prefix hbytes (List.prefix_append _ _)).resolve_right hwhole
      have hne : bytes ≠ f.bytes := fun heq => hwhole (heq ▸ List.prefix_rfl)
      exact ⟨0, by simpa using feedAll_part hr hf hpart hne⟩

end Reader

end ECN.EventStream
