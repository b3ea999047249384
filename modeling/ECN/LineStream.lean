import Mathlib.Data.List.Basic
import Mathlib.Tactic

/-!
# Lines on a stream

A stream brings its symbols in pieces and ends, breaks or falls silent. The reader looks
for the separator in what has arrived and waits for more; a line longer than the limit is
given up. What it reads does not depend on the pieces.
-/
namespace ECN

variable {α : Type*}

/-- What follows the last piece. -/
inductive Ending where
  | eof
  | reset
  | silent
  deriving DecidableEq

structure PieceStream (α : Type*) where
  pieces : List (List α)
  ending : Ending

namespace PieceStream

/-- All symbols that arrive. -/
def content (stream : PieceStream α) : List α := stream.pieces.flatten

end PieceStream

/-- The outcome of a read; a line holds its separator unless the stream ended first. -/
inductive LineRead (α : Type*) where
  | line (symbols : List α)
  | overrun
  | reset
  | waiting
  deriving DecidableEq

variable [DecidableEq α] (sep : α) (limit : ℕ)

/-- What the buffer settles without waiting. -/
def scanBuffer (buffer : List α) : Option (LineRead α) :=
  match buffer.idxOf? sep with
  | some i => some (if limit < i then .overrun else .line (buffer.take (i + 1)))
  | none => if limit < buffer.length then some .overrun else none

/-- What the end of the stream makes of a buffer without a separator. -/
def atEnding (buffer : List α) : Ending → LineRead α
  | .eof => .line buffer
  | .reset => .reset
  | .silent => .waiting

/-- Look into the buffer, then wait for the next piece. -/
def readPieces (ending : Ending) : List α → List (List α) → LineRead α
  | buffer, [] => (scanBuffer sep limit buffer).getD (atEnding buffer ending)
  | buffer, piece :: pieces =>
    match scanBuffer sep limit buffer with
    | some read => read
    | none => readPieces ending (buffer ++ piece) pieces

/-- `await reader.readline()`. -/
def readline (stream : PieceStream α) : LineRead α :=
  readPieces sep limit stream.ending [] stream.pieces

/-! ## The pieces do not matter -/

theorem idxOf?_append_of_some {buffer : List α} {i : ℕ} (h : buffer.idxOf? sep = some i)
    (more : List α) : (buffer ++ more).idxOf? sep = some i ∧ i < buffer.length := by
  obtain ⟨hlt, hat, hbefore⟩ := List.findIdx?_eq_some_iff_getElem.mp h
  refine ⟨?_, hlt⟩
  show List.findIdx? (fun x => x == sep) (buffer ++ more) = some i
  rw [List.findIdx?_append, show List.findIdx? (fun x => x == sep) buffer = some i from h]
  rfl

theorem idxOf?_append_of_none {buffer : List α} (h : buffer.idxOf? sep = none) (more : List α) :
    (buffer ++ more).idxOf? sep = (more.idxOf? sep).map (· + buffer.length) := by
  show List.findIdx? (fun x => x == sep) (buffer ++ more) = _
  rw [List.findIdx?_append, show List.findIdx? (fun x => x == sep) buffer = none from h]
  rfl

/-- A settled read stays settled when more arrives. -/
theorem scanBuffer_append {buffer : List α} {read : LineRead α}
    (h : scanBuffer sep limit buffer = some read) (more : List α) :
    scanBuffer sep limit (buffer ++ more) = some read := by
  unfold scanBuffer at h ⊢
  cases hi : buffer.idxOf? sep with
  | some i =>
    obtain ⟨hidx, hlt⟩ := idxOf?_append_of_some sep hi more
    rw [hi] at h
    rw [hidx, ← h]
    dsimp only
    rw [List.take_append_of_le_length (by omega)]
  | none =>
    rw [hi] at h
    dsimp only at h
    split at h
    · next hlong =>
      rw [idxOf?_append_of_none sep hi]
      rw [← h]
      cases more.idxOf? sep with
      | some j =>
        show some (if limit < j + buffer.length then _ else _) = _
        rw [if_pos (by omega)]
      | none =>
        show (if limit < (buffer ++ more).length then _ else _) = _
        rw [List.length_append, if_pos (by omega)]
    · cases h

/-- The read of a stream is the read of its content in one piece. -/
theorem readPieces_eq (ending : Ending) (pieces : List (List α)) (buffer : List α) :
    readPieces sep limit ending buffer pieces =
      (scanBuffer sep limit (buffer ++ pieces.flatten)).getD
        (atEnding (buffer ++ pieces.flatten) ending) := by
  induction pieces generalizing buffer with
  | nil => simp [readPieces]
  | cons piece pieces ih =>
    rw [readPieces, List.flatten_cons, ← List.append_assoc]
    cases hscan : scanBuffer sep limit buffer with
    | some read =>
      rw [List.append_assoc, scanBuffer_append sep limit hscan]
      rfl
    | none => exact ih _

theorem readline_eq (stream : PieceStream α) : readline sep limit stream =
    (scanBuffer sep limit stream.content).getD (atEnding stream.content stream.ending) :=
  readPieces_eq sep limit stream.ending stream.pieces []

/-! ## One line and its parts -/

variable {sep limit}

theorem scanBuffer_of_not_mem {buffer : List α} (h : sep ∉ buffer) : scanBuffer sep limit buffer =
    if limit < buffer.length then some .overrun else none := by
  have hnone : buffer.idxOf? sep = none := List.idxOf?_eq_none_iff.mpr h
  rw [scanBuffer, hnone]

theorem scanBuffer_line {body : List α} (h : sep ∉ body) (rest : List α) :
    scanBuffer sep limit (body ++ sep :: rest) =
      some (if limit < body.length then .overrun else .line (body ++ [sep])) := by
  have hnone : body.idxOf? sep = none := List.idxOf?_eq_none_iff.mpr h
  have hidx : (body ++ sep :: rest).idxOf? sep = some body.length := by
    rw [idxOf?_append_of_none sep hnone]
    simp [List.idxOf?, List.findIdx?_cons]
  rw [scanBuffer, hidx]
  dsimp only
  congr 2
  rw [show body ++ sep :: rest = (body ++ [sep]) ++ rest by simp,
    List.take_append_of_le_length (by simp)]
  simp

/-- The whole line arrives: its separator, or all of it and the end. -/
def Completes (sep : α) (body : List α) (stream : PieceStream α) : Prop :=
  stream.content = body ++ [sep] ∨ stream.content = body ∧ stream.ending = .eof

instance (sep : α) (body : List α) (stream : PieceStream α) :
    Decidable (Completes sep body stream) := by
  unfold Completes
  infer_instance

/-- A line that arrives is read, with or without its separator. -/
theorem readline_of_completes {body : List α} {stream : PieceStream α} (hsep : sep ∉ body)
    (hlimit : body.length ≤ limit) (h : Completes sep body stream) :
    readline sep limit stream = .line (body ++ [sep]) ∨
      readline sep limit stream = .line body := by
  rw [readline_eq]
  rcases h with h | ⟨h, hend⟩
  · left
    rw [h, scanBuffer_line hsep [], if_neg (by omega)]
    rfl
  · right
    rw [h, scanBuffer_of_not_mem hsep, if_neg (by omega), hend]
    rfl

/-- Of a line that does not arrive whole, or that is too long, a strict part is all that is
ever read. -/
theorem readline_of_not_completes {body : List α} {stream : PieceStream α} (hsep : sep ∉ body)
    (hpart : stream.content <+: body ++ [sep])
    (h : ¬ (body.length ≤ limit ∧ Completes sep body stream)) {symbols : List α}
    (hread : readline sep limit stream = .line symbols) :
    symbols <+: body ∧ symbols ≠ body := by
  rw [readline_eq] at hread
  by_cases hall : stream.content = body ++ [sep]
  · rw [hall, scanBuffer_line hsep []] at hread
    by_cases hlong : limit < body.length
    · rw [if_pos hlong] at hread
      cases hread
    · exact absurd ⟨by omega, .inl hall⟩ h
  · have hinitial : stream.content <+: body := by
      rcases List.prefix_concat_iff.mp hpart with heq | hinitial
      · exact absurd heq hall
      · exact hinitial
    have hnot : sep ∉ stream.content := fun hmem => hsep (hinitial.subset hmem)
    rw [scanBuffer_of_not_mem hnot] at hread
    by_cases hlong : limit < stream.content.length
    · rw [if_pos hlong] at hread
      cases hread
    · rw [if_neg hlong] at hread
      cases hend : stream.ending with
      | reset =>
        rw [hend] at hread
        cases hread
      | silent =>
        rw [hend] at hread
        cases hread
      | eof =>
        rw [hend] at hread
        cases hread
        refine ⟨hinitial, fun hbody => h ⟨?_, .inr ⟨hbody, hend⟩⟩⟩
        rw [← hbody]
        omega

end ECN
