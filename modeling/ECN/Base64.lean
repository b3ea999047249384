import Mathlib.Data.List.Basic
import Mathlib.Data.String.Basic

/-!
# Base64 with the URL alphabet

The lenient decoder: characters outside the alphabet are skipped, decoding stops at a
sequence of padding that completes a group, and a group left open at the end is an
error. Both the URL alphabet and the standard one are read.
-/
namespace ECN
namespace Base64

def value (c : Char) : Option ℕ :=
  if 'A' ≤ c ∧ c ≤ 'Z' then some (c.toNat - 65)
  else if 'a' ≤ c ∧ c ≤ 'z' then some (c.toNat - 71)
  else if '0' ≤ c ∧ c ≤ '9' then some (c.toNat + 4)
  else if c = '-' ∨ c = '+' then some 62
  else if c = '_' ∨ c = '/' then some 63
  else none

/-- Decode from a place within a group of four, with the bits left over and the padding
characters seen. -/
def decodeFrom : List Char → (place left pads : ℕ) → Option (List UInt8)
  | [], place, _, _ => if place = 0 then some [] else none
  | c :: cs, place, left, pads =>
    if c = '=' then
      if place < 2 then decodeFrom cs place left pads
      else if 4 ≤ place + (pads + 1) then some []
      else decodeFrom cs place left (pads + 1)
    else
      match value c with
      | none => decodeFrom cs place left pads
      | some v =>
        match place with
        | 0 => decodeFrom cs 1 v 0
        | 1 => (decodeFrom cs 2 (v % 16) 0).map (UInt8.ofNat (left * 4 + v / 16) :: ·)
        | 2 => (decodeFrom cs 3 (v % 4) 0).map (UInt8.ofNat (left * 16 + v / 4) :: ·)
        | _ => (decodeFrom cs 0 0 0).map (UInt8.ofNat (left * 64 + v) :: ·)

/-- Decode ASCII text; any other text is an error. -/
def urlsafeDecode (s : String) : Option (List UInt8) :=
  if s.toList.all fun c => c.toNat < 128 then decodeFrom s.toList 0 0 0 else none

end Base64
end ECN
