import Mathlib.Data.List.Basic
import Mathlib.Tactic

/-!
# Bytes, UTF-8 and hexadecimal text

`toHex` writes two lowercase digits for each byte. `fromHex` accepts either case
and skips ASCII whitespace in front of a byte, and fails on anything else.
-/
namespace ECN

/-- `s.encode("utf-8")`. -/
def utf8 (s : String) : List UInt8 := s.toList.flatMap String.utf8EncodeChar

/-- The sixteen digits that `toHex` writes. -/
def hexAlphabet : List Char :=
  ['0', '1', '2', '3', '4', '5', '6', '7', '8', '9', 'a', 'b', 'c', 'd', 'e', 'f']

def hexDigit (n : ℕ) : Char := hexAlphabet.getD n '0'

def hexPair (b : UInt8) : List Char := [hexDigit (b.toNat / 16), hexDigit (b.toNat % 16)]

/-- `bytes.hex()`. -/
def toHex (bs : List UInt8) : String := String.ofList (bs.flatMap hexPair)

def hexValue (c : Char) : Option ℕ :=
  if '0' ≤ c ∧ c ≤ '9' then some (c.toNat - 48)
  else if 'a' ≤ c ∧ c ≤ 'f' then some (c.toNat - 87)
  else if 'A' ≤ c ∧ c ≤ 'F' then some (c.toNat - 55)
  else none

/-- Space, tab, newline, vertical tab, form feed and carriage return. -/
def isHexSpace (c : Char) : Bool := c.toNat = 32 || (9 ≤ c.toNat && c.toNat ≤ 13)

def parseHex : List Char → Option (List UInt8)
  | [] => some []
  | c :: cs =>
    if isHexSpace c then parseHex cs
    else match cs with
      | [] => none
      | d :: ds => do
        let high ← hexValue c
        let low ← hexValue d
        let rest ← parseHex ds
        return UInt8.ofNat (16 * high + low) :: rest

/-- `bytes.fromhex(s)`, with `none` for the error. -/
def fromHex (s : String) : Option (List UInt8) := parseHex s.toList

theorem hexDigit_mem (n : ℕ) : hexDigit n ∈ hexAlphabet := by
  unfold hexDigit
  rw [List.getD_eq_getElem?_getD]
  cases h : hexAlphabet[n]? with
  | none => decide
  | some c => exact List.mem_of_getElem? h

theorem toHex_toList (bs : List UInt8) : (toHex bs).toList = bs.flatMap hexPair := by
  simp [toHex]

theorem toHex_length (bs : List UInt8) : (toHex bs).length = 2 * bs.length := by
  rw [← String.length_toList, toHex_toList]
  induction bs with
  | nil => rfl
  | cons b bs ih => simp [List.flatMap_cons, hexPair, ih]; omega

/-- Hexadecimal text has only lowercase digits. -/
theorem mem_toHex {bs : List UInt8} {c : Char} (h : c ∈ (toHex bs).toList) : c ∈ hexAlphabet := by
  rw [toHex_toList, List.mem_flatMap] at h
  obtain ⟨b, -, hc⟩ := h
  simp only [hexPair, List.mem_cons, List.not_mem_nil, or_false] at hc
  rcases hc with rfl | rfl <;> exact hexDigit_mem _

theorem hexValue_hexDigit {n : ℕ} (h : n < 16) : hexValue (hexDigit n) = some n := by
  interval_cases n <;> decide

theorem not_isHexSpace_hexDigit (n : ℕ) : isHexSpace (hexDigit n) = false := by
  have hall : ∀ c ∈ hexAlphabet, isHexSpace c = false := by simp [hexAlphabet, isHexSpace]
  exact hall _ (hexDigit_mem n)

theorem fromHex_toHex (bs : List UInt8) : fromHex (toHex bs) = some bs := by
  unfold fromHex
  rw [toHex_toList]
  induction bs with
  | nil => rfl
  | cons b bs ih =>
    have hlt : b.toNat < 256 := b.toNat_lt
    have hbyte : UInt8.ofNat (16 * (b.toNat / 16) + b.toNat % 16) = b := by
      rw [Nat.div_add_mod]
      exact UInt8.ofNat_toNat
    simp only [List.flatMap_cons, hexPair, List.cons_append, List.nil_append, parseHex,
      not_isHexSpace_hexDigit, Bool.false_eq_true, if_false,
      hexValue_hexDigit (show b.toNat / 16 < 16 by omega),
      hexValue_hexDigit (show b.toNat % 16 < 16 by omega), ih]
    simpa using hbyte

end ECN
