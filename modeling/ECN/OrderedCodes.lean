import Mathlib.Data.List.Lex
import Mathlib.Data.String.Basic
import Mathlib.Tactic

/-!
# Codes that keep the order

A code writes each symbol as a list of symbols of another alphabet. When the words of two
symbols part at a place where the word of the smaller one is smaller, the code of lists
keeps and reflects the lexicographic order. UTF-8 is such a code: comparing encoded texts
byte by byte is comparing the texts by code points.
-/
namespace ECN

section Codes

variable {α β : Type*} [LinearOrder α] [LinearOrder β]

/-- The words part, and the first one is smaller there. -/
def Below (xs ys : List β) : Prop :=
  ∃ common x y s t, xs = common ++ x :: s ∧ ys = common ++ y :: t ∧ x < y

theorem Below.head {x y : β} (h : x < y) (s t : List β) : Below (x :: s) (y :: t) :=
  ⟨[], x, y, s, t, rfl, rfl, h⟩

/-- Words whose first symbols are equal part later. -/
theorem Below.of_le {x y : β} {xs ys : List β} (hle : x ≤ y) (h : x = y → Below xs ys) :
    Below (x :: xs) (y :: ys) := by
  rcases hle.eq_or_lt with rfl | hlt
  · obtain ⟨common, a, b, s, t, rfl, rfl, hab⟩ := h rfl
    exact ⟨x :: common, a, b, s, t, rfl, rfl, hab⟩
  · exact .head hlt xs ys

/-- What follows the words does not matter. -/
theorem Below.append_lt {xs ys : List β} (h : Below xs ys) (s t : List β) : xs ++ s < ys ++ t := by
  obtain ⟨common, x, y, s', t', rfl, rfl, hxy⟩ := h
  rw [List.append_assoc, List.append_assoc]
  exact List.Lex.append_left _ (List.Lex.rel hxy) common

variable {code : α → List β}

theorem flatMap_lt (hcode : ∀ a b, a < b → Below (code a) (code b)) (hne : ∀ a, code a ≠ [])
    {as bs : List α} (h : as < bs) : as.flatMap code < bs.flatMap code := by
  induction h with
  | nil =>
    next b bs =>
    rw [List.flatMap_nil, List.flatMap_cons]
    obtain ⟨x, xs, hx⟩ := List.exists_cons_of_ne_nil (hne b)
    rw [hx]
    exact List.Lex.nil
  | cons _ ih =>
    rw [List.flatMap_cons, List.flatMap_cons]
    exact List.Lex.append_left _ ih _
  | rel hab =>
    rw [List.flatMap_cons, List.flatMap_cons]
    exact (hcode _ _ hab).append_lt _ _

/-- The code keeps and reflects the order of lists. -/
theorem flatMap_le_iff (hcode : ∀ a b, a < b → Below (code a) (code b)) (hne : ∀ a, code a ≠ [])
    (as bs : List α) : as.flatMap code ≤ bs.flatMap code ↔ as ≤ bs := by
  constructor
  · intro h
    by_contra hlt
    exact absurd h (not_le.mpr (flatMap_lt hcode hne (not_le.mp hlt)))
  · intro h
    rcases h.eq_or_lt with rfl | hlt
    · exact le_rfl
    · exact (flatMap_lt hcode hne hlt).le

end Codes

/-! ## UTF-8 -/

/-- The bytes of the encoding of a text, as numbers. -/
def utf8Bytes (s : String) : List ℕ :=
  s.toList.flatMap fun c => (String.utf8EncodeChar c).map UInt8.toNat

/-- The bytes of the encoding of a code point. -/
def codePointBytes (v : ℕ) : List ℕ :=
  if v ≤ 0x7f then [v]
  else if v ≤ 0x7ff then [v / 64 + 0xc0, v % 64 + 0x80]
  else if v ≤ 0xffff then [v / 4096 + 0xe0, v / 64 % 64 + 0x80, v % 64 + 0x80]
  else [v / 262144 + 0xf0, v / 4096 % 64 + 0x80, v / 64 % 64 + 0x80, v % 64 + 0x80]

theorem toNat_lt_codePoints (c : Char) : c.toNat < 0x110000 := by
  have hvalid := c.valid
  unfold UInt32.isValidChar Nat.isValidChar at hvalid
  show c.val.toNat < _
  omega

theorem map_utf8EncodeChar (c : Char) :
    (String.utf8EncodeChar c).map UInt8.toNat = codePointBytes c.toNat := by
  have hmax := toNat_lt_codePoints c
  have hval : c.val.toNat = c.toNat := rfl
  unfold codePointBytes String.utf8EncodeChar
  rw [hval]
  dsimp only
  split_ifs <;> simp <;> omega

/-- Two encodings part where the smaller code point has the smaller byte: the first byte
tells the length, and the rest are the digits of the code point. -/
theorem below_codePointBytes {v w : ℕ} (h : v < w) (hw : w < 0x110000) :
    Below (codePointBytes v) (codePointBytes w) := by
  unfold codePointBytes
  split_ifs
  · exact .head h _ _
  · exact .head (by omega) _ _
  · exact .head (by omega) _ _
  · exact .head (by omega) _ _
  · omega
  · exact .of_le (by omega) fun _ => .head (by omega) _ _
  · exact .head (by omega) _ _
  · exact .head (by omega) _ _
  · omega
  · omega
  · exact .of_le (by omega) fun _ => .of_le (by omega) fun _ => .head (by omega) _ _
  · exact .head (by omega) _ _
  · omega
  · omega
  · omega
  · exact .of_le (by omega) fun _ => .of_le (by omega) fun _ => .of_le (by omega) fun _ =>
      .head (by omega) _ _

/-- Texts are in the order of their encodings. -/
theorem utf8Bytes_le_iff (s t : String) : utf8Bytes s ≤ utf8Bytes t ↔ s ≤ t := by
  rw [String.le_iff_toList_le, utf8Bytes, utf8Bytes]
  refine flatMap_le_iff (fun a b hab => ?_) (fun c => ?_) _ _
  · rw [map_utf8EncodeChar, map_utf8EncodeChar]
    exact below_codePointBytes hab (toNat_lt_codePoints b)
  · simp [String.utf8EncodeChar_ne_nil]

end ECN
