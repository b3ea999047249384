import ECN.Audit
import ECN.JsonRoundTrip
import ECN.ReferenceRuntime

/-!
# Texts of floats

A float is printed with the fewest digits, at most 17, that read back as the float: the
decimals around it with one digit are tried, then those with two, and so on. Should none of
them read back, the exact decimal does.
-/
namespace ECN
namespace PyFloat

/-! ## The printer -/

/-- The decimals around `|q|` with the given number of digits, the nearest one first, each as
its digits and an exponent. -/
def decimalsNear (q : ℚ) (count : ℕ) : List (ℕ × ℤ) :=
  let exponent := Int.log 10 |q| - count + 1
  let scaled := |q| / 10 ^ exponent
  let nearest := roundHalfEven scaled
  [nearest, 2 * ⌊scaled⌋ + 1 - nearest].map fun digits =>
    if digits = 10 ^ count then (1, exponent + count) else (digits.toNat, exponent)

/-- Positional notation for moderate exponents, scientific notation for the others. -/
def decimalText (digits : ℕ) (exponent : ℤ) : String :=
  let text := Nat.toDigits 10 digits
  let point := text.length + exponent
  let zeros (n : ℤ) := List.replicate n.toNat '0'
  String.ofList <|
    if 16 < point ∨ point ≤ -4 then
      text.take 1 ++ (if text.length = 1 then [] else '.' :: text.drop 1) ++
        ['e', if 0 < point then '+' else '-'] ++ (zeroPad 2 (point - 1).natAbs).toList
    else if 0 ≤ exponent then text ++ zeros exponent ++ ['.', '0']
    else if 0 < point then text.take point.toNat ++ '.' :: text.drop point.toNat
    else '0' :: '.' :: zeros (-point) ++ text

/-- The text is a number that reads back as the float. -/
def Reads (x : PyFloat) (text : String) : Prop := scanNumber text.toList = some (.float x, [])

instance (x : PyFloat) : DecidablePred x.Reads := fun text =>
  inferInstanceAs (Decidable (scanNumber text.toList = some (.float x, [])))

def shortTexts (q : ℚ) : List String :=
  (List.range 17).flatMap fun count => (decimalsNear q (count + 1)).map fun decimal =>
    (if q < 0 then "-" else "") ++ decimalText decimal.1 decimal.2

/-- Every double is a multiple of the 1074th power of a tenth. -/
def exactText (q : ℚ) : String := toString ⌊q * 10 ^ 1074⌋ ++ "e-1074"

/-- `repr(x)`. -/
def repr (x : PyFloat) : String :=
  match x with
  | .finite q _ => (("0.0" :: shortTexts q).find? x.Reads).getD (exactText q)
  | .negZero => "-0.0"
  | .inf negative => if negative then "-inf" else "inf"
  | .nan => "nan"

/-! ## Reading back -/

theorem exists_int_of_representable {q : ℚ} (h : Rounding.binary64.Representable q) {d : ℕ}
    (hd : -d ≤ Rounding.ulpExponent q) : ∃ n : ℤ, q * 10 ^ d = n := by
  obtain ⟨n, hn⟩ := Rounding.roundBinary64_grid q
  have hfix : Rounding.roundBinary64 q = q := h
  rw [hfix, Rounding.ulp] at hn
  obtain ⟨k, hk⟩ := Int.le.dest hd
  have hten : (10 : ℚ) ^ d = 2 ^ (d : ℤ) * 5 ^ d := by
    rw [zpow_natCast, ← mul_pow]
    norm_num
  have hpow : (2 : ℚ) ^ Rounding.ulpExponent q * 2 ^ (d : ℤ) = 2 ^ k := by
    rw [← zpow_add₀ (by norm_num), ← zpow_natCast]
    congr 1
    omega
  refine ⟨n * 2 ^ k * 5 ^ d, ?_⟩
  calc q * 10 ^ d = n * (2 ^ Rounding.ulpExponent q * 2 ^ (d : ℤ)) * 5 ^ d := by
        rw [hten, ← mul_assoc, ← mul_assoc, ← hn]
    _ = _ := by
        rw [hpow]
        push_cast
        ring

theorem scanWhole_toDigits_append (m : ℕ) {c : Char} (hc : c.isDigit = false) (t : List Char) :
    scanWhole (Nat.toDigits 10 m ++ c :: t) = some (Nat.toDigits 10 m, c :: t) := by
  rcases Nat.eq_zero_or_pos m with rfl | hm
  · rfl
  have hall : ∀ c ∈ Nat.toDigits 10 m, c.isDigit = true := fun c hc => isDigit_of_mem_toDigits hc
  have hdigits : scanDigits (Nat.toDigits 10 m ++ c :: t) = some (Nat.toDigits 10 m, c :: t) := by
    rw [scanDigits, List.takeWhile_append_of_pos hall, List.dropWhile_append_of_pos hall]
    simp [hc, Nat.toDigits_ne_nil]
  cases hlist : Nat.toDigits 10 m with
  | nil => exact absurd hlist Nat.toDigits_ne_nil
  | cons d ds =>
    have hhead := head_toDigits hm
    rw [hlist] at hhead hdigits
    unfold scanWhole
    split
    · next heq => simp_all
    · exact hdigits

theorem scanSign_toDigits_append (m : ℕ) (t : List Char) :
    scanSign (Nat.toDigits 10 m ++ t) = (false, Nat.toDigits 10 m ++ t) := by
  cases hlist : Nat.toDigits 10 m with
  | nil => exact absurd hlist Nat.toDigits_ne_nil
  | cons d ds =>
    have hd : d.isDigit = true := isDigit_of_mem_toDigits (m := m) (by simp [hlist])
    unfold scanSign
    split
    · next heq => simp_all
    · rfl

theorem scanNumber_exponent (n : ℤ) : scanNumber ((toString n).toList ++ "e-1074".toList) =
    some (.float (ofDecimal (decide (n < 0)) n.natAbs (-1074)), []) := by
  have hexponent : scanExponent "e-1074".toList = (some (-1074), []) := by decide
  have hwhole (m : ℕ) : scanWhole (Nat.toDigits 10 m ++ "e-1074".toList) =
      some (Nat.toDigits 10 m, "e-1074".toList) :=
    scanWhole_toDigits_append m (c := 'e') rfl _
  have hfraction : scanFraction "e-1074".toList = ([], "e-1074".toList) := rfl
  cases n with
  | ofNat m =>
    rw [toList_ofNat, scanNumber, scanSign_toDigits_append, hwhole]
    dsimp only [Option.map_some]
    have hneg : decide (Int.ofNat m < 0) = false := decide_eq_false (Int.natCast_nonneg m).not_gt
    rw [hfraction, hexponent, hneg]
    simp
  | negSucc m =>
    have hsign : scanSign ('-' :: (Nat.toDigits 10 (m + 1) ++ "e-1074".toList)) =
        (true, Nat.toDigits 10 (m + 1) ++ "e-1074".toList) := rfl
    rw [toList_negSucc, List.cons_append, scanNumber, hsign, hwhole]
    dsimp only [Option.map_some]
    rw [hfraction, hexponent]
    simp

theorem reads_exactText {q : ℚ} (h : Rounding.binary64.Representable q ∧ |q| < 2 ^ 1024) :
    (finite q h).Reads (exactText q) := by
  have hfix : Rounding.binary64 q = q := h.1
  obtain ⟨n, hn⟩ := exists_int_of_representable h.1 (d := 1074) (by
    unfold Rounding.ulpExponent
    omega)
  have hq : (n : ℚ) * 10 ^ (-1074 : ℤ) = q := by
    rw [← hn, mul_assoc, zpow_neg, zpow_ofNat, mul_inv_cancel₀ (by positivity), mul_one]
  have hsigned : signed (decide (n < 0)) n.natAbs = n := by
    cases n with
    | ofNat m => simp [signed]
    | negSucc m =>
      simp [signed, Int.negSucc_lt_zero]
      omega
  have hneg : ¬(decide (n < 0) = true ∧ q = 0) := by
    rintro ⟨hlt, hzero⟩
    rw [hzero, zero_mul] at hn
    have hn0 : n = 0 := by exact_mod_cast hn.symm
    simp [hn0] at hlt
  have hread : ofDecimal (decide (n < 0)) n.natAbs (-1074) = finite q h := by
    rw [ofDecimal, hsigned, hq, hfix, if_neg hneg]
    simp [ofRat, hfix, h.2]
  rw [Reads, exactText, hn, Int.floor_intCast, String.toList_append, scanNumber_exponent, hread]

theorem reads_find? {x : PyFloat} {fallback : String} (h : x.Reads fallback)
    (texts : List String) : x.Reads ((texts.find? x.Reads).getD fallback) := by
  cases hfind : texts.find? x.Reads with
  | none => exact h
  | some text => simpa using List.find?_some hfind

theorem reads_repr {x : PyFloat} (hx : x.isFinite = true) : x.Reads x.repr := by
  cases x with
  | finite q h =>
    unfold repr
    exact reads_find? (reads_exactText h) _
  | negZero =>
    unfold repr
    decide +kernel
  | inf negative => cases hx
  | nan => cases hx

end PyFloat

/-- The reference interpreter with the texts of floats. -/
def printingInterp : Interp := { referenceInterp with floatRepr := PyFloat.repr }

theorem reprReads_printingInterp : printingInterp.ReprReads := fun _ hx => PyFloat.reads_repr hx

/-- The built-in handlers over it. -/
def printingRuntime : Runtime where
  toInterp := printingInterp
  toCrypto := referenceCrypto
  handlers := builtinHandlers printingInterp

theorem reprReads_printingRuntime : printingRuntime.toInterp.ReprReads := reprReads_printingInterp

end ECN
