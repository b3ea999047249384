import Mathlib.Data.Int.Log
import Mathlib.Data.Rat.Floor
import Mathlib.Tactic

/-!
# Rounding of exact rationals to the numbers a machine float holds

A `Rounding` is a monotone idempotent map on the rationals that fixes zero, one
half and one. Two instances matter: `exact` leaves every quotient alone, and
`binary64` is round-to-nearest-even with 53 bits and the subnormal grid, which
is what a correctly rounded division of two integers returns below the overflow
limit. A quantity is representable when the rounding fixes it.
-/
namespace ECN

/-- Nearest integer, with ties going to the even neighbour. -/
def roundHalfEven (q : ℚ) : ℤ :=
  if q - ⌊q⌋ < 1 / 2 then ⌊q⌋
  else if 1 / 2 < q - ⌊q⌋ then ⌊q⌋ + 1
  else if ⌊q⌋ % 2 = 0 then ⌊q⌋ else ⌊q⌋ + 1

theorem roundHalfEven_intCast (n : ℤ) : roundHalfEven n = n := by
  simp [roundHalfEven]

theorem floor_le_roundHalfEven (q : ℚ) : ⌊q⌋ ≤ roundHalfEven q := by
  unfold roundHalfEven
  split_ifs <;> omega

theorem roundHalfEven_le_floor_add_one (q : ℚ) : roundHalfEven q ≤ ⌊q⌋ + 1 := by
  unfold roundHalfEven
  split_ifs <;> omega

theorem roundHalfEven_mono : Monotone roundHalfEven := by
  intro a b hab
  rcases eq_or_lt_of_le (Int.floor_le_floor hab) with hfl | hfl
  · -- On one unit interval the three branches are ordered by the fractional part.
    unfold roundHalfEven
    rw [hfl]
    split_ifs <;> first | omega | (exfalso; linarith)
  · calc roundHalfEven a ≤ ⌊a⌋ + 1 := roundHalfEven_le_floor_add_one a
      _ ≤ ⌊b⌋ := hfl
      _ ≤ roundHalfEven b := floor_le_roundHalfEven b

/-- A rounding mode: what the arithmetic does with an exact rational result. -/
structure Rounding where
  round : ℚ → ℚ
  mono : Monotone round
  idem : ∀ q, round (round q) = round q
  zero : round 0 = 0
  half : round (1 / 2) = 1 / 2
  one : round 1 = 1

namespace Rounding

instance : CoeFun Rounding (fun _ => ℚ → ℚ) := ⟨Rounding.round⟩

/-- The numbers the format holds exactly. -/
def Representable (R : Rounding) (q : ℚ) : Prop := R q = q

instance (R : Rounding) (q : ℚ) : Decidable (R.Representable q) :=
  inferInstanceAs (Decidable (R q = q))

theorem representable_round (R : Rounding) (q : ℚ) : R.Representable (R q) := R.idem q

/-- A rounded quantity above a representable bound was above it before rounding. -/
theorem lt_of_lt_round (R : Rounding) {t q : ℚ} (ht : R.Representable t) (h : t < R q) :
    t < q := by
  by_contra hle
  have hm := R.mono (not_lt.mp hle)
  rw [ht] at hm
  exact absurd h (not_lt.mpr hm)

/-- Exact rational arithmetic. -/
def exact : Rounding where
  round := id
  mono := monotone_id
  idem _ := rfl
  zero := rfl
  half := rfl
  one := rfl

@[simp] theorem exact_apply (q : ℚ) : exact q = q := rfl

/-- Exponent of the last kept bit: 53 significant bits, clamped at the subnormal grid. -/
def ulpExponent (q : ℚ) : ℤ := max (Int.log 2 |q|) (-1022) - 52

/-- Spacing of the binary64 grid around `q`. -/
def ulp (q : ℚ) : ℚ := 2 ^ ulpExponent q

theorem ulp_pos (q : ℚ) : 0 < ulp q := by unfold ulp; positivity

/-- Nearest binary64 number, ties to even; the exponent has no upper limit here. -/
def roundBinary64 (q : ℚ) : ℚ := roundHalfEven (q / ulp q) * ulp q

/-- Grid points bound the rounding from above. -/
theorem roundBinary64_le {q c : ℚ} (h : q ≤ c) (hc : ∃ n : ℤ, c = n * ulp q) :
    roundBinary64 q ≤ c := by
  obtain ⟨n, rfl⟩ := hc
  have hq : q / ulp q ≤ n := (div_le_iff₀ (ulp_pos q)).mpr h
  have hr := roundHalfEven_mono hq
  rw [roundHalfEven_intCast] at hr
  exact mul_le_mul_of_nonneg_right (by exact_mod_cast hr) (ulp_pos q).le

/-- Grid points bound the rounding from below. -/
theorem le_roundBinary64 {q c : ℚ} (h : c ≤ q) (hc : ∃ n : ℤ, c = n * ulp q) :
    c ≤ roundBinary64 q := by
  obtain ⟨n, rfl⟩ := hc
  have hq : (n : ℚ) ≤ q / ulp q := (le_div_iff₀ (ulp_pos q)).mpr h
  have hr := roundHalfEven_mono hq
  rw [roundHalfEven_intCast] at hr
  exact mul_le_mul_of_nonneg_right (by exact_mod_cast hr) (ulp_pos q).le

/-- A power of two at or above the spacing is a grid point. -/
theorem zpow_grid (q : ℚ) {k : ℤ} (hk : ulpExponent q ≤ k) :
    ∃ n : ℤ, (2 : ℚ) ^ k = n * ulp q := by
  refine ⟨2 ^ (k - ulpExponent q).toNat, ?_⟩
  have hn : (((k - ulpExponent q).toNat : ℕ) : ℤ) = k - ulpExponent q := by omega
  push_cast
  rw [ulp, ← zpow_natCast, hn, ← zpow_add₀ (by norm_num : (2 : ℚ) ≠ 0)]
  congr 1
  ring

theorem neg_grid {q c : ℚ} (h : ∃ n : ℤ, c = n * ulp q) : ∃ n : ℤ, -c = n * ulp q := by
  obtain ⟨n, rfl⟩ := h
  exact ⟨-n, by push_cast; ring⟩

theorem zero_grid (q : ℚ) : ∃ n : ℤ, (0 : ℚ) = n * ulp q := ⟨0, by simp⟩

/-- Between two binades lies a power of two that is a grid point of both. -/
theorem exists_pivot {x y : ℚ} (hx : x ≠ 0) (hxy : |x| ≤ |y|)
    (hne : ulpExponent x ≠ ulpExponent y) :
    ∃ k : ℤ, |x| ≤ (2 : ℚ) ^ k ∧ (2 : ℚ) ^ k ≤ |y| ∧ ulpExponent x ≤ k ∧ ulpExponent y ≤ k := by
  have hxpos : 0 < |x| := abs_pos.mpr hx
  have hlog : Int.log 2 |x| ≤ Int.log 2 |y| := Int.log_mono_right hxpos hxy
  unfold ulpExponent at hne ⊢
  refine ⟨Int.log 2 |y|, ?_, ?_, by omega, by omega⟩
  · have hlt := Int.lt_zpow_succ_log_self (b := 2) (by norm_num) |x|
    have hpow : (2 : ℚ) ^ (Int.log 2 |x| + 1) ≤ 2 ^ Int.log 2 |y| :=
      zpow_le_zpow_right₀ (by norm_num) (by omega)
    push_cast at hlt
    exact hlt.le.trans hpow
  · have hle := Int.zpow_log_le_self (b := 2) (by norm_num) (hxpos.trans_le hxy)
    exact_mod_cast hle

theorem roundBinary64_mono : Monotone roundBinary64 := by
  intro a b hab
  by_cases heq : ulpExponent a = ulpExponent b
  · have hu : ulp a = ulp b := by rw [ulp, ulp, heq]
    unfold roundBinary64
    rw [hu]
    have hdiv : a / ulp b ≤ b / ulp b := div_le_div_of_nonneg_right hab (ulp_pos b).le
    exact mul_le_mul_of_nonneg_right (by exact_mod_cast roundHalfEven_mono hdiv) (ulp_pos b).le
  · rcases lt_or_ge 0 a with ha | ha
    · have hb : 0 < b := ha.trans_le hab
      obtain ⟨k, hak, hkb, hga, hgb⟩ := exists_pivot ha.ne'
        (by rwa [abs_of_pos ha, abs_of_pos hb]) heq
      rw [abs_of_pos ha] at hak
      rw [abs_of_pos hb] at hkb
      exact (roundBinary64_le hak (zpow_grid a hga)).trans (le_roundBinary64 hkb (zpow_grid b hgb))
    · rcases lt_or_ge b 0 with hb | hb
      · obtain ⟨k, hbk, hka, hgb, hga⟩ := exists_pivot hb.ne
          (by rw [abs_of_nonpos ha, abs_of_neg hb]; linarith) (Ne.symm heq)
        rw [abs_of_neg hb] at hbk
        rw [abs_of_nonpos ha] at hka
        exact (roundBinary64_le (by linarith) (neg_grid (zpow_grid a hga))).trans
          (le_roundBinary64 (by linarith) (neg_grid (zpow_grid b hgb)))
      · exact (roundBinary64_le ha (zero_grid a)).trans (le_roundBinary64 hb (zero_grid b))

theorem roundBinary64_of_grid {q : ℚ} (h : ∃ n : ℤ, q = n * ulp q) : roundBinary64 q = q :=
  le_antisymm (roundBinary64_le le_rfl h) (le_roundBinary64 le_rfl h)

/-- Rounding never leaves the closed binade of its argument. -/
theorem abs_roundBinary64_le (q : ℚ) :
    |roundBinary64 q| ≤ (2 : ℚ) ^ (max (Int.log 2 |q|) (-1022) + 1) := by
  have hlt := Int.lt_zpow_succ_log_self (b := 2) (by norm_num) |q|
  have hpow : (2 : ℚ) ^ (Int.log 2 |q| + 1) ≤ 2 ^ (max (Int.log 2 |q|) (-1022) + 1) :=
    zpow_le_zpow_right₀ (by norm_num) (by omega)
  push_cast at hlt
  have habs := abs_le.mp (hlt.le.trans hpow)
  have hgrid := zpow_grid q (k := max (Int.log 2 |q|) (-1022) + 1) (by unfold ulpExponent; omega)
  exact abs_le.mpr ⟨le_roundBinary64 habs.1 (neg_grid hgrid), roundBinary64_le habs.2 hgrid⟩

/-- The result sits on its own grid: either in the old binade, or on the power of
two that ends it. -/
theorem roundBinary64_grid (q : ℚ) : ∃ n : ℤ, roundBinary64 q = n * ulp (roundBinary64 q) := by
  by_cases hz : roundBinary64 q = 0
  · rw [hz]
    exact zero_grid 0
  have hpos : 0 < |roundBinary64 q| := abs_pos.mpr hz
  rcases lt_or_eq_of_le (abs_roundBinary64_le q) with hlt | heq
  · have hlog : Int.log 2 |roundBinary64 q| < max (Int.log 2 |q|) (-1022) + 1 :=
      (Int.lt_zpow_iff_log_lt (b := 2) (by norm_num) hpos).mp (by exact_mod_cast hlt)
    obtain ⟨m, hm⟩ := zpow_grid (roundBinary64 q) (k := ulpExponent q)
      (by unfold ulpExponent at *; omega)
    refine ⟨roundHalfEven (q / ulp q) * m, ?_⟩
    calc roundBinary64 q = roundHalfEven (q / ulp q) * ulp q := rfl
      _ = roundHalfEven (q / ulp q) * (m * ulp (roundBinary64 q)) := by rw [← hm]; rfl
      _ = _ := by push_cast; ring
  · have hlog : Int.log 2 |roundBinary64 q| = max (Int.log 2 |q|) (-1022) + 1 := by
      rw [heq]
      exact_mod_cast Int.log_zpow (R := ℚ) (b := 2) (by norm_num) _
    have hgrid := zpow_grid (roundBinary64 q) (k := max (Int.log 2 |q|) (-1022) + 1)
      (by unfold ulpExponent; omega)
    rw [← heq] at hgrid
    rcases abs_choice (roundBinary64 q) with h | h
    · rwa [h] at hgrid
    · have hneg := neg_grid hgrid
      rwa [h, neg_neg] at hneg

theorem log_half : Int.log 2 |(1 / 2 : ℚ)| = -1 := by decide +kernel

/-- IEEE 754 double precision, round to nearest with ties to even. -/
def binary64 : Rounding where
  round := roundBinary64
  mono := roundBinary64_mono
  idem q := roundBinary64_of_grid (roundBinary64_grid q)
  zero := roundBinary64_of_grid (zero_grid 0)
  half := roundBinary64_of_grid (by
    obtain ⟨n, hn⟩ := zpow_grid (1 / 2) (k := -1) (by unfold ulpExponent; rw [log_half]; norm_num)
    exact ⟨n, by rw [← hn]; norm_num⟩)
  one := roundBinary64_of_grid (by
    obtain ⟨n, hn⟩ := zpow_grid 1 (k := 0) (by unfold ulpExponent; simp)
    exact ⟨n, by rw [← hn]; norm_num⟩)

end Rounding
end ECN
