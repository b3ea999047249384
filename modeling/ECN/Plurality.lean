import Mathlib.Data.List.Count
import Mathlib.Data.List.MinMax
import Mathlib.Tactic

/-!
# Plurality of a list of ballots

The plurality choice is the most frequent element, and the least of these on a
tie. It exists for every non-empty list, is unique, does not depend on the order of
the ballots, is any element that holds more than half of them, and stays the choice,
with no smaller share, when votes move to it.
-/
namespace ECN

variable {α : Type*} [LinearOrder α]

structure Plurality (ballots : List α) (w : α) : Prop where
  mem : w ∈ ballots
  max : ∀ x, ballots.count x ≤ ballots.count w
  least : ∀ x, ballots.count x = ballots.count w → w ≤ x

theorem count_add_count_le (ballots : List α) {x y : α} (hne : x ≠ y) :
    ballots.count x + ballots.count y ≤ ballots.length := by
  induction ballots with
  | nil => simp
  | cons b ballots ih =>
    simp only [List.count_cons, List.length_cons, beq_iff_eq]
    split_ifs with hx hy
    · exact absurd (hx.symm.trans hy) hne
    all_goals omega

namespace Plurality

theorem unique {ballots : List α} {v w : α} (hv : Plurality ballots v)
    (hw : Plurality ballots w) : v = w := by
  have hcount : ballots.count v = ballots.count w := le_antisymm (hw.max v) (hv.max w)
  exact le_antisymm (hv.least w hcount.symm) (hw.least v hcount)

theorem count_pos {ballots : List α} {w : α} (h : Plurality ballots w) : 0 < ballots.count w :=
  List.count_pos_iff.mpr h.mem

/-- The strictly most frequent element wins. -/
theorem of_count_lt {ballots : List α} {w : α} (hmem : w ∈ ballots)
    (h : ∀ x, x ≠ w → ballots.count x < ballots.count w) : Plurality ballots w where
  mem := hmem
  max x := by
    by_cases hx : x = w
    · rw [hx]
    · exact (h x hx).le
  least x hx := by
    by_contra hlt
    have hne : x ≠ w := fun he => hlt (he ▸ le_rfl)
    exact absurd hx (h x hne).ne

/-- An element with more than half of the ballots wins. -/
theorem of_majority {ballots : List α} {w : α} (h : ballots.length < 2 * ballots.count w) :
    Plurality ballots w := by
  refine of_count_lt (List.count_pos_iff.mp (by omega)) fun x hx => ?_
  have := count_add_count_le ballots hx
  omega

theorem exists_of_ne_nil {ballots : List α} (hne : ballots ≠ []) : ∃ w, Plurality ballots w := by
  obtain ⟨m, hmem, hmax⟩ := Finset.exists_max_image ballots.toFinset ballots.count
    (by simpa [List.toFinset_nonempty_iff] using hne)
  -- Among the elements with the largest count, take the least.
  obtain ⟨w, hw, hmin⟩ := Finset.exists_min_image
    (ballots.toFinset.filter fun x => ballots.count x = ballots.count m) id
    ⟨m, by simpa using hmem⟩
  simp only [Finset.mem_filter, List.mem_toFinset, id] at hw hmin hmem hmax
  have hpos : 0 < ballots.count m := List.count_pos_iff.mpr hmem
  refine ⟨w, hw.1, fun x => ?_, fun x hx => ?_⟩
  · by_cases hx : x ∈ ballots
    · rw [hw.2]
      exact hmax x hx
    · rw [List.count_eq_zero.mpr hx]
      exact Nat.zero_le _
  · have hx' : ballots.count x = ballots.count m := hx.trans hw.2
    exact hmin x ⟨List.count_pos_iff.mp (hx' ▸ hpos), hx'⟩

/-- The order of the ballots does not matter. -/
theorem of_perm {ballots ballots' : List α} {w : α} (hperm : ballots.Perm ballots')
    (h : Plurality ballots w) : Plurality ballots' w where
  mem := hperm.mem_iff.mp h.mem
  max x := by
    rw [← hperm.count_eq, ← hperm.count_eq]
    exact h.max x
  least x hx := by
    rw [← hperm.count_eq, ← hperm.count_eq] at hx
    exact h.least x hx

/-- The elements that nothing outvotes. -/
def favourites (ballots : List α) : Set α :=
  {w | w ∈ ballots ∧ ∀ x, ballots.count x ≤ ballots.count w}

theorem isLeast_favourites {ballots : List α} {w : α} (h : Plurality ballots w) :
    IsLeast (favourites ballots) w := by
  refine ⟨⟨h.mem, h.max⟩, fun x hx => h.least x ?_⟩
  exact le_antisymm (h.max x) (hx.2 w)

end Plurality

/-! ## Votes that move to one element -/

/-- From `ballots` to `ballots'` no vote for `h` is lost and none against it is won. -/
structure Favours (h : α) (ballots ballots' : List α) : Prop where
  gain : ballots.count h ≤ ballots'.count h
  loss : ∀ x, x ≠ h → ballots'.count x ≤ ballots.count x

namespace Favours

theorem refl (h : α) (ballots : List α) : Favours h ballots ballots := ⟨le_rfl, fun _ _ => le_rfl⟩

theorem trans {h : α} {b b' b'' : List α} (hab : Favours h b b') (hbc : Favours h b' b'') :
    Favours h b b'' :=
  ⟨hab.gain.trans hbc.gain, fun x hx => (hbc.loss x hx).trans (hab.loss x hx)⟩

/-- The winner still wins, also against an element it was tied with. -/
theorem plurality {h : α} {b b' : List α} (hf : Favours h b b') (hw : Plurality b h) :
    Plurality b' h where
  mem := List.count_pos_iff.mp (hw.count_pos.trans_le hf.gain)
  max x := by
    by_cases hx : x = h
    · rw [hx]
    · calc b'.count x ≤ b.count x := hf.loss x hx
        _ ≤ b.count h := hw.max x
        _ ≤ b'.count h := hf.gain
  least x hx := by
    by_cases hxh : x = h
    · exact hxh.ge
    · have hle := hf.loss x hxh
      have hmax := hw.max x
      have hgain := hf.gain
      exact hw.least x (by omega)

/-- The votes against `h` are not more than they were. -/
theorem against_le {h : α} {b b' : List α} (hf : Favours h b b') :
    b'.length + b.count h ≤ b.length + b'.count h := by
  have hsplit (l : List α) : l.length = l.count h + (l.filter fun x => x ≠ h).length := by
    rw [List.length_eq_countP_add_countP (· == h), List.count, ← List.countP_eq_length_filter]
    simp
  have hsub : (b'.filter fun x => x ≠ h).Subperm (b.filter fun x => x ≠ h) := by
    rw [List.subperm_ext_iff]
    intro x hx
    have hne : x ≠ h := of_decide_eq_true (List.mem_filter.mp hx).2
    rw [List.count_filter (by simpa using hne), List.count_filter (by simpa using hne)]
    exact hf.loss x hne
  have hle := hsub.length_le
  have hb := hsplit b
  have hb' := hsplit b'
  omega

/-- The share of `h` does not fall. -/
theorem share_le {h : α} {b b' : List α} (hf : Favours h b b') (hmem : h ∈ b) :
    (b.count h : ℚ) / b.length ≤ (b'.count h : ℚ) / b'.length := by
  have hmem' : h ∈ b' := List.count_pos_iff.mp ((List.count_pos_iff.mpr hmem).trans_le hf.gain)
  have hpos : (0 : ℚ) < b.length := by exact_mod_cast List.length_pos_of_mem hmem
  have hpos' : (0 : ℚ) < b'.length := by exact_mod_cast List.length_pos_of_mem hmem'
  have hagainst : (b'.length : ℚ) + b.count h ≤ b.length + b'.count h := by
    exact_mod_cast hf.against_le
  have hgain : (b.count h : ℚ) ≤ b'.count h := by exact_mod_cast hf.gain
  have hall : (b.count h : ℚ) ≤ b.length := by exact_mod_cast List.count_le_length
  rw [div_le_div_iff₀ hpos hpos']
  have hnonneg : (0 : ℚ) ≤ b.count h := by positivity
  calc (b.count h : ℚ) * b'.length
      ≤ b.count h * (b.length + (b'.count h - b.count h)) :=
        mul_le_mul_of_nonneg_left (by linarith) hnonneg
    _ = b.count h * b.length + b.count h * (b'.count h - b.count h) := by ring
    _ ≤ b.count h * b.length + b.length * (b'.count h - b.count h) := by
        have := mul_le_mul_of_nonneg_right hall (sub_nonneg.mpr hgain)
        linarith
    _ = b'.count h * b.length := by ring

end Favours
end ECN
