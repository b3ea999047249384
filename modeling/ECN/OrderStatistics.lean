import Mathlib.Data.List.Sort
import Mathlib.Tactic

/-!
# Order statistics of a list

The element at a rank of the sorted list is told apart by two counts: at most so many
elements lie below it, and more than so many lie at or below it.
-/
namespace ECN.OrderStatistics

variable {α : Type*} [LinearOrder α]

/-- The element of rank `i`, counted from zero, in increasing order. -/
def atRank (xs : List α) (i : ℕ) : Option α := (xs.mergeSort fun a b => decide (a ≤ b))[i]?

/-- The elements below `p`. -/
def below (xs : List α) (p : α) : ℕ := xs.countP (· < p)

/-- The elements at `p` or below it. -/
def upTo (xs : List α) (p : α) : ℕ := xs.countP (· ≤ p)

section Sorted

variable {xs : List α} (h : xs.Pairwise (· ≤ ·)) {i : ℕ} {p : α} (hp : xs[i]? = some p)

include h hp

/-- Behind its place nothing is smaller. -/
theorem le_of_mem_drop {q : α} (hq : q ∈ xs.drop i) : p ≤ q := by
  obtain ⟨hi, rfl⟩ := List.getElem?_eq_some_iff.mp hp
  rw [List.drop_eq_getElem_cons hi] at hq
  rcases List.mem_cons.mp hq with rfl | hq
  · exact le_rfl
  · obtain ⟨j, hj, rfl⟩ := List.mem_iff_getElem.mp hq
    rw [List.getElem_drop]
    rw [List.length_drop] at hj
    exact List.pairwise_iff_getElem.mp h i (i + 1 + j) hi (by omega) (by omega)

/-- Up to its place nothing is larger. -/
theorem le_of_mem_take {q : α} (hq : q ∈ xs.take (i + 1)) : q ≤ p := by
  obtain ⟨hi, rfl⟩ := List.getElem?_eq_some_iff.mp hp
  obtain ⟨j, hj, rfl⟩ := List.mem_iff_getElem.mp hq
  rw [List.length_take] at hj
  rw [List.getElem_take]
  rcases Nat.lt_succ_iff_lt_or_eq.mp (show j < i + 1 by omega) with hlt | rfl
  · exact List.pairwise_iff_getElem.mp h j i (by omega) hi hlt
  · exact le_rfl

theorem below_le_rank : below xs p ≤ i := by
  have hdrop : (xs.drop i).countP (· < p) = 0 := by
    rw [List.countP_eq_zero]
    intro q hq
    simpa using le_of_mem_drop h hp hq
  have htake : (xs.take i).countP (· < p) ≤ i :=
    List.countP_le_length.trans (List.length_take_le i xs)
  rw [below, ← List.take_append_drop i xs, List.countP_append, hdrop]
  exact htake

theorem rank_lt_upTo : i < upTo xs p := by
  have hi := (List.getElem?_eq_some_iff.mp hp).1
  have htake : (xs.take (i + 1)).countP (· ≤ p) = i + 1 := by
    rw [List.countP_eq_length.mpr fun q hq => by simpa using le_of_mem_take h hp hq,
      List.length_take]
    omega
  rw [upTo, ← List.take_append_drop (i + 1) xs, List.countP_append, htake]
  omega

end Sorted

variable {xs : List α} {i : ℕ} {p : α}

theorem below_lt_of_lt {q : α} (h : p < q) : upTo xs p ≤ below xs q := by
  apply List.countP_mono_left
  intro x _ hx
  simp only [decide_eq_true_eq] at hx ⊢
  exact hx.trans_lt h

theorem atRank_eq_none_iff : atRank xs i = none ↔ xs.length ≤ i := by
  rw [atRank, List.getElem?_eq_none_iff, List.length_mergeSort]

/-- The two counts tell the element of rank `i`. -/
theorem atRank_eq_some_iff : atRank xs i = some p ↔ p ∈ xs ∧ below xs p ≤ i ∧ i < upTo xs p := by
  let sorted := xs.mergeSort fun a b => decide (a ≤ b)
  have hperm : sorted.Perm xs := List.mergeSort_perm xs _
  have hpairwise : sorted.Pairwise (· ≤ ·) := by
    have hsorted : (xs.mergeSort fun a b => decide (a ≤ b)).Pairwise
        fun a b => decide (a ≤ b) = true := List.pairwise_mergeSort
      (fun a b c hab hbc => by simp only [decide_eq_true_eq] at hab hbc ⊢; exact hab.trans hbc)
      (fun a b => by simpa using le_total a b) xs
    exact hsorted.imp fun hab => of_decide_eq_true hab
  have hbelow (q : α) : below sorted q = below xs q := hperm.countP_eq _
  have hupTo (q : α) : upTo sorted q = upTo xs q := hperm.countP_eq _
  show sorted[i]? = some p ↔ _
  constructor
  · intro hp
    rw [← hbelow, ← hupTo]
    exact ⟨hperm.mem_iff.mp (List.mem_of_getElem? hp), below_le_rank hpairwise hp,
      rank_lt_upTo hpairwise hp⟩
  · rintro ⟨-, hlow, hhigh⟩
    have hi : i < sorted.length := by
      rw [hperm.length_eq]
      exact hhigh.trans_le List.countP_le_length
    have hq : sorted[i]? = some sorted[i] := List.getElem?_eq_getElem hi
    have hlow' := below_le_rank hpairwise hq
    have hhigh' := rank_lt_upTo hpairwise hq
    rw [hbelow] at hlow'
    rw [hupTo] at hhigh'
    rcases lt_trichotomy sorted[i] p with hlt | heq | hgt
    · have : upTo xs sorted[i] ≤ below xs p := below_lt_of_lt hlt
      omega
    · rw [hq, heq]
    · have : upTo xs p ≤ below xs sorted[i] := below_lt_of_lt hgt
      omega

end ECN.OrderStatistics
