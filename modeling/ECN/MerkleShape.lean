import ECN.MerkleCommitment

/-!
# The shape of the Merkle tree

Each pass of the loop halves the level, rounding up, so it ends after as many passes as the
binary logarithm of the number of leaves, rounded up, and what it has collected then is a
tree over the leaves.
-/
namespace ECN

open MerkleTree (IsTree)

variable {crypto : Crypto}

/-! ## The loop -/

/-- The `while` loop with its level and the levels so far, for a number of passes. -/
def buildLoop (crypto : Crypto) :
    ℕ → List String → List (List String) → Option (List (List String))
  | 0, level, levels => if level.length > 1 then none else some levels
  | passes + 1, level, levels =>
    if level.length > 1 then
      buildLoop crypto passes (nextLevel crypto level) (levels ++ [nextLevel crypto level])
    else some levels

theorem clog_length_nextLevel {level : List String} (hlong : 1 < level.length) :
    Nat.clog 2 level.length = Nat.clog 2 (nextLevel crypto level).length + 1 := by
  rw [nextLevel_eq_next]
  exact MerkleTree.clog_length_next (joinDigests crypto) hlong

theorem clog_pos {level : List String} (hlong : 1 < level.length) :
    0 < Nat.clog 2 level.length :=
  Nat.clog_pos Nat.one_lt_two hlong

theorem clog_eq_zero {level : List String} (hshort : ¬ 1 < level.length) :
    Nat.clog 2 level.length = 0 :=
  Nat.clog_of_right_le_one (not_lt.mp hshort) 2

theorem buildLevels_long {fuel : ℕ} {level : List String} (hlong : 1 < level.length) :
    buildLevels crypto (fuel + 1) level =
      level :: buildLevels crypto fuel (nextLevel crypto level) := by
  rw [buildLevels, if_neg (not_le.mpr hlong)]

theorem buildLevels_short (fuel : ℕ) {level : List String} (hshort : ¬ 1 < level.length) :
    buildLevels crypto fuel level = [level] := by
  cases fuel with
  | zero => rfl
  | succ fuel => rw [buildLevels, if_pos (not_lt.mp hshort)]

theorem buildLevels_eq_cons (fuel : ℕ) (level : List String) :
    buildLevels crypto fuel level = level :: (buildLevels crypto fuel level).tail := by
  cases fuel with
  | zero => rfl
  | succ fuel =>
    rw [buildLevels]
    split <;> rfl

/-- The loop ends within the passes that the logarithm allows and not before, with the levels
of the recursion. -/
theorem buildLoop_eq (passes : ℕ) (level : List String) (levels : List (List String)) :
    buildLoop crypto passes level levels =
      if Nat.clog 2 level.length ≤ passes then
        some (levels ++ (buildLevels crypto passes level).tail)
      else none := by
  induction passes generalizing level levels with
  | zero =>
    rw [buildLoop]
    by_cases hlong : 1 < level.length
    · have hclog := clog_pos hlong
      rw [if_pos hlong, if_neg (by omega)]
    · simp [clog_eq_zero hlong, hlong, buildLevels]
  | succ passes ih =>
    rw [buildLoop]
    by_cases hlong : 1 < level.length
    · have hclog : Nat.clog 2 level.length =
          Nat.clog 2 (nextLevel crypto level).length + 1 := clog_length_nextLevel hlong
      have htail : levels ++ (buildLevels crypto (passes + 1) level).tail =
          levels ++ [nextLevel crypto level] ++
            (buildLevels crypto passes (nextLevel crypto level)).tail := by
        rw [buildLevels_long hlong, List.tail_cons, List.append_assoc, List.singleton_append,
          ← buildLevels_eq_cons]
      simp only [if_pos hlong, ih, htail, hclog, Nat.add_le_add_iff_right]
    · simp [clog_eq_zero hlong, hlong, buildLevels_short]

/-! ## The levels are a tree -/

theorem isTree_short (fuel : ℕ) {level : List String} (hne : level ≠ [])
    (hshort : ¬ 1 < level.length) :
    IsTree (joinDigests crypto) level (buildLevels crypto fuel level) := by
  have hpos := List.length_pos_iff.mpr hne
  obtain ⟨root, rfl⟩ := List.length_eq_one_iff.mp (show level.length = 1 by omega)
  rw [buildLevels_short fuel hshort]
  exact MerkleTree.isTree_singleton (joinDigests crypto) root

theorem isTree_buildLevels (fuel : ℕ) {level : List String} (hne : level ≠ [])
    (hfuel : Nat.clog 2 level.length ≤ fuel) :
    IsTree (joinDigests crypto) level (buildLevels crypto fuel level) := by
  induction fuel generalizing level with
  | zero =>
    refine isTree_short 0 hne fun hlong => ?_
    have hclog := clog_pos hlong
    omega
  | succ fuel ih =>
    by_cases hlong : 1 < level.length
    · have hclog : Nat.clog 2 level.length =
          Nat.clog 2 (nextLevel crypto level).length + 1 := clog_length_nextLevel hlong
      have habove := ih (nextLevel_ne_nil crypto hne) (by omega)
      rw [buildLevels_long hlong]
      rw [nextLevel_eq_next] at habove ⊢
      exact habove.cons hlong
    · exact isTree_short (fuel + 1) hne hlong

/-- The fuel does not matter once it allows all passes. -/
theorem buildLevels_eq_of_le {fuel fuel' : ℕ} {level : List String}
    (hfuel : Nat.clog 2 level.length ≤ fuel) (hle : fuel ≤ fuel') :
    buildLevels crypto fuel' level = buildLevels crypto fuel level := by
  induction fuel generalizing fuel' level with
  | zero =>
    have hshort : ¬ 1 < level.length := by
      intro hlong
      have hclog := clog_pos hlong
      omega
    rw [buildLevels_short fuel' hshort, buildLevels_short 0 hshort]
  | succ fuel ih =>
    by_cases hlong : 1 < level.length
    · have hclog : Nat.clog 2 level.length =
          Nat.clog 2 (nextLevel crypto level).length + 1 := clog_length_nextLevel hlong
      obtain ⟨rest, rfl⟩ : ∃ rest, fuel' = rest + 1 := ⟨fuel' - 1, by omega⟩
      rw [buildLevels_long hlong, buildLevels_long hlong, ih (by omega) (by omega)]
    · rw [buildLevels_short fuel' hlong, buildLevels_short (fuel + 1) hlong]

theorem buildMerkleTree_eq {leaves : List String} (hne : leaves ≠ []) {passes : ℕ}
    (hpasses : Nat.clog 2 leaves.length ≤ passes) :
    buildMerkleTree crypto leaves = buildLevels crypto passes leaves := by
  have hempty : leaves.isEmpty = false := List.isEmpty_eq_false_iff.mpr hne
  have hclog : Nat.clog 2 leaves.length ≤ leaves.length :=
    Nat.clog_le_of_le_pow Nat.lt_two_pow_self.le
  rw [buildMerkleTree, hempty, if_neg Bool.false_ne_true,
    buildLevels_eq_of_le le_rfl hclog, buildLevels_eq_of_le le_rfl hpasses]

/-- The loop ends after exactly the passes of the logarithm, and its levels are a tree over
the leaves. -/
theorem buildMerkleTree_shape (crypto : Crypto) {leaves : List String} (hne : leaves ≠ []) :
    IsTree (joinDigests crypto) leaves (buildMerkleTree crypto leaves) ∧
      ∀ passes, buildLoop crypto passes leaves [leaves] =
        if Nat.clog 2 leaves.length ≤ passes then some (buildMerkleTree crypto leaves)
        else none := by
  constructor
  · rw [buildMerkleTree_eq hne le_rfl]
    exact isTree_buildLevels _ hne le_rfl
  · intro passes
    rw [buildLoop_eq]
    by_cases hpasses : Nat.clog 2 leaves.length ≤ passes
    · rw [if_pos hpasses, if_pos hpasses, List.singleton_append, ← buildLevels_eq_cons,
        buildMerkleTree_eq hne hpasses]
    · rw [if_neg hpasses, if_neg hpasses]

theorem buildMerkleTree_shape_three : ["a", "b", "c"] ≠ [] ∧
    IsTree (joinDigests referenceCrypto) ["a", "b", "c"]
      (buildMerkleTree referenceCrypto ["a", "b", "c"]) ∧
    ∀ passes, buildLoop referenceCrypto passes ["a", "b", "c"] [["a", "b", "c"]] =
      if Nat.clog 2 3 ≤ passes then
        some (buildMerkleTree referenceCrypto ["a", "b", "c"])
      else none :=
  ⟨List.cons_ne_nil _ _, buildMerkleTree_shape referenceCrypto (List.cons_ne_nil _ _)⟩

end ECN
