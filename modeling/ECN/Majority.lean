import ECN.Classification

/-!
# Votes for the winner, and the default threshold

A decision survives every change of the verified votes in its favour: a further vote for
the winner, a vote that moves to it, a vote for another hash that is withdrawn.

The default threshold stands for a strict majority. The two notions agree on a round
exactly when no hash is reported by more than half of the verified results but by less
than 51 of 100; the smallest round with such a hash has 51 results.
-/
namespace ECN

variable {crypto : Crypto}

/-! ## Changes in favour of the winner -/

section Swing

variable (publicKeys : Option (OrderedDict String crypto.PublicKey)) (h : String)

/-- One change of the verified votes in favour of `h`. -/
inductive Swing : List NodeResult → List NodeResult → Prop
  | add (before after : List NodeResult) {r : NodeResult} (hacc : accepted publicKeys r = true)
      (hr : r.stateHash = h) : Swing (before ++ after) (before ++ r :: after)
  | change (before after : List NodeResult) {r r' : NodeResult}
      (hacc : accepted publicKeys r = true) (hacc' : accepted publicKeys r' = true)
      (hr : r.stateHash ≠ h) (hr' : r'.stateHash = h) :
      Swing (before ++ r :: after) (before ++ r' :: after)
  | remove (before after : List NodeResult) {r : NodeResult}
      (hacc : accepted publicKeys r = true) (hr : r.stateHash ≠ h) :
      Swing (before ++ r :: after) (before ++ after)

variable {publicKeys h}

theorem ballots_append (before after : List NodeResult) :
    ballots (before ++ after) publicKeys =
      ballots before publicKeys ++ ballots after publicKeys := by
  rw [ballots, verifiedResults, List.filter_append, List.map_append]
  rfl

theorem ballots_cons {r : NodeResult} (hacc : accepted publicKeys r = true)
    (after : List NodeResult) :
    ballots (r :: after) publicKeys = r.stateHash :: ballots after publicKeys := by
  rw [ballots, verifiedResults, List.filter_cons_of_pos hacc, List.map_cons]
  rfl

theorem Swing.favours {results results' : List NodeResult}
    (hs : Swing publicKeys h results results') :
    Favours h (ballots results publicKeys) (ballots results' publicKeys) := by
  cases hs with
  | add before after hacc hr =>
    subst hr
    rw [ballots_append, ballots_append, ballots_cons hacc]
    constructor
    · simp
    · intro x hx
      simp [List.count_cons_of_ne (Ne.symm hx)]
  | change before after hacc hacc' hr hr' =>
    subst hr'
    rw [ballots_append, ballots_append, ballots_cons hacc, ballots_cons hacc']
    constructor
    · simp [List.count_cons_of_ne hr]
    · intro x hx
      simp only [List.count_append, List.count_cons_of_ne (Ne.symm hx)]
      exact Nat.add_le_add_left (List.count_le_count_cons) _
  | remove before after hacc hr =>
    rw [ballots_append, ballots_append, ballots_cons hacc]
    constructor
    · simp [List.count_cons_of_ne hr]
    · intro x _
      simp only [List.count_append]
      exact Nat.add_le_add_left (List.count_le_count_cons) _

/-- Any number of changes. -/
theorem favours_of_swings {results results' : List NodeResult}
    (hs : Relation.ReflTransGen (Swing publicKeys h) results results') :
    Favours h (ballots results publicKeys) (ballots results' publicKeys) := by
  induction hs with
  | refl => exact .refl h _
  | tail _ hstep ih => exact ih.trans hstep.favours

/-- The round agrees on `h`. -/
def ConsensusResult.Reaches (cr : ConsensusResult) (h : String) : Prop :=
  cr.consensusReached = true ∧ cr.agreedHash = some h

theorem runConsensus_reaches_iff (R : Rounding) (results : List NodeResult) (t : ℚ) :
    (runConsensus R results publicKeys t).Reaches h ↔
      Plurality (ballots results publicKeys) h ∧
        t ≤ R (((ballots results publicKeys).count h : ℚ) /
          (ballots results publicKeys).length) := by
  rw [ConsensusResult.Reaches, runConsensus_reached_iff]
  constructor
  · rintro ⟨⟨w, hw, ht⟩, hagreed⟩
    cases hw.symm.trans hagreed
    exact ⟨(runConsensus_agreedHash_iff R results publicKeys t h).mp hagreed, ht⟩
  · intro ⟨hp, ht⟩
    have hagreed := (runConsensus_agreedHash_iff R results publicKeys t h).mpr hp
    exact ⟨⟨h, hagreed, ht⟩, hagreed⟩

/-- Monotonicity, for the exact quotient and for a rounded one. -/
theorem consensus_monotone (R : Rounding) (t : ℚ) {results results' : List NodeResult}
    (hs : Relation.ReflTransGen (Swing publicKeys h) results results')
    (hreach : (runConsensus R results publicKeys t).Reaches h) :
    (runConsensus R results' publicKeys t).Reaches h := by
  have hf := favours_of_swings hs
  rw [runConsensus_reaches_iff] at hreach ⊢
  obtain ⟨hp, ht⟩ := hreach
  exact ⟨hf.plurality hp, ht.trans (R.mono (hf.share_le hp.mem))⟩

end Swing

/-- `B` joins `A`, whose hash has won the tie with one half. -/
theorem swing_tiedResults :
    Swing (none : Option (OrderedDict String referenceCrypto.PublicKey)) "h1" tiedResults
      [⟨"B", "h1", [], none, none⟩, ⟨"A", "h1", [], none, none⟩] :=
  .change [] [⟨"A", "h1", [], none, none⟩] rfl rfl (by decide) rfl

theorem consensus_monotone_tied :
    (runConsensus .exact [⟨"B", "h1", [], none, none⟩, ⟨"A", "h1", [], none, none⟩]
      (none : Option (OrderedDict String referenceCrypto.PublicKey)) (1 / 2)).Reaches "h1" :=
  consensus_monotone .exact (1 / 2) (.single swing_tiedResults)
    ((runConsensus_reaches_iff .exact tiedResults (1 / 2)).mpr
      ⟨(selectWinner_counter ["h2", "h1"] "h1").mp (by decide), by decide +kernel⟩)

/-! ## The default threshold -/

section Threshold

variable (results : List NodeResult) (publicKeys : Option (OrderedDict String crypto.PublicKey))

/-- With the default threshold, consensus is a strict majority of the verified results. -/
def DefaultIsMajority : Prop :=
  (runConsensus .exact results publicKeys (defaultQuorumThreshold .exact)).consensusReached =
      true ↔
    ∃ h, (runConsensus .exact results publicKeys
        (defaultQuorumThreshold .exact)).agreedHash = some h ∧
      (ballots results publicKeys).length < 2 * (ballots results publicKeys).count h

/-- More than half of the ballots, and less than 51 of 100. -/
def ThinMajority (ballots : List String) (h : String) : Prop :=
  ballots.length < 2 * ballots.count h ∧ 100 * ballots.count h < 51 * ballots.length

instance (ballots : List String) (h : String) : Decidable (ThinMajority ballots h) :=
  inferInstanceAs (Decidable (_ ∧ _))

theorem defaultQuorumThreshold_le_iff {n k : ℕ} (hn : 0 < n) :
    defaultQuorumThreshold .exact ≤ Rounding.exact ((k : ℚ) / n) ↔ 51 * n ≤ 100 * k := by
  have hpos : (0 : ℚ) < n := by exact_mod_cast hn
  rw [defaultQuorumThreshold, Rounding.exact_apply, Rounding.exact_apply,
    div_le_div_iff₀ (by norm_num) hpos, mul_comm (k : ℚ)]
  exact_mod_cast Iff.rfl

/-- The default threshold asks for 51 of 100. -/
theorem default_reached_iff :
    (runConsensus .exact results publicKeys (defaultQuorumThreshold .exact)).consensusReached =
        true ↔
      ∃ h, Plurality (ballots results publicKeys) h ∧
        51 * (ballots results publicKeys).length ≤
          100 * (ballots results publicKeys).count h := by
  rw [runConsensus_reached_iff]
  refine exists_congr fun h => ?_
  rw [runConsensus_agreedHash_iff]
  refine and_congr_right fun hp => ?_
  exact defaultQuorumThreshold_le_iff (List.length_pos_of_mem hp.mem)

variable {results publicKeys}

theorem defaultIsMajority_of_not_thin
    (hthin : ∀ h, ¬ ThinMajority (ballots results publicKeys) h) :
    DefaultIsMajority results publicKeys := by
  rw [DefaultIsMajority, default_reached_iff]
  refine exists_congr fun h => ?_
  rw [runConsensus_agreedHash_iff]
  refine and_congr_right fun hp => ?_
  have hpos := hp.count_pos
  have hnot := hthin h
  unfold ThinMajority at hnot
  omega

/-- The hash of a thin majority wins and misses the threshold. -/
theorem not_thin_of_defaultIsMajority (h : DefaultIsMajority results publicKeys) (w : String) :
    ¬ ThinMajority (ballots results publicKeys) w := by
  intro ⟨hmajority, hthin⟩
  have hw := Plurality.of_majority hmajority
  rw [DefaultIsMajority, default_reached_iff] at h
  obtain ⟨w', hw', hshare⟩ :=
    h.mpr ⟨w, (runConsensus_agreedHash_iff _ results publicKeys _ w).mpr hw, hmajority⟩
  rw [hw'.unique hw] at hshare
  omega

/-- Up to 50 verified results leave no room between one half and 51 of 100. -/
theorem defaultIsMajority_of_length_le (h : (ballots results publicKeys).length ≤ 50) :
    DefaultIsMajority results publicKeys := by
  refine defaultIsMajority_of_not_thin fun w hw => ?_
  obtain ⟨hmajority, hthin⟩ := hw
  omega

variable (results publicKeys)

/-- The default threshold is a strict majority exactly when no majority is thin. -/
theorem defaultIsMajority_iff : DefaultIsMajority results publicKeys ↔
    ∀ h, ¬ ThinMajority (ballots results publicKeys) h :=
  ⟨not_thin_of_defaultIsMajority, defaultIsMajority_of_not_thin⟩

end Threshold

/-- 51 nodes, 26 of which report `h`. -/
def narrowResults : List NodeResult :=
  (List.range 51).map fun i => ⟨toString i, if i < 26 then "h" else "g", [], none, none⟩

/-- 26 of 51 is more than half, and no consensus. -/
theorem narrow_majority_unreached :
    narrowResults ≠ [] ∧
    ¬ DefaultIsMajority narrowResults
      (none : Option (OrderedDict String referenceCrypto.PublicKey)) := by
  refine ⟨by simp [narrowResults], fun h => ?_⟩
  have hballots : ballots narrowResults
      (none : Option (OrderedDict String referenceCrypto.PublicKey)) =
        (List.range 51).map fun i => if i < 26 then "h" else "g" := by
    rfl
  have hthin := not_thin_of_defaultIsMajority h "h"
  rw [hballots] at hthin
  exact hthin (by decide)

end ECN
