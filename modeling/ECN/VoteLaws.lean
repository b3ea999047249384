import ECN.Attribution
import ECN.FaultTolerance

/-!
# Laws of the vote count

The replies of a round arrive in any order and under any ids. Reordering them changes
neither the decision nor the members of any list of the outcome. A node has one vote
exactly when no two verified replies share an id and no rejected reply carries the id of
a verified reply for the winning hash.
-/
namespace ECN

/-! ## Order independence -/

/-- Two outcomes that differ at most in the order of their lists. -/
structure ConsensusResult.SameUpToOrder (a b : ConsensusResult) : Prop where
  agreedHash : a.agreedHash = b.agreedHash
  voteCounts : ∀ h, a.voteCounts.get? h = b.voteCounts.get? h
  consensusReached : a.consensusReached = b.consensusReached
  honestNodes : a.honestNodes.Perm b.honestNodes
  faultyNodes : a.faultyNodes.Perm b.faultyNodes
  invalidSigNodes : a.invalidSigNodes.Perm b.invalidSigNodes

section Order

variable (R : Rounding) {crypto : Crypto} {results results' : List NodeResult}
  (publicKeys : Option (OrderedDict String crypto.PublicKey)) (t : ℚ)

theorem verifiedResults_perm (h : results.Perm results') :
    (verifiedResults results publicKeys).Perm (verifiedResults results' publicKeys) :=
  h.filter _

theorem ballots_perm (h : results.Perm results') :
    (ballots results publicKeys).Perm (ballots results' publicKeys) :=
  (verifiedResults_perm publicKeys h).map _

theorem invalidSigIds_perm (h : results.Perm results') :
    (invalidSigIds results publicKeys).Perm (invalidSigIds results' publicKeys) :=
  (h.filter _).map _

theorem runConsensus_agreedHash_perm (h : results.Perm results') :
    (runConsensus R results publicKeys t).agreedHash =
      (runConsensus R results' publicKeys t).agreedHash := by
  ext w
  rw [runConsensus_agreedHash_iff, runConsensus_agreedHash_iff]
  have hballots := ballots_perm publicKeys h
  exact ⟨Plurality.of_perm hballots, Plurality.of_perm hballots.symm⟩

/-- The tally as a map: the hashes that were voted for, with their numbers of votes. -/
theorem runConsensus_get?_voteCounts (results : List NodeResult) (w : String) :
    (runConsensus R results publicKeys t).voteCounts.get? w =
      if w ∈ ballots results publicKeys then some ((ballots results publicKeys).count w)
      else none := by
  unfold runConsensus
  split
  · next h =>
    rw [List.isEmpty_iff] at h
    subst h
    rfl
  · dsimp only
    split
    · next h =>
      rw [List.isEmpty_iff, verifiedResults_eq_nil_iff] at h
      rw [h]
      rfl
    · exact OrderedDict.get?_counter _ w

theorem runConsensus_consensusReached_perm (h : results.Perm results') :
    (runConsensus R results publicKeys t).consensusReached =
      (runConsensus R results' publicKeys t).consensusReached := by
  have hballots := ballots_perm publicKeys h
  rw [Bool.eq_iff_iff, runConsensus_reached_iff_share, runConsensus_reached_iff_share]
  simp only [hballots.mem_iff, hballots.count_eq, hballots.length_eq]

/-- The decision does not depend on the order of arrival, and a tie goes to the
lexicographically least of the hashes with most votes. -/
theorem order_independence (h : results.Perm results') :
    (runConsensus R results publicKeys t).SameUpToOrder (runConsensus R results' publicKeys t) ∧
      ((∃ r ∈ results, accepted publicKeys r = true) →
        ∃ w, (runConsensus R results publicKeys t).agreedHash = some w ∧
          IsLeast (Plurality.favourites (ballots results publicKeys)) w) := by
  have hagreed := runConsensus_agreedHash_perm R publicKeys t h
  have hballots := ballots_perm publicKeys h
  constructor
  · refine ⟨hagreed, fun w => ?_, runConsensus_consensusReached_perm R publicKeys t h, ?_, ?_, ?_⟩
    · simp only [runConsensus_get?_voteCounts, hballots.mem_iff, hballots.count_eq]
    · rw [runConsensus_honestNodes, runConsensus_honestNodes, hagreed]
      exact ((verifiedResults_perm publicKeys h).filter _).map _
    · rw [runConsensus_faultyNodes, runConsensus_faultyNodes, hagreed]
      exact (((verifiedResults_perm publicKeys h).filter _).map _).append
        (invalidSigIds_perm publicKeys h)
    · rw [runConsensus_invalidSigNodes, runConsensus_invalidSigNodes]
      exact invalidSigIds_perm publicKeys h
  · rintro ⟨r, hr, hacc⟩
    have hmem : r.stateHash ∈ ballots results publicKeys :=
      List.mem_map_of_mem (List.mem_filter.mpr ⟨hr, hacc⟩)
    obtain ⟨w, hw⟩ := Plurality.exists_of_ne_nil (List.ne_nil_of_mem hmem)
    exact ⟨w, (runConsensus_agreedHash_iff R results publicKeys t w).mpr hw,
      hw.isLeast_favourites⟩

end Order

/-- A tie of two hashes, heard in one order. -/
def tiedResults : List NodeResult :=
  [⟨"B", "h2", [], none, none⟩, ⟨"A", "h1", [], none, none⟩]

theorem order_independence_tied :
    (runConsensus .exact tiedResults (none : Option (OrderedDict String
        referenceCrypto.PublicKey)) (1 / 2)).SameUpToOrder
      (runConsensus .exact tiedResults.reverse (none : Option (OrderedDict String
        referenceCrypto.PublicKey)) (1 / 2)) ∧
      ((∃ r ∈ tiedResults, accepted (none : Option (OrderedDict String
          referenceCrypto.PublicKey)) r = true) →
        ∃ w, (runConsensus .exact tiedResults (none : Option (OrderedDict String
            referenceCrypto.PublicKey)) (1 / 2)).agreedHash = some w ∧
          IsLeast (Plurality.favourites (ballots tiedResults (none : Option (OrderedDict String
            referenceCrypto.PublicKey)))) w) :=
  order_independence .exact none (1 / 2) (List.reverse_perm tiedResults).symm

/-! ## One node, one vote -/

section OneVote

variable (R : Rounding) {crypto : Crypto} (results : List NodeResult)
  (keys : OrderedDict String crypto.PublicKey) (t : ℚ)

/-- The ids of the results whose signature verifies, one for each result. -/
def verifiedIds : List String :=
  (results.filter (signatureValid crypto keys)).map NodeResult.nodeId

/-- No more votes than verified ids, and no id on both sides. -/
structure OneVoteEach (cr : ConsensusResult) : Prop where
  votes : cr.voteCounts.values.sum ≤ (verifiedIds results keys).toFinset.card
  sides : ∀ nodeId ∈ cr.honestNodes, nodeId ∉ cr.faultyNodes

/-- What the replies must not do: repeat a verified id, or carry the id of a verified
vote for the plurality hash without verifying. -/
structure NoEchoes : Prop where
  once : (verifiedIds results keys).Nodup
  apart : ∀ r ∈ results, ∀ r' ∈ results, signatureValid crypto keys r = true →
    Plurality (ballots results (some keys)) r.stateHash →
    signatureValid crypto keys r' = false → r'.nodeId ≠ r.nodeId

variable {keys}

theorem accepted_eq_signatureValid (hne : keys.isEmpty = false) (r : NodeResult) :
    accepted (some keys) r = signatureValid crypto keys r := by
  simp [accepted, hne]

theorem sum_voteCounts : (runConsensus R results (some keys) t).voteCounts.values.sum =
    (verifiedResults results (some keys)).length := by
  unfold runConsensus
  split
  · next h =>
    rw [List.isEmpty_iff] at h
    subst h
    rfl
  · dsimp only
    split
    · next h =>
      rw [List.isEmpty_iff] at h
      rw [h]
      rfl
    · rw [← List.length_map (f := NodeResult.stateHash)]
      exact OrderedDict.sum_values_counter _

theorem verifiedResults_eq_filter (hne : keys.isEmpty = false) :
    verifiedResults results (some keys) = results.filter (signatureValid crypto keys) :=
  List.filter_congr fun r _ => accepted_eq_signatureValid hne r

theorem mem_honestNodes_iff (hne : keys.isEmpty = false) (nodeId : String) :
    nodeId ∈ (runConsensus R results (some keys) t).honestNodes ↔
      ∃ r ∈ results, signatureValid crypto keys r = true ∧ r.nodeId = nodeId ∧
        Plurality (ballots results (some keys)) r.stateHash := by
  rw [runConsensus_honestNodes, verifiedResults_eq_filter results hne, List.mem_map]
  constructor
  · rintro ⟨r, hr, rfl⟩
    obtain ⟨hr, hhash⟩ := List.mem_filter.mp hr
    obtain ⟨hr, hsig⟩ := List.mem_filter.mp hr
    refine ⟨r, hr, hsig, rfl, (runConsensus_agreedHash_iff R results (some keys) t _).mp ?_⟩
    exact (of_decide_eq_true hhash).symm
  · rintro ⟨r, hr, hsig, rfl, hw⟩
    refine ⟨r, List.mem_filter.mpr ⟨List.mem_filter.mpr ⟨hr, hsig⟩, ?_⟩, rfl⟩
    rw [(runConsensus_agreedHash_iff R results (some keys) t _).mpr hw]
    simp

/-- One node has one vote exactly when no reply echoes another. -/
theorem oneVoteEach_iff (hne : keys.isEmpty = false) :
    OneVoteEach results keys (runConsensus R results (some keys) t) ↔ NoEchoes results keys := by
  have hsum : (runConsensus R results (some keys) t).voteCounts.values.sum =
      (verifiedIds results keys).length := by
    rw [sum_voteCounts, verifiedResults_eq_filter results hne, verifiedIds, List.length_map]
  constructor
  · intro h
    have honce : (verifiedIds results keys).Nodup := by
      have hle := h.votes
      rw [hsum, List.card_toFinset] at hle
      rw [← List.dedup_eq_self]
      exact (List.dedup_sublist _).eq_of_length_le hle
    refine ⟨honce, fun r hr r' hr' hsig hw hsig' hid => ?_⟩
    refine h.sides r.nodeId ((mem_honestNodes_iff R results t hne _).mpr ⟨r, hr, hsig, rfl, hw⟩) ?_
    rw [mem_faultyNodes_iff]
    exact ⟨r', hr', hid, .inl ((accepted_eq_signatureValid hne r').trans hsig')⟩
  · intro h
    refine ⟨?_, fun nodeId hhonest hfaulty => ?_⟩
    · rw [hsum, List.toFinset_card_of_nodup h.once]
    · obtain ⟨r, hr, hsig, rfl, hw⟩ := (mem_honestNodes_iff R results t hne nodeId).mp hhonest
      obtain ⟨r', hr', hid, hbad⟩ := (mem_faultyNodes_iff R results (some keys) t _).mp hfaulty
      rw [accepted_eq_signatureValid hne,
        (runConsensus_agreedHash_iff R results (some keys) t _).mpr hw] at hbad
      rcases hbad with hsig' | hhash
      · exact h.apart r hr r' hr' hsig hw hsig' hid
      · -- A verified reply under the same id is the same reply.
        cases hsig' : signatureValid crypto keys r'
        · exact h.apart r hr r' hr' hsig hw hsig' hid
        · have hsame := List.inj_on_of_nodup_map h.once
            (List.mem_filter.mpr ⟨hr', hsig'⟩) (List.mem_filter.mpr ⟨hr, hsig⟩) hid
          exact hhash (by rw [hsame])

end OneVote

theorem oneVoteEach_fiveNodes :
    OneVoteEach FaultyRound.fiveNodeResults FaultyRound.fiveKeys
      (runConsensus .exact FaultyRound.fiveNodeResults (some FaultyRound.fiveKeys) (51 / 100)) ↔
        NoEchoes FaultyRound.fiveNodeResults FaultyRound.fiveKeys :=
  oneVoteEach_iff .exact FaultyRound.fiveNodeResults (51 / 100) (by decide)

/-! ## A vote counted twice -/

/-- The vote of `A`, which verifies. -/
def voteOfA : NodeResult := FaultyRound.signedResult "A" "h" [1]

/-- That vote replayed, and a third reply that carries its id without a signature. -/
def echoedResults : List NodeResult := [voteOfA, voteOfA, { voteOfA with signature := none }]

theorem signatureValid_voteOfA :
    signatureValid referenceCrypto FaultyRound.fiveKeys voteOfA = true := by
  have hkey : FaultyRound.fiveKeys.get? "A" = some [1] := rfl
  simp only [signatureValid, voteOfA, FaultyRound.signedResult, hkey]
  exact verifyResult_signResult referenceCrypto "A" "h" [1]

theorem verified_echoedResults :
    echoedResults.filter (signatureValid referenceCrypto FaultyRound.fiveKeys) =
      [voteOfA, voteOfA] := by
  have hunsigned : signatureValid referenceCrypto FaultyRound.fiveKeys
      { voteOfA with signature := none } = false := rfl
  simp [echoedResults, signatureValid_voteOfA, hunsigned]

/-- `A` alone holds two votes and is on both sides. -/
theorem echo_counted_twice :
    ¬ OneVoteEach echoedResults FaultyRound.fiveKeys
      (runConsensus .exact echoedResults (some FaultyRound.fiveKeys) (51 / 100)) ∧
    (runConsensus .exact echoedResults (some FaultyRound.fiveKeys) (51 / 100)).voteCounts.values.sum
      = 2 ∧
    ∃ nodeId,
      nodeId ∈ (runConsensus .exact echoedResults (some FaultyRound.fiveKeys)
        (51 / 100)).honestNodes ∧
      nodeId ∈ (runConsensus .exact echoedResults (some FaultyRound.fiveKeys)
        (51 / 100)).faultyNodes := by
  have hne : FaultyRound.fiveKeys.isEmpty = false := by decide
  have hverified := (verifiedResults_eq_filter echoedResults hne).trans verified_echoedResults
  have hsum : (runConsensus .exact echoedResults (some FaultyRound.fiveKeys)
      (51 / 100)).voteCounts.values.sum = 2 := by
    rw [sum_voteCounts, hverified, List.length_cons, List.length_singleton]
  have hw : Plurality (ballots echoedResults (some FaultyRound.fiveKeys)) "h" := by
    rw [ballots, hverified]
    exact Plurality.of_majority (by decide)
  refine ⟨fun h => ?_, hsum, "A", ?_, ?_⟩
  · have hle := h.votes
    rw [hsum, verifiedIds, verified_echoedResults] at hle
    exact absurd hle (by decide)
  · rw [mem_honestNodes_iff .exact echoedResults _ hne]
    exact ⟨voteOfA, by simp [echoedResults], signatureValid_voteOfA, rfl, hw⟩
  · rw [mem_faultyNodes_iff]
    exact ⟨{ voteOfA with signature := none }, by simp [echoedResults], rfl, .inl rfl⟩

end ECN
