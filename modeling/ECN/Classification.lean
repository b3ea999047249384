import ECN.VoteLaws

/-!
# What an outcome accounts for

Every result of a round is either rejected, or verified for the winning hash, or verified
for another one. The lists of the outcome split the results in this way, also where an id
is repeated and where no result passes. The rejected results matter for nothing but the
lists of faulty nodes: the decision reads the verified ones alone.
-/
namespace ECN

/-- The outcome `cr` puts each of the results in one place. -/
structure Classifies (results : List NodeResult) (cr : ConsensusResult) : Prop where
  nodes : (cr.honestNodes ++ cr.faultyNodes).Perm (results.map NodeResult.nodeId)
  total : cr.totalNodes = results.length
  rejected : cr.invalidSigNodes.Subperm cr.faultyNodes
  votes : cr.voteCounts.values.sum + cr.invalidSigNodes.length = results.length
  agreed : ∀ h, cr.agreedHash = some h → cr.voteCounts.get? h = some cr.honestNodes.length

section Split

variable (R : Rounding) {crypto : Crypto} (results : List NodeResult)
  (publicKeys : Option (OrderedDict String crypto.PublicKey)) (t : ℚ)

/-- The tally of the verified hashes; it is empty on both early returns. -/
theorem runConsensus_voteCounts_eq : (runConsensus R results publicKeys t).voteCounts =
    .counter (ballots results publicKeys) := by
  unfold runConsensus
  split
  · next h =>
    rw [List.isEmpty_iff] at h
    subst h
    rfl
  · dsimp only
    split
    · next h =>
      rw [List.isEmpty_iff, verifiedResults_eq_nil_iff] at h
      rw [h]
      rfl
    · rfl

theorem runConsensus_totalNodes : (runConsensus R results publicKeys t).totalNodes =
    (runConsensus R results publicKeys t).honestNodes.length +
      (runConsensus R results publicKeys t).faultyNodes.length := by
  unfold runConsensus
  split
  · rfl
  · dsimp only
    split <;> rfl

theorem verified_append_rejected :
    (verifiedResults results publicKeys ++
      results.filter fun r => !accepted publicKeys r).Perm results :=
  List.filter_append_perm _ results

theorem length_ballots_add_rejected : (ballots results publicKeys).length +
    (invalidSigIds results publicKeys).length = results.length := by
  have hsplit := (verified_append_rejected results publicKeys).length_eq
  rw [List.length_append] at hsplit
  rw [ballots, invalidSigIds, List.length_map, List.length_map]
  exact hsplit

/-- Honest and faulty nodes are a permutation of the ids of the results. -/
theorem honest_append_faulty : ((runConsensus R results publicKeys t).honestNodes ++
    (runConsensus R results publicKeys t).faultyNodes).Perm (results.map NodeResult.nodeId) := by
  rw [runConsensus_honestNodes, runConsensus_faultyNodes, invalidSigIds, ← List.append_assoc,
    ← List.map_append, ← List.map_append]
  refine List.Perm.map _ (.trans (.append_right _ ?_) (verified_append_rejected results publicKeys))
  simp only [ne_eq, decide_not]
  exact List.filter_append_perm _ _

/-- One honest node for each vote of the winning hash. -/
theorem length_honestNodes {h : String}
    (hw : (runConsensus R results publicKeys t).agreedHash = some h) :
    (runConsensus R results publicKeys t).honestNodes.length =
      (ballots results publicKeys).count h := by
  rw [runConsensus_honestNodes, hw, List.length_map, ballots, List.count_eq_length_filter,
    List.filter_map, List.length_map]
  congr 1
  refine List.filter_congr fun r _ => ?_
  rw [Bool.eq_iff_iff]
  simp

/-- Consensus classifies every result exactly once. -/
theorem runConsensus_classifies : Classifies results (runConsensus R results publicKeys t) where
  nodes := honest_append_faulty R results publicKeys t
  total := by
    have hnodes := (honest_append_faulty R results publicKeys t).length_eq
    rw [List.length_append, List.length_map] at hnodes
    rw [runConsensus_totalNodes, hnodes]
  rejected := by
    rw [runConsensus_invalidSigNodes, runConsensus_faultyNodes]
    exact (List.sublist_append_right _ _).subperm
  votes := by
    rw [runConsensus_voteCounts_eq, OrderedDict.sum_values_counter, runConsensus_invalidSigNodes]
    exact length_ballots_add_rejected results publicKeys
  agreed h hw := by
    have hmem := ((runConsensus_agreedHash_iff R results publicKeys t h).mp hw).mem
    rw [runConsensus_get?_voteCounts, if_pos hmem, length_honestNodes R results publicKeys t hw]

end Split

/-! ## Rejected results do not matter -/

section Rejected

variable {crypto : Crypto} (keys : OrderedDict String crypto.PublicKey)

/-- No key is registered for the node, or the signature is missing or does not verify. -/
def Rejected (r : NodeResult) : Prop :=
  keys.get? r.nodeId = none ∨ r.signature = none ∨
    ∃ pk sig, keys.get? r.nodeId = some pk ∧ r.signature = some sig ∧
      verifyResult crypto r.nodeId r.stateHash sig pk = false

/-- One rejected result more, or one less, at any place. -/
inductive RejectedEdit : List NodeResult → List NodeResult → Prop
  | insertion (before after : List NodeResult) {r : NodeResult} (h : Rejected keys r) :
      RejectedEdit (before ++ after) (before ++ r :: after)
  | deletion (before after : List NodeResult) {r : NodeResult} (h : Rejected keys r) :
      RejectedEdit (before ++ r :: after) (before ++ after)

variable {keys}

theorem Rejected.signatureValid {r : NodeResult} (h : Rejected keys r) :
    signatureValid crypto keys r = false := by
  unfold ECN.signatureValid
  rcases h with hkey | hsig | ⟨pk, sig, hkey, hsig, hverify⟩
  · rw [hkey]
  · rw [hsig]
    cases keys.get? r.nodeId <;> rfl
  · rw [hkey, hsig]
    exact hverify

theorem RejectedEdit.verifiedResults {results results' : List NodeResult}
    (hne : keys.isEmpty = false) (h : RejectedEdit keys results results') :
    verifiedResults results (some keys) = verifiedResults results' (some keys) := by
  rw [verifiedResults_eq_filter _ hne, verifiedResults_eq_filter _ hne]
  cases h with
  | insertion before after h => simp [h.signatureValid]
  | deletion before after h => simp [h.signatureValid]

/-- Any number of edits leaves the verified results alone. -/
theorem verifiedResults_of_edits {results results' : List NodeResult} (hne : keys.isEmpty = false)
    (h : Relation.ReflTransGen (RejectedEdit keys) results results') :
    verifiedResults results (some keys) = verifiedResults results' (some keys) := by
  induction h with
  | refl => rfl
  | tail _ hstep ih => exact ih.trans (hstep.verifiedResults hne)

/-- Two outcomes with the same decision. -/
structure ConsensusResult.SameDecision (a b : ConsensusResult) : Prop where
  agreedHash : a.agreedHash = b.agreedHash
  voteCounts : a.voteCounts = b.voteCounts
  consensusReached : a.consensusReached = b.consensusReached
  honestNodes : a.honestNodes = b.honestNodes

theorem sameDecision_of_verifiedResults (R : Rounding) {results results' : List NodeResult}
    {publicKeys : Option (OrderedDict String crypto.PublicKey)} (t : ℚ)
    (h : verifiedResults results publicKeys = verifiedResults results' publicKeys) :
    (runConsensus R results publicKeys t).SameDecision
      (runConsensus R results' publicKeys t) := by
  have hballots : ballots results publicKeys = ballots results' publicKeys := by
    rw [ballots, h, ballots]
  have hagreed : (runConsensus R results publicKeys t).agreedHash =
      (runConsensus R results' publicKeys t).agreedHash := by
    ext w
    rw [runConsensus_agreedHash_iff, runConsensus_agreedHash_iff, hballots]
  refine ⟨hagreed, ?_, ?_, ?_⟩
  · rw [runConsensus_voteCounts_eq, runConsensus_voteCounts_eq, hballots]
  · rw [Bool.eq_iff_iff, runConsensus_reached_iff_share, runConsensus_reached_iff_share, hballots]
  · rw [runConsensus_honestNodes, runConsensus_honestNodes, h, hagreed]

/-- Results that are rejected do not influence the decision. -/
theorem rejected_do_not_matter (R : Rounding) {results results' : List NodeResult} (t : ℚ)
    (hne : keys.isEmpty = false)
    (h : Relation.ReflTransGen (RejectedEdit keys) results results') :
    (runConsensus R results (some keys) t).SameDecision
      (runConsensus R results' (some keys) t) :=
  sameDecision_of_verifiedResults R t (verifiedResults_of_edits hne h)

end Rejected

/-- A reply under an id without a key. -/
def strangerResult : NodeResult := FaultyRound.signedResult "Z" "g" [9]

theorem rejected_strangerResult : Rejected FaultyRound.fiveKeys strangerResult := .inl rfl

/-- The stranger speaks first, and a lone stranger leaves no valid result. -/
theorem rejected_do_not_matter_stranger :
    (runConsensus .exact FaultyRound.fiveNodeResults (some FaultyRound.fiveKeys)
      (51 / 100)).SameDecision
      (runConsensus .exact (strangerResult :: FaultyRound.fiveNodeResults)
        (some FaultyRound.fiveKeys) (51 / 100)) ∧
    (runConsensus .exact [strangerResult] (some FaultyRound.fiveKeys) (51 / 100)).SameDecision
      (runConsensus .exact [] (some FaultyRound.fiveKeys) (51 / 100)) :=
  ⟨rejected_do_not_matter .exact (51 / 100) (by decide)
    (.single (.insertion [] FaultyRound.fiveNodeResults rejected_strangerResult)),
  rejected_do_not_matter .exact (51 / 100) (by decide)
    (.single (.deletion [] [] rejected_strangerResult))⟩

end ECN
