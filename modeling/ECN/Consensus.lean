import ECN.Node
import ECN.OrderedDict
import ECN.Plurality
import ECN.Rounding
import Mathlib.Data.String.Basic

/-!
# Result-based consensus

`runConsensus` verifies signatures when keys are supplied, tallies the hashes of
the results that pass, lets the plurality win, and reaches consensus when the
winner's share of the verified results meets the threshold. The quotient of the
two counts is rounded by the arithmetic `R` before it is compared.
-/
namespace ECN

variable (R : Rounding) (crypto : Crypto)

/-- The default threshold, the number nearest to 0.51. -/
def defaultQuorumThreshold : ℚ := R (51 / 100)

/-- Output of a single consensus round. -/
structure ConsensusResult where
  agreedHash : Option String
  voteCounts : OrderedDict String ℕ
  honestNodes : List String
  faultyNodes : List String
  invalidSigNodes : List String
  totalNodes : ℕ
  quorumThreshold : ℚ
  consensusReached : Bool

/-- Derive the totals and the quorum decision from a tally. -/
def ConsensusResult.init (agreedHash : Option String) (voteCounts : OrderedDict String ℕ)
    (honestNodes faultyNodes invalidSigNodes : List String) (quorumThreshold : ℚ) :
    ConsensusResult where
  agreedHash
  voteCounts
  honestNodes
  faultyNodes
  invalidSigNodes
  totalNodes := honestNodes.length + faultyNodes.length
  quorumThreshold
  consensusReached :=
    let totalVerified := voteCounts.values.sum
    match agreedHash with
    | some h =>
      if 0 < totalVerified then
        decide (quorumThreshold ≤ R ((voteCounts.getD h 0 : ℚ) / totalVerified))
      else false
    | none => false

/-- Most votes, and the least hash on a tie. -/
def selectWinner (voteCounts : OrderedDict String ℕ) : Option String :=
  match voteCounts.values.max? with
  | none => none
  | some maxVotes =>
    ((voteCounts.entries.filter fun e => e.2 = maxVotes).map Prod.fst).min?

/-- The check of one result against the key registered for its node. -/
def signatureValid (keys : OrderedDict String crypto.PublicKey) (r : NodeResult) : Bool :=
  match keys.get? r.nodeId, r.signature with
  | some pk, some sig => verifyResult crypto r.nodeId r.stateHash sig pk
  | _, _ => false

variable {crypto}

/-- Without keys, or with an empty key map, every result is counted. -/
def accepted (publicKeys : Option (OrderedDict String crypto.PublicKey)) (r : NodeResult) : Bool :=
  match publicKeys with
  | some keys => keys.isEmpty || signatureValid crypto keys r
  | none => true

def verifiedResults (results : List NodeResult)
    (publicKeys : Option (OrderedDict String crypto.PublicKey)) : List NodeResult :=
  results.filter (accepted publicKeys)

def invalidSigIds (results : List NodeResult)
    (publicKeys : Option (OrderedDict String crypto.PublicKey)) : List String :=
  (results.filter fun r => !accepted publicKeys r).map NodeResult.nodeId

/-- Perform a consensus round over a list of node results. -/
def runConsensus (results : List NodeResult)
    (publicKeys : Option (OrderedDict String crypto.PublicKey)) (quorumThreshold : ℚ) :
    ConsensusResult :=
  if results.isEmpty then
    .init R none .empty [] [] [] quorumThreshold
  else
    let invalidSigNodes := invalidSigIds results publicKeys
    let verified := verifiedResults results publicKeys
    if verified.isEmpty then
      .init R none .empty [] (results.map NodeResult.nodeId) invalidSigNodes quorumThreshold
    else
      let voteCounts := OrderedDict.counter (verified.map NodeResult.stateHash)
      let agreedHash := selectWinner voteCounts
      let honestNodes :=
        (verified.filter fun r => some r.stateHash = agreedHash).map NodeResult.nodeId
      let hashFaulty :=
        (verified.filter fun r => some r.stateHash ≠ agreedHash).map NodeResult.nodeId
      .init R agreedHash voteCounts honestNodes (hashFaulty ++ invalidSigNodes) invalidSigNodes
        quorumThreshold

/-! ## The winner is the plurality of the verified hashes -/

/-- The hashes that are tallied. -/
def ballots (results : List NodeResult)
    (publicKeys : Option (OrderedDict String crypto.PublicKey)) : List String :=
  (verifiedResults results publicKeys).map NodeResult.stateHash

theorem selectWinner_counter (hashes : List String) (w : String) :
    selectWinner (OrderedDict.counter hashes) = some w ↔ Plurality hashes w := by
  by_cases hne : hashes = []
  · subst hne
    constructor
    · intro h
      cases h
    · intro h
      exact absurd h.mem (by simp)
  obtain ⟨p, hp⟩ := Plurality.exists_of_ne_nil hne
  have hmax : (OrderedDict.counter hashes).values.max? = some (hashes.count p) := by
    rw [List.max?_eq_some_iff]
    constructor
    · exact List.mem_map.mpr ⟨(p, hashes.count p),
        (OrderedDict.mem_entries_counter hashes p _).mpr ⟨hp.mem, rfl⟩, rfl⟩
    · intro n hn
      obtain ⟨⟨h, n'⟩, hmem, rfl⟩ := List.mem_map.mp hn
      rw [← ((OrderedDict.mem_entries_counter hashes h n').mp hmem).2]
      exact hp.max h
  have hcand (x : String) : x ∈ (((OrderedDict.counter hashes).entries.filter
      fun e => e.2 = hashes.count p).map Prod.fst) ↔ hashes.count x = hashes.count p := by
    constructor
    · intro hx
      obtain ⟨⟨y, n⟩, he, rfl⟩ := List.mem_map.mp hx
      obtain ⟨he, hn⟩ := List.mem_filter.mp he
      rw [← of_decide_eq_true hn, ((OrderedDict.mem_entries_counter hashes y n).mp he).2]
    · intro hx
      have hmem : x ∈ hashes := List.count_pos_iff.mp (hx ▸ hp.count_pos)
      refine List.mem_map.mpr ⟨(x, hashes.count x), List.mem_filter.mpr ⟨?_, by simp [hx]⟩, rfl⟩
      exact (OrderedDict.mem_entries_counter hashes x _).mpr ⟨hmem, rfl⟩
  have hsel : selectWinner (OrderedDict.counter hashes) = some p := by
    simp only [selectWinner, hmax, List.min?_eq_some_iff, hcand]
    exact ⟨trivial, hp.least⟩
  rw [hsel, Option.some_inj]
  exact ⟨fun h => h ▸ hp, fun h => hp.unique h⟩

variable (results : List NodeResult) (publicKeys : Option (OrderedDict String crypto.PublicKey))
  (t : ℚ)

theorem verifiedResults_eq_nil_iff : verifiedResults results publicKeys = [] ↔
    ballots results publicKeys = [] := by
  simp [ballots]

theorem runConsensus_agreedHash_iff (w : String) :
    (runConsensus R results publicKeys t).agreedHash = some w ↔
      Plurality (ballots results publicKeys) w := by
  unfold runConsensus
  split
  · next h =>
    rw [List.isEmpty_iff] at h
    subst h
    exact ⟨nofun, fun h => absurd h.mem (by simp [ballots, verifiedResults])⟩
  · dsimp only
    split
    · next h =>
      rw [List.isEmpty_iff, verifiedResults_eq_nil_iff] at h
      rw [h]
      exact ⟨nofun, fun h => absurd h.mem (by simp)⟩
    · exact selectWinner_counter _ w

theorem runConsensus_agreedHash_eq_none_iff :
    (runConsensus R results publicKeys t).agreedHash = none ↔ ballots results publicKeys = [] := by
  constructor
  · intro h
    by_contra hne
    obtain ⟨w, hw⟩ := Plurality.exists_of_ne_nil hne
    rw [(runConsensus_agreedHash_iff R results publicKeys t w).mpr hw] at h
    cases h
  · intro h
    rw [Option.eq_none_iff_forall_ne_some]
    intro w hw
    have hp := (runConsensus_agreedHash_iff R results publicKeys t w).mp hw
    rw [h] at hp
    exact absurd hp.mem (by simp)

/-- Quorum: the winner's share of the verified results meets the threshold. -/
theorem runConsensus_reached_iff :
    (runConsensus R results publicKeys t).consensusReached = true ↔
      ∃ w, (runConsensus R results publicKeys t).agreedHash = some w ∧
        t ≤ R (((ballots results publicKeys).count w : ℚ) /
          (ballots results publicKeys).length) := by
  unfold runConsensus
  split
  · simp [ConsensusResult.init]
  · dsimp only
    split
    · simp [ConsensusResult.init]
    · next hv =>
      rw [List.isEmpty_iff, verifiedResults_eq_nil_iff] at hv
      change (ConsensusResult.init R (selectWinner (OrderedDict.counter
        (ballots results publicKeys))) (OrderedDict.counter (ballots results publicKeys))
        _ _ _ t).consensusReached = true ↔ ∃ w, selectWinner (OrderedDict.counter
          (ballots results publicKeys)) = some w ∧ _
      obtain ⟨w, hw⟩ := Plurality.exists_of_ne_nil hv
      have hpos : 0 < (ballots results publicKeys).length := List.length_pos_iff.mpr hv
      rw [(selectWinner_counter _ w).mpr hw]
      simp [ConsensusResult.init, OrderedDict.sum_values_counter, OrderedDict.getD_counter, hpos]

/-- The tally counts the verified hashes. -/
theorem runConsensus_voteCounts (w : String) :
    (runConsensus R results publicKeys t).voteCounts.getD w 0 =
      (ballots results publicKeys).count w := by
  unfold runConsensus
  split
  · next h =>
    rw [List.isEmpty_iff] at h
    subst h
    rfl
  · dsimp only
    split
    · next h =>
      rw [List.isEmpty_iff, verifiedResults_eq_nil_iff] at h
      rw [h]
      rfl
    · exact OrderedDict.getD_counter _ w

theorem runConsensus_honestNodes : (runConsensus R results publicKeys t).honestNodes =
    ((verifiedResults results publicKeys).filter fun r =>
      some r.stateHash = (runConsensus R results publicKeys t).agreedHash).map
        NodeResult.nodeId := by
  unfold runConsensus
  split
  · next h =>
    rw [List.isEmpty_iff] at h
    subst h
    rfl
  · dsimp only
    split
    · next h =>
      rw [List.isEmpty_iff] at h
      simp [ConsensusResult.init, h]
    · rfl

/-- Both faulty branches at once: when no result passes, the list of all nodes is
the list of the rejected ones. -/
theorem runConsensus_faultyNodes : (runConsensus R results publicKeys t).faultyNodes =
    ((verifiedResults results publicKeys).filter fun r =>
      some r.stateHash ≠ (runConsensus R results publicKeys t).agreedHash).map
        NodeResult.nodeId ++ invalidSigIds results publicKeys := by
  unfold runConsensus
  split
  · next h =>
    rw [List.isEmpty_iff] at h
    subst h
    rfl
  · dsimp only
    split
    · next h =>
      rw [List.isEmpty_iff] at h
      have hall : (results.filter fun r => !accepted publicKeys r) = results := by
        rw [List.filter_eq_self]
        intro r hr
        rw [verifiedResults, List.filter_eq_nil_iff] at h
        simpa using h r hr
      simp [ConsensusResult.init, h, invalidSigIds, hall]
    · rfl

theorem runConsensus_invalidSigNodes : (runConsensus R results publicKeys t).invalidSigNodes =
    invalidSigIds results publicKeys := by
  unfold runConsensus
  split
  · next h =>
    rw [List.isEmpty_iff] at h
    subst h
    rfl
  · dsimp only
    split <;> rfl

/-- No node is faulty exactly when every result passes and all carry one hash. -/
theorem runConsensus_faultyNodes_eq_nil_iff :
    (runConsensus R results publicKeys t).faultyNodes = [] ↔
      (∀ r ∈ results, accepted publicKeys r = true) ∧
        ∀ r ∈ results, ∀ r' ∈ results, r.stateHash = r'.stateHash := by
  rw [runConsensus_faultyNodes, List.append_eq_nil_iff, invalidSigIds, List.map_eq_nil_iff,
    List.map_eq_nil_iff, List.filter_eq_nil_iff, List.filter_eq_nil_iff]
  constructor
  · rintro ⟨hhash, hsig⟩
    have hall : ∀ r ∈ results, accepted publicKeys r = true := fun r hr => by
      simpa using hsig r hr
    have hagreed : ∀ r ∈ results,
        some r.stateHash = (runConsensus R results publicKeys t).agreedHash := fun r hr => by
      simpa using hhash r (List.mem_filter.mpr ⟨hr, hall r hr⟩)
    exact ⟨hall, fun r hr r' hr' => Option.some_inj.mp ((hagreed r hr).trans (hagreed r' hr').symm)⟩
  · rintro ⟨hall, hsame⟩
    refine ⟨fun r hr => ?_, fun r hr => by simp [hall r hr]⟩
    obtain ⟨hr, hacc⟩ := List.mem_filter.mp hr
    have hne : ballots results publicKeys ≠ [] :=
      List.ne_nil_of_mem (List.mem_map_of_mem (List.mem_filter.mpr ⟨hr, hacc⟩))
    obtain ⟨w, hw⟩ := Plurality.exists_of_ne_nil hne
    obtain ⟨r', hr', rfl⟩ := List.mem_map.mp hw.mem
    rw [(runConsensus_agreedHash_iff R results publicKeys t _).mpr hw,
      hsame r hr r' (List.mem_of_mem_filter hr')]
    simp

/-- Quorum is a matter of the ballots alone: some hash has a share that meets the
threshold. -/
theorem runConsensus_reached_iff_share :
    (runConsensus R results publicKeys t).consensusReached = true ↔
      ∃ w ∈ ballots results publicKeys, t ≤ R (((ballots results publicKeys).count w : ℚ) /
        (ballots results publicKeys).length) := by
  rw [runConsensus_reached_iff]
  constructor
  · rintro ⟨w, hw, ht⟩
    exact ⟨w, ((runConsensus_agreedHash_iff R results publicKeys t w).mp hw).mem, ht⟩
  · rintro ⟨w, hmem, ht⟩
    obtain ⟨p, hp⟩ := Plurality.exists_of_ne_nil (List.ne_nil_of_mem hmem)
    refine ⟨p, (runConsensus_agreedHash_iff R results publicKeys t p).mpr hp,
      ht.trans (R.mono ?_)⟩
    exact div_le_div_of_nonneg_right (by exact_mod_cast hp.max w) (by positivity)

end ECN
