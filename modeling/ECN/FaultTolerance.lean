import ECN.Consensus
import ECN.ReferenceRuntime

/-!
# The fault-tolerance bound

A round over `n` registered nodes in which at most `⌊n (1 - t)⌋` of them are faulty, in
whatever way each of them is, reaches a quorum with threshold `t` on the hash of the
others. Every node has at most one vote, so the hash of the others holds a share of at
least `t` of the verified votes, and with `t` above one half nothing outvotes it.
-/
namespace ECN

variable {crypto : Crypto}

/-- One round over the registered nodes: every id answers at most once, and every node
that is not faulty returns `h` with a valid signature. A faulty node may be silent, sign
badly or sign another hash. -/
structure FaultyRound (keys : OrderedDict String crypto.PublicKey) (faulty : String → Bool)
    (h : String) (results : List NodeResult) : Prop where
  once : (results.map NodeResult.nodeId).Nodup
  honest : ∀ id ∈ keys.keys, faulty id = false →
    ∃ r ∈ results, r.nodeId = id ∧ r.stateHash = h ∧ signatureValid crypto keys r = true

namespace FaultyRound

variable {keys : OrderedDict String crypto.PublicKey} {faulty : String → Bool} {h : String}
  {results : List NodeResult}

theorem signatureValid_registered {r : NodeResult} (hr : signatureValid crypto keys r = true) :
    r.nodeId ∈ keys.keys := by
  rw [OrderedDict.mem_keys_iff]
  unfold signatureValid at hr
  split at hr
  · next pk _ hpk _ => exact ⟨pk, hpk⟩
  · cases hr

theorem accepted_iff (hne : keys.isEmpty = false) (r : NodeResult) :
    accepted (some keys) r = true ↔ signatureValid crypto keys r = true := by
  simp [accepted, hne]

/-- Every registered node has at most one vote. -/
theorem ballots_length_le (hr : FaultyRound keys faulty h results)
    (hne : keys.isEmpty = false) :
    (ballots results (some keys)).length ≤ keys.keys.length := by
  have hsub : (verifiedResults results (some keys)).map NodeResult.nodeId ⊆ keys.keys := by
    intro id hid
    obtain ⟨r, hmem, rfl⟩ := List.mem_map.mp hid
    exact signatureValid_registered ((accepted_iff hne r).mp (List.mem_filter.mp hmem).2)
  have hnodup : ((verifiedResults results (some keys)).map NodeResult.nodeId).Nodup :=
    hr.once.sublist (List.filter_sublist.map _)
  have hle := (List.subperm_of_subset hnodup hsub).length_le
  rwa [List.length_map, ← List.length_map NodeResult.stateHash] at hle

/-- Every node that is not faulty votes for `h`. -/
theorem honest_le_count (hr : FaultyRound keys faulty h results) (hne : keys.isEmpty = false) :
    (keys.keys.filter fun id => !faulty id).length ≤
      (ballots results (some keys)).count h := by
  let votes := (verifiedResults results (some keys)).filter fun r => r.stateHash = h
  have hsub : (keys.keys.filter fun id => !faulty id) ⊆ votes.map NodeResult.nodeId := by
    intro id hid
    obtain ⟨hkey, hgood⟩ := List.mem_filter.mp hid
    obtain ⟨r, hmem, hrid, hhash, hsig⟩ := hr.honest id hkey (by simpa using hgood)
    have hvote : r ∈ votes := List.mem_filter.mpr
      ⟨List.mem_filter.mpr ⟨hmem, (accepted_iff hne r).mpr hsig⟩, by simpa using hhash⟩
    exact List.mem_map.mpr ⟨r, hvote, hrid⟩
  have hnodup : (keys.keys.filter fun id => !faulty id).Nodup := keys.nodup.filter _
  calc (keys.keys.filter fun id => !faulty id).length
      ≤ (votes.map NodeResult.nodeId).length := (List.subperm_of_subset hnodup hsub).length_le
    _ = (ballots results (some keys)).count h := by
      rw [List.length_map, ballots, List.count, List.countP_map, List.countP_eq_length_filter]
      rfl

variable {t : ℚ}

/-- The votes for `h` are at least `t` times the registered nodes. -/
theorem share_le_count (hr : FaultyRound keys faulty h results) (hne : keys.isEmpty = false)
    (hf : ((keys.keys.filter faulty).length : ℤ) ≤ ⌊(keys.keys.length : ℚ) * (1 - t)⌋) :
    t * keys.keys.length ≤ ((ballots results (some keys)).count h : ℚ) := by
  have hsplit : (keys.keys.filter faulty).length +
      (keys.keys.filter fun id => !faulty id).length = keys.keys.length := by
    have hcountP := List.length_eq_countP_add_countP faulty (l := keys.keys)
    rw [← List.countP_eq_length_filter, ← List.countP_eq_length_filter, hcountP]
    simp
  have hfaulty : ((keys.keys.filter faulty).length : ℚ) ≤ keys.keys.length * (1 - t) := by
    have := Int.le_floor.mp hf
    exact_mod_cast this
  have hcount : ((keys.keys.filter fun id => !faulty id).length : ℚ) ≤
      (ballots results (some keys)).count h := by
    exact_mod_cast hr.honest_le_count hne
  have hsum : ((keys.keys.filter faulty).length : ℚ) +
      (keys.keys.filter fun id => !faulty id).length = keys.keys.length := by
    exact_mod_cast hsplit
  linarith

/-- No node that answers as it should is called faulty. -/
theorem not_mem_faultyNodes (hr : FaultyRound keys faulty h results)
    (hne : keys.isEmpty = false) (R : Rounding)
    (hagreed : (runConsensus R results (some keys) t).agreedHash = some h) {id : String}
    (hid : id ∈ keys.keys) (hgood : faulty id = false) :
    id ∉ (runConsensus R results (some keys) t).faultyNodes := by
  obtain ⟨r, hmem, rfl, hhash, hsig⟩ := hr.honest id hid hgood
  -- The node's only result is the good one.
  have honly : ∀ r' ∈ results, r'.nodeId = r.nodeId → r' = r := fun r' hmem' heq =>
    List.inj_on_of_nodup_map hr.once hmem' hmem heq
  rw [runConsensus_faultyNodes, hagreed, List.mem_append]
  rintro (hbad | hbad)
  · obtain ⟨r', hmem', heq⟩ := List.mem_map.mp hbad
    obtain ⟨hver, hdiff⟩ := List.mem_filter.mp hmem'
    obtain rfl := honly r' (List.mem_of_mem_filter hver) heq
    simp [hhash] at hdiff
  · obtain ⟨r', hmem', heq⟩ := List.mem_map.mp hbad
    obtain ⟨hres, hrej⟩ := List.mem_filter.mp hmem'
    obtain rfl := honly r' hres heq
    rw [(accepted_iff hne r').mpr hsig] at hrej
    cases hrej

/-- The bound: the round agrees on `h`, reaches the quorum and blames no good node. -/
theorem fault_tolerance (hr : FaultyRound keys faulty h results)
    (hne : keys.isEmpty = false) (hhalf : 1 / 2 < t)
    (hf : ((keys.keys.filter faulty).length : ℤ) ≤ ⌊(keys.keys.length : ℚ) * (1 - t)⌋) :
    let cr := runConsensus .exact results (some keys) t
    cr.agreedHash = some h ∧ cr.consensusReached = true ∧
      ∀ id ∈ keys.keys, faulty id = false → id ∉ cr.faultyNodes := by
  intro cr
  have hn : 0 < keys.keys.length := by
    rw [List.length_pos_iff]
    rintro hnil
    rw [OrderedDict.keys, List.map_eq_nil_iff] at hnil
    simp [OrderedDict.isEmpty, hnil] at hne
  have hn' : (0 : ℚ) < keys.keys.length := by exact_mod_cast hn
  have hshare := hr.share_le_count hne hf
  have hlength : ((ballots results (some keys)).length : ℚ) ≤ keys.keys.length := by
    exact_mod_cast hr.ballots_length_le hne
  have hmaj : ((ballots results (some keys)).length : ℚ) <
      2 * (ballots results (some keys)).count h := by
    nlinarith
  have hagreed : cr.agreedHash = some h :=
    (runConsensus_agreedHash_iff .exact results (some keys) t h).mpr
      (Plurality.of_majority (by exact_mod_cast hmaj))
  have hpos : (0 : ℚ) < (ballots results (some keys)).length := by
    have hcount : (0 : ℚ) < (ballots results (some keys)).count h := by nlinarith
    have := (ballots results (some keys)).count_le_length (a := h)
    exact hcount.trans_le (by exact_mod_cast this)
  refine ⟨hagreed, ?_, fun id hid hgood => hr.not_mem_faultyNodes hne .exact hagreed hid hgood⟩
  refine (runConsensus_reached_iff .exact results (some keys) t).mpr ⟨h, hagreed, ?_⟩
  rw [Rounding.exact_apply, le_div_iff₀ hpos]
  calc t * (ballots results (some keys)).length
      ≤ t * keys.keys.length := mul_le_mul_of_nonneg_left hlength (by linarith)
    _ ≤ (ballots results (some keys)).count h := hshare

/-! ## Five nodes, two of them faulty -/

def fiveKeys : OrderedDict String referenceCrypto.PublicKey :=
  .ofList [("A", [1]), ("B", [2]), ("C", [3]), ("D", [4]), ("E", [5])]

def signedResult (nodeId stateHash : String) (key : List UInt8) : NodeResult :=
  ⟨nodeId, stateHash, [], none, some (signResult referenceCrypto nodeId stateHash key)⟩

/-- `D` signs another hash and `E` is silent. -/
def fiveNodeResults : List NodeResult :=
  [signedResult "A" "h" [1], signedResult "B" "h" [2], signedResult "C" "h" [3],
   signedResult "D" "g" [4]]

def lastTwo (id : String) : Bool := id = "D" ∨ id = "E"

theorem faultyRound_fiveNodes : FaultyRound fiveKeys lastTwo "h" fiveNodeResults where
  once := by decide
  honest := by
    have hsigned (nodeId : String) (key : List UInt8)
        (hkey : fiveKeys.get? nodeId = some key) :
        signatureValid referenceCrypto fiveKeys (signedResult nodeId "h" key) = true := by
      simp only [signatureValid, signedResult, hkey]
      exact verifyResult_signResult referenceCrypto nodeId "h" key
    have hids : fiveKeys.keys = ["A", "B", "C", "D", "E"] := by decide
    intro id hid hgood
    rw [hids] at hid
    simp only [List.mem_cons, List.not_mem_nil, or_false] at hid
    rcases hid with rfl | rfl | rfl | rfl | rfl
    · exact ⟨_, by simp [fiveNodeResults], rfl, rfl, hsigned "A" [1] rfl⟩
    · exact ⟨_, by simp [fiveNodeResults], rfl, rfl, hsigned "B" [2] rfl⟩
    · exact ⟨_, by simp [fiveNodeResults], rfl, rfl, hsigned "C" [3] rfl⟩
    · cases hgood
    · cases hgood

theorem fault_tolerance_fiveNodes :
    let cr := runConsensus .exact fiveNodeResults (some fiveKeys) (51 / 100)
    cr.agreedHash = some "h" ∧ cr.consensusReached = true ∧
      ∀ id ∈ fiveKeys.keys, lastTwo id = false → id ∉ cr.faultyNodes :=
  faultyRound_fiveNodes.fault_tolerance (by decide) (by norm_num) (by decide +kernel)

end FaultyRound
end ECN
