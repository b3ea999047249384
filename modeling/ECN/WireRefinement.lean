import ECN.Wire

/-!
# Well-formed replies

On replies of the types that the node code sends, the broadcast over JSON is the typed
broadcast: it raises nothing, and its results, its verdict and its health records are the
typed ones.
-/
namespace ECN.Wire

variable {rt : Runtime}

/-! ## Embedding the typed data -/

def ofSignature : Option String → Json
  | some signature => .text signature
  | none => .null

/-- What a node server writes; the text of an exception is left out. -/
def ofReply : Reply → Json
  | .result nodeId stateHash signature =>
    .object [(.text "node_id", .text nodeId), (.text "state_hash", .text stateHash),
      (.text "signature", ofSignature signature)]
  | .error _ => .object [(.text "error", .text "")]

/-- The replies that a channel lets through. -/
def repliesOf (tx : Transaction) (channel : NodeServer rt → Channel) (server : NodeServer rt) :
    Option (Json × ℚ) :=
  match channel server with
  | .requestLost | .replyLost => none
  | .answered latencyMs => some (ofReply (server.handleClient tx).2, latencyMs)
  | .byzantine reply latencyMs => some (ofReply reply, latencyMs)

def ofResult (r : NodeResult) : WireResult :=
  ⟨.text r.nodeId, .text r.stateHash, ofSignature r.signature⟩

def ofHash (h : String) : JsonScalar := .str (.text h)

def ofCount (e : String × ℕ) : JsonScalar × ℕ := (ofHash e.1, e.2)

def ofConsensus (cr : ConsensusResult) : WireConsensus where
  agreedHash := (cr.agreedHash.map ofHash).getD .null
  voteCounts := cr.voteCounts.entries.map ofCount
  honestNodes := cr.honestNodes.map .text
  faultyNodes := cr.faultyNodes.map .text
  invalidSigNodes := cr.invalidSigNodes.map .text
  totalNodes := cr.totalNodes
  quorumThreshold := cr.quorumThreshold
  consensusReached := cr.consensusReached

/-! ## Reading -/

theorem response_ofReply (reply : Reply) (latencyMs : ℚ) :
    response (some (ofReply reply, latencyMs)) =
      (ECN.receive latencyMs reply).map fun p => (ofResult p.1, p.2) := by
  cases reply with
  | error e => rfl
  | result nodeId stateHash signature => cases signature <;> rfl

theorem response_repliesOf (tx : Transaction) (channel : NodeServer rt → Channel)
    (server : NodeServer rt) : response (repliesOf tx channel server) =
      (sendToServer server tx (channel server)).2.map fun p => (ofResult p.1, p.2) := by
  unfold repliesOf
  cases channel server with
  | requestLost => rfl
  | replyLost => rfl
  | answered latencyMs => exact response_ofReply _ latencyMs
  | byzantine reply latencyMs => exact response_ofReply reply latencyMs

theorem accepted_ofResult (containerRepr : Json → String) (keys : OrderedDict String rt.PublicKey)
    (r : NodeResult) :
    accepted containerRepr keys (ofResult r) = some (ECN.accepted (some keys) r) := by
  unfold accepted ECN.accepted
  by_cases hempty : keys.isEmpty = true
  · simp [hempty]
  · rw [if_neg hempty]
    have hempty' : keys.isEmpty = false := by simpa using hempty
    cases hget : keys.get? r.nodeId with
    | none => simp [ofResult, hget, signatureValid, hempty']
    | some publicKey =>
      cases hsig : r.signature with
      | none => simp [ofResult, hget, signatureValid, hempty', hsig, ofSignature]
      | some signature =>
        simp [ofResult, hget, signatureValid, hempty', hsig, ofSignature, verifyResult, Json.pyStr,
          PyStr.encode]

/-! ## Counting -/

theorem increment_ofCount (h : String) (es : List (String × ℕ)) :
    increment (ofHash h) (es.map ofCount) =
      (upsert h ((es.lookup h).getD 0 + 1) es).map ofCount := by
  induction es with
  | nil => rfl
  | cons e es ih =>
    rw [lookup_cons_ite]
    by_cases he : e.1 = h
    · simp [increment, upsert, ofCount, ofHash, he]
    · have hne : h ≠ e.1 := fun hh => he hh.symm
      simpa [increment, upsert, ofCount, ofHash, he, hne] using ih

theorem counter_ofHash (hashes : List String) :
    counter (hashes.map ofHash) = (OrderedDict.counter hashes).entries.map ofCount := by
  induction hashes using List.reverseRecOn with
  | nil => rfl
  | append_singleton hashes h ih =>
    rw [List.map_append, List.map_singleton, counter_concat, ih, increment_ofCount,
      OrderedDict.counter_concat]
    rfl

theorem minimum_ofHash (hashes : List String) :
    minimum (hashes.map ofHash) = hashes.min?.map ofHash := by
  cases hashes with
  | nil => rfl
  | cons h hashes =>
    rw [List.min?_cons', Option.map_some, List.map_cons, minimum]
    induction hashes generalizing h with
    | nil => rfl
    | cons x hashes ih =>
      have hmin : min h x = if x < h then x else h := by
        rw [min_comm, min_def_lt]
      rw [List.map_cons, List.foldlM_cons, List.foldl_cons, hmin]
      by_cases hlt : x < h
      · rw [if_pos hlt, ← ih x]
        simp [ofHash, JsonScalar.lt, PyStr.lt, hlt]
      · rw [if_neg hlt, ← ih h]
        simp [ofHash, JsonScalar.lt, PyStr.lt, hlt]

theorem selectWinner_ofCount {voteCounts : OrderedDict String ℕ} {w : String}
    (h : ECN.selectWinner voteCounts = some w) :
    selectWinner (voteCounts.entries.map ofCount) = some (ofHash w) := by
  unfold ECN.selectWinner at h
  split at h
  · cases h
  · next maxVotes hmax =>
    have hvalues : (voteCounts.entries.map ofCount).map Prod.snd = voteCounts.values := by
      rw [List.map_map]
      rfl
    have hfold : voteCounts.values.foldl max 0 = maxVotes := by
      obtain ⟨hmem, hle⟩ := List.max?_eq_some_iff.mp hmax
      exact foldl_max_eq hmem hle
    have hcandidates : ((voteCounts.entries.map ofCount).filter fun e => e.2 = maxVotes).map
        Prod.fst = ((voteCounts.entries.filter fun e => e.2 = maxVotes).map Prod.fst).map
          ofHash := by
      rw [List.filter_map, List.map_map, List.map_map]
      rfl
    unfold selectWinner
    dsimp only
    rw [hvalues, hfold, hcandidates, minimum_ofHash, h]
    rfl

theorem votesFor_ofCount (voteCounts : OrderedDict String ℕ) (h : String) :
    votesFor (voteCounts.entries.map ofCount) (ofHash h) = voteCounts.getD h 0 := by
  unfold votesFor OrderedDict.getD OrderedDict.get?
  congr 1
  induction voteCounts.entries with
  | nil => rfl
  | cons e es ih =>
    rw [lookup_cons_ite, List.map_cons, List.find?_cons]
    by_cases he : h = e.1
    · simp [ofCount, ofHash, he]
    · have hne : (ofCount e).1.sameKey (ofHash h) = false := by
        simp [ofCount, ofHash, Ne.symm he]
      rw [hne, if_neg he]
      exact ih

/-! ## The round -/

variable (R : Rounding) (containerRepr : Json → String)

theorem init_ofConsensus (w : String) (voteCounts : OrderedDict String ℕ)
    (honestNodes faultyNodes invalidSigNodes : List String) (t : ℚ) :
    WireConsensus.init R (ofHash w) (voteCounts.entries.map ofCount) (honestNodes.map .text)
      (faultyNodes.map .text) (invalidSigNodes.map .text) t =
    ofConsensus (ConsensusResult.init R (some w) voteCounts honestNodes faultyNodes
      invalidSigNodes t) := by
  have hsum : ((voteCounts.entries.map ofCount).map Prod.snd).sum = voteCounts.values.sum := by
    rw [List.map_map]
    rfl
  have hhash : ofHash w ≠ JsonScalar.null := by simp [ofHash]
  simp only [WireConsensus.init, ofConsensus, ConsensusResult.init, hsum, votesFor_ofCount,
    List.length_map, hhash, ne_eq, not_false_eq_true, true_and, Option.map_some, Option.getD_some]

theorem counted_ofResult (keys : OrderedDict String rt.PublicKey) (r : NodeResult) :
    counted containerRepr keys (ofResult r) = ECN.accepted (some keys) r := by
  simp [counted, accepted_ofResult]

theorem hashKey_ofResult (r : NodeResult) : hashKey (ofResult r) = ofHash r.stateHash := rfl

theorem verified_ofResult (results : List NodeResult) (keys : OrderedDict String rt.PublicKey) :
    (results.map ofResult).filter (counted containerRepr keys) =
      (verifiedResults results (some keys)).map ofResult := by
  rw [List.filter_map]
  congr 2
  funext r
  exact counted_ofResult containerRepr keys r

/-- Ids that are selected among embedded results. -/
theorem nodeIds_ofResult {p : WireResult → Bool} {q : NodeResult → Bool}
    (h : ∀ r, p (ofResult r) = q r) (results : List NodeResult) :
    ((results.map ofResult).filter p).map WireResult.nodeId =
      ((results.filter q).map NodeResult.nodeId).map .text := by
  rw [List.filter_map, List.map_map, List.map_map]
  simp only [Function.comp_def, h]
  rfl

theorem counter_ofResult (results : List NodeResult) :
    counter ((results.map ofResult).map hashKey) =
      (OrderedDict.counter (results.map NodeResult.stateHash)).entries.map ofCount := by
  have hhashes : (results.map ofResult).map hashKey =
      (results.map NodeResult.stateHash).map ofHash := by
    rw [List.map_map, List.map_map]
    rfl
  rw [hhashes, counter_ofHash]

theorem hashKey_eq_ofHash (r : NodeResult) (w : String) :
    (hashKey (ofResult r)).eq (ofHash w) = decide (some r.stateHash = some w) := by
  simp only [hashKey_ofResult, ofHash, JsonScalar.eq_text, JsonScalar.str.injEq, PyStr.text.injEq,
    Option.some_inj]

/-- Consensus over typed results is the typed consensus. -/
theorem runConsensus_ofResult (results : List NodeResult)
    (keys : OrderedDict String rt.PublicKey) (t : ℚ) :
    runConsensus containerRepr R (results.map ofResult) keys t =
      some (ofConsensus (ECN.runConsensus R results (some keys) t)) := by
  have hread : ∀ r ∈ results.map ofResult, (accepted containerRepr keys r).isSome = true := by
    intro r hr
    obtain ⟨r', -, rfl⟩ := List.mem_map.mp hr
    simp [accepted_ofResult]
  have hverified := verified_ofResult containerRepr results keys
  have hinvalid : ((results.map ofResult).filter fun r => !counted containerRepr keys r).map
      WireResult.nodeId = (invalidSigIds results (some keys)).map .text :=
    nodeIds_ofResult (fun r => by rw [counted_ofResult]) results
  by_cases hresults : results = []
  · subst hresults
    rfl
  by_cases hnone : verifiedResults results (some keys) = []
  · rw [hnone, List.map_nil] at hverified
    rw [runConsensus_of_unverified (by simpa using hresults) hread hverified, hinvalid]
    simp only [ECN.runConsensus, List.isEmpty_iff, hresults, hnone, if_false, if_true,
      List.map_map]
    simp [ofConsensus, ConsensusResult.init, WireConsensus.init, ofResult, OrderedDict.empty,
      Function.comp_def]
  · have hballots : ((verifiedResults results (some keys)).map NodeResult.stateHash) ≠ [] := by
      simpa using hnone
    obtain ⟨w, hw⟩ := Plurality.exists_of_ne_nil hballots
    have htyped := (ECN.selectWinner_counter _ w).mpr hw
    have hcounter := counter_ofResult (verifiedResults results (some keys))
    have hspec := runConsensus_of_readable (R := R) (t := t) hread (fun r hr _ => by
        obtain ⟨r', -, rfl⟩ := List.mem_map.mp hr
        rfl)
      (by rw [hverified]; simpa using hnone)
      (by rw [hverified, hcounter]; exact selectWinner_ofCount htyped)
    have hhonest := nodeIds_ofResult (p := fun r => (hashKey r).eq (ofHash w))
      (fun r => hashKey_eq_ofHash r w) (verifiedResults results (some keys))
    have hfaulty := nodeIds_ofResult (p := fun r => !(hashKey r).eq (ofHash w))
      (fun r => by rw [hashKey_eq_ofHash, ← decide_not]) (verifiedResults results (some keys))
    rw [hspec, hverified, hcounter, hinvalid, hhonest, hfaulty, ← List.map_append,
      init_ofConsensus]
    simp only [ECN.runConsensus, List.isEmpty_iff, hresults, hnone, if_false, htyped, ne_eq]

/-- What the typed broadcast returns or raises, over JSON. -/
def ofOutcome : Except InsufficientQuorumError (List NodeResult × ConsensusResult) →
    Except RoundError (List WireResult × WireConsensus)
  | .ok (results, cr) => .ok (results.map ofResult, ofConsensus cr)
  | .error e => .error (.insufficientQuorum e)

theorem linePrints_ofResult (r : NodeResult) : linePrints (ofResult r) = true := by
  obtain ⟨nodeId, stateHash, state, trace, signature⟩ := r
  cases signature <;> rfl

/-- On the replies of a typed channel the broadcast over JSON is the typed one. -/
theorem broadcast_repliesOf (net : P2PNetwork rt) (now : ℕ) (verbose : Bool) (tx : Transaction)
    (channel : NodeServer rt → Channel) :
    broadcast R containerRepr net now verbose (repliesOf tx channel) =
      ((net.broadcast R now tx channel).1.health,
        ofOutcome (net.broadcast R now tx channel).2) := by
  have hgather : gather net (repliesOf tx channel) =
      (net.gather tx channel).map fun p => (p.1, p.2.map fun q => (ofResult q.1, q.2)) := by
    unfold gather P2PNetwork.gather
    rw [List.map_map]
    refine List.map_congr_left fun server _ => ?_
    rw [response_repliesOf]
    rfl
  have hresults : resultsOf (gather net (repliesOf tx channel)) =
      (P2PNetwork.resultsOf (net.gather tx channel)).map ofResult := by
    rw [hgather, resultsOf, P2PNetwork.resultsOf, List.filterMap_map, List.map_filterMap]
    congr 1
    funext p
    obtain ⟨server, _ | q⟩ := p <;> rfl
  have hhealth : (gather net (repliesOf tx channel)).foldl (recordResponse now) net.health =
      (net.gather tx channel).foldl (P2PNetwork.recordResponse now) net.health := by
    rw [hgather, List.foldl_map]
    congr 1
    funext registry p
    obtain ⟨server, _ | q⟩ := p <;> rfl
  have hprints : ((P2PNetwork.resultsOf (net.gather tx channel)).map ofResult).all linePrints =
      true := by
    rw [List.all_eq_true]
    intro r hr
    obtain ⟨r', -, rfl⟩ := List.mem_map.mp hr
    exact linePrints_ofResult r'
  have hhealth' : (net.broadcast R now tx channel).1.health =
      (net.gather tx channel).foldl (P2PNetwork.recordResponse now) net.health := by
    simp [P2PNetwork.broadcast]
  unfold broadcast
  dsimp only
  rw [hhealth, hhealth', hresults, runConsensus_ofResult, List.length_map]
  dsimp only
  rw [hprints]
  refine Prod.ext rfl ?_
  by_cases hmin : ((P2PNetwork.resultsOf (net.gather tx channel)).length : ℤ) < net.minResponses
  · dsimp only [P2PNetwork.broadcast, P2PNetwork.collect]
    rw [if_pos hmin, if_pos hmin, P2PNetwork.serve, List.length_map]
    rfl
  · rw [if_neg hmin, (P2PNetwork.broadcast_of_le R (not_lt.mp hmin) now).1]
    simp [ofOutcome]

end ECN.Wire
