import ECN.Validity

/-!
# Quorum and the size of the network

The threshold is compared with the winner's share of the verified results. Servers
that are excluded, cannot be reached or reject the transaction are in neither part of
that share, so a few answers can meet the threshold that the whole network would not.
-/
namespace ECN

variable {rt : Runtime}

/-- Consensus is reached only with votes for the threshold's share of all servers. -/
def QuorumOfAll (L : Limits) (R : Rounding) (net : P2PNetwork rt) (now : ℕ) (tx : Transaction)
    (channel : NodeServer rt → Channel) : Prop :=
  ∀ recorded results cr,
    (net.broadcastWithin L R now tx channel recorded).2 = .ok (results, cr) →
      cr.consensusReached = true → ∃ w, cr.agreedHash = some w ∧
        net.quorumThreshold * net.servers.length ≤ (cr.voteCounts.getD w 0 : ℚ)

/-- Every server runs the node code, and is silent or answers as coded. -/
def HonestAnswers (net : P2PNetwork rt) (channel : NodeServer rt → Channel) : Prop :=
  ∀ server ∈ net.servers, server.node.malicious = false ∧
    ∀ reply latencyMs, channel server ≠ .byzantine reply latencyMs

/-! ## The servers that are counted -/

/-- The answer comes back. -/
def Channel.isAnswered : Channel → Bool
  | .answered _ => true
  | .requestLost | .replyLost | .byzantine _ _ => false

/-- The servers that take part, are not silent, and can evaluate the transaction. -/
def respondents (L : Limits) (net : P2PNetwork rt) (tx : Transaction)
    (channel : NodeServer rt → Channel) : List (NodeServer rt) :=
  net.participating.filter fun s => (channel s).isAnswered ∧ Evaluates L rt s.state tx

/-- The server's signature under a hash passes with the key that the network keeps for its
id; with distinct ids it always does. -/
def signs (net : P2PNetwork rt) (server : NodeServer rt) (h : String) : Bool :=
  accepted (some net.publicKeys) ⟨server.nodeId, h, [], none,
    some (signResult rt.toCrypto server.nodeId h server.privateKey)⟩

/-- The respondents that count. -/
def electors (L : Limits) (net : P2PNetwork rt) (tx : Transaction)
    (channel : NodeServer rt → Channel) : List (NodeServer rt) :=
  (respondents L net tx channel).filter fun s => (honestHash rt s.state tx).any (signs net s)

/-- Those that come to the same state hash as the server. -/
def peers (L : Limits) (net : P2PNetwork rt) (tx : Transaction)
    (channel : NodeServer rt → Channel) (server : NodeServer rt) : List (NodeServer rt) :=
  (electors L net tx channel).filter fun s =>
    honestHash rt s.state tx = honestHash rt server.state tx

/-- Enough servers respond, and a largest group of those that count meets the threshold
among them and misses it among all servers. -/
def FewDecide (L : Limits) (R : Rounding) (net : P2PNetwork rt) (tx : Transaction)
    (channel : NodeServer rt → Channel) : Prop :=
  let size := fun s => (peers L net tx channel s).length
  net.minResponses ≤ ((respondents L net tx channel).length : ℤ) ∧
    ∃ s ∈ electors L net tx channel, (∀ s' ∈ electors L net tx channel, size s' ≤ size s) ∧
      net.quorumThreshold ≤ R ((size s : ℚ) / (electors L net tx channel).length) ∧
        (size s : ℚ) < net.quorumThreshold * net.servers.length

instance (L : Limits) (R : Rounding) (net : P2PNetwork rt) (tx : Transaction)
    (channel : NodeServer rt → Channel) : Decidable (FewDecide L R net tx channel) :=
  inferInstanceAs (Decidable (_ ∧ ∃ _ ∈ _, (∀ _ ∈ _, _) ∧ _ ∧ _))

open P2PNetwork (fates)

variable {L : Limits} {R : Rounding} {net : P2PNetwork rt} {tx : Transaction}
  {channel : NodeServer rt → Channel}

/-- What an honest server adds to the results and to the tally. -/
theorem HonestAnswers.vote (hh : HonestAnswers net channel) {server : NodeServer rt}
    (hs : server ∈ net.participating) :
    (sendToServer server tx (fates L tx channel server)).2.isSome =
        decide ((channel server).isAnswered ∧ Evaluates L rt server.state tx) ∧
      votes net tx (fates L tx channel) server =
        if (channel server).isAnswered ∧ Evaluates L rt server.state tx then
          (honestHash rt server.state tx).filter (signs net server)
        else none := by
  obtain ⟨hgood, hcoded⟩ := hh server (List.mem_of_mem_filter hs)
  rw [votes, fates]
  cases hc : channel server with
  | requestLost => simp [fateWithin, sendToServer, countedHash, Channel.isAnswered]
  | replyLost =>
    simp only [fateWithin, Channel.isAnswered, Bool.false_eq_true, false_and, decide_false,
      if_false]
    split <;> exact ⟨rfl, rfl⟩
  | byzantine reply latencyMs => exact (hcoded reply latencyMs hc).elim
  | answered latencyMs =>
    simp only [fateWithin, Channel.isAnswered, true_and]
    by_cases hin : Evaluates L rt server.state tx
    · rw [if_pos (answers_iff.mpr hin), if_pos hin, decide_eq_true hin]
      obtain ⟨h, hhash⟩ := exists_honestHash hin
      obtain ⟨new, he⟩ := honestHash_eq_some_iff.mp hhash
      obtain ⟨-, hreply⟩ := server.handleClient_of_ok he
      have hreported : server.node.reportedHash h = h := by simp [Node.reportedHash, hgood]
      rw [hreported] at hreply
      simp only [sendToServer, hreply, receive, countedHash, hhash, Option.filter, signs]
      exact ⟨rfl, rfl⟩
    · rw [if_neg (mt answers_iff.mp hin), if_neg hin, decide_eq_false hin]
      split <;> exact ⟨rfl, rfl⟩

theorem HonestAnswers.results_length (hh : HonestAnswers net channel) :
    (P2PNetwork.resultsOf (net.gather tx (fates L tx channel))).length =
      (respondents L net tx channel).length := by
  rw [resultsOf_gather_length, respondents, List.countP_eq_length_filter]
  congr 1
  exact List.filter_congr fun s hs => (hh.vote hs).1

/-- Every elector has a hash. -/
theorem exists_hash_of_elector {server : NodeServer rt}
    (hs : server ∈ electors L net tx channel) : ∃ h, honestHash rt server.state tx = some h := by
  have hany := (List.mem_filter.mp hs).2
  cases hh : honestHash rt server.state tx with
  | none =>
    rw [hh] at hany
    cases hany
  | some h => exact ⟨h, rfl⟩

/-- The state hashes that the electors come to. -/
def hashesOf (L : Limits) (net : P2PNetwork rt) (tx : Transaction)
    (channel : NodeServer rt → Channel) : List String :=
  (electors L net tx channel).filterMap fun s => honestHash rt s.state tx

theorem length_hashesOf :
    (hashesOf L net tx channel).length = (electors L net tx channel).length := by
  rw [hashesOf, List.length_filterMap_eq_countP, List.countP_eq_length]
  intro s hs
  obtain ⟨h, hh⟩ := exists_hash_of_elector hs
  rw [hh]
  rfl

theorem count_hashesOf {server : NodeServer rt} {h : String}
    (hh : honestHash rt server.state tx = some h) :
    (hashesOf L net tx channel).count h = (peers L net tx channel server).length := by
  rw [hashesOf, List.count_filterMap, peers, ← List.countP_eq_length_filter, hh]
  refine List.countP_congr fun s _ => ?_
  simp

/-- The tally of a round of honest answers. -/
theorem HonestAnswers.ballots (hh : HonestAnswers net channel) :
    ballots (P2PNetwork.resultsOf (net.gather tx (fates L tx channel))) (some net.publicKeys) =
      hashesOf L net tx channel := by
  rw [ballots_gather, hashesOf, electors, respondents, List.filter_filter, List.filterMap_filter]
  refine List.filterMap_congr fun s hs => ?_
  rw [(hh.vote hs).2]
  by_cases hin : (channel s).isAnswered = true ∧ Evaluates L rt s.state tx
  · rw [if_pos hin, decide_eq_true hin, Bool.and_true]
    cases honestHash rt s.state tx with
    | none => rfl
    | some h => by_cases hsign : signs net s h = true <;> simp [Option.filter, hsign]
  · rw [if_neg hin, decide_eq_false hin, Bool.and_false]
    rfl

/-! ## The condition -/

/-- All largest groups are as large as the winner's. -/
theorem count_eq_of_largest {hashes : List String} {v w : String} (hv : Plurality hashes v)
    (hw : ∀ x ∈ hashes, hashes.count x ≤ hashes.count w) :
    hashes.count w = hashes.count v :=
  le_antisymm (hv.max w) (hw v hv.mem)

/-- The group of an elector is largest when its hash has the most votes. -/
theorem largest_iff {server : NodeServer rt} {w : String}
    (hw : honestHash rt server.state tx = some w) :
    (∀ s ∈ electors L net tx channel, (peers L net tx channel s).length ≤
        (peers L net tx channel server).length) ↔
      ∀ x ∈ hashesOf L net tx channel, (hashesOf L net tx channel).count x ≤
        (hashesOf L net tx channel).count w := by
  rw [count_hashesOf hw]
  constructor
  · intro h x hx
    obtain ⟨s, hs, hhash⟩ := List.mem_filterMap.mp hx
    rw [count_hashesOf hhash]
    exact h s hs
  · intro h s hs
    obtain ⟨x, hx⟩ := exists_hash_of_elector hs
    rw [← count_hashesOf hx]
    exact h x (List.mem_filterMap.mpr ⟨s, hs, hx⟩)

theorem not_quorumOfAll_of_fewDecide (hh : HonestAnswers net channel)
    (hfew : FewDecide L R net tx channel) (now : ℕ) : ¬ QuorumOfAll L R net now tx channel := by
  intro hquorum
  obtain ⟨hmin, s, hs, hlargest, hshare, hless⟩ := hfew
  dsimp only at hlargest hshare hless
  obtain ⟨w, hw⟩ := exists_hash_of_elector hs
  have hmem : w ∈ hashesOf L net tx channel := List.mem_filterMap.mpr ⟨s, hs, hw⟩
  obtain ⟨v, hv⟩ := Plurality.exists_of_ne_nil (List.ne_nil_of_mem hmem)
  have hcount := count_eq_of_largest hv ((largest_iff hw).mp hlargest)
  rw [count_hashesOf hw] at hcount
  rw [← length_hashesOf, hcount] at hshare
  have hfree := (P2PNetwork.broadcast_of_le R (by rw [hh.results_length]; exact hmin) now).1
  have hagreed := (runConsensus_agreedHash_iff R
    (P2PNetwork.resultsOf (net.gather tx (fates L tx channel))) (some net.publicKeys)
    net.quorumThreshold v).mpr (by rw [hh.ballots]; exact hv)
  have hreached := (runConsensus_reached_iff R
    (P2PNetwork.resultsOf (net.gather tx (fates L tx channel))) (some net.publicKeys)
    net.quorumThreshold).mpr ⟨v, hagreed, by rw [hh.ballots]; exact hshare⟩
  obtain ⟨v', hv', hvotes⟩ := hquorum true _ _
    (by rw [P2PNetwork.broadcastWithin_eq, hfree]; rfl) hreached
  obtain rfl : v = v' := Option.some_inj.mp (hagreed.symm.trans hv')
  rw [runConsensus_voteCounts, hh.ballots, ← hcount] at hvotes
  exact absurd hvotes (not_le.mpr hless)

theorem quorumOfAll_of_not_fewDecide (hh : HonestAnswers net channel)
    (hfew : ¬ FewDecide L R net tx channel) (now : ℕ) : QuorumOfAll L R net now tx channel := by
  intro recorded results cr hok hreached
  obtain ⟨rfl, hmin, rfl⟩ := P2PNetwork.broadcast_eq_ok R (broadcastWithin_eq_ok hok)
  rw [hh.results_length] at hmin
  obtain ⟨w, hw, hshare⟩ := (runConsensus_reached_iff R _ _ _).mp hreached
  have hplur := (runConsensus_agreedHash_iff R _ _ _ w).mp hw
  rw [hh.ballots] at hshare hplur
  obtain ⟨s, hs, hhash⟩ := List.mem_filterMap.mp hplur.mem
  refine ⟨w, hw, ?_⟩
  rw [runConsensus_voteCounts, hh.ballots]
  by_contra hless
  rw [count_hashesOf hhash] at hshare hless
  rw [length_hashesOf] at hshare
  exact hfew ⟨hmin, s, hs, (largest_iff hhash).mpr fun x _ => hplur.max x, hshare, not_le.mp hless⟩

/-- A round of honest answers respects the size of the network exactly when it is not
decided by few servers. -/
theorem quorumOfAll_iff (hh : HonestAnswers net channel) (now : ℕ) :
    QuorumOfAll L R net now tx channel ↔ ¬ FewDecide L R net tx channel :=
  ⟨fun h hfew => not_quorumOfAll_of_fewDecide hh hfew now h,
    fun hfew => quorumOfAll_of_not_fewDecide hh hfew now⟩

/-! ## Three servers -/

/-- Only the third server can be reached. -/
def onlyThird (server : NodeServer (referenceRuntime false)) : Channel :=
  if thirdServer server then .answered 0 else .requestLost

/-- The reply of the third server is lost. -/
def firstTwo (server : NodeServer (referenceRuntime false)) : Channel :=
  if thirdServer server then .replyLost else .answered 0

theorem honestAnswers_overdraftNetwork {channel : NodeServer (referenceRuntime false) → Channel}
    (hc : ∀ server reply latencyMs, channel server ≠ .byzantine reply latencyMs) :
    HonestAnswers overdraftNetwork channel := by
  intro server hs
  refine ⟨?_, hc server⟩
  simp only [overdraftNetwork, P2PNetwork.init, List.mem_cons, List.not_mem_nil, or_false] at hs
  rcases hs with rfl | rfl | rfl <;> rfl

theorem honestAnswers_onlyThird : HonestAnswers overdraftNetwork onlyThird :=
  honestAnswers_overdraftNetwork fun server reply latencyMs => by
    unfold onlyThird
    split <;> simp

/-- One answer of three servers reaches consensus at the default threshold. -/
theorem one_answer_of_three :
    ¬ ∀ (L : Limits) (R : Rounding) (rt : Runtime) (net : P2PNetwork rt) (now : ℕ)
      (tx : Transaction) (channel : NodeServer rt → Channel), HonestAnswers net channel →
        QuorumOfAll L R net now tx channel := by
  intro h
  have hfew : FewDecide defaultLimits .binary64 overdraftNetwork withdrawal onlyThird := by
    decide +kernel
  exact not_quorumOfAll_of_fewDecide honestAnswers_onlyThird hfew 0
    (h _ _ _ _ 0 _ _ honestAnswers_onlyThird)

/-- Two answers of three are a quorum of the network. -/
theorem two_answers_of_three :
    QuorumOfAll defaultLimits .binary64 overdraftNetwork 0 withdrawal firstTwo :=
  (quorumOfAll_iff (honestAnswers_overdraftNetwork fun server reply latencyMs => by
    unfold firstTwo
    split <;> simp) 0).mpr (by decide +kernel)

end ECN
