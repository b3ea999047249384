import ECN.ReferenceRuntime
import ECN.ServerLimits

/-!
# Validity with Byzantine servers

Error replies are dropped before the tally, so the share that is compared with the
threshold is a share of the servers that answered with a result. When the honest
servers reject a transaction, or cannot read its line, no honest vote is left, and
Byzantine votes alone decide the round. `OutvotesHonest` is the exact condition under
which they do.
-/
namespace ECN

variable {rt : Runtime}

/-! ## Votes of a round -/

/-- The hash that one response adds to the tally. -/
def countedHash (keys : OrderedDict String rt.PublicKey) : Response → Option String
  | some (r, _) => if accepted (some keys) r then some r.stateHash else none
  | none => none

/-- The hash that an honest server in `state` reports for `tx`. -/
def honestHash (rt : Runtime) (state : State) (tx : Transaction) : Option String :=
  match NodeServer.evaluate rt state tx with
  | .ok (_, h) => some h
  | .error _ => none

theorem honestHash_eq_some_iff {state : State} {tx : Transaction} {h : String} :
    honestHash rt state tx = some h ↔ ∃ new, NodeServer.evaluate rt state tx = .ok (new, h) := by
  unfold honestHash
  split
  · next new h' he => simp [he]
  · next e he => simp [he]

theorem honestHash_eq_none {state : State} {tx : Transaction}
    (h : honestHash rt state tx = none) (new : State) (s : String) :
    NodeServer.evaluate rt state tx ≠ .ok (new, s) := by
  intro he
  rw [honestHash_eq_some_iff.mpr ⟨new, he⟩] at h
  cases h

theorem ballots_resultsOf (keys : OrderedDict String rt.PublicKey)
    (responses : List (NodeServer rt × Response)) :
    ballots (P2PNetwork.resultsOf responses) (some keys) =
      responses.filterMap fun p => countedHash keys p.2 := by
  unfold ballots verifiedResults P2PNetwork.resultsOf
  rw [List.filter_filterMap, List.map_filterMap]
  congr 1
  funext ⟨s, response⟩
  cases response with
  | none => rfl
  | some p =>
    by_cases ha : accepted (some keys) p.1 <;> simp [countedHash, ha, Option.filter]

/-- A signed result under the server's own id passes. -/
theorem countedHash_signed {keys : OrderedDict String rt.PublicKey} {server : NodeServer rt}
    (hk : keys.get? server.nodeId = some server.publicKey) (h : String) (latencyMs : ℚ) :
    countedHash keys (receive latencyMs (.result server.nodeId h
      (some (signResult rt.toCrypto server.nodeId h server.privateKey)))) = some h := by
  have hv : signatureValid rt.toCrypto keys ⟨server.nodeId, h, [], none,
      some (signResult rt.toCrypto server.nodeId h server.privateKey)⟩ = true := by
    simp only [signatureValid, hk]
    exact verifyResult_signResult rt.toCrypto server.nodeId h server.privateKey
  simp [countedHash, receive, accepted, hv]

/-- An honest server that answers adds exactly its hash. -/
theorem countedHash_answered {keys : OrderedDict String rt.PublicKey} {server : NodeServer rt}
    (hk : keys.get? server.nodeId = some server.publicKey) (hm : server.node.malicious = false)
    (tx : Transaction) (latencyMs : ℚ) :
    countedHash keys (sendToServer server tx (.answered latencyMs)).2 =
      honestHash rt server.state tx := by
  cases hh : honestHash rt server.state tx with
  | none =>
    obtain ⟨e, he⟩ := server.handleClient_of_error (honestHash_eq_none hh)
    simp [sendToServer, he, receive, countedHash]
  | some h =>
    obtain ⟨new, hnew⟩ := honestHash_eq_some_iff.mp hh
    obtain ⟨-, hr⟩ := server.handleClient_of_ok hnew
    have hrep : server.node.reportedHash h = h := by simp [Node.reportedHash, hm]
    rw [hrep] at hr
    simp only [sendToServer, hr]
    exact countedHash_signed hk h latencyMs

theorem answered_isSome (server : NodeServer rt) (tx : Transaction) (latencyMs : ℚ) :
    (sendToServer server tx (.answered latencyMs)).2.isSome =
      (honestHash rt server.state tx).isSome := by
  cases hh : honestHash rt server.state tx with
  | none =>
    obtain ⟨e, he⟩ := server.handleClient_of_error (honestHash_eq_none hh)
    simp [sendToServer, he, receive]
  | some h =>
    obtain ⟨new, hnew⟩ := honestHash_eq_some_iff.mp hh
    obtain ⟨-, hr⟩ := server.handleClient_of_ok hnew
    simp [sendToServer, hr, receive]

/-- An honest hash is the digest of the state that the engine returns. -/
theorem honestHash_spec {state : State} {tx : Transaction} {h : String}
    (hh : honestHash rt state tx = some h) :
    ∃ new, rt.execute state tx = .ok new ∧ stateHash rt false new = .ok h := by
  obtain ⟨new, he⟩ := honestHash_eq_some_iff.mp hh
  exact ⟨new, (Node.evaluate_eq_ok.mp he).2.1, Node.stateHash_of_evaluate he⟩

/-! ## Votes within the limits -/

/-- A server in `state` reads the request and answers it with a result. -/
def Evaluates (L : Limits) (rt : Runtime) (state : State) (tx : Transaction) : Prop :=
  L.Reads rt.toInterp tx ∧ (StateManager.init (some state) false).CanApply L rt tx

instance (L : Limits) (rt : Runtime) (state : State) (tx : Transaction) :
    Decidable (Evaluates L rt state tx) :=
  inferInstanceAs (Decidable (_ ∧ _))

/-- The hash that an honest server in `state` reports for `tx` within the limits. -/
def honestHashWithin (L : Limits) (rt : Runtime) (state : State) (tx : Transaction) :
    Option String :=
  if Evaluates L rt state tx then honestHash rt state tx else none

theorem answers_iff {L : Limits} {server : NodeServer rt} {tx : Transaction} :
    server.Answers L tx ↔ Evaluates L rt server.state tx := by
  unfold NodeServer.Answers Evaluates
  rw [StateManager.canApply_iff, StateManager.canApply_iff]
  unfold Limits.Ready Limits.Completes
  rw [server.wholeState]
  rfl

theorem exists_honestHash {L : Limits} {state : State} {tx : Transaction}
    (h : Evaluates L rt state tx) : ∃ hash, honestHash rt state tx = some hash := by
  obtain ⟨hready, new, hex, ⟨⟨hash, diff⟩, hsum⟩, -⟩ := StateManager.canApply_iff.mp h.2
  exact ⟨hash, honestHash_eq_some_iff.mpr
    ⟨new, Node.evaluate_eq_ok.mpr ⟨hready.2.2, hex, diff, hsum⟩⟩⟩

/-- An honest hash is the digest, within the limits, of the state that the engine returns. -/
theorem honestHashWithin_spec {L : Limits} {state : State} {tx : Transaction} {h : String}
    (hh : honestHashWithin L rt state tx = some h) :
    ∃ new, rt.execute state tx = .ok new ∧ L.stateHash rt false new = .ok h := by
  unfold honestHashWithin at hh
  split at hh
  · next hin =>
    obtain ⟨new, hex, hhash⟩ := honestHash_spec hh
    obtain ⟨-, new', hex', -, hhashes, -⟩ := StateManager.canApply_iff.mp hin.2
    obtain rfl := Except.ok.inj (hex'.symm.trans hex)
    exact ⟨new', hex, Limits.stateHash_eq_ok.mpr ⟨hhash, hhashes⟩⟩
  · cases hh

/-- Nobody responds to a transaction that cannot be sent. -/
theorem sends_of_response {L : Limits} {server : NodeServer rt} {tx : Transaction}
    {channel : Channel}
    (h : (sendToServer server tx (fateWithin L server tx channel)).2.isSome = true) :
    L.Sends tx := by
  cases channel with
  | requestLost => cases h
  | replyLost =>
    simp only [fateWithin] at h
    split at h <;> cases h
  | answered latencyMs =>
    simp only [fateWithin] at h
    split at h
    · next hanswers => exact hanswers.1.1
    · split at h <;> cases h
  | byzantine reply latencyMs =>
    simp only [fateWithin] at h
    split at h
    · next hsends => exact hsends
    · cases h

/-! ## The rounds in question -/

/-- Fewer than half of the servers are Byzantine; the others run the node code on one
common state. -/
structure HonestMajority (net : P2PNetwork rt) (byzantine : NodeServer rt → Bool)
    (state : State) : Prop where
  distinct : (net.servers.map NodeServer.nodeId).Nodup
  minority : 2 * (net.servers.filter byzantine).length < net.servers.length
  honest : ∀ server ∈ net.servers, byzantine server = false →
    server.node.malicious = false ∧ server.state = state

/-- A result carries the server's own id. -/
def OwnId (server : NodeServer rt) : Channel → Prop
  | .byzantine (.result nodeId _ _) _ => nodeId = server.nodeId
  | _ => True

/-- Honest servers answer as coded, Byzantine ones do anything under their own id. -/
def Conduct (net : P2PNetwork rt) (byzantine : NodeServer rt → Bool)
    (channel : NodeServer rt → Channel) : Prop :=
  ∀ server ∈ net.servers,
    if byzantine server then OwnId server (channel server)
    else ∃ latencyMs, channel server = .answered latencyMs

/-- Whatever the Byzantine servers do, consensus is reached only on the hash of the
state that the engine computes. -/
def BftValid (L : Limits) (R : Rounding) (net : P2PNetwork rt) (byzantine : NodeServer rt → Bool)
    (state : State) (now : ℕ) (tx : Transaction) : Prop :=
  ∀ channel recorded, Conduct net byzantine channel → ∀ results cr,
    (net.broadcastWithin L R now tx channel recorded).2 = .ok (results, cr) →
      cr.consensusReached = true →
        ∃ new h, rt.execute state tx = .ok new ∧ L.stateHash rt false new = .ok h ∧
          cr.agreedHash = some h

/-- The Byzantine servers that are sent the transaction. -/
def byzantineVotes (net : P2PNetwork rt) (byzantine : NodeServer rt → Bool) : ℕ :=
  (net.participating.filter byzantine).length

/-- The honest servers that answer with a result: all of them or none. -/
def honestVotes (L : Limits) (net : P2PNetwork rt) (byzantine : NodeServer rt → Bool)
    (state : State) (tx : Transaction) : ℕ :=
  if (honestHashWithin L rt state tx).isSome then
    (net.participating.filter fun s => !byzantine s).length
  else 0

/-- The transaction is sent, and the Byzantine servers are enough to meet the threshold
over the results. -/
def OutvotesHonest (L : Limits) (R : Rounding) (net : P2PNetwork rt)
    (byzantine : NodeServer rt → Bool) (state : State) (tx : Transaction) : Prop :=
  L.Sends tx ∧ 1 ≤ byzantineVotes net byzantine ∧
    net.minResponses ≤
      ((honestVotes L net byzantine state tx + byzantineVotes net byzantine : ℕ) : ℤ) ∧
    net.quorumThreshold ≤ R ((byzantineVotes net byzantine : ℚ) /
      ((honestVotes L net byzantine state tx + byzantineVotes net byzantine : ℕ) : ℚ))

instance (L : Limits) (R : Rounding) (net : P2PNetwork rt) (byzantine : NodeServer rt → Bool)
    (state : State) (tx : Transaction) : Decidable (OutvotesHonest L R net byzantine state tx) :=
  inferInstanceAs (Decidable (_ ∧ _ ∧ _ ∧ _))

/-! ## Counting -/

/-- Count on both sides of a split where the predicate is constant on the honest side. -/
theorem countP_split {α : Type*} (xs : List α) (byzantine g : α → Bool) {a : Bool}
    (h : ∀ x ∈ xs, byzantine x = false → g x = a) :
    xs.countP g = (xs.filter byzantine).countP g +
      if a then (xs.filter fun x => !byzantine x).length else 0 := by
  rw [List.countP_eq_countP_filter_add xs g byzantine]
  congr 1
  have hconst : ∀ x ∈ xs.filter fun x => !byzantine x, g x = a := by
    intro x hx
    obtain ⟨hx, hb⟩ := List.mem_filter.mp hx
    exact h x hx (by simpa using hb)
  cases a with
  | false =>
    rw [if_neg (by simp), List.countP_eq_zero]
    exact fun x hx => by simp [hconst x hx]
  | true =>
    rw [if_pos rfl, List.countP_eq_length]
    exact hconst

/-- The adversary's share grows with its number. -/
theorem share_le {c b' b v : ℕ} (hc : c ≤ b') (hb : b' ≤ b) :
    (c : ℚ) / ((v + b' : ℕ) : ℚ) ≤ (b : ℚ) / ((v + b : ℕ) : ℚ) := by
  rcases Nat.eq_zero_or_pos (v + b') with h0 | hpos
  · rw [h0, Nat.cast_zero, div_zero]
    positivity
  · rw [div_le_div_iff₀ (by exact_mod_cast hpos) (by exact_mod_cast (by omega : 0 < v + b))]
    have hmul : c * (v + b) ≤ b * (v + b') := by nlinarith
    exact_mod_cast hmul

theorem majority_of_half_lt_share {b n : ℕ} (h : 1 / 2 < (b : ℚ) / n) : n < 2 * b := by
  have hn : 0 < n := by
    by_contra h0
    rw [Nat.le_zero.mp (not_lt.mp h0), Nat.cast_zero, div_zero] at h
    norm_num at h
  rw [div_lt_div_iff₀ (by norm_num) (by exact_mod_cast hn), one_mul, mul_comm] at h
  exact_mod_cast h

section Rounds

open P2PNetwork (fates)

variable {L : Limits} {R : Rounding} {net : P2PNetwork rt} {byzantine : NodeServer rt → Bool}
  {state : State} {tx : Transaction} {channel : NodeServer rt → Channel}

/-- What each participating server adds to the tally. -/
def votes (net : P2PNetwork rt) (tx : Transaction) (channel : NodeServer rt → Channel)
    (server : NodeServer rt) : Option String :=
  countedHash net.publicKeys (sendToServer server tx (channel server)).2

theorem ballots_gather (net : P2PNetwork rt) (tx : Transaction)
    (channel : NodeServer rt → Channel) :
    ballots (P2PNetwork.resultsOf (net.gather tx channel)) (some net.publicKeys) =
      net.participating.filterMap (votes net tx channel) := by
  rw [ballots_resultsOf, P2PNetwork.gather, List.filterMap_map]
  rfl

theorem resultsOf_gather_length (net : P2PNetwork rt) (tx : Transaction)
    (channel : NodeServer rt → Channel) :
    (P2PNetwork.resultsOf (net.gather tx channel)).length =
      net.participating.countP fun s => (sendToServer s tx (channel s)).2.isSome := by
  unfold P2PNetwork.resultsOf P2PNetwork.gather
  rw [List.filterMap_map, List.length_filterMap_eq_countP]
  congr 1
  funext s
  simp

theorem HonestMajority.vote (hm : HonestMajority net byzantine state)
    (hc : Conduct net byzantine channel) {server : NodeServer rt}
    (hs : server ∈ net.participating) (hb : byzantine server = false) (L : Limits)
    (tx : Transaction) :
    votes net tx (fates L tx channel) server = honestHashWithin L rt state tx ∧
      (sendToServer server tx (fates L tx channel server)).2.isSome =
        (honestHashWithin L rt state tx).isSome := by
  have hmem : server ∈ net.servers := List.mem_of_mem_filter hs
  have hcond := hc server hmem
  rw [hb] at hcond
  obtain ⟨latencyMs, hl⟩ := hcond
  obtain ⟨hgood, hstate⟩ := hm.honest server hmem hb
  have hk := P2PNetwork.get?_publicKeys hm.distinct hmem
  have hanswers : server.Answers L tx ↔ Evaluates L rt server.state tx := answers_iff
  rw [votes, fates, hl, honestHashWithin, fateWithin]
  by_cases hin : Evaluates L rt state tx
  · rw [if_pos (hanswers.mpr (hstate ▸ hin)), if_pos hin, countedHash_answered hk hgood,
      answered_isSome, hstate]
    exact ⟨rfl, rfl⟩
  · rw [if_neg fun h => hin (hstate ▸ hanswers.mp h), if_neg hin]
    split <;> exact ⟨rfl, rfl⟩

/-- The honest servers vote alike, so only the Byzantine ones need counting. -/
theorem HonestMajority.ballots_length (hm : HonestMajority net byzantine state)
    (hc : Conduct net byzantine channel) (L : Limits) (tx : Transaction) :
    (net.participating.filterMap (votes net tx (fates L tx channel))).length =
      (net.participating.filter byzantine).countP
          (fun s => (votes net tx (fates L tx channel) s).isSome) +
        honestVotes L net byzantine state tx := by
  rw [List.length_filterMap_eq_countP, countP_split net.participating byzantine _
    fun s hs hb => by rw [(hm.vote hc hs hb L tx).1]]
  rfl

theorem HonestMajority.results_length (hm : HonestMajority net byzantine state)
    (hc : Conduct net byzantine channel) (L : Limits) (tx : Transaction) :
    (P2PNetwork.resultsOf (net.gather tx (fates L tx channel))).length =
      (net.participating.filter byzantine).countP
          (fun s => (sendToServer s tx (fates L tx channel s)).2.isSome) +
        honestVotes L net byzantine state tx := by
  rw [resultsOf_gather_length, countP_split net.participating byzantine _
    fun s hs hb => (hm.vote hc hs hb L tx).2]
  rfl

/-- A result that a broadcast returns is one of the round over the fates. -/
theorem broadcastWithin_eq_ok {now : ℕ} {recorded : Bool} {results : List NodeResult}
    {cr : ConsensusResult}
    (h : (net.broadcastWithin L R now tx channel recorded).2 = .ok (results, cr)) :
    (net.broadcast R now tx (fates L tx channel)).2 = .ok (results, cr) := by
  rw [P2PNetwork.broadcastWithin_eq] at h
  dsimp only at h
  split at h
  · cases h
  · next out hout =>
    split at h
    · rw [hout, Except.ok.inj h]
    · cases h

/-- Consensus on anything but the honest hash takes enough Byzantine servers. -/
theorem HonestMajority.outvotes (hm : HonestMajority net byzantine state)
    (hc : Conduct net byzantine channel) {now : ℕ} {results : List NodeResult}
    {cr : ConsensusResult}
    (hok : (net.broadcast R now tx (fates L tx channel)).2 = .ok (results, cr))
    (hreached : cr.consensusReached = true) {w : String} (hw : cr.agreedHash = some w)
    (hne : honestHashWithin L rt state tx ≠ some w) :
    OutvotesHonest L R net byzantine state tx := by
  obtain ⟨rfl, hmin, rfl⟩ := P2PNetwork.broadcast_eq_ok R hok
  obtain ⟨w', hw', ht⟩ := (runConsensus_reached_iff R _ _ _).mp hreached
  obtain rfl : w' = w := Option.some_inj.mp (hw'.symm.trans hw)
  have hplur := (runConsensus_agreedHash_iff R _ _ _ w').mp hw'
  rw [ballots_gather] at ht hplur
  -- Only Byzantine servers vote for the winner.
  have hcount : (net.participating.filterMap (votes net tx (fates L tx channel))).count w' =
      (net.participating.filter byzantine).countP
        fun s => votes net tx (fates L tx channel) s == some w' := by
    rw [List.count_filterMap, countP_split net.participating byzantine _ (a := false)
      (fun s hs hb => by rw [(hm.vote hc hs hb L tx).1]; simpa using hne)]
    simp
  have hresults : (P2PNetwork.resultsOf
      (net.gather tx (fates L tx channel))).length ≤
      honestVotes L net byzantine state tx + byzantineVotes net byzantine := by
    rw [hm.results_length hc, add_comm]
    exact Nat.add_le_add_left List.countP_le_length _
  have hle : (net.participating.filter byzantine).countP
        (fun s => votes net tx (fates L tx channel) s == some w') ≤
      (net.participating.filter byzantine).countP
        fun s => (votes net tx (fates L tx channel) s).isSome :=
    List.countP_mono_left fun s _ h => by rw [beq_iff_eq.mp h]; rfl
  have hbyz : (net.participating.filter byzantine).countP
      (fun s => (votes net tx (fates L tx channel) s).isSome) ≤ byzantineVotes net byzantine :=
    List.countP_le_length
  have hpos : 0 < (net.participating.filter byzantine).countP
      fun s => votes net tx (fates L tx channel) s == some w' :=
    hcount ▸ hplur.count_pos
  refine ⟨?_, by omega, by exact_mod_cast hmin.trans (by exact_mod_cast hresults),
    ht.trans (R.mono ?_)⟩
  · obtain ⟨s, -, hvote⟩ := List.countP_pos_iff.mp hpos
    have hresponse : (sendToServer s tx (fates L tx channel s)).2.isSome = true := by
      cases hr : (sendToServer s tx (fates L tx channel s)).2 with
      | none => simp [votes, hr, countedHash] at hvote
      | some r => rfl
    exact sends_of_response hresponse
  · rw [hcount, hm.ballots_length hc, add_comm]
    exact share_le hle hbyz

/-! ## The attack -/

/-- No digest: capital letters. -/
def forgedHash : String := "FORGED"

/-- All Byzantine servers sign one made-up hash. -/
def forgedChannel (byzantine : NodeServer rt → Bool) (server : NodeServer rt) : Channel :=
  if byzantine server then
    .byzantine (.result server.nodeId forgedHash
      (some (signResult rt.toCrypto server.nodeId forgedHash server.privateKey))) 0
  else .answered 0

theorem conduct_forgedChannel (net : P2PNetwork rt) (byzantine : NodeServer rt → Bool) :
    Conduct net byzantine (forgedChannel byzantine) := by
  intro server _
  cases hb : byzantine server <;> simp [forgedChannel, hb, OwnId]

/-- With enough Byzantine servers the round returns consensus on the made-up hash. -/
theorem HonestMajority.forged_wins (hm : HonestMajority net byzantine state)
    (ht : 1 / 2 < net.quorumThreshold) (ho : OutvotesHonest L R net byzantine state tx) (now : ℕ) :
    ∃ results cr,
      (net.broadcastWithin L R now tx (forgedChannel byzantine) true).2 = .ok (results, cr) ∧
        cr.consensusReached = true ∧ cr.agreedHash = some forgedHash := by
  obtain ⟨hsends, -, hmin, hshare⟩ := ho
  have hc := conduct_forgedChannel net byzantine
  have hforged : ∀ s ∈ net.participating.filter byzantine,
      votes net tx (fates L tx (forgedChannel byzantine)) s = some forgedHash ∧
        (sendToServer s tx (fates L tx (forgedChannel byzantine) s)).2.isSome = true := by
    intro s hs
    obtain ⟨hs, hb⟩ := List.mem_filter.mp hs
    have hk := P2PNetwork.get?_publicKeys hm.distinct (List.mem_of_mem_filter hs)
    simp only [votes, fates, fateWithin, forgedChannel, hb, if_true, if_pos hsends, sendToServer]
    exact ⟨countedHash_signed hk forgedHash 0, rfl⟩
  have hlength :
      (net.participating.filterMap (votes net tx (fates L tx (forgedChannel byzantine)))).length =
        honestVotes L net byzantine state tx + byzantineVotes net byzantine := by
    rw [hm.ballots_length hc, add_comm,
      List.countP_eq_length.mpr fun s hs => by rw [(hforged s hs).1]; rfl]
    rfl
  have hcount : byzantineVotes net byzantine ≤ (net.participating.filterMap
      (votes net tx (fates L tx (forgedChannel byzantine)))).count forgedHash := by
    have hall : (net.participating.filter byzantine).countP (fun s =>
        votes net tx (fates L tx (forgedChannel byzantine)) s == some forgedHash) =
          (net.participating.filter byzantine).length :=
      List.countP_eq_length.mpr fun s hs => beq_iff_eq.mpr (hforged s hs).1
    rw [List.count_filterMap, byzantineVotes, ← hall]
    exact List.filter_sublist.countP_le
  have hresults :
      (P2PNetwork.resultsOf (net.gather tx (fates L tx (forgedChannel byzantine)))).length =
        honestVotes L net byzantine state tx + byzantineVotes net byzantine := by
    rw [hm.results_length hc, add_comm,
      List.countP_eq_length.mpr fun s hs => (hforged s hs).2]
    rfl
  -- A share that rounds to more than one half is more than one half.
  have hmaj := majority_of_half_lt_share (R.lt_of_lt_round R.half (ht.trans_le hshare))
  have hplur : Plurality (net.participating.filterMap
      (votes net tx (fates L tx (forgedChannel byzantine)))) forgedHash :=
    Plurality.of_majority (by omega)
  have hfree := (P2PNetwork.broadcast_of_le R (by rw [hresults]; exact hmin) now).1
  refine ⟨_, _, by rw [P2PNetwork.broadcastWithin_eq, hfree]; rfl, ?_, ?_⟩
  · rw [runConsensus_reached_iff]
    refine ⟨forgedHash, ?_, ?_⟩
    · rw [runConsensus_agreedHash_iff, ballots_gather]
      exact hplur
    · rw [ballots_gather, hlength]
      exact hshare.trans (R.mono (div_le_div_of_nonneg_right (by exact_mod_cast hcount)
        (by positivity)))
  · rw [runConsensus_agreedHash_iff, ballots_gather]
    exact hplur

theorem not_bftValid_of_outvotes (hm : HonestMajority net byzantine state)
    (ht : 1 / 2 < net.quorumThreshold) (ho : OutvotesHonest L R net byzantine state tx) (now : ℕ) :
    ¬ BftValid L R net byzantine state now tx := by
  intro hvalid
  obtain ⟨results, cr, hok, hreached, hw⟩ := hm.forged_wins ht ho now
  obtain ⟨new, h, -, hh, hagreed⟩ :=
    hvalid _ _ (conduct_forgedChannel net byzantine) results cr hok hreached
  obtain ⟨data, rfl⟩ := stateHash_hex rt (Limits.stateHash_eq_ok.mp hh).1
  rw [hw] at hagreed
  exact ne_hexDigest rt.toCrypto (c := 'F') (by decide) (by decide) data
    (Option.some_inj.mp hagreed)

theorem bftValid_of_not_outvotes (hm : HonestMajority net byzantine state)
    (ho : ¬ OutvotesHonest L R net byzantine state tx) (now : ℕ) :
    BftValid L R net byzantine state now tx := by
  intro channel recorded hc results cr hok hreached
  have hfree := broadcastWithin_eq_ok hok
  obtain ⟨-, -, rfl⟩ := P2PNetwork.broadcast_eq_ok R hfree
  obtain ⟨w, hw, -⟩ := (runConsensus_reached_iff R _ _ _).mp hreached
  have hh : honestHashWithin L rt state tx = some w := by
    by_contra hne
    exact ho (hm.outvotes hc hfree hreached hw hne)
  obtain ⟨new, hex, hhash⟩ := honestHashWithin_spec hh
  exact ⟨new, w, hex, hhash, hw⟩

/-- Validity holds of a round exactly when the Byzantine servers cannot meet the
threshold among the servers that answer with a result. -/
theorem bftValid_iff (hm : HonestMajority net byzantine state)
    (ht : 1 / 2 < net.quorumThreshold) (now : ℕ) :
    BftValid L R net byzantine state now tx ↔ ¬ OutvotesHonest L R net byzantine state tx :=
  ⟨fun hvalid ho => not_bftValid_of_outvotes hm ht ho now hvalid,
    fun ho => bftValid_of_not_outvotes hm ho now⟩

end Rounds

/-! ## An overdraft decided by one server of three -/

def overdraftState : State := [(.str "balances", .dict [(.str "A", .int 10)])]

def overdraftNetwork : P2PNetwork (referenceRuntime false) :=
  .init .binary64 none
    [.init _ "Node-1" overdraftState "127.0.0.1" 9001 [1] false,
     .init _ "Node-2" overdraftState "127.0.0.1" 9002 [2] false,
     .init _ "Node-3" overdraftState "127.0.0.1" 9003 [3] false]
    none none none none

/-- More than the account holds. -/
def overdraft : Transaction :=
  [(.str "type", .str "burn"), (.str "from", .str "A"), (.str "amount", .int 1000)]

def thirdServer (server : NodeServer (referenceRuntime false)) : Bool := server.nodeId = "Node-3"

theorem honestMajority_overdraft :
    HonestMajority overdraftNetwork thirdServer overdraftState where
  distinct := by decide
  minority := by decide
  honest := by
    intro server hs
    simp only [overdraftNetwork, P2PNetwork.init, List.mem_cons, List.not_mem_nil, or_false] at hs
    rcases hs with rfl | rfl | rfl <;> exact fun _ => ⟨rfl, rfl⟩

theorem half_lt_defaultQuorumThreshold : 1 / 2 < defaultQuorumThreshold .binary64 := by
  decide +kernel

theorem outvotesHonest_overdraft :
    OutvotesHonest defaultLimits .binary64 overdraftNetwork thirdServer overdraftState
      overdraft := by
  decide +kernel

/-- Validity fails: one Byzantine server of three decides a rejected transaction. -/
theorem not_forall_bftValid :
    ¬ ∀ (L : Limits) (R : Rounding) (rt : Runtime) (net : P2PNetwork rt)
      (byzantine : NodeServer rt → Bool) (state : State) (now : ℕ) (tx : Transaction),
        HonestMajority net byzantine state → 1 / 2 < net.quorumThreshold →
          BftValid L R net byzantine state now tx :=
  fun h => not_bftValid_of_outvotes honestMajority_overdraft half_lt_defaultQuorumThreshold
    outvotesHonest_overdraft 0
    (h _ _ _ _ _ _ 0 _ honestMajority_overdraft half_lt_defaultQuorumThreshold)

/-- An amount the account can pay. -/
def withdrawal : Transaction :=
  [(.str "type", .str "burn"), (.str "from", .str "A"), (.str "amount", .int 4)]

/-- The same adversary has no chance on an accepted transaction. -/
theorem bftValid_withdrawal :
    BftValid defaultLimits .binary64 overdraftNetwork thirdServer overdraftState 0 withdrawal :=
  (bftValid_iff honestMajority_overdraft half_lt_defaultQuorumThreshold 0).mpr
    (by decide +kernel)

end ECN
