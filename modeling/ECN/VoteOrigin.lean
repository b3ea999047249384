import ECN.MessageLoss

/-!
# Where votes come from

The signed bytes bind a node and a hash but no round, so a vote that was sent once can be
sent again by anyone, and it is counted for its node in a round in which this node has
executed nothing. What a signature does show is that the node has produced the hash at
some time: in this round, or in an earlier one.
-/
namespace ECN

variable {rt : Runtime}

namespace P2PNetwork

variable (R : Rounding)

/-- The node reads the transaction and its own execution ends in the hash. -/
def Produces (net : P2PNetwork rt) (round : Round rt) (nodeId stateHash : String) : Prop :=
  ∃ server ∈ net.participating, server.nodeId = nodeId ∧
    (round.channel server).reaches = true ∧
    honestHash rt server.state round.tx = some stateHash

/-- The ids and hashes that servers sign in a round. -/
def signedIn (net : P2PNetwork rt) (round : Round rt) : List (String × String) :=
  net.participating.filterMap fun server =>
    if (round.channel server).reaches then
      match (server.handleClient round.tx).2 with
      | .result nodeId stateHash _ => some (nodeId, stateHash)
      | .error _ => none
    else none

/-- A network and all that its servers have signed. -/
structure Observed (rt : Runtime) where
  net : P2PNetwork rt
  signed : List (String × String)

def observe (o : Observed rt) (round : Round rt) : Observed rt :=
  ⟨o.net.play R round, o.signed ++ signedIn o.net round⟩

/-- What passes under the key of an honest node are bytes that it has signed. -/
def Unforgeable (honest : String → Bool) (o : Observed rt) (round : Round rt) : Prop :=
  ∀ r ∈ resultsOf (o.net.gather round.tx round.channel), honest r.nodeId = true →
    accepted (some o.net.publicKeys) r = true →
      ∃ e ∈ o.signed ++ signedIn o.net round, e.1 = r.nodeId ∧
        buildMessage rt.toCrypto e.1 e.2 = buildMessage rt.toCrypto r.nodeId r.stateHash

/-- No two of the texts that are signed or answered have one digest. -/
def CollisionFree (o : Observed rt) (round : Round rt) : Prop :=
  ∀ r ∈ resultsOf (o.net.gather round.tx round.channel),
    ∀ e ∈ o.signed ++ signedIn o.net round,
      buildMessage rt.toCrypto e.1 e.2 = buildMessage rt.toCrypto r.nodeId r.stateHash →
        e.1 ++ ":" ++ e.2 = r.nodeId ++ ":" ++ r.stateHash

/-- Every vote that passes under an honest id is the node's answer to this transaction. -/
def Fresh (honest : String → Bool) (net : P2PNetwork rt) (round : Round rt) : Prop :=
  ∀ r ∈ resultsOf (net.gather round.tx round.channel), honest r.nodeId = true →
    accepted (some net.publicKeys) r = true → net.Produces round r.nodeId r.stateHash

instance (net : P2PNetwork rt) (round : Round rt) (nodeId stateHash : String) :
    Decidable (net.Produces round nodeId stateHash) :=
  inferInstanceAs (Decidable (∃ _ ∈ _, _ ∧ _ ∧ _))

instance (honest : String → Bool) (net : P2PNetwork rt) (round : Round rt) :
    Decidable (Fresh honest net round) :=
  inferInstanceAs (Decidable (∀ _ ∈ _, _ → _ → _))

instance (honest : String → Bool) (o : Observed rt) (round : Round rt) :
    Decidable (Unforgeable honest o round) :=
  inferInstanceAs (Decidable (∀ _ ∈ _, _ → _ → ∃ _ ∈ _, _ ∧ _))

instance (o : Observed rt) (round : Round rt) : Decidable (CollisionFree o round) :=
  inferInstanceAs (Decidable (∀ _ ∈ _, ∀ _ ∈ _, _ → _))

/-- The servers under honest ids run the node code. -/
def RunsCode (honest : String → Bool) (net : P2PNetwork rt) : Prop :=
  ∀ server ∈ net.servers, honest server.nodeId = true → server.node.malicious = false

/-- Nobody else answers for the servers under honest ids. -/
def Conducts (honest : String → Bool) (round : Round rt) : Prop :=
  ∀ server, honest server.nodeId = true → (round.channel server).IsLossy

theorem RunsCode.play {honest : String → Bool} {net : P2PNetwork rt} (h : net.RunsCode honest)
    (round : Round rt) : (net.play R round).RunsCode honest := by
  intro after hafter hid
  rw [play_servers] at hafter
  obtain ⟨server, hs, rfl⟩ := List.mem_map.mp hafter
  by_cases hpart : net.isParticipating server = true
  · rw [if_pos hpart] at hid ⊢
    rw [sendToServer_nodeId] at hid
    have hgood := h server hs hid
    cases round.channel server with
    | requestLost => exact hgood
    | replyLost => exact (server.handleClient_malicious round.tx).trans hgood
    | answered latencyMs => exact (server.handleClient_malicious round.tx).trans hgood
    | byzantine reply latencyMs => exact hgood
  · rw [if_neg hpart] at hid ⊢
    exact h server hs hid

theorem RunsCode.run {honest : String → Bool} {net : P2PNetwork rt} (h : net.RunsCode honest)
    (rounds : List (Round rt)) : (rounds.foldl (P2PNetwork.play R) net).RunsCode honest :=
  (Throughout.of_step (P := RunsCode honest) (fun _ round hnet => hnet.play R round) h rounds).last

theorem net_observe (o : Observed rt) (rounds : List (Round rt)) :
    (rounds.foldl (observe R) o).net = rounds.foldl (P2PNetwork.play R) o.net := by
  induction rounds generalizing o with
  | nil => rfl
  | cons round rounds ih => exact ih (observe R o round)

/-- What has been signed was signed in some round. -/
theorem mem_signed_observe {o : Observed rt} {rounds : List (Round rt)} {e : String × String}
    (h : e ∈ (rounds.foldl (observe R) o).signed) : e ∈ o.signed ∨
      ∃ past round rest, rounds = past ++ round :: rest ∧
        e ∈ signedIn (past.foldl (P2PNetwork.play R) o.net) round := by
  induction rounds generalizing o with
  | nil => exact .inl h
  | cons round rounds ih =>
    rcases ih h with hnow | ⟨past, later, rest, rfl, hlater⟩
    · rcases List.mem_append.mp hnow with hold | hnew
      · exact .inl hold
      · exact .inr ⟨[], round, rounds, rfl, hnew⟩
    · exact .inr ⟨round :: past, later, rest, rfl, hlater⟩

/-- An honest node signs a hash in a round only if its own execution ends in it. -/
theorem RunsCode.produces_of_mem_signedIn {honest : String → Bool} {net : P2PNetwork rt}
    (h : net.RunsCode honest) {round : Round rt} {e : String × String}
    (he : e ∈ signedIn net round) (hid : honest e.1 = true) : net.Produces round e.1 e.2 := by
  obtain ⟨server, hserver, hsigned⟩ := List.mem_filterMap.mp he
  split at hsigned
  · next hreach =>
    cases hreply : (server.handleClient round.tx).2 with
    | error exc => simp [hreply] at hsigned
    | result nodeId stateHash signature =>
      simp only [hreply, Option.some_inj] at hsigned
      subst hsigned
      obtain rfl := NodeServer.nodeId_of_handleClient hreply
      have hgood := h server (List.mem_of_mem_filter hserver) hid
      exact ⟨server, hserver, rfl, hreach, Concurrent.handleClient_result hgood hreply⟩
  · cases hsigned

/-- What a server under an honest id answers, it has produced in this round. -/
theorem RunsCode.produces_of_answer {honest : String → Bool} {net : P2PNetwork rt}
    (h : net.RunsCode honest) {round : Round rt} (hc : Conducts honest round)
    {server : NodeServer rt} (hs : server ∈ net.participating) {r : NodeResult} {latencyMs : ℚ}
    (hsend : (sendToServer server round.tx (round.channel server)).2 = some (r, latencyMs))
    (hid : honest server.nodeId = true) : net.Produces round server.nodeId r.stateHash := by
  have hlossy := hc server hid
  cases hchannel : round.channel server with
  | requestLost => simp [hchannel, sendToServer] at hsend
  | replyLost => simp [hchannel, sendToServer] at hsend
  | byzantine reply sent =>
    rw [hchannel] at hlossy
    exact absurd hlossy id
  | answered sent =>
    rw [hchannel] at hsend
    cases hreply : (server.handleClient round.tx).2 with
    | error exc => simp [sendToServer, hreply, receive] at hsend
    | result nodeId stateHash signature =>
      simp only [sendToServer, hreply, receive] at hsend
      obtain ⟨rfl, -⟩ := Prod.mk.inj (Option.some_inj.mp hsend)
      have hgood := h server (List.mem_of_mem_filter hs) hid
      exact ⟨server, hs, rfl, by rw [hchannel]; rfl, Concurrent.handleClient_result hgood hreply⟩

theorem stateHash_eq_of_text {nodeId h h' : String} (he : nodeId ++ ":" ++ h = nodeId ++ ":" ++ h') :
    h = h' := by
  have hlist := congrArg String.toList he
  simp only [String.toList_append, List.append_assoc, List.append_cancel_left_eq] at hlist
  exact String.toList_inj.mp hlist

/-- A vote that passes under an honest id comes from the node's own execution: of the
transaction of this round when the node sends it, and of this or an earlier round whoever
sends it. -/
theorem vote_origin {honest : String → Bool} {net : P2PNetwork rt} {rounds : List (Round rt)}
    (hcode : net.RunsCode honest) (hconduct : ∀ round ∈ rounds, Conducts honest round)
    (hforge : StepsMeet (observe R) (Unforgeable honest) ⟨net, []⟩ rounds)
    (hfree : StepsMeet (observe R) CollisionFree ⟨net, []⟩ rounds)
    {past rest : List (Round rt)} {round : Round rt} (hrounds : rounds = past ++ round :: rest)
    {server : NodeServer rt} {r : NodeResult} {latencyMs : ℚ}
    (hs : server ∈ (past.foldl (P2PNetwork.play R) net).participating)
    (hsend : (sendToServer server round.tx (round.channel server)).2 = some (r, latencyMs))
    (hacc : accepted (some (past.foldl (P2PNetwork.play R) net).publicKeys) r = true)
    (hid : honest r.nodeId = true) :
    (server.nodeId = r.nodeId →
      (past.foldl (P2PNetwork.play R) net).Produces round r.nodeId r.stateHash) ∧
    ∃ past' round' rest', past ++ [round] = past' ++ round' :: rest' ∧
      (past'.foldl (P2PNetwork.play R) net).Produces round' r.nodeId r.stateHash := by
  subst hrounds
  have hnet := net_observe R ⟨net, []⟩ past
  dsimp only at hnet
  have hr : r ∈ resultsOf ((past.foldl (P2PNetwork.play R) net).gather round.tx round.channel) :=
    mem_resultsOf_gather.mpr ⟨server, hs, latencyMs, hsend⟩
  refine ⟨fun hown => ?_, ?_⟩
  · rw [← hown] at hid ⊢
    exact (hcode.run R past).produces_of_answer (hconduct round (by simp)) hs hsend hid
  · have hforged := hforge.split
    have hcollision := hfree.split
    unfold Unforgeable at hforged
    unfold CollisionFree at hcollision
    rw [hnet] at hforged hcollision
    obtain ⟨e, he, heid, hbytes⟩ := hforged r hr hid hacc
    have htext := hcollision r hr e he hbytes
    rw [heid] at htext
    have hhash : e.2 = r.stateHash := stateHash_eq_of_text htext
    rw [← heid, ← hhash]
    rw [← heid] at hid
    rcases List.mem_append.mp he with hpast | hnow
    · rcases mem_signed_observe R hpast with hnone | ⟨past', round', rest', rfl, hsigned⟩
      · cases hnone
      · refine ⟨past', round', rest' ++ [round], by simp, ?_⟩
        exact (hcode.run R past').produces_of_mem_signedIn hsigned hid
    · exact ⟨past, round, [], rfl, (hcode.run R past).produces_of_mem_signedIn hnow hid⟩

/-! ## A replayed vote -/

def notThird (nodeId : String) : Bool := nodeId ≠ "Node-3"

def firstServer : NodeServer (referenceRuntime false) :=
  .init _ "Node-1" overdraftState "127.0.0.1" 9001 [1] false

/-- What the first server answers in the first round. -/
def recordedVote : Reply := (firstServer.handleClient withdrawal).2

/-- Only the first server is reached. -/
def openingRound : Round (referenceRuntime false) :=
  ⟨withdrawal, 0, fun server => if server.nodeId = "Node-1" then .answered 0 else .requestLost⟩

/-- Only the third server is reached, and it sends the recorded vote. -/
def replayRound : Round (referenceRuntime false) :=
  ⟨withdrawal, 1, fun server =>
    if thirdServer server then .byzantine recordedVote 0 else .requestLost⟩

theorem conducts_replay : ∀ round ∈ [openingRound, replayRound], Conducts notThird round := by
  intro round hround server hid
  simp only [List.mem_cons, List.not_mem_nil, or_false] at hround
  rcases hround with rfl | rfl
  · unfold openingRound
    dsimp only
    split <;> trivial
  · have hthird : thirdServer server = false := by
      simpa [notThird, thirdServer] using hid
    simp only [replayRound, hthird, Bool.false_eq_true, if_false]
    trivial

theorem runsCode_overdraftNetwork : overdraftNetwork.RunsCode notThird :=
  fun server hs _ => honest_overdraftNetwork.honest server hs

/-- The network after the first round. -/
def openedNetwork : P2PNetwork (referenceRuntime false) :=
  overdraftNetwork.play .binary64 openingRound

/-- The run of the two rounds, evaluated. -/
theorem replay_evaluated :
    StepsMeet (observe .binary64) (Unforgeable notThird) ⟨overdraftNetwork, []⟩
      [openingRound, replayRound] ∧
    StepsMeet (observe .binary64) CollisionFree ⟨overdraftNetwork, []⟩
      [openingRound, replayRound] ∧
    (∃ server ∈ openedNetwork.participating, thirdServer server = true) ∧
    (receive 0 recordedVote).isSome = true ∧
    (∀ r ∈ resultsOf (openedNetwork.gather replayRound.tx replayRound.channel),
      notThird r.nodeId = true ∧ accepted (some openedNetwork.publicKeys) r = true) ∧
    ¬ Fresh notThird openedNetwork replayRound := by
  decide +kernel

/-- The recorded vote is counted for the first server in a round that never reached it. -/
theorem old_vote_counted :
    overdraftNetwork.RunsCode notThird ∧
    (∀ round ∈ [openingRound, replayRound], Conducts notThird round) ∧
    StepsMeet (observe .binary64) (Unforgeable notThird) ⟨overdraftNetwork, []⟩
      [openingRound, replayRound] ∧
    ¬ Fresh notThird openedNetwork replayRound := by
  obtain ⟨hforge, -, -, -, -, hold⟩ := replay_evaluated
  exact ⟨runsCode_overdraftNetwork, conducts_replay, hforge, hold⟩

/-- The recorded vote was produced by the first server all the same. -/
theorem old_vote_origin : ∃ server ∈ openedNetwork.participating,
    ∃ r latencyMs, (sendToServer server replayRound.tx (replayRound.channel server)).2 =
        some (r, latencyMs) ∧
      ∃ past round rest, [openingRound, replayRound] = past ++ round :: rest ∧
        (past.foldl (P2PNetwork.play .binary64) overdraftNetwork).Produces round r.nodeId
          r.stateHash := by
  obtain ⟨hforge, hfree, ⟨server, hs, hthird⟩, hresult, hvotes, -⟩ := replay_evaluated
  have hchannel : replayRound.channel server = .byzantine recordedVote 0 := by
    simp [replayRound, hthird]
  cases hvote : recordedVote with
  | error e =>
    rw [hvote] at hresult
    cases hresult
  | result nodeId stateHash signature =>
    have hsend : (sendToServer server replayRound.tx (replayRound.channel server)).2 =
        some (⟨nodeId, stateHash, [], none, signature⟩, 0) := by
      rw [hchannel, hvote]
      rfl
    obtain ⟨hid, hacc⟩ := hvotes _ (mem_resultsOf_gather.mpr ⟨server, hs, 0, hsend⟩)
    have hrounds : [openingRound, replayRound] = [openingRound] ++ replayRound :: [] := rfl
    exact ⟨server, hs, _, _, hsend, (vote_origin .binary64 runsCode_overdraftNetwork
      conducts_replay hforge hfree hrounds hs hsend hacc hid).2⟩

end P2PNetwork
end ECN
