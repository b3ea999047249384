import ECN.Attribution
import ECN.Delivery

/-!
# Lost messages and accusations

A server whose request is lost stays behind for good: no round brings it the missed
transaction. From then on its hash differs and it is listed as faulty although it runs
the node code. An accusation among honest servers therefore says one thing only, that
the accused has read other requests than a server that is listed as honest.
-/
namespace ECN

open Concurrent (replay)

variable {rt : Runtime}

/-- The connection, the request or the reply may be lost; nobody interferes otherwise. -/
def Channel.IsLossy : Channel → Prop
  | .byzantine _ _ => False
  | _ => True

/-- What an honest server answers is under its own id, passes, and carries the hash of its
own evaluation. -/
theorem result_of_answered {keys : OrderedDict String rt.PublicKey} {server : NodeServer rt}
    (hk : keys.get? server.nodeId = some server.publicKey) (hm : server.node.malicious = false)
    {tx : Transaction} {sent latencyMs : ℚ} {r : NodeResult}
    (h : (sendToServer server tx (.answered sent)).2 = some (r, latencyMs)) :
    r.nodeId = server.nodeId ∧ accepted (some keys) r = true ∧
      honestHash rt server.state tx = some r.stateHash := by
  have hvote := countedHash_answered hk hm tx sent
  have hsome := answered_isSome server tx sent
  rw [h] at hvote hsome
  refine ⟨P2PNetwork.nodeId_of_answered h, ?_⟩
  cases hacc : accepted (some keys) r with
  | true =>
    simp only [countedHash, hacc, if_true] at hvote
    exact ⟨rfl, hvote.symm⟩
  | false =>
    simp only [countedHash, hacc, Bool.false_eq_true, if_false] at hvote
    rw [← hvote] at hsome
    cases hsome

namespace P2PNetwork

/-- The node is sent the transaction and reads it. -/
def Hears (net : P2PNetwork rt) (round : Round rt) (nodeId : String) : Prop :=
  ∃ server ∈ net.participating, server.nodeId = nodeId ∧
    (round.channel server).reaches = true

instance (net : P2PNetwork rt) (round : Round rt) (nodeId : String) :
    Decidable (net.Hears round nodeId) :=
  inferInstanceAs (Decidable (∃ _ ∈ _, _))

variable (R : Rounding)

/-- The transactions that a node reads in a run. -/
def heard (nodeId : String) : P2PNetwork rt → List (Round rt) → List Transaction
  | _, [] => []
  | net, round :: rounds =>
    if net.Hears round nodeId then round.tx :: heard nodeId (net.play R round) rounds
    else heard nodeId (net.play R round) rounds

/-- Honest servers under distinct ids; `states` says in which state each of them is. -/
structure Honest (net : P2PNetwork rt) (states : String → State) : Prop where
  distinct : (net.servers.map NodeServer.nodeId).Nodup
  honest : ∀ server ∈ net.servers, server.node.malicious = false
  states : ∀ server ∈ net.servers, server.state = states server.nodeId

theorem nodeIds_play (net : P2PNetwork rt) (round : Round rt) :
    (net.play R round).servers.map NodeServer.nodeId = net.servers.map NodeServer.nodeId := by
  rw [play_servers, serve, List.map_map]
  refine List.map_congr_left fun server _ => ?_
  simp only [Function.comp]
  split
  · exact sendToServer_nodeId server round.tx (round.channel server)
  · rfl

theorem nodeIds_run (net : P2PNetwork rt) (rounds : List (Round rt)) :
    (rounds.foldl (P2PNetwork.play R) net).servers.map NodeServer.nodeId =
      net.servers.map NodeServer.nodeId := by
  induction rounds generalizing net with
  | nil => rfl
  | cons round rounds ih => exact (ih (net.play R round)).trans (nodeIds_play R net round)

theorem sendToServer_of_lossy (server : NodeServer rt) (tx : Transaction) {channel : Channel}
    (hc : channel.IsLossy) :
    (sendToServer server tx channel).1.node.malicious = server.node.malicious ∧
    (sendToServer server tx channel).1.state =
      if channel.reaches then NodeServer.nextState rt server.state tx else server.state := by
  cases channel with
  | requestLost => exact ⟨rfl, rfl⟩
  | replyLost => exact ⟨server.handleClient_malicious tx, server.handleClient_state tx⟩
  | answered latencyMs => exact ⟨server.handleClient_malicious tx, server.handleClient_state tx⟩
  | byzantine reply latencyMs => exact absurd hc id

theorem hears_iff {net : P2PNetwork rt} (hids : (net.servers.map NodeServer.nodeId).Nodup)
    {server : NodeServer rt} (hs : server ∈ net.servers) (round : Round rt) :
    net.Hears round server.nodeId ↔
      net.isParticipating server = true ∧ (round.channel server).reaches = true := by
  constructor
  · rintro ⟨other, hother, hid, hreach⟩
    obtain ⟨hmem, hpart⟩ := List.mem_filter.mp hother
    obtain rfl := List.inj_on_of_nodup_map hids hmem hs hid
    exact ⟨hpart, hreach⟩
  · rintro ⟨hpart, hreach⟩
    exact ⟨server, List.mem_filter.mpr ⟨hs, hpart⟩, rfl, hreach⟩

/-- A lossy round advances exactly the nodes that read its transaction. -/
theorem Honest.play {net : P2PNetwork rt} {states : String → State} (h : net.Honest states)
    {round : Round rt} (hl : ∀ server, (round.channel server).IsLossy) :
    (net.play R round).Honest fun nodeId =>
      if net.Hears round nodeId then NodeServer.nextState rt (states nodeId) round.tx
      else states nodeId := by
  refine ⟨?_, ?_, ?_⟩
  · rw [nodeIds_play]
    exact h.distinct
  · intro after hafter
    rw [play_servers] at hafter
    obtain ⟨server, hs, rfl⟩ := List.mem_map.mp hafter
    split
    · rw [(sendToServer_of_lossy server round.tx (hl server)).1]
      exact h.honest server hs
    · exact h.honest server hs
  · intro after hafter
    rw [play_servers] at hafter
    obtain ⟨server, hs, rfl⟩ := List.mem_map.mp hafter
    have hstate := h.states server hs
    have hhears := hears_iff h.distinct hs round
    by_cases hpart : net.isParticipating server = true
    · rw [if_pos hpart, sendToServer_nodeId, (sendToServer_of_lossy server round.tx (hl server)).2,
        hstate]
      simp only [hhears, hpart, true_and]
    · rw [if_neg hpart, hstate]
      simp only [hhears, hpart, Bool.false_eq_true, false_and, if_false]

/-- After a lossy run each server's state is a replay of what it has read. -/
theorem Honest.run {net : P2PNetwork rt} {states : String → State} (h : net.Honest states)
    {rounds : List (Round rt)}
    (hl : ∀ round ∈ rounds, ∀ server, (round.channel server).IsLossy) :
    (rounds.foldl (P2PNetwork.play R) net).Honest fun nodeId =>
      replay rt (states nodeId) (heard R nodeId net rounds) := by
  induction rounds generalizing net states with
  | nil => exact h
  | cons round rounds ih =>
    have hnext := ih (h.play R (hl round List.mem_cons_self))
      fun r hr => hl r (List.mem_cons_of_mem round hr)
    refine ⟨hnext.distinct, hnext.honest, fun server hs => ?_⟩
    have hstate := hnext.states server hs
    rw [hstate, heard]
    by_cases hhears : net.Hears round server.nodeId
    · simp only [if_pos hhears]
      rfl
    · simp only [if_neg hhears]

/-- Every result of a lossy round comes from a node that was asked, passes, and carries the
hash of this node's evaluation. -/
theorem Honest.result {net : P2PNetwork rt} {states : String → State} (h : net.Honest states)
    {round : Round rt} (hl : ∀ server, (round.channel server).IsLossy) {r : NodeResult}
    (hr : r ∈ resultsOf (net.gather round.tx round.channel)) :
    net.IsSent r.nodeId ∧ accepted (some net.publicKeys) r = true ∧
      honestHash rt (states r.nodeId) round.tx = some r.stateHash := by
  obtain ⟨server, hserver, latencyMs, hsend⟩ := mem_resultsOf_gather.mp hr
  have hs : server ∈ net.servers := List.mem_of_mem_filter hserver
  have hlossy := hl server
  cases hc : round.channel server with
  | requestLost => simp [hc, sendToServer] at hsend
  | replyLost => simp [hc, sendToServer] at hsend
  | byzantine reply sent =>
    rw [hc] at hlossy
    exact absurd hlossy id
  | answered sent =>
    rw [hc] at hsend
    obtain ⟨hid, hacc, hhash⟩ := result_of_answered (get?_publicKeys h.distinct hs)
      (h.honest server hs) hsend
    refine ⟨⟨server, hserver, hid.symm⟩, hacc, ?_⟩
    rw [hid, ← h.states server hs]
    exact hhash

/-- A server is listed as faulty only next to a listed honest one whose state differs. -/
theorem Honest.listsFaulty {net : P2PNetwork rt} {states : String → State}
    (h : net.Honest states) {round : Round rt} (hl : ∀ server, (round.channel server).IsLossy)
    {results : List NodeResult} {cr : ConsensusResult}
    (hok : (net.broadcast R round.now round.tx round.channel).2 = .ok (results, cr)) :
    cr.invalidSigNodes = [] ∧ ∀ nodeId ∈ cr.faultyNodes, net.IsSent nodeId ∧
      ∃ other ∈ cr.honestNodes, net.IsSent other ∧ states other ≠ states nodeId := by
  obtain ⟨rfl, -, rfl⟩ := broadcast_eq_ok R hok
  constructor
  · rw [runConsensus_invalidSigNodes, invalidSigIds, List.map_eq_nil_iff, List.filter_eq_nil_iff]
    intro r hr
    simp [(h.result hl hr).2.1]
  · intro nodeId hfaulty
    obtain ⟨r, hr, rfl, hbad⟩ := (mem_faultyNodes_iff R _ _ _ _).mp hfaulty
    obtain ⟨hsent, hacc, hhash⟩ := h.result hl hr
    have hdiverges := hbad.resolve_left (by simp [hacc])
    have hverified : r ∈ verifiedResults (resultsOf (net.gather round.tx round.channel))
        (some net.publicKeys) := List.mem_filter.mpr ⟨hr, hacc⟩
    obtain ⟨w, hw⟩ := Plurality.exists_of_ne_nil
      (List.ne_nil_of_mem (List.mem_map_of_mem (f := NodeResult.stateHash) hverified))
    obtain ⟨winner, hwinner, hwin⟩ := List.mem_map.mp hw.mem
    obtain ⟨hmem, hwacc⟩ := List.mem_filter.mp hwinner
    have hagreed := (runConsensus_agreedHash_iff R (resultsOf (net.gather round.tx round.channel))
      (some net.publicKeys) net.quorumThreshold w).mpr hw
    rw [← hwin] at hagreed
    obtain ⟨hwsent, -, hwhash⟩ := h.result hl hmem
    refine ⟨hsent, winner.nodeId, mem_honestNodes R _ _ _ hmem hwacc hagreed, hwsent,
      fun hsame => ?_⟩
    rw [hsame, hhash] at hwhash
    exact hdiverges (hagreed.trans hwhash.symm)

/-! ## Replies lost -/

/-- A node that takes part now has taken part in every round before. -/
theorem heard_of_participating {net : P2PNetwork rt} {rounds : List (Round rt)}
    (hread : ∀ round ∈ rounds, ∀ server, (round.channel server).reaches = true)
    {nodeId : String} (hsent : (rounds.foldl (P2PNetwork.play R) net).IsSent nodeId) :
    heard R nodeId net rounds = rounds.map Round.tx := by
  induction rounds generalizing net with
  | nil => rfl
  | cons round rounds ih =>
    have hrest := ih (fun r hr => hread r (List.mem_cons_of_mem round hr)) hsent
    have hids : nodeId ∈ net.servers.map NodeServer.nodeId := by
      obtain ⟨server, hserver, rfl⟩ := hsent
      have hmem := List.mem_map_of_mem (f := NodeServer.nodeId) (List.mem_of_mem_filter hserver)
      rwa [nodeIds_run] at hmem
    obtain ⟨server, hs, rfl⟩ := List.mem_map.mp hids
    have hpart : net.isParticipating server = true := by
      by_contra hno
      have hexcluded : net.IsExcluded server.nodeId := by
        simpa [isParticipating, IsExcluded] using hno
      exact (hexcluded.throughout R (round :: rounds)).last.not_isSent hsent
    have hhears : net.Hears round server.nodeId :=
      ⟨server, List.mem_filter.mpr ⟨hs, hpart⟩, rfl, hread round List.mem_cons_self server⟩
    rw [heard, if_pos hhears, hrest, List.map_cons]

/-! ## Accusations in lossy runs -/

/-- In every round of every lossy run of honest servers no signature is rejected, a node is
listed as faulty only next to an honest one that has read other requests, and no node is
listed as long as only replies are lost. -/
theorem accused_heard_differently {net : P2PNetwork rt} {state : State}
    (h : net.Honest fun _ => state) {past : List (Round rt)} {round : Round rt}
    (hl : ∀ r ∈ past ++ [round], ∀ server, (r.channel server).IsLossy)
    {results : List NodeResult} {cr : ConsensusResult}
    (hok : ((past.foldl (P2PNetwork.play R) net).broadcast R round.now round.tx
      round.channel).2 = .ok (results, cr)) :
    cr.invalidSigNodes = [] ∧
    (∀ nodeId ∈ cr.faultyNodes, ∃ other ∈ cr.honestNodes,
      heard R other net past ≠ heard R nodeId net past) ∧
    ((∀ r ∈ past, ∀ server, (r.channel server).reaches = true) → cr.faultyNodes = []) := by
  have hpast := h.run R fun r hr => hl r (List.mem_append_left [round] hr)
  obtain ⟨hsig, hfaulty⟩ := hpast.listsFaulty R (hl round (by simp)) hok
  refine ⟨hsig, fun nodeId hmem => ?_, fun hread => ?_⟩
  · obtain ⟨-, other, hother, -, hne⟩ := hfaulty nodeId hmem
    exact ⟨other, hother, fun hsame => hne (congrArg (replay rt state) hsame)⟩
  · rw [List.eq_nil_iff_forall_not_mem]
    intro nodeId hmem
    obtain ⟨hsent, other, -, hosent, hne⟩ := hfaulty nodeId hmem
    rw [heard_of_participating R hread hsent, heard_of_participating R hread hosent] at hne
    exact hne rfl

theorem honest_overdraftNetwork : overdraftNetwork.Honest fun _ => overdraftState where
  distinct := honestMajority_overdraft.distinct
  honest := by decide
  states := by
    intro server hs
    simp only [overdraftNetwork, P2PNetwork.init, List.mem_cons, List.not_mem_nil, or_false] at hs
    rcases hs with rfl | rfl | rfl <;> rfl

def lossyRound (channel : NodeServer (referenceRuntime false) → Channel) :
    Round (referenceRuntime false) := ⟨withdrawal, 0, channel⟩

theorem isLossy_thirdLost (server : NodeServer (referenceRuntime false)) :
    (thirdLost server).IsLossy := by
  unfold thirdLost
  split <;> trivial

/-- The third reply is lost. -/
def thirdSilent (server : NodeServer (referenceRuntime false)) : Channel :=
  if thirdServer server then .replyLost else .answered 0

/-- Two servers under one id. -/
def namesakes : P2PNetwork (referenceRuntime false) :=
  .init .binary64 none
    [.init _ "Node-1" overdraftState "127.0.0.1" 9001 [1] false,
     .init _ "Node-1" overdraftState "127.0.0.1" 9002 [2] false]
    none none none none

/-- After one lost request the third server is accused in a round in which every message
arrives; and of two servers under one id one is accused without any loss. -/
theorem lost_request_accused :
    overdraftNetwork.Honest (fun _ => overdraftState) ∧
    (∀ server, (thirdLost server).IsLossy) ∧
    ListsFaulty "Node-3" ((overdraftNetwork.play .binary64 (lossyRound thirdLost)).broadcast
      .binary64 1 withdrawal fun _ => .answered 0).2 ∧
    (∀ server ∈ namesakes.servers, server.node.malicious = false ∧
      server.state = overdraftState) ∧
    ListsFaulty "Node-1" (namesakes.broadcast .binary64 0 withdrawal fun _ => .answered 0).2 := by
  refine ⟨honest_overdraftNetwork, isLossy_thirdLost, by decide +kernel, ?_, by decide +kernel⟩
  intro server hs
  simp only [namesakes, P2PNetwork.init, List.mem_cons, List.not_mem_nil, or_false] at hs
  rcases hs with rfl | rfl <;> exact ⟨rfl, rfl⟩

theorem isLossy_thirdSilent (server : NodeServer (referenceRuntime false)) :
    (thirdSilent server).IsLossy := by
  unfold thirdSilent
  split <;> trivial

theorem reaches_thirdSilent (server : NodeServer (referenceRuntime false)) :
    (thirdSilent server).reaches = true := by
  unfold thirdSilent
  split <;> rfl

/-- Lost replies are no reason for an accusation. -/
theorem lost_reply_not_accused : ∃ results cr,
    ((overdraftNetwork.play .binary64 (lossyRound thirdSilent)).broadcast .binary64 0 withdrawal
      thirdSilent).2 = .ok (results, cr) ∧ cr.faultyNodes = [] := by
  cases hok : ((overdraftNetwork.play .binary64 (lossyRound thirdSilent)).broadcast .binary64 0
      withdrawal thirdSilent).2 with
  | error e =>
    have hreturns : ((overdraftNetwork.play .binary64 (lossyRound thirdSilent)).broadcast
        .binary64 0 withdrawal thirdSilent).2.isOk = true := by decide +kernel
    rw [hok] at hreturns
    cases hreturns
  | ok out =>
    have hlossy : ∀ r ∈ [lossyRound thirdSilent] ++ [lossyRound thirdSilent],
        ∀ server, (r.channel server).IsLossy := by
      intro r hr
      simp only [List.mem_append, List.mem_singleton, or_self] at hr
      rw [hr]
      exact isLossy_thirdSilent
    refine ⟨out.1, out.2, rfl,
      (accused_heard_differently .binary64 honest_overdraftNetwork hlossy hok).2.2 ?_⟩
    intro r hr
    rw [List.mem_singleton.mp hr]
    exact reaches_thirdSilent

end P2PNetwork
end ECN
