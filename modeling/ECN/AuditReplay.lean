import ECN.AuditStream
import ECN.MessageLoss

/-!
# Rebuilding the nodes from the audit log

The replay endpoint lists the recorded rounds. When every server reads every transaction,
the listed transactions alone lead from the initial state to the state of every server,
through states whose hashes are the listed ones. A broadcast that raises leaves no line,
and it leaves no state either as long as its results were not lost.
-/
namespace ECN

open Concurrent (replay)
open P2PNetwork (resultsOf)

variable {rt : Runtime}

/-! ## The endpoint -/

/-- One line of the replay log. -/
structure ReplayEntry where
  roundId : ℕ
  timestamp : String
  transaction : Transaction
  consensusReached : Bool
  agreedHash : Option String
  faultDetected : Bool
  faultyNodes : List String

def AuditEvent.replayEntry (e : AuditEvent) : ReplayEntry where
  roundId := e.roundId
  timestamp := e.timestamp
  transaction := e.transaction
  consensusReached := e.consensusReached
  agreedHash := e.agreedHash
  faultDetected := Submissions.hasFault e
  faultyNodes := e.faultyNodes

/-- The transactions of the lines. -/
def transactionsOf (entries : List ReplayEntry) : List Transaction :=
  entries.map ReplayEntry.transaction

/-- Every line names the hash of the state that the lines so far lead to, its transaction is
accepted there, and it reports a round that all nodes agreed in. -/
def Rebuilds (rt : Runtime) (start : State) (entries : List ReplayEntry) : Prop :=
  ∀ past e rest, entries = past ++ e :: rest →
    e.roundId = past.length + 1 ∧
    (∃ new hash, rt.execute (replay rt start (transactionsOf past)) e.transaction = .ok new ∧
      replay rt start (transactionsOf (past ++ [e])) = new ∧
      stateHash rt false new = .ok hash ∧ e.agreedHash = some hash) ∧
    e.consensusReached = true ∧ e.faultDetected = false

/-- A line is added. -/
theorem Rebuilds.concat {start : State} {entries : List ReplayEntry} {e : ReplayEntry}
    (h : Rebuilds rt start entries) (hid : e.roundId = entries.length + 1)
    {new : State} {hash : String}
    (hex : rt.execute (replay rt start (transactionsOf entries)) e.transaction = .ok new)
    (hnew : replay rt start (transactionsOf (entries ++ [e])) = new)
    (hhash : stateHash rt false new = .ok hash) (hagreed : e.agreedHash = some hash)
    (hreached : e.consensusReached = true) (hfault : e.faultDetected = false) :
    Rebuilds rt start (entries ++ [e]) := by
  intro past e' rest hsplit
  rcases List.eq_nil_or_concat rest with rfl | ⟨rest', last, rfl⟩
  · obtain ⟨rfl, hlast⟩ := List.append_inj' hsplit rfl
    obtain rfl := List.singleton_inj.mp hlast
    exact ⟨hid, ⟨new, hash, hex, hnew, hhash, hagreed⟩, hreached, hfault⟩
  · rw [List.concat_eq_append, ← List.cons_append, ← List.append_assoc] at hsplit
    exact h past e' rest' (List.append_inj' hsplit rfl).1

/-! ## One round -/

/-- The reply comes back. -/
def Channel.answers : Channel → Bool
  | .answered _ => true
  | .requestLost | .replyLost | .byzantine _ _ => false

namespace P2PNetwork

variable (R : Rounding)

/-- Every server reads the transaction, and enough replies come back. -/
structure HeardByAll (net : P2PNetwork rt) (round : Round rt) : Prop where
  lossy : ∀ server, (round.channel server).IsLossy
  heard : ∀ server ∈ net.servers, net.Hears round server.nodeId
  enough : net.minResponses ≤ net.participating.countP fun server =>
    (round.channel server).answers

/-- The lines lead to the state that all servers are in. -/
structure Rebuilt (start : State) (net : P2PNetwork rt) (log : AuditLog) : Prop where
  shaped : WellShaped (replay rt start (transactionsOf (log.events.map AuditEvent.replayEntry)))
  honest : net.Honest fun _ =>
    replay rt start (transactionsOf (log.events.map AuditEvent.replayEntry))
  lines : Rebuilds rt start (log.events.map AuditEvent.replayEntry)

variable {net : P2PNetwork rt} {round : Round rt} {state : State}

/-- Where the engine accepts, each reply that comes back is a result. -/
theorem length_resultsOf_of_accepted (h : net.Honest fun _ => state)
    (hl : ∀ server, (round.channel server).IsLossy) {hash : String}
    (hhash : honestHash rt state round.tx = some hash) :
    (resultsOf (net.gather round.tx round.channel)).length =
      net.participating.countP fun server => (round.channel server).answers := by
  rw [resultsOf, gather, List.filterMap_map, List.length_filterMap_eq_countP]
  refine List.countP_congr fun server hserver => ?_
  have hs : server ∈ net.servers := List.mem_of_mem_filter hserver
  have hlossy := hl server
  cases hc : round.channel server with
  | requestLost => simp [hc, sendToServer, Channel.answers]
  | replyLost => simp [hc, sendToServer, Channel.answers]
  | byzantine reply sent =>
    rw [hc] at hlossy
    exact absurd hlossy id
  | answered sent =>
    have hsome := answered_isSome server round.tx sent
    rw [h.states server hs, hhash] at hsome
    simp [hc, hsome, Channel.answers]

/-- Where the engine rejects, there is no result. -/
theorem resultsOf_of_rejected (h : net.Honest fun _ => state)
    (hl : ∀ server, (round.channel server).IsLossy)
    (hhash : honestHash rt state round.tx = none) :
    resultsOf (net.gather round.tx round.channel) = [] := by
  rw [List.eq_nil_iff_forall_not_mem]
  intro r hr
  have hresult := (h.result hl hr).2.2
  rw [hhash] at hresult
  cases hresult

/-- A round of honest servers in one state, all of which vote. -/
theorem runConsensus_of_agreement (keys : Option (OrderedDict String rt.PublicKey)) {t : ℚ}
    (ht : t ≤ 1) {results : List NodeResult} (hne : results ≠ []) (hash : String)
    (hacc : ∀ r ∈ results, accepted keys r = true) (hhash : ∀ r ∈ results, r.stateHash = hash) :
    (runConsensus R results keys t).agreedHash = some hash ∧
      (runConsensus R results keys t).consensusReached = true ∧
      (runConsensus R results keys t).faultyNodes = [] := by
  have hballots : ballots results keys = List.replicate results.length hash := by
    rw [ballots, verifiedResults, List.filter_eq_self.mpr hacc, List.eq_replicate_iff]
    refine ⟨List.length_map _, fun x hx => ?_⟩
    obtain ⟨r, hr, rfl⟩ := List.mem_map.mp hx
    exact hhash r hr
  have hpos : 0 < results.length := List.length_pos_iff.mpr hne
  have hmem : hash ∈ ballots results keys := by
    rw [hballots]
    exact List.mem_replicate.mpr ⟨hpos.ne', rfl⟩
  have hagreed : (runConsensus R results keys t).agreedHash = some hash := by
    obtain ⟨w, hw⟩ := Plurality.exists_of_ne_nil (List.ne_nil_of_mem hmem)
    have hwhash : w = hash := by
      have hwmem := hw.mem
      rw [hballots] at hwmem
      exact (List.mem_replicate.mp hwmem).2
    exact (runConsensus_agreedHash_iff R results keys t hash).mpr (hwhash ▸ hw)
  refine ⟨hagreed, ?_, ?_⟩
  · rw [runConsensus_reached_iff_share]
    refine ⟨hash, hmem, ?_⟩
    have hcount : (ballots results keys).count hash = (ballots results keys).length := by
      rw [hballots, List.count_replicate_self, List.length_replicate]
    have hlength : ((ballots results keys).length : ℚ) ≠ 0 := by
      rw [hballots, List.length_replicate]
      exact_mod_cast hpos.ne'
    rw [hcount, div_self hlength]
    exact ht.trans R.one.ge
  · rw [List.eq_nil_iff_forall_not_mem]
    intro nodeId hfaulty
    obtain ⟨r, hr, -, hbad⟩ := (mem_faultyNodes_iff R results keys t nodeId).mp hfaulty
    rcases hbad with hbad | hbad
    · rw [hacc r hr] at hbad
      cases hbad
    · exact hbad (by rw [hagreed, hhash r hr])

/-- Servers that all read the transaction move together. -/
theorem HeardByAll.honest (hround : net.HeardByAll round) (h : net.Honest fun _ => state) :
    (net.play R round).Honest fun _ => NodeServer.nextState rt state round.tx := by
  have hplay := h.play R hround.lossy
  refine ⟨hplay.distinct, hplay.honest, fun after hafter => ?_⟩
  have hid : after.nodeId ∈ net.servers.map NodeServer.nodeId := by
    rw [← nodeIds_play R net round]
    exact List.mem_map_of_mem hafter
  obtain ⟨server, hserver, hsame⟩ := List.mem_map.mp hid
  have hstate := hplay.states after hafter
  rwa [if_pos (hsame ▸ hround.heard server hserver)] at hstate

/-- The engine accepts exactly what an honest server can answer. -/
theorem nextState_of_rejected (hr : rt.Registered) (hs : WellShaped state)
    {tx : Transaction} (htx : WellTyped tx) (h : honestHash rt state tx = none) :
    NodeServer.nextState rt state tx = state := by
  unfold NodeServer.nextState
  cases hex : rt.execute state tx with
  | error e => split <;> simp_all
  | ok new =>
    have hanswer : ∃ hash, Node.evaluate rt false state tx = .ok (new, hash) :=
      Node.evaluate_of_execute hs (hr.execute_wellShaped hs htx hex) hex
    obtain ⟨hash, hevaluate⟩ := hanswer
    exact absurd hevaluate (honestHash_eq_none h new hash)

theorem nextState_of_accepted (hs : WellShaped state) {tx : Transaction} {new : State}
    (hex : rt.execute state tx = .ok new) : NodeServer.nextState rt state tx = new := by
  obtain ⟨hash, hhash⟩ := stateHash_ok rt hs false
  rw [NodeServer.nextState, hhash, hex]

/-- One round keeps the log and the servers together. -/
theorem Rebuilt.play (hr : rt.Registered) {start : State} {log : AuditLog}
    (h : Rebuilt start net log) (hlog : net.auditLog = some log) (hmin : 0 < net.minResponses)
    (ht : net.quorumThreshold ≤ 1) (htx : WellTyped round.tx) (hround : net.HeardByAll round) :
    ∃ log', (net.play R round).auditLog = some log' ∧ Rebuilt start (net.play R round) log' := by
  have hplay := hround.honest R h.honest
  cases hhash : honestHash rt
      (replay rt start (transactionsOf (log.events.map AuditEvent.replayEntry))) round.tx with
  | none =>
    rw [nextState_of_rejected hr h.shaped htx hhash] at hplay
    have hresults := resultsOf_of_rejected h.honest hround.lossy hhash
    let served : P2PNetwork rt := { net with servers := net.serve round.tx round.channel }
    have hshort : ((resultsOf (net.gather round.tx round.channel)).length : ℤ) <
        served.minResponses := by
      rw [hresults]
      exact hmin
    obtain ⟨e, he⟩ := collect_of_lt R hshort round.now round.tx
    refine ⟨log, ?_, h.shaped, hplay, h.lines⟩
    rw [P2PNetwork.play, broadcast, he]
    exact hlog
  | some hash =>
    obtain ⟨new, hex, hnew⟩ := honestHash_spec hhash
    have hshaped := hr.execute_wellShaped h.shaped htx hex
    rw [nextState_of_accepted h.shaped hex] at hplay
    have hlength := length_resultsOf_of_accepted h.honest hround.lossy hhash
    have henough : net.minResponses ≤ (resultsOf (net.gather round.tx round.channel)).length := by
      rw [hlength]
      exact hround.enough
    have hne : resultsOf (net.gather round.tx round.channel) ≠ [] := by
      intro hnil
      rw [hnil] at henough
      exact absurd hmin (by simpa using henough)
    obtain ⟨hagreed, hreached, hfaulty⟩ := runConsensus_of_agreement R
      (some net.publicKeys) ht hne hash
      (fun r hmem => (h.honest.result hround.lossy hmem).2.1)
      (fun r hmem => Option.some.inj ((h.honest.result hround.lossy hmem).2.2.symm.trans hhash))
    have hauditLog := (broadcast_of_le R henough round.now).2
    rw [hlog, Option.map_some] at hauditLog
    have hstep : replay rt start (transactionsOf
        (log.events.map AuditEvent.replayEntry ++ [(log.event round.now round.tx
          (resultsOf (net.gather round.tx round.channel))
          (runConsensus R (resultsOf (net.gather round.tx round.channel))
            (some net.publicKeys) net.quorumThreshold)).replayEntry])) = new := by
      rw [transactionsOf, List.map_append, List.map_singleton, Concurrent.replay_append]
      exact nextState_of_accepted h.shaped hex
    have hlines := h.lines.concat (by simp [AuditEvent.replayEntry, AuditLog.event]) hex hstep
      hnew hagreed hreached (by simp [AuditEvent.replayEntry, AuditLog.event, Submissions.hasFault,
        hfaulty])
    refine ⟨_, hauditLog, ?_, ?_, ?_⟩
    · rw [AuditLog.record, List.map_append, List.map_singleton, hstep]
      exact hshaped
    · rw [AuditLog.record, List.map_append, List.map_singleton, hstep]
      exact hplay
    · rw [AuditLog.record, List.map_append, List.map_singleton]
      exact hlines

/-- The settings of a network stay. -/
theorem play_settings (net : P2PNetwork rt) (round : Round rt) :
    (net.play R round).minResponses = net.minResponses ∧
      (net.play R round).quorumThreshold = net.quorumThreshold := by
  unfold P2PNetwork.play broadcast collect
  dsimp only
  split <;> exact ⟨rfl, rfl⟩

/-- The limits show at no server that takes part. -/
def WithinLimits (L : Limits) (net : P2PNetwork rt) (round : Round rt) : Prop :=
  ∀ server ∈ net.participating, Unlimited L server round.tx

end P2PNetwork
end ECN
