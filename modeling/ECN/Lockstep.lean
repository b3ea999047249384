import ECN.Exclusion
import ECN.NetworkLimits

/-!
# The network of servers against the simulated network

Over the same nodes, when no message is lost and nothing goes beyond the limits, the two
networks take the same steps: they return the same votes and the same consensus, keep the
same history and write the same audit log, or both raise. They part only at a transaction
that is accepted after five rejections in a row, because a server that answers with an error
counts as failed, and by then every server is excluded for good.
-/
namespace ECN

variable {rt : Runtime} (R : Rounding)

/-! ## What goes over the wire -/

/-- The part of a result that a server transmits. -/
def NodeResult.transmitted (r : NodeResult) : NodeResult :=
  { r with resultState := [], traceEntry := none }

variable {crypto : Crypto} (keys : Option (OrderedDict String crypto.PublicKey))

@[simp] theorem accepted_transmitted (r : NodeResult) :
    accepted keys r.transmitted = accepted keys r := rfl

theorem verifiedResults_transmitted (results : List NodeResult) :
    verifiedResults (results.map NodeResult.transmitted) keys =
      (verifiedResults results keys).map NodeResult.transmitted := by
  rw [verifiedResults, List.filter_map]
  rfl

theorem invalidSigIds_transmitted (results : List NodeResult) :
    invalidSigIds (results.map NodeResult.transmitted) keys = invalidSigIds results keys := by
  rw [invalidSigIds, List.filter_map, List.map_map]
  rfl

/-- The vote reads nothing else. -/
theorem runConsensus_transmitted (results : List NodeResult) (threshold : ℚ) :
    runConsensus R (results.map NodeResult.transmitted) keys threshold =
      runConsensus R results keys threshold := by
  unfold runConsensus
  simp only [verifiedResults_transmitted, invalidSigIds_transmitted, List.isEmpty_map,
    List.map_map, List.filter_map]
  rfl

theorem AuditLog.record_transmitted (log : AuditLog) (now : ℕ) (tx : Transaction)
    (results : List NodeResult) (cr : ConsensusResult) :
    log.record now tx (results.map NodeResult.transmitted) cr = log.record now tx results cr := by
  unfold AuditLog.record AuditLog.event
  rw [List.map_map]
  rfl

/-! ## The machine that both replicate -/

/-- One state, and how many transactions in a row it has rejected. -/
structure Sequential where
  state : State
  rejections : ℕ

namespace Sequential

def step (rt : Runtime) (spec : Sequential) (tx : Transaction) : Sequential :=
  match rt.execute spec.state tx with
  | .ok new => ⟨new, 0⟩
  | .error _ => ⟨spec.state, spec.rejections + 1⟩

/-- What is accepted comes before the fifth rejection in a row. -/
def InTime (rt : Runtime) (spec : Sequential) (tx : Transaction) : Prop :=
  (∃ new, rt.execute spec.state tx = .ok new) → spec.rejections < excludedThreshold

instance (spec : Sequential) (tx : Transaction) : Decidable (spec.InTime rt tx) :=
  match h : rt.execute spec.state tx with
  | .ok new => decidable_of_iff (spec.rejections < excludedThreshold)
      ⟨fun hless _ => hless, fun hintime => hintime ⟨new, h⟩⟩
  | .error _ => .isTrue fun ⟨_, hnew⟩ => nomatch h.symm.trans hnew

/-- The limits do not show: `tx` can be sent, and where it is accepted every node evaluates
it. -/
def WithinLimits (L : Limits) (rt : Runtime) (spec : Sequential) (tx : Transaction) : Prop :=
  L.Sends tx ∧ ((∃ new, rt.execute spec.state tx = .ok new) → Evaluates L rt spec.state tx)

instance (L : Limits) (spec : Sequential) (tx : Transaction) :
    Decidable (spec.WithinLimits L rt tx) :=
  inferInstanceAs (Decidable (_ ∧ (_ → _)))

end Sequential

/-! ## One round of each network -/

/-- Every node answers. -/
theorem Network.executeAll_of_ok {tx : Transaction} {nodes : List (Node rt)}
    (h : ∀ node ∈ nodes, ∃ r, (node.executeTransaction tx).2 = .ok r) :
    ∃ results, executeAll tx nodes =
        (nodes.map fun node => (node.executeTransaction tx).1, .ok results) ∧
      List.Forall₂ (fun node r => (node.executeTransaction tx).2 = .ok r) nodes results := by
  induction nodes with
  | nil => exact ⟨[], rfl, .nil⟩
  | cons node nodes ih =>
    obtain ⟨r, hr⟩ := h node List.mem_cons_self
    obtain ⟨results, hall, hresults⟩ := ih fun other hmem => h other (List.mem_cons_of_mem node hmem)
    refine ⟨r :: results, ?_, .cons hr hresults⟩
    have hnode : node.executeTransaction tx = ((node.executeTransaction tx).1, .ok r) :=
      Prod.ext rfl hr
    rw [executeAll, hnode]
    dsimp only
    rw [hall, List.map_cons, hnode]

/-- The fifth failure in a row excludes. -/
theorem NodeHealth.recordFailure_excluded_iff {health : NodeHealth} (h : health.state ≠ .excluded)
    (now : ℕ) : (health.recordFailure now).state = .excluded ↔
      excludedThreshold ≤ health.consecutiveFailures + 1 := by
  unfold NodeHealth.recordFailure
  simp only [h, if_false]
  split_ifs with hfive hthree hrehab
  · exact iff_of_true rfl hfive
  · exact iff_of_false (by simp) hfive
  · exact iff_of_false (by simp) hfive
  · exact iff_of_false h hfive

namespace P2PNetwork

/-- The whole round of a submission that every server answers. -/
def submitted (net : P2PNetwork rt) (sub : Submission rt) :
    P2PNetwork rt × Except InsufficientQuorumError (List NodeResult × ConsensusResult) :=
  net.broadcast R sub.now sub.tx fun s => .answered (sub.latencyMs s)

/-- The same round within the limits, recorded. -/
def submittedWithin (L : Limits) (net : P2PNetwork rt) (sub : Submission rt) :
    P2PNetwork rt × Except BroadcastError (List NodeResult × ConsensusResult) :=
  net.broadcastWithin L R sub.now sub.tx (fun s => .answered (sub.latencyMs s)) true

/-- The servers' results are what the nodes answer, as transmitted. -/
theorem resultsOf_of_answers {tx : Transaction} {servers : List (NodeServer rt)}
    {results : List NodeResult} (latencyMs : NodeServer rt → ℚ)
    (h : List.Forall₂ (fun node r => (Node.executeTransaction node tx).2 = .ok r)
      (servers.map NodeServer.node) results) :
    resultsOf (servers.map fun s => (s, (sendToServer s tx (.answered (latencyMs s))).2)) =
      results.map NodeResult.transmitted := by
  induction servers generalizing results with
  | nil =>
    cases h
    rfl
  | cons s servers ih =>
    rw [List.map_cons] at h
    cases h with
    | @cons _ r _ results hr hrest =>
      have hreply : (s.handleClient tx).2 = .result r.nodeId r.stateHash r.signature := by
        simp only [NodeServer.handleClient, hr]
      have hresult : (sendToServer s tx (.answered (latencyMs s))).2 =
          some (r.transmitted, latencyMs s) := by
        simp only [sendToServer, hreply, receive, NodeResult.transmitted]
      have htail := ih hrest
      rw [resultsOf] at htail ⊢
      rw [List.map_cons, List.map_cons, List.filterMap_cons_some (b := r.transmitted)
        (by rw [hresult]; rfl), htail]

end P2PNetwork

/-! ## In step -/

/-- All servers are in the state of the sequential machine. While that has rejected fewer than
five in a row each server has failed as often, and from then on every server is excluded. -/
structure InStep (p2p : P2PNetwork rt) (spec : Sequential) : Prop where
  nonempty : p2p.servers ≠ []
  ids : (p2p.servers.map NodeServer.nodeId).Nodup
  common : ∀ s ∈ p2p.servers, s.state = spec.state
  shape : WellShaped spec.state
  least : 1 ≤ p2p.minResponses
  most : p2p.minResponses ≤ p2p.servers.length
  active : spec.rejections < excludedThreshold → ∀ s ∈ p2p.servers,
    (p2p.health.get s.nodeId).state ≠ .excluded ∧
      (p2p.health.get s.nodeId).consecutiveFailures = spec.rejections
  excluded : excludedThreshold ≤ spec.rejections → ∀ s ∈ p2p.servers,
    (p2p.health.get s.nodeId).state = .excluded

namespace InStep

variable {p2p : P2PNetwork rt} {spec : Sequential}

/-- While nobody is excluded every server takes part. -/
theorem participating (h : InStep p2p spec) (hactive : spec.rejections < excludedThreshold) :
    p2p.participating = p2p.servers := by
  refine List.filter_eq_self.mpr fun s hs => ?_
  simp [P2PNetwork.isParticipating, (h.active hactive s hs).1]

/-- What the machine takes within the limits shows them at no server. -/
theorem unlimited (h : InStep p2p spec) {L : Limits} {tx : Transaction}
    (hl : spec.WithinLimits L rt tx) : ∀ s ∈ p2p.participating, Unlimited L s tx := by
  intro s hs
  refine ⟨hl.1, fun _ haccepts => answers_iff.mpr ?_⟩
  rw [h.common s (List.mem_of_mem_filter hs)] at haccepts ⊢
  exact hl.2 haccepts

theorem serve (h : InStep p2p spec) (hactive : spec.rejections < excludedThreshold)
    (tx : Transaction) (latencyMs : NodeServer rt → ℚ) :
    p2p.serve tx (fun s => .answered (latencyMs s)) =
      p2p.servers.map fun s => (s.handleClient tx).1 := by
  refine List.map_congr_left fun s hs => ?_
  have hpart : p2p.isParticipating s = true := by
    simp [P2PNetwork.isParticipating, (h.active hactive s hs).1]
  rw [if_pos hpart]
  rfl

theorem gather (h : InStep p2p spec) (hactive : spec.rejections < excludedThreshold)
    (tx : Transaction) (latencyMs : NodeServer rt → ℚ) :
    p2p.gather tx (fun s => .answered (latencyMs s)) =
      p2p.servers.map fun s => (s, (sendToServer s tx (.answered (latencyMs s))).2) := by
  rw [P2PNetwork.gather, h.participating hactive]

/-- The health record of a server after a round moves by its own response. -/
theorem get_health (h : InStep p2p spec) (now : ℕ) {s : NodeServer rt} (hs : s ∈ p2p.servers)
    (response : NodeServer rt → Response) :
    ((p2p.servers.map fun s => (s, response s)).foldl (P2PNetwork.recordResponse now)
      p2p.health).get s.nodeId =
        (P2PNetwork.recordResponse now p2p.health (s, response s)).get s.nodeId := by
  have hids : ((p2p.servers.map fun s => (s, response s)).map fun p => p.1.nodeId).Nodup := by
    rw [List.map_map]
    exact h.ids
  exact P2PNetwork.get_foldl_recordResponse now hids (List.mem_map_of_mem hs) p2p.health

/-- What the servers send back, under their latencies. -/
def responses (servers : List (NodeServer rt)) (sub : P2PNetwork.Submission rt) :
    List (NodeServer rt × Response) :=
  servers.map fun s => (s, (sendToServer s sub.tx (.answered (sub.latencyMs s))).2)

/-- The servers after they have served a transaction. -/
def served (servers : List (NodeServer rt)) (tx : Transaction) : List (NodeServer rt) :=
  servers.map fun s => (s.handleClient tx).1

theorem submitted_eq (h : InStep p2p spec) (hactive : spec.rejections < excludedThreshold)
    (sub : P2PNetwork.Submission rt) :
    p2p.submitted R sub = P2PNetwork.collect R { p2p with servers := served p2p.servers sub.tx }
      sub.now sub.tx (responses p2p.servers sub) := by
  rw [P2PNetwork.submitted, P2PNetwork.broadcast, h.serve hactive, h.gather hactive]
  rfl

theorem nodeIds_served (servers : List (NodeServer rt)) (tx : Transaction) :
    (served servers tx).map NodeServer.nodeId = servers.map NodeServer.nodeId := by
  rw [served, List.map_map]
  exact List.map_congr_left fun s _ => s.handleClient_nodeId tx

theorem publicKeys_served (p2p : P2PNetwork rt) (tx : Transaction) :
    P2PNetwork.publicKeys { p2p with servers := served p2p.servers tx } = p2p.publicKeys := by
  unfold P2PNetwork.publicKeys served
  rw [List.map_map]
  congr 1
  exact List.map_congr_left fun s _ => Prod.ext (s.handleClient_nodeId tx) rfl

/-- A transaction that the state accepts: every server answers, moves on and counts as
successful. -/
theorem after_accepted (h : InStep p2p spec) (hactive : spec.rejections < excludedThreshold)
    {sub : P2PNetwork.Submission rt} {new : State} {hash : String} (hnew : WellShaped new)
    (he : Node.evaluate rt false spec.state sub.tx = .ok (new, hash))
    (history : List (Transaction × List NodeResult × ConsensusResult))
    (auditLog : Option AuditLog) :
    InStep { p2p with
      servers := served p2p.servers sub.tx
      health := (responses p2p.servers sub).foldl (P2PNetwork.recordResponse sub.now) p2p.health
      history
      auditLog } ⟨new, 0⟩ := by
  have hserver : ∀ s ∈ p2p.servers, NodeServer.evaluate rt s.state sub.tx = .ok (new, hash) := by
    intro s hs
    rw [h.common s hs]
    exact he
  exact {
    nonempty := by
      rw [served, ne_eq, List.map_eq_nil_iff]
      exact h.nonempty
    ids := by
      rw [nodeIds_served]
      exact h.ids
    common := by
      intro s' hs'
      obtain ⟨s, hs, rfl⟩ := List.mem_map.mp hs'
      exact (s.handleClient_of_ok (hserver s hs)).1
    shape := hnew
    least := h.least
    most := by
      rw [served, List.length_map]
      exact h.most
    active := by
      intro _ s' hs'
      obtain ⟨s, hs, rfl⟩ := List.mem_map.mp hs'
      rw [s.handleClient_nodeId, responses, h.get_health sub.now hs]
      have hanswer := (s.handleClient_of_ok (hserver s hs)).2
      have hhealthy := NodeHealth.recordSuccess_healthy (h.active hactive s hs).1 sub.now
        (sub.latencyMs s)
      simp only [sendToServer, hanswer, receive, P2PNetwork.recordResponse,
        NodeHealthRegistry.recordSuccess, NodeHealthRegistry.get_set, if_true, hhealthy,
        NodeHealth.recordSuccess_failures]
      exact ⟨by decide, trivial⟩
    excluded := fun hle => absurd hle (Nat.not_succ_le_zero _) }

/-- A transaction that the state rejects leaves all but the health records as it was: every
server has failed once more. -/
theorem rejected (h : InStep p2p spec) (hactive : spec.rejections < excludedThreshold)
    {sub : P2PNetwork.Submission rt} {e : Exc} (hex : rt.execute spec.state sub.tx = .error e) :
    ∃ health e', p2p.submitted R sub = ({ p2p with health }, .error e') ∧
      InStep { p2p with health } ⟨spec.state, spec.rejections + 1⟩ := by
  -- every server replies with an error
  have hserver : ∀ s ∈ p2p.servers, ∃ e, s.handleClient sub.tx = (s, .error e) := by
    intro s hs
    refine s.handleClient_of_rejected ?_
    rintro ⟨-, new, hnew⟩
    rw [h.common s hs, hex] at hnew
    cases hnew
  have hserved : served p2p.servers sub.tx = p2p.servers := by
    rw [served]
    conv_rhs => rw [← List.map_id p2p.servers]
    refine List.map_congr_left fun s hs => ?_
    obtain ⟨e, he⟩ := hserver s hs
    rw [he]
    rfl
  have hresponses : responses p2p.servers sub = p2p.servers.map fun s => (s, none) := by
    refine List.map_congr_left fun s hs => ?_
    obtain ⟨e, he⟩ := hserver s hs
    simp only [sendToServer, he, receive]
  have hresults : P2PNetwork.resultsOf (responses p2p.servers sub) = [] := by
    rw [hresponses, P2PNetwork.resultsOf, List.filterMap_map]
    simp
  obtain ⟨e', hp2p⟩ : ∃ e', p2p.submitted R sub =
      ({ p2p with
          health := (p2p.servers.map fun s => (s, none)).foldl (P2PNetwork.recordResponse sub.now)
            p2p.health }, .error e') := by
    rw [h.submitted_eq R hactive, hserved, ← hresponses]
    refine P2PNetwork.collect_of_lt R ?_ sub.now sub.tx
    rw [hresults]
    exact Int.lt_of_lt_of_le Int.zero_lt_one h.least
  refine ⟨_, e', hp2p, ?_⟩
  have hhealth : ∀ s ∈ p2p.servers,
      ((p2p.servers.map fun s => (s, none)).foldl (P2PNetwork.recordResponse sub.now)
        p2p.health).get s.nodeId = (p2p.health.get s.nodeId).recordFailure sub.now := by
    intro s hs
    rw [h.get_health sub.now hs fun _ => none]
    simp [P2PNetwork.recordResponse, NodeHealthRegistry.recordFailure]
  exact { h with
    active := by
      intro hless s hs
      obtain ⟨hstate, hfailures⟩ := h.active hactive s hs
      dsimp only
      rw [hhealth s hs, NodeHealth.recordFailure_failures, hfailures, ne_eq,
        NodeHealth.recordFailure_excluded_iff hstate, hfailures]
      exact ⟨not_le.mpr hless, rfl⟩
    excluded := by
      intro hle s hs
      obtain ⟨hstate, hfailures⟩ := h.active hactive s hs
      dsimp only
      rw [hhealth s hs, NodeHealth.recordFailure_excluded_iff hstate, hfailures]
      exact hle }

/-- Once every server is excluded nobody is asked. -/
theorem submitted_excluded (h : InStep p2p spec)
    (hdead : excludedThreshold ≤ spec.rejections) (sub : P2PNetwork.Submission rt) :
    ∃ e, p2p.submitted R sub = (p2p, .error e) := by
  have hpart : ∀ s ∈ p2p.servers, p2p.isParticipating s = false := by
    intro s hs
    simp [P2PNetwork.isParticipating, h.excluded hdead s hs]
  have hserve : (p2p.serve sub.tx fun s => .answered (sub.latencyMs s)) = p2p.servers := by
    rw [P2PNetwork.serve]
    conv_rhs => rw [← List.map_id p2p.servers]
    refine List.map_congr_left fun s hs => ?_
    rw [hpart s hs]
    rfl
  have hgather : (p2p.gather sub.tx fun s => .answered (sub.latencyMs s)) = [] := by
    rw [P2PNetwork.gather, List.map_eq_nil_iff]
    refine List.filter_eq_nil_iff.mpr fun s hs => ?_
    simp [hpart s hs]
  rw [P2PNetwork.submitted, P2PNetwork.broadcast, hserve, hgather]
  refine P2PNetwork.collect_of_lt R ?_ sub.now sub.tx
  exact Int.lt_of_lt_of_le Int.zero_lt_one h.least

/-- One more rejection after that changes nothing. -/
theorem later (h : InStep p2p spec) (hdead : excludedThreshold ≤ spec.rejections) :
    InStep p2p ⟨spec.state, spec.rejections + 1⟩ :=
  { h with
    active := fun hless => absurd (Nat.le_succ_of_le hdead) (not_le.mpr hless)
    excluded := fun _ => h.excluded hdead }

end InStep

/-! ## Alike -/

/-- Two networks over the same nodes with the same records, in step with the sequential
machine. -/
structure Alike (net : Network rt) (p2p : P2PNetwork rt) (spec : Sequential) : Prop
    extends InStep p2p spec where
  nodes : net.nodes = p2p.servers.map NodeServer.node
  keys : net.publicKeys = p2p.publicKeys
  threshold : p2p.quorumThreshold = defaultQuorumThreshold R
  history : p2p.history =
    net.history.map fun round => (round.1, round.2.1.map NodeResult.transmitted, round.2.2)
  auditLog : net.auditLog = p2p.auditLog

/-- Both return the same votes and the same consensus, or both raise. -/
def SameOutcome {ε ε' : Type*} : Except ε (List NodeResult × ConsensusResult) →
    Except ε' (List NodeResult × ConsensusResult) → Prop
  | .ok (results, cr), .ok (results', cr') =>
    results' = results.map NodeResult.transmitted ∧ cr' = cr
  | .error _, .error _ => True
  | _, _ => False

/-- Why a network raises makes no difference. -/
theorem sameOutcome_mapError {ε ε' ε'' : Type*} (f : ε' → ε'')
    (out : Except ε (List NodeResult × ConsensusResult))
    (out' : Except ε' (List NodeResult × ConsensusResult)) :
    SameOutcome out (out'.mapError f) ↔ SameOutcome out out' := by
  cases out' with
  | ok result => cases out <;> rfl
  | error e => cases out <;> rfl

namespace Alike

open InStep (responses served publicKeys_served)

variable {net : Network rt} {p2p : P2PNetwork rt} {spec : Sequential} {R}

/-- The vote of the simulated network is checked against the servers' keys too. -/
theorem voteKeys (h : Alike R net p2p spec) : net.voteKeys = some p2p.publicKeys := by
  have hkeys : p2p.publicKeys.isEmpty = false := by
    obtain ⟨s, hs⟩ := List.exists_mem_of_ne_nil _ h.nonempty
    have hget := P2PNetwork.get?_publicKeys h.ids hs
    cases hempty : p2p.publicKeys.isEmpty with
    | false => rfl
    | true =>
      rw [OrderedDict.isEmpty, List.isEmpty_iff] at hempty
      simp [OrderedDict.get?, hempty] at hget
  rw [Network.voteKeys, h.keys, if_neg (by simp [hkeys])]

/-- Every node of the simulated network answers what the common state can evaluate. -/
theorem executeAll_ok (h : Alike R net p2p spec) {tx : Transaction} {new : State} {hash : String}
    (he : Node.evaluate rt false spec.state tx = .ok (new, hash)) :
    ∃ results, Network.executeAll tx net.nodes =
        (net.nodes.map fun node => (node.executeTransaction tx).1, .ok results) ∧
      List.Forall₂ (fun node r => (node.executeTransaction tx).2 = .ok r) net.nodes results := by
  apply Network.executeAll_of_ok
  intro node hnode
  rw [h.nodes] at hnode
  obtain ⟨s, hs, rfl⟩ := List.mem_map.mp hnode
  refine (s.node.executeTransaction_ok_iff tx).mpr ⟨new, hash, ?_⟩
  have hcommon : s.node.manager.state = spec.state := h.common s hs
  rw [s.wholeState, hcommon]
  exact he

theorem nodes_ne_nil (h : Alike R net p2p spec) : net.nodes ≠ [] := by
  rw [h.nodes, ne_eq, List.map_eq_nil_iff]
  exact h.nonempty

theorem nodes_state (h : Alike R net p2p spec) : ∀ node ∈ net.nodes,
    node.manager.state = spec.state := by
  intro node hnode
  rw [h.nodes] at hnode
  obtain ⟨s, hs, rfl⟩ := List.mem_map.mp hnode
  exact h.common s hs

/-- A transaction that the common state rejects leaves the simulated network as it was. -/
theorem broadcast_rejected (h : Alike R net p2p spec) {tx : Transaction} {e : Exc}
    (hex : rt.execute spec.state tx = .error e) (now : ℕ) :
    ∃ e', net.broadcast R now tx = (net, .error e') := by
  have hnode : ∀ node ∈ net.nodes, rt.execute node.manager.state tx = .error e := by
    intro node hnode
    rw [h.nodes_state node hnode, hex]
  obtain ⟨e', hall⟩ := Network.executeAll_of_rejected h.nodes_ne_nil hnode
  exact ⟨e', by rw [Network.broadcast, hall]⟩

/-- The round of a transaction that every node evaluates. -/
theorem exists_round (h : Alike R net p2p spec) {sub : P2PNetwork.Submission rt} {new : State}
    {hash : String} (he : Node.evaluate rt false spec.state sub.tx = .ok (new, hash))
    (hactive : spec.rejections < excludedThreshold) :
    ∃ results cr,
      net.broadcast R sub.now sub.tx =
        ({ net with
            nodes := net.nodes.map fun node => (node.executeTransaction sub.tx).1
            history := net.history ++ [(sub.tx, results, cr)]
            auditLog := net.auditLog.map fun log => log.record sub.now sub.tx results cr },
          .ok (results, cr)) ∧
      p2p.submitted R sub =
        ({ p2p with
            servers := served p2p.servers sub.tx
            health := (responses p2p.servers sub).foldl (P2PNetwork.recordResponse sub.now)
              p2p.health
            history := p2p.history ++ [(sub.tx, results.map NodeResult.transmitted, cr)]
            auditLog := p2p.auditLog.map fun log => log.record sub.now sub.tx results cr },
          .ok (results.map NodeResult.transmitted, cr)) ∧
      P2PNetwork.resultsOf (responses p2p.servers sub) = results.map NodeResult.transmitted := by
  obtain ⟨results, hall, hanswers⟩ := h.executeAll_ok he
  have hresults : P2PNetwork.resultsOf (responses p2p.servers sub) =
      results.map NodeResult.transmitted := by
    rw [h.nodes] at hanswers
    exact P2PNetwork.resultsOf_of_answers sub.latencyMs hanswers
  have hlength : results.length = p2p.servers.length := by
    rw [← hanswers.length_eq, h.nodes, List.length_map]
  have hmin : p2p.minResponses ≤ (P2PNetwork.resultsOf (responses p2p.servers sub)).length := by
    rw [hresults, List.length_map, hlength]
    exact h.most
  let net := { p2p with servers := served p2p.servers sub.tx }
  have hpresent : net.minResponses ≤
      (P2PNetwork.resultsOf (responses p2p.servers sub)).length := hmin
  have hround := P2PNetwork.collect_of_le R hpresent sub.now sub.tx
  dsimp only [net] at hround
  rw [hresults, publicKeys_served, runConsensus_transmitted] at hround
  simp only [AuditLog.record_transmitted] at hround
  refine ⟨results, runConsensus R results (some p2p.publicKeys) p2p.quorumThreshold, ?_, ?_,
    hresults⟩
  · have hkeys := h.voteKeys
    rw [Network.voteKeys] at hkeys
    rw [Network.broadcast, hall, hkeys, h.threshold]
  · rw [h.submitted_eq R hactive, hround]

/-- A transaction that the state accepts is executed by all nodes of both networks, and
both vote on the same answers. -/
theorem accepted (hr : rt.Registered) (h : Alike R net p2p spec) {sub : P2PNetwork.Submission rt}
    (ht : WellTyped sub.tx) {new : State} (hex : rt.execute spec.state sub.tx = .ok new)
    (hactive : spec.rejections < excludedThreshold) :
    SameOutcome (net.broadcast R sub.now sub.tx).2 (p2p.submitted R sub).2 ∧
      Alike R (net.broadcast R sub.now sub.tx).1 (p2p.submitted R sub).1 ⟨new, 0⟩ := by
  have hnew := hr.execute_wellShaped h.shape ht hex
  obtain ⟨hash, he⟩ : ∃ hash, Node.evaluate rt false spec.state sub.tx = .ok (new, hash) :=
    Node.evaluate_of_execute h.shape hnew hex
  obtain ⟨results, cr, hnet, hp2p, hresults⟩ := h.exists_round he hactive
  rw [hnet, hp2p]
  refine ⟨⟨rfl, rfl⟩, ?_⟩
  exact {
    toInStep := h.toInStep.after_accepted hactive hnew he _ _
    nodes := by
      rw [h.nodes, served, List.map_map, List.map_map]
      rfl
    keys := h.keys.trans (publicKeys_served p2p sub.tx).symm
    threshold := h.threshold
    history := by
      rw [h.history, List.map_append]
      rfl
    auditLog := by rw [h.auditLog] }

/-- A transaction that the state rejects leaves both networks as they were, but for one more
failure of every server. -/
theorem rejected (h : Alike R net p2p spec) {sub : P2PNetwork.Submission rt} {e : Exc}
    (hex : rt.execute spec.state sub.tx = .error e)
    (hactive : spec.rejections < excludedThreshold) :
    SameOutcome (net.broadcast R sub.now sub.tx).2 (p2p.submitted R sub).2 ∧
      Alike R (net.broadcast R sub.now sub.tx).1 (p2p.submitted R sub).1
        ⟨spec.state, spec.rejections + 1⟩ := by
  obtain ⟨e', hnet⟩ := h.broadcast_rejected hex sub.now
  obtain ⟨health, e'', hp2p, hnext⟩ := h.toInStep.rejected R hactive hex
  rw [hnet, hp2p]
  exact ⟨trivial, { h with toInStep := hnext }⟩

/-- The networks part at a transaction that is accepted too late, and only there. -/
theorem step (hr : rt.Registered) (h : Alike R net p2p spec) {sub : P2PNetwork.Submission rt}
    (ht : WellTyped sub.tx) :
    (SameOutcome (net.broadcast R sub.now sub.tx).2 (p2p.submitted R sub).2 ↔
      spec.InTime rt sub.tx) ∧
    (spec.InTime rt sub.tx → Alike R (net.broadcast R sub.now sub.tx).1 (p2p.submitted R sub).1
      (spec.step rt sub.tx)) := by
  by_cases hactive : spec.rejections < excludedThreshold
  · have hintime : spec.InTime rt sub.tx := fun _ => hactive
    cases hex : rt.execute spec.state sub.tx with
    | ok new =>
      obtain ⟨hsame, hnext⟩ := h.accepted hr ht hex hactive
      rw [Sequential.step, hex]
      exact ⟨iff_of_true hsame hintime, fun _ => hnext⟩
    | error e =>
      obtain ⟨hsame, hnext⟩ := h.rejected hex hactive
      rw [Sequential.step, hex]
      exact ⟨iff_of_true hsame hintime, fun _ => hnext⟩
  · have hdead : excludedThreshold ≤ spec.rejections := not_lt.mp hactive
    obtain ⟨e, hp2p⟩ := h.toInStep.submitted_excluded R hdead sub
    rw [hp2p]
    cases hex : rt.execute spec.state sub.tx with
    | ok new =>
      have hlate : ¬ spec.InTime rt sub.tx := fun hintime => hactive (hintime ⟨new, hex⟩)
      have hnew := hr.execute_wellShaped h.shape ht hex
      obtain ⟨hash, he⟩ : ∃ hash, Node.evaluate rt false spec.state sub.tx = .ok (new, hash) :=
        Node.evaluate_of_execute h.shape hnew hex
      obtain ⟨results, hall, -⟩ := h.executeAll_ok he
      rw [Network.broadcast, hall]
      exact ⟨iff_of_false id hlate, fun hintime => absurd hintime hlate⟩
    | error e =>
      have hintime : spec.InTime rt sub.tx := by
        rintro ⟨new, hnew⟩
        rw [hex] at hnew
        cases hnew
      obtain ⟨e', hnet⟩ := h.broadcast_rejected hex sub.now
      rw [hnet, Sequential.step, hex]
      exact ⟨iff_of_true trivial hintime, fun _ => { h with toInStep := h.toInStep.later hdead }⟩

end Alike

/-! ## Runs -/

section Runs

variable (L : Limits)

/-- Both networks after a transaction. -/
def lockstep (w : Network rt × P2PNetwork rt) (sub : P2PNetwork.Submission rt) :
    Network rt × P2PNetwork rt :=
  ((w.1.broadcastWithin L R ⟨sub.now, sub.tx, true⟩).1, (w.2.submittedWithin R L sub).1)

/-- Both networks give the same outcome. -/
def AgreesOn (w : Network rt × P2PNetwork rt) (sub : P2PNetwork.Submission rt) : Prop :=
  SameOutcome (w.1.broadcastWithin L R ⟨sub.now, sub.tx, true⟩).2 (w.2.submittedWithin R L sub).2

/-- The same nodes, with their states and traces, the same history as far as it is
transmitted, and the same audit log. -/
def SameRecords (w : Network rt × P2PNetwork rt) : Prop :=
  w.1.nodes = w.2.servers.map NodeServer.node ∧
    w.2.history =
      w.1.history.map (fun round => (round.1, round.2.1.map NodeResult.transmitted, round.2.2)) ∧
    w.1.auditLog = w.2.auditLog

namespace Alike

variable {R L} {net : Network rt} {p2p : P2PNetwork rt} {spec : Sequential}

/-- Where the limits do not show, the simulated network does what it does without them. -/
theorem broadcastWithin (h : Alike R net p2p spec) {tx : Transaction}
    (hl : spec.WithinLimits L rt tx) (now : ℕ) :
    (net.broadcastWithin L R ⟨now, tx, true⟩).1 = (net.broadcast R now tx).1 ∧
      ∀ {ε : Type} (out : Except ε (List NodeResult × ConsensusResult)),
        SameOutcome (net.broadcastWithin L R ⟨now, tx, true⟩).2 out ↔
          SameOutcome (net.broadcast R now tx).2 out := by
  cases hex : rt.execute spec.state tx with
  | ok new =>
    have hcompletes : ∀ node ∈ net.nodes, L.Ready rt node.manager ∧
        ∃ new, rt.execute node.manager.state tx = .ok new ∧ L.Completes rt node.manager new := by
      intro node hnode
      rw [h.nodes] at hnode
      obtain ⟨s, hs, rfl⟩ := List.mem_map.mp hnode
      have hanswers : s.Answers L tx := answers_iff.mpr (h.common s hs ▸ hl.2 ⟨new, hex⟩)
      exact StateManager.canApply_iff.mp hanswers.2
    obtain ⟨nodes, results, hall, hideal⟩ := Network.executeAllWithin_of_completes hcompletes
    rw [Network.broadcastWithin, Network.broadcast, hall, hideal]
    exact ⟨rfl, fun out => by cases out <;> rfl⟩
  | error e =>
    obtain ⟨e', hnet⟩ := h.broadcast_rejected hex now
    obtain ⟨node, rest, hne⟩ := List.exists_cons_of_ne_nil h.nodes_ne_nil
    have hnode : rt.execute node.manager.state tx = .error e := by
      rw [h.nodes_state node (hne ▸ List.mem_cons_self), hex]
    have hrejected : ∀ new, rt.execute node.manager.state tx ≠ .ok new := by
      intro new hnew
      cases hnode.symm.trans hnew
    rcases node.executeWithin_cases L tx with
      ⟨⟨f, hrefused⟩, -⟩ | ⟨new, -, -, -, -, hnew, -⟩ | ⟨new, -, -, -, -, -, hnew, -⟩
    · rw [Network.broadcastWithin_of_error R hne hrefused, hnet, ← hne]
      exact ⟨rfl, fun out => by cases out <;> rfl⟩
    · exact (hrejected new hnew).elim
    · exact (hrejected new hnew).elim

/-- Within the limits too the networks part at a transaction that is accepted too late, and
only there. -/
theorem stepWithin (hr : rt.Registered) (h : Alike R net p2p spec)
    {sub : P2PNetwork.Submission rt} (ht : WellTyped sub.tx)
    (hl : spec.WithinLimits L rt sub.tx) :
    (AgreesOn R L (net, p2p) sub ↔ spec.InTime rt sub.tx) ∧
      (spec.InTime rt sub.tx → Alike R (lockstep R L (net, p2p) sub).1
        (lockstep R L (net, p2p) sub).2 (spec.step rt sub.tx)) := by
  obtain ⟨hnet, hsame⟩ := h.broadcastWithin hl sub.now
  have hp2p : p2p.submittedWithin R L sub =
      ((p2p.submitted R sub).1, (p2p.submitted R sub).2.mapError BroadcastError.quorum) :=
    P2PNetwork.broadcastWithin_of_unlimited (h.toInStep.unlimited hl) sub.now
  unfold AgreesOn lockstep
  dsimp only
  rw [hsame, hnet, hp2p, sameOutcome_mapError]
  exact h.step hr ht

theorem run (hr : rt.Registered) (h : Alike R net p2p spec)
    {subs : List (P2PNetwork.Submission rt)} (ht : ∀ sub ∈ subs, WellTyped sub.tx)
    (hl : StepsMeet (Sequential.step rt) (Sequential.WithinLimits L rt) spec (subs.map (·.tx))) :
    (StepsMeet (lockstep R L) (AgreesOn R L) (net, p2p) subs ↔
      StepsMeet (Sequential.step rt) (Sequential.InTime rt) spec (subs.map (·.tx))) ∧
    (StepsMeet (Sequential.step rt) (Sequential.InTime rt) spec (subs.map (·.tx)) →
      Throughout (lockstep R L) SameRecords (net, p2p) subs) := by
  induction subs generalizing net p2p spec with
  | nil => exact ⟨Iff.rfl, fun _ => ⟨h.nodes, h.history, h.auditLog⟩⟩
  | cons sub subs ih =>
    rw [List.forall_mem_cons] at ht
    obtain ⟨hwithin, hlimits⟩ := hl
    obtain ⟨hagrees, hnext⟩ := h.stepWithin hr ht.1 hwithin
    constructor
    · constructor
      · rintro ⟨hsame, hrest⟩
        have hintime := hagrees.mp hsame
        exact ⟨hintime, (ih (hnext hintime) ht.2 hlimits).1.mp hrest⟩
      · rintro ⟨hintime, hrest⟩
        exact ⟨hagrees.mpr hintime, (ih (hnext hintime) ht.2 hlimits).1.mpr hrest⟩
    · rintro ⟨hintime, hrest⟩
      exact ⟨⟨h.nodes, h.history, h.auditLog⟩, (ih (hnext hintime) ht.2 hlimits).2 hrest⟩

end Alike

end Runs

/-! ## From the start -/

theorem NodeHealthRegistry.get_getOrCreate (registry : NodeHealthRegistry) (k nodeId : String) :
    (registry.getOrCreate k).get nodeId = registry.get nodeId := by
  rw [getOrCreate, get_set]
  split_ifs with hid
  · rw [hid]
  · rfl

theorem P2PNetwork.get_init_health (servers : List (NodeServer rt))
    (registry : NodeHealthRegistry) (nodeId : String) :
    (servers.foldl (fun registry s => registry.getOrCreate s.nodeId) registry).get nodeId =
      registry.get nodeId := by
  induction servers generalizing registry with
  | nil => rfl
  | cons s servers ih => rw [List.foldl_cons, ih, NodeHealthRegistry.get_getOrCreate]

/-- A new network with its own registry. -/
theorem InStep.init {servers : List (NodeServer rt)} (hne : servers ≠ [])
    (hids : (servers.map NodeServer.nodeId).Nodup) {state : State}
    (hcommon : ∀ s ∈ servers, s.state = state) (hshape : WellShaped state) (env : Option ℚ)
    (auditLog : Option AuditLog) (quorumThreshold : Option ℚ) {minResponses : Option ℤ}
    (hleast : 1 ≤ minResponses.getD 1) (hmost : minResponses.getD 1 ≤ servers.length) :
    InStep (.init R env servers auditLog quorumThreshold minResponses none) ⟨state, 0⟩ where
  nonempty := hne
  ids := hids
  common := hcommon
  shape := hshape
  least := hleast
  most := hmost
  active := by
    intro _ s _
    have hfresh : (P2PNetwork.init R env servers auditLog quorumThreshold minResponses
        none).health.get s.nodeId = .init s.nodeId :=
      P2PNetwork.get_init_health servers .empty s.nodeId
    rw [hfresh]
    exact ⟨by simp [NodeHealth.init], rfl⟩
  excluded := fun hle => absurd hle (Nat.not_succ_le_zero _)

/-- Over the same nodes, without loss and within the limits, the simulated network and the
network of servers give the same outcome to every transaction of a run if and only if no
transaction of the run is accepted after five rejections in a row, and then they have the
same records all along. -/
theorem lockstep_iff (hr : rt.Registered) (L : Limits) {servers : List (NodeServer rt)}
    (hne : servers ≠ []) (hids : (servers.map NodeServer.nodeId).Nodup) {state : State}
    (hcommon : ∀ s ∈ servers, s.state = state) (hshape : WellShaped state)
    (auditLog : Option AuditLog) {minResponses : Option ℤ} (hleast : 1 ≤ minResponses.getD 1)
    (hmost : minResponses.getD 1 ≤ servers.length) {subs : List (P2PNetwork.Submission rt)}
    (ht : ∀ sub ∈ subs, WellTyped sub.tx)
    (hl : StepsMeet (Sequential.step rt) (Sequential.WithinLimits L rt) ⟨state, 0⟩
      (subs.map (·.tx))) :
    let p2p := P2PNetwork.init R none servers auditLog none minResponses none
    let net := Network.init (servers.map NodeServer.node) (some p2p.publicKeys) auditLog
    let txs := subs.map (·.tx)
    (StepsMeet (lockstep R L) (AgreesOn R L) (net, p2p) subs ↔
      StepsMeet (Sequential.step rt) (Sequential.InTime rt) ⟨state, 0⟩ txs) ∧
    (StepsMeet (Sequential.step rt) (Sequential.InTime rt) ⟨state, 0⟩ txs →
      Throughout (lockstep R L) SameRecords (net, p2p) subs) := by
  intro p2p net txs
  have halike : Alike R net p2p ⟨state, 0⟩ := {
    toInStep := .init R hne hids hcommon hshape none auditLog none hleast hmost
    nodes := rfl
    keys := rfl
    threshold := rfl
    history := rfl
    auditLog := rfl }
  exact halike.run hr ht hl

open Network (accounts burnFour wellTyped_burnFour wellShaped_accounts)

/-- Two honest servers and a malicious one. -/
def threeServers : List (NodeServer (referenceRuntime false)) :=
  [.init _ "Node-1" accounts "127.0.0.1" 9001 [1] false,
   .init _ "Node-2" accounts "127.0.0.1" 9002 [2] true,
   .init _ "Node-3" accounts "127.0.0.1" 9003 [3] false]

/-- Four overdrafts, a burn that the account covers, and another overdraft. -/
def fourOverdrafts : List (P2PNetwork.Submission (referenceRuntime false)) :=
  (List.replicate 4 overdraft ++ [burnFour, overdraft]).map fun tx => ⟨tx, 0, fun _ => 5⟩

theorem lockstep_fourOverdrafts :
    let p2p := P2PNetwork.init .binary64 none threeServers (some .empty) none none none
    let net := Network.init (threeServers.map NodeServer.node) (some p2p.publicKeys) (some .empty)
    StepsMeet (lockstep .binary64 defaultLimits) (AgreesOn .binary64 defaultLimits) (net, p2p)
        fourOverdrafts ∧
      Throughout (lockstep .binary64 defaultLimits) SameRecords (net, p2p) fourOverdrafts := by
  intro p2p net
  have htyped : ∀ sub ∈ fourOverdrafts, WellTyped sub.tx := by
    intro sub hsub
    obtain ⟨tx, htx, rfl⟩ := List.mem_map.mp hsub
    have hcases : tx = overdraft ∨ tx = burnFour := by
      simpa [or_comm, or_left_comm] using htx
    rcases hcases with rfl | rfl
    · exact ⟨by decide, fun v hv => by cases hv; exact ⟨_, rfl⟩, fun v hv => by cases hv⟩
    · exact wellTyped_burnFour
  have hcommon : ∀ s ∈ threeServers, s.state = accounts := by
    intro s hs
    simp only [threeServers, List.mem_cons, List.not_mem_nil, or_false] at hs
    rcases hs with rfl | rfl | rfl
    · rfl
    · rfl
    · rfl
  have hleast : (1 : ℤ) ≤ (none : Option ℤ).getD 1 := by decide
  have hlimits : StepsMeet (Sequential.step (referenceRuntime false))
      (Sequential.WithinLimits defaultLimits (referenceRuntime false)) ⟨accounts, 0⟩
      (fourOverdrafts.map (·.tx)) := by
    decide +kernel
  have hboth := lockstep_iff .binary64 (.inl rfl) defaultLimits (List.cons_ne_nil _ _) (by decide)
    hcommon wellShaped_accounts (some .empty) hleast (by decide) htyped hlimits
  have hintime : StepsMeet (Sequential.step (referenceRuntime false))
      (Sequential.InTime (referenceRuntime false)) ⟨accounts, 0⟩ (fourOverdrafts.map (·.tx)) := by
    decide +kernel
  exact ⟨hboth.1.mpr hintime, hboth.2 hintime⟩

end ECN
