import ECN.Audit
import ECN.NodeHealth
import ECN.NodeServer

/-!
# The network of node servers

A broadcast sends the transaction to every server that is not excluded and waits
for all of them. A channel says what happens to one request: it may be lost before
the server reads it, its reply may be lost, it may be answered, or an adversary who
holds the server may reply at will. The code after the wait, `collect`, updates the
health records, checks the minimum of responses and runs consensus.
-/
namespace ECN

variable {rt : Runtime}

/-- The fate of one request. -/
inductive Channel where
  | requestLost
  | replyLost
  | answered (latencyMs : ℚ)
  | byzantine (reply : Reply) (latencyMs : ℚ)

/-- The request is read by the server's own code. -/
def Channel.reaches : Channel → Bool
  | .replyLost => true
  | .answered _ => true
  | .requestLost => false
  | .byzantine _ _ => false

/-- What the sender gets: a result with its latency, or an exception. -/
abbrev Response := Option (NodeResult × ℚ)

/-- Raised when fewer nodes respond than the configured minimum. -/
structure InsufficientQuorumError where
  message : String

/-- Read one reply; only the three transmitted fields are known, and an error reply
raises. -/
def receive (latencyMs : ℚ) : Reply → Response
  | .result nodeId stateHash signature => some (⟨nodeId, stateHash, [], none, signature⟩, latencyMs)
  | .error _ => none

/-- Send `tx` to one server. -/
def sendToServer (server : NodeServer rt) (tx : Transaction) : Channel → NodeServer rt × Response
  | .requestLost => (server, none)
  | .replyLost => ((server.handleClient tx).1, none)
  | .answered latencyMs =>
    ((server.handleClient tx).1, receive latencyMs (server.handleClient tx).2)
  | .byzantine reply latencyMs => (server, receive latencyMs reply)

structure P2PNetwork (rt : Runtime) where
  servers : List (NodeServer rt)
  auditLog : Option AuditLog
  quorumThreshold : ℚ
  minResponses : ℤ
  history : List (Transaction × List NodeResult × ConsensusResult)
  health : NodeHealthRegistry

namespace P2PNetwork

/-- The threshold from `ECN_QUORUM_THRESHOLD`, given as the number it holds, if any. -/
def getQuorumThreshold (R : Rounding) (env : Option ℚ) : ℚ :=
  match env with
  | some val => if 0 < val ∧ val ≤ 1 then val else defaultQuorumThreshold R
  | none => defaultQuorumThreshold R

/-- A network over running servers; without a registry it starts with its own. -/
def init (R : Rounding) (env : Option ℚ) (servers : List (NodeServer rt))
    (auditLog : Option AuditLog) (quorumThreshold : Option ℚ) (minResponses : Option ℤ)
    (health : Option NodeHealthRegistry) : P2PNetwork rt where
  servers
  auditLog
  quorumThreshold := quorumThreshold.getD (getQuorumThreshold R env)
  minResponses := minResponses.getD 1
  history := []
  health := servers.foldl (fun registry s => registry.getOrCreate s.nodeId)
    (health.getD .empty)

/-- The key map; servers keep their ids and keys for life. -/
def publicKeys (net : P2PNetwork rt) : OrderedDict String rt.PublicKey :=
  .ofList (net.servers.map fun s => (s.nodeId, s.publicKey))

/-- Not excluded at the moment of the broadcast. -/
def isParticipating (net : P2PNetwork rt) (server : NodeServer rt) : Bool :=
  (net.health.get server.nodeId).state ≠ .excluded

def participating (net : P2PNetwork rt) : List (NodeServer rt) :=
  net.servers.filter net.isParticipating

/-- Count a response towards its server's health. -/
def recordResponse (now : ℕ) (registry : NodeHealthRegistry) (p : NodeServer rt × Response) :
    NodeHealthRegistry :=
  match p.2 with
  | none => registry.recordFailure p.1.nodeId now
  | some (_, latencyMs) => registry.recordSuccess p.1.nodeId now latencyMs

/-- The results among the responses. -/
def resultsOf (responses : List (NodeServer rt × Response)) : List NodeResult :=
  responses.filterMap fun p => p.2.map Prod.fst

variable (R : Rounding)

/-- The rest of a broadcast once every request has ended. -/
def collect (net : P2PNetwork rt) (now : ℕ) (tx : Transaction)
    (responses : List (NodeServer rt × Response)) :
    P2PNetwork rt × Except InsufficientQuorumError (List NodeResult × ConsensusResult) :=
  let results := resultsOf responses
  let net := { net with health := responses.foldl (recordResponse now) net.health }
  if (results.length : ℤ) < net.minResponses then
    (net, .error ⟨"Only " ++ toString results.length ++ "/" ++ toString net.servers.length ++
      " nodes responded (min_responses=" ++ toString net.minResponses ++ ")"⟩)
  else
    let cr := runConsensus R results (some net.publicKeys) net.quorumThreshold
    ({ net with
        history := net.history ++ [(tx, results, cr)]
        auditLog := net.auditLog.map fun log => log.record now tx results cr },
      .ok (results, cr))

/-- The servers after a round of requests. -/
def serve (net : P2PNetwork rt) (tx : Transaction) (channel : NodeServer rt → Channel) :
    List (NodeServer rt) :=
  net.servers.map fun s => if net.isParticipating s then (sendToServer s tx (channel s)).1 else s

/-- The responses of a round of requests. -/
def gather (net : P2PNetwork rt) (tx : Transaction) (channel : NodeServer rt → Channel) :
    List (NodeServer rt × Response) :=
  net.participating.map fun s => (s, (sendToServer s tx (channel s)).2)

/-- Send `tx` to every participating server, collect results and run consensus. -/
def broadcast (net : P2PNetwork rt) (now : ℕ) (tx : Transaction)
    (channel : NodeServer rt → Channel) :
    P2PNetwork rt × Except InsufficientQuorumError (List NodeResult × ConsensusResult) :=
  collect R { net with servers := net.serve tx channel } now tx (net.gather tx channel)

/-! ## Frame -/

theorem sendToServer_nodeId (server : NodeServer rt) (tx : Transaction) (channel : Channel) :
    (sendToServer server tx channel).1.nodeId = server.nodeId := by
  cases channel <;> simp [sendToServer]

theorem sendToServer_publicKey (server : NodeServer rt) (tx : Transaction) (channel : Channel) :
    (sendToServer server tx channel).1.publicKey = server.publicKey := by
  cases channel <;> simp [sendToServer]

theorem publicKeys_serve (net : P2PNetwork rt) (tx : Transaction)
    (channel : NodeServer rt → Channel) :
    publicKeys { net with servers := net.serve tx channel } = net.publicKeys := by
  unfold publicKeys serve
  rw [List.map_map]
  congr 1
  refine List.map_congr_left fun s _ => ?_
  dsimp only [Function.comp]
  split
  · rw [sendToServer_nodeId, sendToServer_publicKey]
  · rfl

/-- With distinct ids every server's key is the one registered. -/
theorem get?_publicKeys {net : P2PNetwork rt} (hids : (net.servers.map NodeServer.nodeId).Nodup)
    {server : NodeServer rt} (hs : server ∈ net.servers) :
    net.publicKeys.get? server.nodeId = some server.publicKey :=
  OrderedDict.get?_ofList_map NodeServer.nodeId NodeServer.publicKey net.servers hids hs

@[simp] theorem collect_servers (net : P2PNetwork rt) (now : ℕ) (tx : Transaction)
    (responses : List (NodeServer rt × Response)) :
    (collect R net now tx responses).1.servers = net.servers := by
  unfold collect
  dsimp only
  split <;> rfl

@[simp] theorem collect_health (net : P2PNetwork rt) (now : ℕ) (tx : Transaction)
    (responses : List (NodeServer rt × Response)) :
    (collect R net now tx responses).1.health =
      responses.foldl (recordResponse now) net.health := by
  unfold collect
  dsimp only
  split <;> rfl

/-- A round that does not raise had enough results and ran consensus over them. -/
theorem collect_eq_ok {net : P2PNetwork rt} {now : ℕ} {tx : Transaction}
    {responses : List (NodeServer rt × Response)} {results : List NodeResult}
    {cr : ConsensusResult} (h : (collect R net now tx responses).2 = .ok (results, cr)) :
    results = resultsOf responses ∧ net.minResponses ≤ results.length ∧
      cr = runConsensus R results (some net.publicKeys) net.quorumThreshold := by
  unfold collect at h
  dsimp only at h
  split at h
  · cases h
  · next hmin =>
    cases h
    exact ⟨rfl, not_lt.mp hmin, rfl⟩

/-- With enough results the round is recorded. -/
theorem collect_of_le {net : P2PNetwork rt} {responses : List (NodeServer rt × Response)}
    (h : net.minResponses ≤ (resultsOf responses).length) (now : ℕ) (tx : Transaction) :
    let cr := runConsensus R (resultsOf responses) (some net.publicKeys) net.quorumThreshold
    collect R net now tx responses =
      ({ net with
          health := responses.foldl (recordResponse now) net.health
          history := net.history ++ [(tx, resultsOf responses, cr)]
          auditLog := net.auditLog.map fun log => log.record now tx (resultsOf responses) cr },
        .ok (resultsOf responses, cr)) := by
  unfold collect
  dsimp only
  rw [if_neg (not_lt.mpr h)]
  rfl

/-- With too few results only the health records change. -/
theorem collect_of_lt {net : P2PNetwork rt} {responses : List (NodeServer rt × Response)}
    (h : ((resultsOf responses).length : ℤ) < net.minResponses) (now : ℕ) (tx : Transaction) :
    ∃ e, collect R net now tx responses =
      ({ net with health := responses.foldl (recordResponse now) net.health }, .error e) := by
  unfold collect
  dsimp only
  rw [if_pos h]
  exact ⟨_, rfl⟩

/-- A broadcast raises and records nothing, or returns and records the round. -/
theorem broadcast_cases (net : P2PNetwork rt) (now : ℕ) (tx : Transaction)
    (channel : NodeServer rt → Channel) :
    (∃ e, (net.broadcast R now tx channel).2 = .error e ∧
      (net.broadcast R now tx channel).1.history = net.history ∧
      (net.broadcast R now tx channel).1.auditLog = net.auditLog) ∨
    ∃ results cr, (net.broadcast R now tx channel).2 = .ok (results, cr) ∧
      (net.broadcast R now tx channel).1.history = net.history ++ [(tx, results, cr)] ∧
      (net.broadcast R now tx channel).1.auditLog =
        net.auditLog.map fun log => log.record now tx results cr := by
  unfold broadcast collect
  dsimp only
  split
  · exact .inl ⟨_, rfl, rfl, rfl⟩
  · exact .inr ⟨_, _, rfl, rfl, rfl⟩

/-- A broadcast that returns had enough results and ran consensus over them. -/
theorem broadcast_eq_ok {net : P2PNetwork rt} {now : ℕ} {tx : Transaction}
    {channel : NodeServer rt → Channel} {results : List NodeResult} {cr : ConsensusResult}
    (h : (net.broadcast R now tx channel).2 = .ok (results, cr)) :
    results = resultsOf (net.gather tx channel) ∧ net.minResponses ≤ results.length ∧
      cr = runConsensus R results (some net.publicKeys) net.quorumThreshold := by
  obtain ⟨hresults, hmin, hcr⟩ := collect_eq_ok R h
  rw [publicKeys_serve] at hcr
  exact ⟨hresults, hmin, hcr⟩

/-- With enough results a broadcast returns and is recorded. -/
theorem broadcast_of_le {net : P2PNetwork rt} {tx : Transaction}
    {channel : NodeServer rt → Channel}
    (h : net.minResponses ≤ (resultsOf (net.gather tx channel)).length) (now : ℕ) :
    let results := resultsOf (net.gather tx channel)
    let cr := runConsensus R results (some net.publicKeys) net.quorumThreshold
    (net.broadcast R now tx channel).2 = .ok (results, cr) ∧
      (net.broadcast R now tx channel).1.auditLog =
        net.auditLog.map fun log => log.record now tx results cr := by
  have hmin : ({ net with servers := net.serve tx channel } : P2PNetwork rt).minResponses ≤
      (resultsOf (net.gather tx channel)).length := h
  rw [broadcast, collect_of_le R hmin now tx, publicKeys_serve]
  exact ⟨rfl, rfl⟩

end P2PNetwork
end ECN
