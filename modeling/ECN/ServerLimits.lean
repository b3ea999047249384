import ECN.JsonLoads
import ECN.Limits
import ECN.P2PNetwork

/-!
# The network of node servers within the limits

A transaction that cannot be printed is not sent, one whose line is too long or cannot be
parsed is not run, and a node can meet a limit before or after its state is replaced. Each
of these is one of the fates of a message: the request is lost, or its reply is. So a round
within the limits is a round without them over other channels.
-/
namespace ECN

variable {rt : Runtime}

namespace Limits

variable (L : Limits)

/-- The sender can print the transaction. -/
def Sends (tx : Transaction) : Prop :=
  L.InDigits (.dict tx) ∧ (Value.dict tx).Fits nesting L.sendDepth

/-- The server takes the line of the transaction and parses it. -/
def Reads (py : Interp) (tx : Transaction) : Prop :=
  L.Sends tx ∧ (utf8 ((Value.dict tx).jsonText py)).length ≤ L.lineBytes ∧
    (Value.dict tx).Fits nesting L.readDepth

instance (tx : Transaction) : Decidable (L.Sends tx) := inferInstanceAs (Decidable (_ ∧ _))

instance (py : Interp) (tx : Transaction) : Decidable (L.Reads py tx) :=
  inferInstanceAs (Decidable (_ ∧ _ ∧ _))

end Limits

/-! ## Servers -/

namespace NodeServer

variable (L : Limits)

theorem executeWithin_frame (server : NodeServer rt) (tx : Transaction) :
    ∃ manager, (server.node.executeWithin L tx).1 = { server.node with manager } ∧
      manager.useMerkle = server.node.manager.useMerkle := by
  rcases Node.executeWithin_cases L server.node tx with
    ⟨⟨f, hnode⟩, -⟩ | ⟨new, f, trace, hnode, -⟩ | ⟨new, result, trace, hnode, -⟩
  · exact ⟨_, by rw [hnode], rfl⟩
  · exact ⟨{ server.node.manager with state := new, trace }, by rw [hnode], rfl⟩
  · exact ⟨{ server.node.manager with state := new, trace }, by rw [hnode], rfl⟩

/-- The server after its node has run `tx`. -/
def afterExecuteWithin (server : NodeServer rt) (tx : Transaction) : NodeServer rt where
  host := server.host
  port := server.port
  privateKey := server.privateKey
  node := (server.node.executeWithin L tx).1
  signing := by
    obtain ⟨manager, h, -⟩ := server.executeWithin_frame L tx
    rw [h]
    exact server.signing
  wholeState := by
    obtain ⟨manager, h, hm⟩ := server.executeWithin_frame L tx
    rw [h]
    exact hm.trans server.wholeState

/-- Serve one request: a line that is not read and any exception become an error reply. -/
def handleClientWithin (server : NodeServer rt) (tx : Transaction) :
    NodeServer rt × Except Failure NodeResult :=
  if L.Reads rt.toInterp tx then
    (server.afterExecuteWithin L tx, (server.node.executeWithin L tx).2)
  else (server, .error .limit)

/-- The server reads the request, its state can be copied and hashed, and its engine
accepts. -/
def Steps (server : NodeServer rt) (tx : Transaction) : Prop :=
  L.Reads rt.toInterp tx ∧ L.Ready rt server.node.manager ∧
    ∃ new, rt.execute server.state tx = .ok new

/-- The server answers the request with a result. -/
def Answers (server : NodeServer rt) (tx : Transaction) : Prop :=
  L.Reads rt.toInterp tx ∧ server.node.manager.CanApply L rt tx

instance (server : NodeServer rt) (tx : Transaction) : Decidable (server.Steps L tx) :=
  inferInstanceAs (Decidable (_ ∧ _ ∧ _))

instance (server : NodeServer rt) (tx : Transaction) : Decidable (server.Answers L tx) :=
  inferInstanceAs (Decidable (_ ∧ _))

/-- What one request can do to a server: it is refused without effect, or the state is
replaced and the server answers as it does without limits, or not at all. -/
theorem handleClientWithin_cases (server : NodeServer rt) (tx : Transaction) :
    (¬ server.Steps L tx ∧ ¬ server.Answers L tx ∧
      ∃ f, server.handleClientWithin L tx = (server, .error f)) ∨
    (server.Steps L tx ∧ (server.handleClientWithin L tx).1.nodeId = server.nodeId ∧
      (server.handleClientWithin L tx).1.publicKey = server.publicKey ∧
      rt.execute server.state tx = .ok (server.handleClientWithin L tx).1.state ∧
      ((¬ server.Answers L tx ∧ ∃ f, (server.handleClientWithin L tx).2 = .error f) ∨
        (server.Answers L tx ∧ server.afterExecuteWithin L tx = server.afterExecute tx ∧
          ∃ r, (server.handleClientWithin L tx).2 = .ok r ∧
            (server.node.executeTransaction tx).2 = .ok r))) := by
  unfold handleClientWithin Answers Steps
  split
  · next hreads =>
    rcases Node.executeWithin_cases L server.node tx with
      ⟨⟨f, hnode⟩, hno⟩ | ⟨new, f, trace, hnode, hready, hex, hover⟩ |
        ⟨new, r, trace, hnode, hfree, hready, hex, hdone⟩
    · have hunchanged : server.afterExecuteWithin L tx = server := by
        cases server
        simp only [afterExecuteWithin, hnode]
      refine .inl ⟨fun h => hno h.2, fun h => ?_, f, by rw [hunchanged, hnode]⟩
      obtain ⟨hready, new, hex, -⟩ := StateManager.canApply_iff.mp h.2
      exact hno ⟨hready, new, hex⟩
    · have hafter : rt.execute server.state tx = .ok (server.afterExecuteWithin L tx).state := by
        simp only [state, afterExecuteWithin, hnode]
        exact hex
      refine .inr ⟨⟨hreads, hready, new, hex⟩, ?_, rfl, hafter, .inl ⟨fun h => ?_, f, ?_⟩⟩
      · simp only [nodeId, afterExecuteWithin, hnode]
      · obtain ⟨-, new', hex', hdone⟩ := StateManager.canApply_iff.mp h.2
        exact hover (Except.ok.inj (hex'.symm.trans hex) ▸ hdone)
      · rw [hnode]
    · have hafter : rt.execute server.state tx = .ok (server.afterExecuteWithin L tx).state := by
        simp only [state, afterExecuteWithin, hnode]
        exact hex
      refine .inr ⟨⟨hreads, hready, new, hex⟩, ?_, rfl, hafter,
        .inr ⟨⟨hreads, StateManager.canApply_iff.mpr ⟨hready, new, hex, hdone⟩⟩, ?_, r, ?_, ?_⟩⟩
      · simp only [nodeId, afterExecuteWithin, hnode]
      · simp only [afterExecuteWithin, afterExecute, hnode, hfree]
      · rw [hnode]
      · rw [hfree]
  · next hreads => exact .inl ⟨fun h => hreads h.1, fun h => hreads h.1, .limit, rfl⟩

end NodeServer

/-! ## Rounds -/

/-- Read the three transmitted fields of one answer. -/
def receiveWithin (latencyMs : ℚ) : Except Failure NodeResult → Response
  | .ok r => receive latencyMs (.result r.nodeId r.stateHash r.signature)
  | .error _ => none

/-- Send `tx` to one server. A line that is not written is not answered by anyone. -/
def sendWithin (L : Limits) (server : NodeServer rt) (tx : Transaction) :
    Channel → NodeServer rt × Response
  | .requestLost => (server, none)
  | .replyLost => ((server.handleClientWithin L tx).1, none)
  | .answered latencyMs =>
    ((server.handleClientWithin L tx).1, receiveWithin latencyMs (server.handleClientWithin L tx).2)
  | .byzantine reply latencyMs => (server, if L.Sends tx then receive latencyMs reply else none)

/-- Why a broadcast raises: too few answers, or an exception of the store or of the
printing. -/
inductive BroadcastError where
  | quorum (e : InsufficientQuorumError)
  | record

namespace P2PNetwork

variable (L : Limits) (R : Rounding)

/-- The servers after a round of requests. -/
def serveWithin (net : P2PNetwork rt) (tx : Transaction) (channel : NodeServer rt → Channel) :
    List (NodeServer rt) :=
  net.servers.map fun s => if net.isParticipating s then (sendWithin L s tx (channel s)).1 else s

/-- The responses of a round of requests. -/
def gatherWithin (net : P2PNetwork rt) (tx : Transaction) (channel : NodeServer rt → Channel) :
    List (NodeServer rt × Response) :=
  net.participating.map fun s => (s, (sendWithin L s tx (channel s)).2)

/-- A broadcast whose round is or is not recorded and printed without an exception. The
round joins the history, and its event the log, before the store is written. -/
def broadcastWithin (net : P2PNetwork rt) (now : ℕ) (tx : Transaction)
    (channel : NodeServer rt → Channel) (recorded : Bool) :
    P2PNetwork rt × Except BroadcastError (List NodeResult × ConsensusResult) :=
  match collect R { net with servers := net.serveWithin L tx channel } now tx
    (net.gatherWithin L tx channel) with
  | (net, .error e) => (net, .error (.quorum e))
  | (net, .ok out) => (net, if recorded then .ok out else .error .record)

end P2PNetwork

/-! ## Limits as losses -/

/-- What the limits make of a message: the request or the reply is lost, or neither. -/
def fateWithin (L : Limits) (server : NodeServer rt) (tx : Transaction) : Channel → Channel
  | .requestLost => .requestLost
  | .replyLost => if server.Steps L tx then .replyLost else .requestLost
  | .answered latencyMs =>
    if server.Answers L tx then .answered latencyMs
    else if server.Steps L tx then .replyLost
    else .requestLost
  | .byzantine reply latencyMs =>
    if L.Sends tx then .byzantine reply latencyMs else .requestLost

section Fates

variable {L : Limits} {server : NodeServer rt} {tx : Transaction}

/-- A server that steps makes the step that it makes without limits. -/
theorem state_of_steps (h : server.Steps L tx) :
    (server.handleClientWithin L tx).1.state = (server.handleClient tx).1.state := by
  rcases server.handleClientWithin_cases L tx with ⟨hno, -⟩ | ⟨-, -, -, hex, -⟩
  · exact (hno h).elim
  · obtain ⟨-, hready, -⟩ := h
    have hold := hready.2.2
    rw [server.wholeState] at hold
    exact (server.handleClient_of_accepted hold hex).symm

/-- The response and the state after a message are those of its fate. -/
theorem sendWithin_fate (server : NodeServer rt) (tx : Transaction) (channel : Channel) :
    (sendWithin L server tx channel).2 =
        (sendToServer server tx (fateWithin L server tx channel)).2 ∧
      (sendWithin L server tx channel).1.state =
        (sendToServer server tx (fateWithin L server tx channel)).1.state := by
  have hcases := server.handleClientWithin_cases L tx
  cases channel with
  | requestLost => exact ⟨rfl, rfl⟩
  | byzantine reply latencyMs =>
    simp only [sendWithin, fateWithin]
    split <;> exact ⟨rfl, rfl⟩
  | replyLost =>
    simp only [sendWithin, fateWithin]
    split
    · next hsteps => exact ⟨rfl, state_of_steps hsteps⟩
    · next hsteps =>
      obtain ⟨-, -, f, hserve⟩ := hcases.resolve_right fun h => hsteps h.1
      rw [hserve]
      exact ⟨rfl, rfl⟩
  | answered latencyMs =>
    simp only [sendWithin, fateWithin]
    split
    · next hanswers =>
      obtain ⟨hsteps, -, -, -, hout⟩ := hcases.resolve_left fun h => h.2.1 hanswers
      obtain ⟨-, -, r, hserve, hfree⟩ := hout.resolve_left fun h => h.1 hanswers
      refine ⟨?_, state_of_steps hsteps⟩
      simp only [sendToServer, hserve, receiveWithin, NodeServer.handleClient, hfree]
    · next hanswers =>
      split
      · next hsteps =>
        obtain ⟨-, -, -, -, hout⟩ := hcases.resolve_left fun h => h.1 hsteps
        obtain ⟨-, f, hserve⟩ := hout.resolve_right fun h => hanswers h.1
        rw [hserve]
        exact ⟨rfl, state_of_steps hsteps⟩
      · next hsteps =>
        obtain ⟨-, -, f, hserve⟩ := hcases.resolve_right fun h => hsteps h.1
        rw [hserve]
        exact ⟨rfl, rfl⟩

/-- Ids and keys are as before. -/
theorem sendWithin_frame (server : NodeServer rt) (tx : Transaction) (channel : Channel) :
    (sendWithin L server tx channel).1.nodeId = server.nodeId ∧
      (sendWithin L server tx channel).1.publicKey = server.publicKey := by
  have hserve : (server.handleClientWithin L tx).1.nodeId = server.nodeId ∧
      (server.handleClientWithin L tx).1.publicKey = server.publicKey := by
    rcases server.handleClientWithin_cases L tx with ⟨-, -, f, h⟩ | ⟨-, hid, hkey, -⟩
    · rw [h]
      exact ⟨rfl, rfl⟩
    · exact ⟨hid, hkey⟩
  cases channel with
  | requestLost => exact ⟨rfl, rfl⟩
  | replyLost => exact hserve
  | answered latencyMs => exact hserve
  | byzantine reply latencyMs => exact ⟨rfl, rfl⟩

/-- The limits do not show at a server that answers whatever it accepts without them. -/
def Unlimited (L : Limits) (server : NodeServer rt) (tx : Transaction) : Prop :=
  L.Sends tx ∧ ((∃ h, stateHash rt false server.state = .ok h) →
    (∃ new, rt.execute server.state tx = .ok new) → server.Answers L tx)

instance (L : Limits) (server : NodeServer rt) (tx : Transaction) :
    Decidable (Unlimited L server tx) :=
  inferInstanceAs (Decidable (_ ∧ (_ → _ → _)))

theorem sendWithin_of_unlimited (h : Unlimited L server tx) (channel : Channel) :
    sendWithin L server tx channel = sendToServer server tx channel := by
  have hserve : (server.handleClientWithin L tx).1 = (server.handleClient tx).1 ∧
      ∀ latencyMs, receiveWithin latencyMs (server.handleClientWithin L tx).2 =
        receive latencyMs (server.handleClient tx).2 := by
    rcases server.handleClientWithin_cases L tx with
      ⟨-, hno, f, hrefused⟩ | ⟨hsteps, -, -, -, hout⟩
    · have hrejected : ¬ ((∃ h₀, stateHash rt false server.state = .ok h₀) ∧
          ∃ new, rt.execute server.state tx = .ok new) := fun hacc => hno (h.2 hacc.1 hacc.2)
      obtain ⟨e, hfree⟩ := server.handleClient_of_rejected hrejected
      rw [hrefused, hfree]
      exact ⟨rfl, fun _ => rfl⟩
    · have hold := hsteps.2.1.2.2
      rw [server.wholeState] at hold
      obtain ⟨hanswers, hafter, r, hwithin, hfree⟩ :=
        hout.resolve_left fun hno => hno.1 (h.2 hold hsteps.2.2)
      refine ⟨?_, fun latencyMs => ?_⟩
      · rw [NodeServer.handleClientWithin, if_pos hanswers.1]
        exact hafter
      · simp only [hwithin, receiveWithin, NodeServer.handleClient, hfree]
  cases channel with
  | requestLost => rfl
  | replyLost => rw [sendWithin, sendToServer, hserve.1]
  | answered latencyMs => rw [sendWithin, sendToServer, hserve.1, hserve.2]
  | byzantine reply latencyMs => rw [sendWithin, sendToServer, if_pos h.1]

end Fates

namespace P2PNetwork

variable {L : Limits} {R : Rounding} {net : P2PNetwork rt} {tx : Transaction}
  {channel : NodeServer rt → Channel}

/-- What the limits make of the messages of a round. -/
def fates (L : Limits) (tx : Transaction) (channel : NodeServer rt → Channel)
    (server : NodeServer rt) : Channel := fateWithin L server tx (channel server)

theorem gatherWithin_eq : net.gatherWithin L tx channel = net.gather tx (fates L tx channel) :=
  List.map_congr_left fun s _ => by rw [(sendWithin_fate s tx (channel s)).1, fates]

theorem states_serveWithin : (net.serveWithin L tx channel).map NodeServer.state =
    (net.serve tx (fates L tx channel)).map NodeServer.state := by
  rw [serveWithin, serve, List.map_map, List.map_map]
  refine List.map_congr_left fun s _ => ?_
  dsimp only [Function.comp]
  split
  · exact (sendWithin_fate s tx (channel s)).2
  · rfl

theorem publicKeys_serveWithin :
    publicKeys { net with servers := net.serveWithin L tx channel } = net.publicKeys := by
  unfold publicKeys serveWithin
  rw [List.map_map]
  congr 1
  refine List.map_congr_left fun s _ => ?_
  dsimp only [Function.comp]
  split
  · obtain ⟨hid, hkey⟩ := sendWithin_frame (L := L) s tx (channel s)
    rw [hid, hkey]
  · rfl

/-- The rest of a broadcast reads only the keys and the number of the servers. -/
theorem collect_congr {servers servers' : List (NodeServer rt)}
    (hkeys : publicKeys { net with servers := servers } =
      publicKeys { net with servers := servers' })
    (hlength : servers.length = servers'.length) (now : ℕ)
    (responses : List (NodeServer rt × Response)) :
    collect R { net with servers := servers } now tx responses =
      ({ (collect R { net with servers := servers' } now tx responses).1 with
          servers := servers },
        (collect R { net with servers := servers' } now tx responses).2) := by
  have hkeys' : publicKeys { net with
        servers := servers, health := responses.foldl (recordResponse now) net.health } =
      publicKeys { net with
        servers := servers', health := responses.foldl (recordResponse now) net.health } := hkeys
  unfold collect
  dsimp only
  rw [hkeys', hlength]
  split <;> rfl

/-- A round within the limits is a round without them over the channels that the limits
make, up to what the servers remember besides their states. -/
theorem broadcastWithin_eq (now : ℕ) (recorded : Bool) :
    net.broadcastWithin L R now tx channel recorded =
      ({ (net.broadcast R now tx (fates L tx channel)).1 with
          servers := net.serveWithin L tx channel },
        match (net.broadcast R now tx (fates L tx channel)).2 with
        | .error e => .error (.quorum e)
        | .ok out => if recorded then .ok out else .error .record) := by
  have hkeys : publicKeys { net with servers := net.serveWithin L tx channel } =
      publicKeys { net with servers := net.serve tx (fates L tx channel) } := by
    rw [publicKeys_serveWithin, publicKeys_serve]
  have hlength : (net.serveWithin L tx channel).length =
      (net.serve tx (fates L tx channel)).length := by
    rw [serveWithin, serve, List.length_map, List.length_map]
  rw [broadcastWithin, broadcast, gatherWithin_eq, collect_congr hkeys hlength]
  cases (collect R { net with servers := net.serve tx (fates L tx channel) } now tx
    (net.gather tx (fates L tx channel))).2 with
  | error e => rfl
  | ok out => rfl

theorem serveWithin_of_unlimited (h : ∀ s ∈ net.participating, Unlimited L s tx) :
    net.serveWithin L tx channel = net.serve tx channel :=
  List.map_congr_left fun s hs => by
    split
    · next hpart => rw [sendWithin_of_unlimited (h s (List.mem_filter.mpr ⟨hs, hpart⟩))]
    · rfl

theorem gatherWithin_of_unlimited (h : ∀ s ∈ net.participating, Unlimited L s tx) :
    net.gatherWithin L tx channel = net.gather tx channel :=
  List.map_congr_left fun s hs => by rw [sendWithin_of_unlimited (h s hs)]

/-- Where the limits show at no server, a recorded round is the round without them. -/
theorem broadcastWithin_of_unlimited (h : ∀ s ∈ net.participating, Unlimited L s tx) (now : ℕ) :
    net.broadcastWithin L R now tx channel true =
      ((net.broadcast R now tx channel).1,
        (net.broadcast R now tx channel).2.mapError BroadcastError.quorum) := by
  rw [broadcastWithin, serveWithin_of_unlimited h, gatherWithin_of_unlimited h, ← broadcast]
  split
  · next after e hb => rw [hb]; rfl
  · next after out hb => rw [hb]; rfl

end P2PNetwork

end ECN
