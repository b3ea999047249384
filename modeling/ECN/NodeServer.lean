import ECN.Node

/-!
# Node servers

A server owns a node and the key the node signs with. A request is a transaction
and the reply either carries the three transmitted fields of the result or reports
an error.
-/
namespace ECN

/-- What the server writes back. -/
inductive Reply where
  | result (nodeId stateHash : String) (signature : Option String)
  | error (exc : Exc)

/-- A listening server; its node signs and hashes the whole state. -/
structure NodeServer (rt : Runtime) where
  host : String
  port : ℕ
  privateKey : rt.PrivateKey
  node : Node rt
  signing : node.signingKey = some privateKey
  wholeState : node.manager.useMerkle = false

namespace NodeServer

variable {rt : Runtime}

def init (rt : Runtime) (nodeId : String) (initialState : State) (host : String) (port : ℕ)
    (privateKey : rt.PrivateKey) (malicious : Bool) : NodeServer rt :=
  ⟨host, port, privateKey, ⟨nodeId, malicious, some privateKey, .init (some initialState) false⟩,
    rfl, rfl⟩

def nodeId (server : NodeServer rt) : String := server.node.nodeId

def publicKey (server : NodeServer rt) : rt.PublicKey := rt.publicKey server.privateKey

def state (server : NodeServer rt) : State := server.node.manager.state

/-- The server after its node has run `tx`. -/
def afterExecute (server : NodeServer rt) (tx : Transaction) : NodeServer rt where
  host := server.host
  port := server.port
  privateKey := server.privateKey
  node := (server.node.executeTransaction tx).1
  signing := by
    obtain ⟨manager, h, -⟩ := server.node.executeTransaction_frame tx
    rw [h]
    exact server.signing
  wholeState := by
    obtain ⟨manager, h, hm⟩ := server.node.executeTransaction_frame tx
    rw [h]
    exact hm.trans server.wholeState

/-- Serve one request: any exception becomes an error reply. -/
def handleClient (server : NodeServer rt) (tx : Transaction) : NodeServer rt × Reply :=
  (server.afterExecute tx,
    match (server.node.executeTransaction tx).2 with
    | .ok r => .result r.nodeId r.stateHash r.signature
    | .error e => .error e)

@[simp] theorem handleClient_nodeId (server : NodeServer rt) (tx : Transaction) :
    (server.handleClient tx).1.nodeId = server.nodeId := by
  obtain ⟨manager, h, -⟩ := server.node.executeTransaction_frame tx
  simp [nodeId, handleClient, afterExecute, h]

@[simp] theorem handleClient_publicKey (server : NodeServer rt) (tx : Transaction) :
    (server.handleClient tx).1.publicKey = server.publicKey := rfl

theorem handleClient_malicious (server : NodeServer rt) (tx : Transaction) :
    (server.handleClient tx).1.node.malicious = server.node.malicious := by
  obtain ⟨manager, h, -⟩ := server.node.executeTransaction_frame tx
  simp [handleClient, afterExecute, h]

/-- The state and the hash a server in `state` reaches with `tx`. -/
def evaluate (rt : Runtime) (state : State) (tx : Transaction) : Except Exc (State × String) :=
  Node.evaluate rt false state tx

/-- An evaluated request is answered with a signature that verifies. -/
theorem handleClient_of_ok (server : NodeServer rt) {tx : Transaction} {new : State} {h : String}
    (he : evaluate rt server.state tx = .ok (new, h)) :
    (server.handleClient tx).1.state = new ∧
      (server.handleClient tx).2 = .result server.nodeId (server.node.reportedHash h)
        (some (signResult rt.toCrypto server.nodeId (server.node.reportedHash h)
          server.privateKey)) := by
  have hnode : Node.evaluate rt server.node.manager.useMerkle server.node.manager.state tx =
      .ok (new, h) := by
    rw [server.wholeState]
    exact he
  obtain ⟨trace, ht⟩ := server.node.executeTransaction_of_ok hnode
  simp [handleClient, afterExecute, state, nodeId, ht, server.signing]

/-- A request that the node cannot evaluate is answered with an error. -/
theorem handleClient_of_error (server : NodeServer rt) {tx : Transaction}
    (he : ∀ new h, evaluate rt server.state tx ≠ .ok (new, h)) :
    ∃ e, (server.handleClient tx).2 = .error e := by
  have hnode : ∀ new h, Node.evaluate rt server.node.manager.useMerkle
      server.node.manager.state tx ≠ .ok (new, h) := by
    rw [server.wholeState]
    exact he
  obtain ⟨e, ht⟩ := server.node.executeTransaction_of_error hnode
  exact ⟨e, by simp [handleClient, ht]⟩

/-- A result carries the server's own id. -/
theorem nodeId_of_handleClient {server : NodeServer rt} {tx : Transaction}
    {nodeId stateHash : String} {signature : Option String}
    (h : (server.handleClient tx).2 = .result nodeId stateHash signature) :
    nodeId = server.nodeId := by
  by_cases he : ∃ new h, evaluate rt server.state tx = .ok (new, h)
  · obtain ⟨new, hash, he⟩ := he
    rw [(server.handleClient_of_ok he).2] at h
    injection h with hid
    exact hid.symm
  · push Not at he
    obtain ⟨e, herr⟩ := server.handleClient_of_error he
    rw [herr] at h
    cases h

/-- The state after a request: replaced once the engine accepts. -/
def nextState (rt : Runtime) (state : State) (tx : Transaction) : State :=
  match stateHash rt false state, rt.execute state tx with
  | .ok _, .ok new => new
  | _, _ => state

theorem handleClient_state (server : NodeServer rt) (tx : Transaction) :
    (server.handleClient tx).1.state = nextState rt server.state tx := by
  have h := server.node.executeTransaction_state tx
  rw [StateManager.computeStateHash, server.wholeState] at h
  exact h

/-- A server that cannot hash its state, or whose engine rejects, is left as it was and
replies with an error. -/
theorem handleClient_of_rejected (server : NodeServer rt) {tx : Transaction}
    (h : ¬ ((∃ h₀, stateHash rt false server.state = .ok h₀) ∧
      ∃ new, rt.execute server.state tx = .ok new)) :
    ∃ e, server.handleClient tx = (server, .error e) := by
  rw [← server.wholeState] at h
  obtain ⟨e, hnode⟩ := server.node.executeTransaction_of_rejected h
  refine ⟨e, ?_⟩
  cases server
  simp only [handleClient, afterExecute, hnode]

theorem handleClient_of_accepted (server : NodeServer rt) {tx : Transaction}
    {new : State} (hold : ∃ h, stateHash rt false server.state = .ok h)
    (hex : rt.execute server.state tx = .ok new) :
    (server.handleClient tx).1.state = new := by
  obtain ⟨h, hh⟩ := hold
  rw [handleClient_state, nextState, hh, hex]

end NodeServer
end ECN
