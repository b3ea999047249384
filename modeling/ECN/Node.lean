import ECN.StateManager

/-!
# Nodes

A node applies a transaction to its own state and reports the hash, signed when it
has a key. A malicious node computes the state correctly and reports a corrupted
hash.
-/
namespace ECN

variable (rt : Runtime)

/-- A node's output for one transaction. Results read off the wire carry no state
and no trace entry. -/
structure NodeResult where
  nodeId : String
  stateHash : String
  resultState : State
  traceEntry : Option TraceEntry
  signature : Option String

structure Node (rt : Runtime) where
  nodeId : String
  malicious : Bool
  signingKey : Option rt.PrivateKey
  manager : StateManager

/-- The deterministically corrupted hash. -/
def corruptHash (trueHash : String) : String :=
  String.ofList (trueHash.toList.take (trueHash.length - 8)) ++ "DEADBEEF"

theorem corruptHash_ne_hexDigest (crypto : Crypto) (s : String) (data : List UInt8) :
    corruptHash s ≠ hexDigest crypto data :=
  ne_hexDigest crypto (c := 'D') (by simp [corruptHash]) (by decide) data

namespace Node

variable {rt}

/-- A node over a copy of the initial state. -/
def init (nodeId : String) (initialState : State) (malicious useMerkle : Bool)
    (signingKey : Option rt.PrivateKey) : Node rt :=
  ⟨nodeId, malicious, signingKey, .init (some initialState) useMerkle⟩

/-- What the node reports for a true hash. -/
def reportedHash (node : Node rt) (trueHash : String) : String :=
  if node.malicious then corruptHash trueHash else trueHash

/-- Apply `tx` to this node's state. -/
def executeTransaction (node : Node rt) (tx : Transaction) : Node rt × Except Exc NodeResult :=
  match node.manager.applyTransaction rt tx with
  | (manager, .error e) => ({ node with manager }, .error e)
  | (manager, .ok newState) =>
    match manager.computeStateHash rt with
    | .error e => ({ node with manager }, .error e)
    | .ok trueHash =>
      let reported := node.reportedHash trueHash
      ({ node with manager },
        .ok ⟨node.nodeId, reported, newState, manager.trace.getLast?,
          node.signingKey.map (signResult rt.toCrypto node.nodeId reported)⟩)

/-- State and hash that a step from `state` ends with, when no part of it raises. -/
def evaluate (rt : Runtime) (useMerkle : Bool) (state : State) (tx : Transaction) :
    Except Exc (State × String) := do
  let _ ← ECN.stateHash rt useMerkle state
  let new ← rt.execute state tx
  let (newHash, _) ← StateManager.summarize rt useMerkle state new
  return (new, newHash)

theorem evaluate_eq_ok {useMerkle : Bool} {state new : State} {tx : Transaction} {h : String} :
    evaluate rt useMerkle state tx = .ok (new, h) ↔
      (∃ h₀, ECN.stateHash rt useMerkle state = .ok h₀) ∧ rt.execute state tx = .ok new ∧
        ∃ diff, StateManager.summarize rt useMerkle state new = .ok (h, diff) := by
  simp only [evaluate, bind_eq_ok, pure_eq_ok, Prod.mk.injEq, Prod.exists]
  constructor
  · rintro ⟨h₀, hold, s, hex, h', diff, hs, rfl, rfl⟩
    exact ⟨⟨h₀, hold⟩, hex, diff, hs⟩
  · rintro ⟨⟨h₀, hold⟩, hex, diff, hs⟩
    exact ⟨h₀, hold, new, hex, h, diff, hs, rfl, rfl⟩

theorem stateHash_of_evaluate {useMerkle : Bool} {state new : State} {tx : Transaction}
    {h : String} (he : evaluate rt useMerkle state tx = .ok (new, h)) :
    ECN.stateHash rt useMerkle new = .ok h := by
  obtain ⟨-, -, diff, hs⟩ := evaluate_eq_ok.mp he
  simp only [StateManager.summarize, bind_eq_ok, pure_eq_ok, Prod.mk.injEq] at hs
  obtain ⟨h', hh, -, -, rfl, -⟩ := hs
  exact hh

/-- A node that can evaluate the transaction answers with the new state, its
reported hash and a signature over both identity and hash. -/
theorem executeTransaction_of_ok (node : Node rt) {tx : Transaction} {new : State} {h : String}
    (he : evaluate rt node.manager.useMerkle node.manager.state tx = .ok (new, h)) :
    ∃ trace, node.executeTransaction tx =
      ({ node with manager := { node.manager with
          state := new, trace := node.manager.trace ++ [trace] } },
        .ok ⟨node.nodeId, node.reportedHash h, new, some trace,
          node.signingKey.map (signResult rt.toCrypto node.nodeId (node.reportedHash h))⟩) := by
  have hhash := stateHash_of_evaluate he
  obtain ⟨⟨h₀, hold⟩, hex, diff, hs⟩ := evaluate_eq_ok.mp he
  refine ⟨⟨tx, h₀, h, diff⟩, ?_⟩
  have happ : node.manager.applyTransaction rt tx =
      ({ node.manager with state := new, trace := node.manager.trace ++ [⟨tx, h₀, h, diff⟩] },
        .ok new) := by
    unfold StateManager.applyTransaction StateManager.computeStateHash
    simp only [hold, hex, hs]
  unfold executeTransaction
  rw [happ]
  simp only [StateManager.computeStateHash, hhash, List.getLast?_append, List.getLast?_singleton,
    Option.some_or]

/-- A node that cannot evaluate the transaction raises. -/
theorem executeTransaction_of_error (node : Node rt) {tx : Transaction}
    (he : ∀ new h, evaluate rt node.manager.useMerkle node.manager.state tx ≠ .ok (new, h)) :
    ∃ e, (node.executeTransaction tx).2 = .error e := by
  unfold executeTransaction
  rcases StateManager.applyTransaction_cases rt node.manager tx with
    ⟨e, happ, -⟩ | ⟨new, e, h₀, happ, -⟩ | ⟨new, h₀, h, diff, happ, hold, hex, hs⟩
  · exact ⟨e, by rw [happ]⟩
  · exact ⟨e, by rw [happ]⟩
  · exact absurd (evaluate_eq_ok.mpr ⟨⟨h₀, hold⟩, hex, diff, hs⟩) (he new h)

/-- On documented states whatever the engine accepts can be evaluated. -/
theorem evaluate_of_execute {useMerkle : Bool} {state new : State} {tx : Transaction}
    (hs : WellShaped state) (hn : WellShaped new) (he : rt.execute state tx = .ok new) :
    ∃ h, evaluate rt useMerkle state tx = .ok (new, h) := by
  obtain ⟨h, hh⟩ := stateHash_ok rt hn useMerkle
  obtain ⟨diff, hd⟩ := computeDiff_ok hs hn
  refine ⟨h, evaluate_eq_ok.mpr ⟨stateHash_ok rt hs useMerkle, he, diff, ?_⟩⟩
  simp only [StateManager.summarize, bind_eq_ok, pure_eq_ok]
  exact ⟨h, hh, diff, hd, rfl⟩

/-- A node that cannot hash its state, or whose engine rejects, is left as it was. -/
theorem executeTransaction_of_rejected (node : Node rt) {tx : Transaction}
    (h : ¬ ((∃ h₀, stateHash rt node.manager.useMerkle node.manager.state = .ok h₀) ∧
      ∃ new, rt.execute node.manager.state tx = .ok new)) :
    ∃ e, node.executeTransaction tx = (node, .error e) := by
  unfold executeTransaction
  rcases StateManager.applyTransaction_cases rt node.manager tx with
    ⟨e, happ, -⟩ | ⟨new, -, h₀, -, hold, hex, -⟩ | ⟨new, h₀, -, -, -, hold, hex, -⟩
  · exact ⟨e, by rw [happ]⟩
  · exact absurd ⟨⟨h₀, hold⟩, new, hex⟩ h
  · exact absurd ⟨⟨h₀, hold⟩, new, hex⟩ h

theorem executeTransaction_ok_iff (node : Node rt) (tx : Transaction) :
    (∃ r, (node.executeTransaction tx).2 = .ok r) ↔
      ∃ new h, evaluate rt node.manager.useMerkle node.manager.state tx = .ok (new, h) := by
  constructor
  · rintro ⟨r, hr⟩
    by_contra hno
    push Not at hno
    obtain ⟨e, he⟩ := node.executeTransaction_of_error hno
    rw [he] at hr
    cases hr
  · rintro ⟨new, h, he⟩
    obtain ⟨trace, ht⟩ := node.executeTransaction_of_ok he
    exact ⟨_, by rw [ht]⟩

/-- The state after a step: the engine's result once the old state could be hashed
and the engine accepted, whatever is raised later. -/
theorem executeTransaction_state (node : Node rt) (tx : Transaction) :
    (node.executeTransaction tx).1.manager.state =
      match node.manager.computeStateHash rt, rt.execute node.manager.state tx with
      | .ok _, .ok new => new
      | _, _ => node.manager.state := by
  unfold executeTransaction
  rcases StateManager.applyTransaction_cases rt node.manager tx with
    ⟨e, happ, herr⟩ | ⟨new, e, h₀, happ, hold, hex, -⟩ | ⟨new, h₀, h, diff, happ, hold, hex, -⟩
  · rw [happ]
    rcases herr with ⟨e', he'⟩ | ⟨e', he'⟩
    · rw [he']
    · rw [he']
      cases node.manager.computeStateHash rt <;> rfl
  · rw [happ, hold, hex]
  · rw [happ, hold, hex]
    dsimp only
    split <;> rfl

theorem executeTransaction_frame (node : Node rt) (tx : Transaction) :
    ∃ manager, (node.executeTransaction tx).1 = { node with manager } ∧
      manager.useMerkle = node.manager.useMerkle := by
  have hm := StateManager.applyTransaction_useMerkle rt node.manager tx
  unfold executeTransaction
  cases happ : node.manager.applyTransaction rt tx with
  | mk manager out =>
    rw [happ] at hm
    cases out with
    | error e => exact ⟨manager, rfl, hm⟩
    | ok new =>
      dsimp only
      split <;> exact ⟨manager, rfl, hm⟩

end Node
end ECN
