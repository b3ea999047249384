import ECN.AtomicApply
import ECN.Network

/-!
# The simulated network within the limits

A call that raises too late leaves the first node of the loop one step ahead of the others,
and a round that cannot be recorded raises after all nodes have stepped. Nothing else can
go wrong in a network over one documented state.
-/
namespace ECN

variable {rt : Runtime}

/-- Why a broadcast raises: a node raises, or the round is not recorded. -/
inductive BroadcastFailure where
  | node (f : Failure)
  | record

/-- A transaction and the time at which it is broadcast. -/
structure BroadcastRound where
  now : ℕ
  tx : Transaction
  /-- The store keeps the event and the round is printed, neither with an exception. -/
  recorded : Bool

namespace Network

variable (L : Limits) (R : Rounding)

/-- The loop over the nodes, with the exception of the first that raises. -/
def executeAllWithin (tx : Transaction) :
    List (Node rt) → List (Node rt) × Except Failure (List NodeResult)
  | [] => ([], .ok [])
  | node :: nodes =>
    match node.executeWithin L tx with
    | (node, .error f) => (node :: nodes, .error f)
    | (node, .ok result) =>
      match executeAllWithin tx nodes with
      | (nodes, .error f) => (node :: nodes, .error f)
      | (nodes, .ok results) => (node :: nodes, .ok (result :: results))

/-- `broadcast`. The event joins the log before the store is written. -/
def broadcastWithin (net : Network rt) (round : BroadcastRound) :
    Network rt × Except BroadcastFailure (List NodeResult × ConsensusResult) :=
  match executeAllWithin L round.tx net.nodes with
  | (nodes, .error f) => ({ net with nodes }, .error (.node f))
  | (nodes, .ok results) =>
    let cr := runConsensus R results
      (if net.publicKeys.isEmpty then none else some net.publicKeys) (defaultQuorumThreshold R)
    ({ net with
        nodes
        history := net.history ++ [(round.tx, results, cr)]
        auditLog := net.auditLog.map fun log => log.record round.now round.tx results cr },
      if round.recorded then .ok (results, cr) else .error .record)

/-- The network after a broadcast. -/
def stepWithin (net : Network rt) (round : BroadcastRound) : Network rt :=
  (net.broadcastWithin L R round).1

/-- A broadcast either raises without effect or agrees on the hash of the state that
every node computes and names exactly the malicious nodes. -/
def Detects (net : Network rt) (round : BroadcastRound) : Prop :=
  match net.broadcastWithin L R round with
  | (after, .error _) =>
    after.nodes.map (fun node => node.manager.state) =
        net.nodes.map (fun node => node.manager.state) ∧
      after.history = net.history ∧ after.auditLog = net.auditLog
  | (_, .ok (_, cr)) =>
    (∃ new h, (∀ node ∈ net.nodes, rt.execute node.manager.state round.tx = .ok new ∧
        L.stateHash rt node.manager.useMerkle new = .ok h) ∧ cr.agreedHash = some h) ∧
      cr.consensusReached = true ∧ cr.faultyNodes = net.maliciousNodes

/-- Where a node can copy and hash its state and its engine accepts, nothing is written
beyond the limits and the round is recorded. -/
def Unhindered (net : Network rt) (round : BroadcastRound) : Prop :=
  ∀ node ∈ net.nodes, L.Ready rt node.manager →
    (∃ new, rt.execute node.manager.state round.tx = .ok new) →
      ¬ L.Exceeds rt node.manager round.tx ∧ round.recorded = true

/-! ## The loop -/

variable {L} {net : Network rt} {useMerkle : Bool} {state new : State} {round : BroadcastRound}
  {tx : Transaction}

theorem executeAllWithin_of_completes {nodes : List (Node rt)}
    (h : ∀ node ∈ nodes, L.Ready rt node.manager ∧
      ∃ new, rt.execute node.manager.state tx = .ok new ∧ L.Completes rt node.manager new) :
    ∃ nodes' results, executeAllWithin L tx nodes = (nodes', .ok results) ∧
      executeAll tx nodes = (nodes', .ok results) := by
  induction nodes with
  | nil => exact ⟨[], [], rfl, rfl⟩
  | cons node nodes ih =>
    obtain ⟨⟨hready, new, hex, hdone⟩, hrest⟩ := List.forall_mem_cons.mp h
    obtain ⟨nodes', results, hall, hideal⟩ := ih hrest
    rcases Node.executeWithin_cases L node tx with
      ⟨-, hno⟩ | ⟨new', -, -, -, -, hex', hover⟩ | ⟨new', result, trace, hnode, hfree, -⟩
    · exact (hno ⟨hready, new, hex⟩).elim
    · obtain rfl := Except.ok.inj (hex.symm.trans hex')
      exact (hover hdone).elim
    · refine ⟨{ node with manager := { node.manager with state := new', trace } } :: nodes',
        result :: results, ?_, ?_⟩
      · rw [executeAllWithin, hnode]
        dsimp only
        rw [hall]
      · rw [executeAll, hfree]
        dsimp only
        rw [hideal]

/-! ## One broadcast -/

/-- In a synchronous network whose nodes evaluate the transaction, all of them make the step
that they make without limits. -/
theorem Synchronous.broadcastWithin (hr : rt.Registered) (hs : net.Synchronous useMerkle state)
    (ht : WellTyped round.tx) (hhead : ∀ node ∈ net.nodes, L.Ready rt node.manager)
    (hex : rt.execute state round.tx = .ok new)
    (hok : ∀ node ∈ net.nodes, ¬ L.Exceeds rt node.manager round.tx) :
    ∃ after out, net.broadcast R round.now round.tx = (after, .ok out) ∧
      after.history ≠ net.history ∧ L.Hashes useMerkle new ∧ net.broadcastWithin L R round =
        (after, if round.recorded then .ok out else .error .record) := by
  have hcompletes (node : Node rt) (hnode : node ∈ net.nodes) :
      rt.execute node.manager.state round.tx = .ok new ∧ L.Completes rt node.manager new := by
    obtain ⟨hstate, hmode⟩ := hs.common node hnode
    have hexec : rt.execute node.manager.state round.tx = .ok new := by rw [hstate, hex]
    have hshape : WellShaped node.manager.state := hstate ▸ hs.shape
    exact ⟨hexec, (Limits.completes_iff_of_wellShaped hr hshape ht (hhead node hnode) hexec).mpr
      (hok node hnode)⟩
  obtain ⟨nodes, results, hall, hideal⟩ := executeAllWithin_of_completes (L := L) fun node hnode =>
    ⟨hhead node hnode, new, hcompletes node hnode⟩
  obtain ⟨node, rest, hne⟩ := List.exists_cons_of_ne_nil hs.nonempty
  have hmem : node ∈ net.nodes := hne ▸ List.mem_cons_self
  refine ⟨_, _, by rw [Network.broadcast, hideal], by simp, ?_, ?_⟩
  · exact (hs.common node hmem).2 ▸ (hcompletes node hmem).2.2.1
  · rw [Network.broadcastWithin, hall]

/-- A first node that raises ends the loop. -/
theorem broadcastWithin_of_error {node node' : Node rt} {rest : List (Node rt)} {f : Failure}
    (hne : net.nodes = node :: rest) (h : node.executeWithin L round.tx = (node', .error f)) :
    net.broadcastWithin L R round = ({ net with nodes := node' :: rest }, .error (.node f)) := by
  rw [Network.broadcastWithin, hne, executeAllWithin, h]

/-- What holds of one node's state and mode holds of all. -/
theorem Synchronous.alike (hs : net.Synchronous useMerkle state) {node other : Node rt}
    (hnode : node ∈ net.nodes) (hother : other ∈ net.nodes) {P : Bool → State → Prop}
    (h : P node.manager.useMerkle node.manager.state) :
    P other.manager.useMerkle other.manager.state := by
  rw [(hs.common node hnode).1, (hs.common node hnode).2] at h
  rwa [(hs.common other hother).1, (hs.common other hother).2]

/-- A first node that is refused hinders nothing, and nothing happens. -/
theorem Synchronous.refused (hs : net.Synchronous useMerkle state) {node : Node rt}
    {rest : List (Node rt)} {f : Failure} (hne : net.nodes = node :: rest)
    (hnode : node.executeWithin L round.tx = (node, .error f))
    (hno : ¬ (L.Ready rt node.manager ∧ ∃ new, rt.execute node.manager.state round.tx = .ok new)) :
    net.Detects L R round ∧ net.Unhindered L round ∧ net.stepWithin L R round = net := by
  have hb : net.broadcastWithin L R round = (net, .error (.node f)) := by
    rw [broadcastWithin_of_error R hne hnode, ← hne]
  refine ⟨?_, fun other hother hready haccepts => ?_, by rw [stepWithin, hb]⟩
  · rw [Detects, hb]
    exact ⟨rfl, rfl, rfl⟩
  · have hmem : node ∈ net.nodes := hne ▸ List.mem_cons_self
    exact (hno ⟨hs.alike hother hmem (P := fun mode s => L.Ready rt ⟨s, mode, []⟩) hready,
      hs.alike hother hmem (P := fun _ s => ∃ new, rt.execute s round.tx = .ok new) haccepts⟩).elim

/-- A first node that raises too late has changed its state. -/
theorem Synchronous.raised (hr : rt.Registered) (hs : net.Synchronous useMerkle state)
    (ht : WellTyped round.tx) {node : Node rt} {rest : List (Node rt)} {f : Failure}
    {trace : List TraceEntry} (hne : net.nodes = node :: rest)
    (hnode : node.executeWithin L round.tx =
      ({ node with manager := { node.manager with state := new, trace } }, .error f))
    (hready : L.Ready rt node.manager) (hex : rt.execute node.manager.state round.tx = .ok new)
    (hover : ¬ L.Completes rt node.manager new) :
    ¬ net.Detects L R round ∧ ¬ net.Unhindered L round := by
  have hmem : node ∈ net.nodes := hne ▸ List.mem_cons_self
  have hshape : WellShaped node.manager.state := (hs.common node hmem).1 ▸ hs.shape
  constructor
  · intro hdetects
    rw [Detects, broadcastWithin_of_error R hne hnode] at hdetects
    obtain ⟨hstates, -⟩ := hdetects
    rw [hne] at hstates
    have hsame : new = node.manager.state := (List.cons.inj hstates).1
    rw [hsame] at hover
    exact hover (StateManager.completes_self hshape.hasAccounts hready)
  · intro hfree
    obtain ⟨hfits, -⟩ := hfree node hmem hready ⟨new, hex⟩
    exact hover ((Limits.completes_iff_of_wellShaped hr hshape ht hready hex).mpr hfits)

/-- A broadcast over a synchronous network is exact exactly when nothing hinders it, and
then the network is synchronous again. -/
theorem Synchronous.detects_iff (hr : rt.Registered) (hs : net.Synchronous useMerkle state)
    (ht : WellTyped round.tx) :
    (net.Detects L R round ↔ net.Unhindered L round) ∧
      (net.Unhindered L round →
        ∃ state', (net.stepWithin L R round).Synchronous useMerkle state') := by
  obtain ⟨node, rest, hne⟩ := List.exists_cons_of_ne_nil hs.nonempty
  have hmem : node ∈ net.nodes := hne ▸ List.mem_cons_self
  rcases node.executeWithin_cases L round.tx with
    ⟨⟨f, hnode⟩, hno⟩ | ⟨new, f, trace, hnode, hready, hex, hover⟩ |
      ⟨new, result, trace, -, -, hready, hex, hdone⟩
  · obtain ⟨hdetects, hfree, hstay⟩ := hs.refused R hne hnode hno
    exact ⟨iff_of_true hdetects hfree, fun _ => ⟨state, hstay.symm ▸ hs⟩⟩
  · obtain ⟨hdetects, hhindered⟩ := hs.raised R hr ht hne hnode hready hex hover
    exact ⟨iff_of_false hdetects hhindered, fun h => (hhindered h).elim⟩
  · have hshape : WellShaped node.manager.state := (hs.common node hmem).1 ▸ hs.shape
    have hfits := (Limits.completes_iff_of_wellShaped hr hshape ht hready hex).mp hdone
    obtain ⟨after, out, hideal, hgrown, hin, hb⟩ := hs.broadcastWithin R hr ht
      (fun other hother =>
        hs.alike hmem hother (P := fun mode s => L.Ready rt ⟨s, mode, []⟩) hready)
      ((hs.common node hmem).1 ▸ hex)
      (fun other hother =>
        hs.alike hmem hother (P := fun mode s => ¬ L.Exceeds rt ⟨s, mode, []⟩ round.tx) hfits)
    obtain ⟨hexact, hnext⟩ := hs.broadcast R hr (show WellTyped (round.now, round.tx).2 from ht)
    cases hrecorded : round.recorded with
    | false =>
      rw [hrecorded] at hb
      refine ⟨iff_of_false (fun hdetects => ?_) fun hfree => ?_, fun hfree => ?_⟩
      · rw [Detects, hb] at hdetects
        exact hgrown hdetects.2.1
      · exact absurd ((hfree node hmem hready ⟨new, hex⟩).2) (by simp [hrecorded])
      · exact absurd ((hfree node hmem hready ⟨new, hex⟩).2) (by simp [hrecorded])
    | true =>
      rw [hrecorded, if_pos rfl] at hb
      rw [DetectsExactly, hideal] at hexact
      rw [Network.step, hideal] at hnext
      refine ⟨iff_of_true ?_ ?_, fun _ => ?_⟩
      · rw [Detects, hb]
        obtain ⟨⟨new', h, hall, hagreed⟩, hvote⟩ := hexact
        obtain rfl := Except.ok.inj (hex.symm.trans (hall node hmem).1)
        refine ⟨⟨new, h, fun other hother => ⟨(hall other hother).1, ?_⟩, hagreed⟩, hvote⟩
        exact Limits.stateHash_eq_ok.mpr ⟨(hall other hother).2, (hs.common other hother).2 ▸ hin⟩
      · exact fun other hother _ _ => ⟨
          hs.alike hmem hother (P := fun mode s => ¬ L.Exceeds rt ⟨s, mode, []⟩ round.tx) hfits,
          hrecorded⟩
      · rw [stepWithin, hb]
        exact hnext

/-! ## Runs -/

/-- In every run over a common state each broadcast is exact and all nodes agree after every
step, if and only if nothing hinders a broadcast of the run. -/
theorem exact_fault_detection (hr : rt.Registered) (hs : net.Synchronous useMerkle state)
    {rounds : List BroadcastRound} (ht : ∀ round ∈ rounds, WellTyped round.tx) :
    StepsMeet (stepWithin L R) (Detects L R) net rounds ∧
        Throughout (stepWithin L R) SameState net rounds ↔
      StepsMeet (stepWithin L R) (Unhindered L) net rounds := by
  have hiff : StepsMeet (stepWithin L R) (Detects L R) net rounds ↔
      StepsMeet (stepWithin L R) (Unhindered L) net rounds :=
    stepsMeet_congr_kept (I := fun net : Network rt => ∃ state, net.Synchronous useMerkle state)
      (G := fun round => WellTyped round.tx)
      (fun net round hnet hround hfree =>
        hnet.elim fun _ hs => (hs.detects_iff R hr hround).2 hfree)
      (fun net round hnet hround => hnet.elim fun _ hs => (hs.detects_iff R hr hround).1)
      ⟨state, hs⟩ ht
  refine ⟨fun h => hiff.mp h.1, fun hfree => ⟨hiff.mpr hfree, ?_⟩⟩
  have htyped : StepsMeet (stepWithin L R) (fun _ round => WellTyped round.tx) net rounds :=
    stepsMeet_inputs.mpr ht
  have hall := Throughout.of_stepsMeet
    (P := fun net : Network rt => ∃ state, net.Synchronous useMerkle state)
    (fun net round hnet hround => hnet.elim fun _ hs =>
      (hs.detects_iff R hr hround.2).2 hround.1) ⟨state, hs⟩ (hfree.and htyped)
  exact hall.mono fun net hnet => hnet.elim fun _ hs => hs.sameState

/-! ## Where the conditions are needed -/

/-- A product and no dictionary of balances. -/
def nullBalances : State :=
  (.str "balances", .none) :: makeInitialState ["P"]

def shipment : Transaction :=
  [(.str "type", .str "ship"), (.str "product_id", .str "P"), (.str "destination", .str "port"),
   (.str "shipper", .str "S")]

def nullNetwork : Network (referenceRuntime true) :=
  .init [.init "Node-1" nullBalances false false none, .init "Node-2" nullBalances false false none]
    none none

/-- One node hashes the whole state and the other takes the Merkle root. -/
def mixedNetwork : Network (referenceRuntime false) :=
  .init [.init "Node-1" accounts false false none, .init "Node-2" accounts false true none]
    none none

/-- Two honest nodes. -/
def plainNetwork : Network (referenceRuntime false) :=
  .init [.init "Node-1" accounts false false none, .init "Node-2" accounts false false none]
    none none

/-- A mint that brings the balance to 4301 digits. -/
def hugeMint : Transaction := StateManager.mintTo (.str "A") (10 ^ 4300 - 1)

instance (net : Network rt) : Decidable net.SameState :=
  inferInstanceAs (Decidable (∀ _ ∈ _, ∀ _ ∈ _, _))

instance (L : Limits) (net : Network rt) (round : BroadcastRound) :
    Decidable (net.Unhindered L round) :=
  inferInstanceAs (Decidable (∀ _ ∈ _, _ → _ → _ ∧ _))

/-- What a broadcast shows of its exactness: unchanged states or the named nodes. -/
def showsDetection (L : Limits) (net : Network rt) (round : BroadcastRound) : Bool :=
  match net.broadcastWithin L R round with
  | (after, .error _) => after.nodes.map (fun node => node.manager.state) =
      net.nodes.map fun node => node.manager.state
  | (_, .ok (_, cr)) => cr.faultyNodes = net.maliciousNodes

theorem Detects.shows (h : net.Detects L R round) : showsDetection R L net round = true := by
  unfold Detects at h
  unfold showsDetection
  split at h
  · exact decide_eq_true h.1
  · exact decide_eq_true h.2.2

theorem wellTyped_shipment : WellTyped shipment :=
  ⟨by decide, fun _ hv => (by cases hv), fun _ hv => (by cases hv)⟩

theorem wellTyped_hugeMint : WellTyped hugeMint :=
  ⟨by decide, fun _ hv => (by cases hv), fun _ hv => ⟨"A", (Option.some_inj.mp hv).symm⟩⟩

theorem synchronous_plainNetwork : plainNetwork.Synchronous false accounts where
  nonempty := by decide
  common := by
    intro node hnode
    simp only [plainNetwork, Network.init, List.mem_cons, List.not_mem_nil, or_false] at hnode
    rcases hnode with rfl | rfl <;> exact ⟨rfl, rfl⟩
  shape := wellShaped_accounts
  majority := by decide
  keys := .inl rfl

/-- Honest nodes over one state come apart when a mint makes a balance of 4301 digits: the
first node raises with its state changed. Two more ways are an exception over balances that
are null, and two ways of hashing. -/
theorem honest_nodes_come_apart :
    (plainNetwork.Synchronous false accounts ∧ WellTyped hugeMint ∧
      ¬ plainNetwork.Detects defaultLimits .binary64 ⟨0, hugeMint, true⟩ ∧
      ¬ (plainNetwork.stepWithin defaultLimits .binary64 ⟨0, hugeMint, true⟩).SameState) ∧
    ((Value.dict nullBalances).stringKeyed = true ∧ nullNetwork.SameState ∧
      WellTyped shipment ∧
      ¬ nullNetwork.Detects defaultLimits .binary64 ⟨0, shipment, true⟩ ∧
      ¬ (nullNetwork.stepWithin defaultLimits .binary64 ⟨0, shipment, true⟩).SameState) ∧
    WellShaped accounts ∧ mixedNetwork.SameState ∧ WellTyped burnFour ∧
      ¬ mixedNetwork.Detects defaultLimits .binary64 ⟨0, burnFour, true⟩ := by
  refine ⟨⟨synchronous_plainNetwork, wellTyped_hugeMint, ?_, by decide +kernel⟩,
    ⟨by decide, by decide +kernel, wellTyped_shipment, ?_, by decide +kernel⟩,
    wellShaped_accounts, by decide +kernel, wellTyped_burnFour, ?_⟩
  · exact mt (Detects.shows .binary64) (by decide +kernel)
  · exact mt (Detects.shows .binary64) (by decide +kernel)
  · exact mt (Detects.shows .binary64) (by decide +kernel)

/-- Two honest nodes and a malicious one, all with registered keys. -/
def keyedNetwork : Network (referenceRuntime false) :=
  .init [.init "Node-1" accounts false true (some [1]),
      .init "Node-2" accounts true true (some [2]), .init "Node-3" accounts false true (some [3])]
    (some (.ofList [("Node-1", [1]), ("Node-2", [2]), ("Node-3", [3])])) none

theorem synchronous_keyedNetwork : keyedNetwork.Synchronous true accounts where
  nonempty := by decide
  common := by
    intro node hnode
    simp only [keyedNetwork, Network.init, List.mem_cons, List.not_mem_nil, or_false] at hnode
    rcases hnode with rfl | rfl | rfl <;> exact ⟨rfl, rfl⟩
  shape := wellShaped_accounts
  majority := by decide
  keys := by
    right
    intro node hnode
    simp only [keyedNetwork, Network.init, List.mem_cons, List.not_mem_nil, or_false] at hnode
    rcases hnode with rfl | rfl | rfl <;> exact ⟨_, rfl, rfl⟩

/-- Two burns that succeed and one that is rejected. -/
theorem exact_fault_detection_keyedNetwork :
    StepsMeet (stepWithin defaultLimits .binary64) (Detects defaultLimits .binary64) keyedNetwork
        [⟨0, burnFour, true⟩, ⟨1, burnFour, true⟩, ⟨2, burnFour, true⟩] ∧
      Throughout (stepWithin defaultLimits .binary64) SameState keyedNetwork
        [⟨0, burnFour, true⟩, ⟨1, burnFour, true⟩, ⟨2, burnFour, true⟩] :=
  (exact_fault_detection .binary64 (.inl rfl) synchronous_keyedNetwork
    (by simp [wellTyped_burnFour])).mpr (by decide +kernel)

end Network
end ECN
