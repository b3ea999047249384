import ECN.Audit
import ECN.Consensus
import ECN.ReferenceRuntime
import ECN.Runs

/-!
# The simulated network

`broadcast` runs the nodes one after the other in one process. The first node that
raises ends the loop, and what the nodes before it have done stays done. Over nodes in
one common state of the documented shape nothing is half done: either the first node
rejects the transaction or all nodes make the same step, and then the vote finds the
malicious nodes and no others.
-/
namespace ECN

variable {rt : Runtime}

structure Network (rt : Runtime) where
  nodes : List (Node rt)
  publicKeys : OrderedDict String rt.PublicKey
  auditLog : Option AuditLog
  history : List (Transaction × List NodeResult × ConsensusResult)

namespace Network

def init (nodes : List (Node rt)) (publicKeys : Option (OrderedDict String rt.PublicKey))
    (auditLog : Option AuditLog) : Network rt :=
  ⟨nodes, publicKeys.getD .empty, auditLog, []⟩

/-- The loop over the nodes, with the exception of the first that raises. -/
def executeAll (tx : Transaction) :
    List (Node rt) → List (Node rt) × Except Exc (List NodeResult)
  | [] => ([], .ok [])
  | node :: nodes =>
    match node.executeTransaction tx with
    | (node, .error e) => (node :: nodes, .error e)
    | (node, .ok result) =>
      match executeAll tx nodes with
      | (nodes, .error e) => (node :: nodes, .error e)
      | (nodes, .ok results) => (node :: nodes, .ok (result :: results))

variable (R : Rounding)

/-- Broadcast `tx` to every node, collect results and run consensus. -/
def broadcast (net : Network rt) (now : ℕ) (tx : Transaction) :
    Network rt × Except Exc (List NodeResult × ConsensusResult) :=
  match executeAll tx net.nodes with
  | (nodes, .error e) => ({ net with nodes }, .error e)
  | (nodes, .ok results) =>
    let cr := runConsensus R results
      (if net.publicKeys.isEmpty then none else some net.publicKeys) (defaultQuorumThreshold R)
    ({ net with
        nodes
        history := net.history ++ [(tx, results, cr)]
        auditLog := net.auditLog.map fun log => log.record now tx results cr },
      .ok (results, cr))

/-! ## What is to be shown -/

/-- The network after a broadcast at a given time. -/
def step (net : Network rt) (input : ℕ × Transaction) : Network rt :=
  (net.broadcast R input.1 input.2).1

def maliciousNodes (net : Network rt) : List String :=
  (net.nodes.filter Node.malicious).map Node.nodeId

def SameState (net : Network rt) : Prop :=
  ∀ node ∈ net.nodes, ∀ node' ∈ net.nodes, node.manager.state = node'.manager.state

/-- A broadcast either raises without effect or agrees on the hash of the state that
every node computes and names exactly the malicious nodes. -/
def DetectsExactly (net : Network rt) (input : ℕ × Transaction) : Prop :=
  match net.broadcast R input.1 input.2 with
  | (after, .error _) =>
    after.nodes.map (fun node => node.manager.state) =
        net.nodes.map (fun node => node.manager.state) ∧
      after.history = net.history ∧ after.auditLog = net.auditLog
  | (_, .ok (_, cr)) =>
    (∃ new h, (∀ node ∈ net.nodes, rt.execute node.manager.state input.2 = .ok new ∧
        stateHash rt node.manager.useMerkle new = .ok h) ∧ cr.agreedHash = some h) ∧
      cr.consensusReached = true ∧ cr.faultyNodes = net.maliciousNodes

/-- A non-empty network over one documented state, with one way of hashing, enough
honest nodes and, where keys are registered, each node's own. -/
structure Synchronous (net : Network rt) (useMerkle : Bool) (state : State) : Prop where
  nonempty : net.nodes ≠ []
  common : ∀ node ∈ net.nodes,
    node.manager.state = state ∧ node.manager.useMerkle = useMerkle
  shape : WellShaped state
  majority : 51 * net.nodes.length ≤ 100 * (net.nodes.filter fun node => !node.malicious).length
  keys : net.publicKeys.isEmpty = true ∨ ∀ node ∈ net.nodes, ∃ key,
    node.signingKey = some key ∧ net.publicKeys.get? node.nodeId = some (rt.publicKey key)

/-! ## The loop -/

theorem exists_left_of_mem {α β : Type*} {r : α → β → Prop} {xs : List α} {ys : List β}
    (h : List.Forall₂ r xs ys) {y : β} (hy : y ∈ ys) : ∃ x ∈ xs, r x y := by
  induction h with
  | nil => cases hy
  | cons hxy _ ih =>
    rcases List.mem_cons.mp hy with rfl | hy
    · exact ⟨_, List.mem_cons_self, hxy⟩
    · obtain ⟨x, hx, hr⟩ := ih hy
      exact ⟨x, List.mem_cons_of_mem _ hx, hr⟩

/-- What a step to `new` with hash `h` makes of a node. -/
def Stepped (new : State) (node node' : Node rt) : Prop :=
  ∃ manager, node' = { node with manager } ∧ manager.state = new ∧
    manager.useMerkle = node.manager.useMerkle

/-- What a node answers when its step ends with hash `h`. -/
def Answers (h : String) (node : Node rt) (result : NodeResult) : Prop :=
  result.nodeId = node.nodeId ∧ result.stateHash = node.reportedHash h ∧
    result.signature =
      node.signingKey.map (signResult rt.toCrypto node.nodeId (node.reportedHash h))

theorem executeTransaction_answers {node : Node rt} {tx : Transaction} {new : State} {h : String}
    (he : Node.evaluate rt node.manager.useMerkle node.manager.state tx = .ok (new, h)) :
    ∃ node' result, node.executeTransaction tx = (node', .ok result) ∧
      Stepped new node node' ∧ Answers h node result := by
  obtain ⟨trace, hnode⟩ := node.executeTransaction_of_ok he
  exact ⟨_, _, hnode, ⟨_, rfl, rfl, rfl⟩, rfl, rfl, rfl⟩

theorem executeAll_of_evaluate {tx : Transaction} {new : State} {h : String}
    {nodes : List (Node rt)} (he : ∀ node ∈ nodes,
      Node.evaluate rt node.manager.useMerkle node.manager.state tx = .ok (new, h)) :
    ∃ nodes' results, executeAll tx nodes = (nodes', .ok results) ∧
      List.Forall₂ (Stepped new) nodes nodes' ∧ List.Forall₂ (Answers h) nodes results := by
  induction nodes with
  | nil => exact ⟨[], [], rfl, .nil, .nil⟩
  | cons node nodes ih =>
    obtain ⟨node', result, hnode, hstep, hanswer⟩ :=
      executeTransaction_answers (he node List.mem_cons_self)
    obtain ⟨nodes', results, hall, hsteps, hanswers⟩ :=
      ih fun other hmem => he other (List.mem_cons_of_mem node hmem)
    refine ⟨node' :: nodes', result :: results, ?_, .cons hstep hsteps, .cons hanswer hanswers⟩
    rw [executeAll, hnode]
    dsimp only
    rw [hall]

/-- A first node that rejects ends the loop before anything has happened. -/
theorem executeAll_of_rejected {tx : Transaction} {e : Exc} {nodes : List (Node rt)}
    (hne : nodes ≠ [])
    (he : ∀ node ∈ nodes, rt.execute node.manager.state tx = .error e) :
    ∃ e', executeAll tx nodes = (nodes, .error e') := by
  obtain ⟨node, rest, rfl⟩ := List.exists_cons_of_ne_nil hne
  have hex := he node List.mem_cons_self
  obtain ⟨e', hnode⟩ := node.executeTransaction_of_rejected fun ⟨_, new, hnew⟩ =>
    nomatch hex.symm.trans hnew
  exact ⟨e', by rw [executeAll, hnode]⟩

/-! ## The vote -/

theorem answers_pairs {h : String} {nodes : List (Node rt)} {results : List NodeResult}
    (ha : List.Forall₂ (Answers h) nodes results) :
    results.map (fun r => (r.nodeId, r.stateHash)) =
      nodes.map fun node => (node.nodeId, node.reportedHash h) := by
  induction ha with
  | nil => rfl
  | cons hr _ ih => rw [List.map_cons, List.map_cons, ih, hr.1, hr.2.1]

/-- The keys that a broadcast passes to the vote. -/
abbrev voteKeys (net : Network rt) : Option (OrderedDict String rt.PublicKey) :=
  if net.publicKeys.isEmpty then none else some net.publicKeys

/-- Every answer passes the check against the node's own key. -/
theorem accepted_of_answers {net : Network rt} {useMerkle : Bool} {state : State} {h : String}
    (hs : net.Synchronous useMerkle state) {results : List NodeResult}
    (ha : List.Forall₂ (Answers h) net.nodes results) :
    ∀ r ∈ results, accepted net.voteKeys r := by
  intro r hr
  unfold voteKeys
  split
  · rfl
  · next hkeys =>
    obtain ⟨node, hmem, hid, hhash, hsig⟩ := exists_left_of_mem ha hr
    obtain ⟨key, hkey, hpk⟩ := hs.keys.resolve_left hkeys node hmem
    rw [hkey, Option.map_some] at hsig
    simp only [accepted, signatureValid, hid, hpk, hhash, hsig, verifyResult_signResult,
      Bool.or_true]

theorem reportedHash_eq_iff (node : Node rt) (data : List UInt8) :
    node.reportedHash (hexDigest rt.toCrypto data) = hexDigest rt.toCrypto data ↔
      node.malicious = false := by
  unfold Node.reportedHash
  cases node.malicious with
  | false => simp
  | true => simpa using corruptHash_ne_hexDigest rt.toCrypto _ data

section Answers

variable {net : Network rt} {useMerkle : Bool} {state : State} {data : List UInt8}
  {results : List NodeResult}

theorem verifiedResults_of_answers (hs : net.Synchronous useMerkle state) {h : String}
    (ha : List.Forall₂ (Answers h) net.nodes results) :
    verifiedResults results net.voteKeys = results :=
  List.filter_eq_self.mpr (accepted_of_answers hs ha)

theorem invalidSigIds_of_answers (hs : net.Synchronous useMerkle state) {h : String}
    (ha : List.Forall₂ (Answers h) net.nodes results) :
    invalidSigIds results net.voteKeys = [] := by
  rw [invalidSigIds, List.map_eq_nil_iff, List.filter_eq_nil_iff]
  intro r hr
  simp [accepted_of_answers hs ha r hr]

theorem ballots_of_answers (hs : net.Synchronous useMerkle state) {h : String}
    (ha : List.Forall₂ (Answers h) net.nodes results) :
    ballots results net.voteKeys = net.nodes.map fun node => node.reportedHash h := by
  have hpairs := congrArg (List.map Prod.snd) (answers_pairs ha)
  rw [ballots, verifiedResults_of_answers hs ha]
  simpa [List.map_map, Function.comp_def] using hpairs

/-- The true hash gets the votes of the honest nodes. -/
theorem count_ballots_of_answers (hs : net.Synchronous useMerkle state)
    (ha : List.Forall₂ (Answers (hexDigest rt.toCrypto data)) net.nodes results) :
    (ballots results net.voteKeys).count (hexDigest rt.toCrypto data) =
      (net.nodes.filter fun node => !node.malicious).length := by
  rw [ballots_of_answers hs ha, List.count, List.countP_map, List.countP_eq_length_filter]
  congr 1
  refine List.filter_congr fun node _ => ?_
  rw [Bool.eq_iff_iff]
  simpa using reportedHash_eq_iff node data

/-- Once the vote agrees on the true hash, the faulty nodes are the malicious ones. -/
theorem faultyNodes_of_answers (hs : net.Synchronous useMerkle state)
    (ha : List.Forall₂ (Answers (hexDigest rt.toCrypto data)) net.nodes results)
    (hagreed : (runConsensus R results net.voteKeys (defaultQuorumThreshold R)).agreedHash =
      some (hexDigest rt.toCrypto data)) :
    (runConsensus R results net.voteKeys (defaultQuorumThreshold R)).faultyNodes =
      net.maliciousNodes := by
  have hpairs := congrArg (fun ps =>
    (ps.filter fun p : String × String => p.2 ≠ hexDigest rt.toCrypto data).map Prod.fst)
    (answers_pairs ha)
  simp only [List.filter_map, List.map_map, Function.comp_def] at hpairs
  rw [runConsensus_faultyNodes, verifiedResults_of_answers hs ha, invalidSigIds_of_answers hs ha,
    List.append_nil, hagreed, maliciousNodes]
  simp only [ne_eq, Option.some_inj]
  rw [hpairs]
  congr 1
  refine List.filter_congr fun node _ => ?_
  rw [Bool.eq_iff_iff]
  have := reportedHash_eq_iff node data
  cases hm : node.malicious <;> simp_all

/-- Over answers with a common true hash the vote finds exactly the malicious nodes. -/
theorem runConsensus_of_answers (hs : net.Synchronous useMerkle state)
    (ha : List.Forall₂ (Answers (hexDigest rt.toCrypto data)) net.nodes results) :
    let cr := runConsensus R results net.voteKeys (defaultQuorumThreshold R)
    cr.agreedHash = some (hexDigest rt.toCrypto data) ∧ cr.consensusReached = true ∧
      cr.faultyNodes = net.maliciousNodes := by
  have hlength : (ballots results net.voteKeys).length = net.nodes.length := by
    rw [ballots_of_answers hs ha, List.length_map]
  have hcount := count_ballots_of_answers hs ha
  have hpos : 0 < net.nodes.length := List.length_pos_iff.mpr hs.nonempty
  have hmaj := hs.majority
  have hagreed := (runConsensus_agreedHash_iff R results net.voteKeys (defaultQuorumThreshold R)
    (hexDigest rt.toCrypto data)).mpr (Plurality.of_majority (by omega))
  refine ⟨hagreed, ?_, faultyNodes_of_answers R hs ha hagreed⟩
  refine (runConsensus_reached_iff R results _ _).mpr ⟨_, hagreed, R.mono ?_⟩
  rw [hcount, hlength, div_le_div_iff₀ (by norm_num) (by exact_mod_cast hpos)]
  rw [mul_comm 100] at hmaj
  exact_mod_cast hmaj

end Answers

/-! ## One broadcast -/

theorem map_of_stepped {α : Type*} (f : Node rt → α)
    (hf : ∀ (node : Node rt) manager, f { node with manager } = f node) {new : State}
    {nodes nodes' : List (Node rt)} (h : List.Forall₂ (Stepped new) nodes nodes') :
    nodes'.map f = nodes.map f := by
  induction h with
  | nil => rfl
  | cons hstep _ ih =>
    obtain ⟨manager, rfl, -, -⟩ := hstep
    rw [List.map_cons, List.map_cons, ih, hf]

/-- A step of all nodes leads to a synchronous network over the new state. -/
theorem Synchronous.stepped {net after : Network rt} {useMerkle : Bool} {state new : State}
    (hs : net.Synchronous useMerkle state) (hnew : WellShaped new)
    (hkeys : after.publicKeys = net.publicKeys)
    (h : List.Forall₂ (Stepped new) net.nodes after.nodes) :
    after.Synchronous useMerkle new where
  nonempty := by
    rw [← List.length_pos_iff, ← h.length_eq]
    exact List.length_pos_iff.mpr hs.nonempty
  common node' hnode' := by
    obtain ⟨node, hnode, manager, rfl, hstate, hmode⟩ := exists_left_of_mem h hnode'
    exact ⟨hstate, hmode.trans (hs.common node hnode).2⟩
  shape := hnew
  majority := by
    have hflags := map_of_stepped Node.malicious (fun _ _ => rfl) h
    have hcount (nodes : List (Node rt)) : (nodes.filter fun node => !node.malicious).length =
        (nodes.map Node.malicious).countP (!·) := by
      rw [List.countP_map, ← List.countP_eq_length_filter]
      rfl
    rw [hcount, hflags, ← hcount, ← h.length_eq]
    exact hs.majority
  keys := by
    rw [hkeys]
    refine hs.keys.imp id fun hown node' hnode' => ?_
    obtain ⟨node, hnode, manager, rfl, -, -⟩ := exists_left_of_mem h hnode'
    exact hown node hnode

/-- One broadcast over a synchronous network: exact, and synchronous again after it. -/
theorem Synchronous.broadcast (hr : rt.Registered) {net : Network rt} {useMerkle : Bool}
    {state : State} (hs : net.Synchronous useMerkle state) {input : ℕ × Transaction}
    (ht : WellTyped input.2) :
    net.DetectsExactly R input ∧ ∃ state', (net.step R input).Synchronous useMerkle state' := by
  cases hex : rt.execute state input.2 with
  | error e =>
    obtain ⟨e', hall⟩ := executeAll_of_rejected hs.nonempty fun node hnode => by
      rw [(hs.common node hnode).1, hex]
    have hb : net.broadcast R input.1 input.2 = (net, .error e') := by
      rw [Network.broadcast, hall]
    constructor
    · rw [DetectsExactly, hb]
      exact ⟨rfl, rfl, rfl⟩
    · exact ⟨state, by rw [step, hb]; exact hs⟩
  | ok new =>
    have hnew := hr.execute_wellShaped hs.shape ht hex
    obtain ⟨h, he⟩ := Node.evaluate_of_execute hs.shape hnew hex
    have hhash := Node.stateHash_of_evaluate he
    obtain ⟨data, rfl⟩ := stateHash_hex rt hhash
    have hnodes : ∀ node ∈ net.nodes, Node.evaluate rt node.manager.useMerkle
        node.manager.state input.2 = .ok (new, hexDigest rt.toCrypto data) := fun node hnode => by
      rw [(hs.common node hnode).1, (hs.common node hnode).2, he]
    obtain ⟨nodes, results, hall, hsteps, hanswers⟩ := executeAll_of_evaluate hnodes
    obtain ⟨hagreed, hreached, hfaulty⟩ := runConsensus_of_answers R hs hanswers
    constructor
    · rw [DetectsExactly, Network.broadcast, hall]
      refine ⟨⟨new, _, fun node hnode => ?_, hagreed⟩, hreached, hfaulty⟩
      rw [(hs.common node hnode).1, (hs.common node hnode).2]
      exact ⟨hex, hhash⟩
    · refine ⟨new, hs.stepped hnew ?_ ?_⟩
      · rw [step, Network.broadcast, hall]
      · rw [step, Network.broadcast, hall]
        exact hsteps

theorem Synchronous.sameState {net : Network rt} {useMerkle : Bool} {state : State}
    (hs : net.Synchronous useMerkle state) : net.SameState := fun node hnode node' hnode' =>
  (hs.common node hnode).1.trans (hs.common node' hnode').1.symm

/-! ## One account -/

def accounts : State := [(.str "balances", .dict [(.str "A", .int 10)])]

def burnFour : Transaction :=
  [(.str "type", .str "burn"), (.str "from", .str "A"), (.str "amount", .int 4)]

theorem wellTyped_burnFour : WellTyped burnFour :=
  ⟨by decide, fun _ hv => ⟨"A", (Option.some_inj.mp hv).symm⟩, fun _ hv => (by cases hv)⟩

theorem wellShaped_accounts : WellShaped accounts :=
  ⟨by decide, fun _ hv => ⟨_, (Option.some_inj.mp hv).symm⟩⟩

end Network
end ECN
