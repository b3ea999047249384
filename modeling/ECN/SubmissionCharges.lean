import ECN.Classification
import ECN.Lifecycle
import ECN.TenantApi

/-!
# What the two submission endpoints charge

The global endpoint charges a round for its results and, once more, for its faulty nodes.
A tenant's endpoint charges it for all nodes of the network. The decision that they pass on
is the same, and the units are equal exactly when as many nodes are silent as are faulty.
-/
namespace ECN

variable {rt : Runtime}

/-! ## Charges -/

/-- What `record_round` is told of a round, and what it asks for it. -/
structure Charge where
  nodeCount : ℕ
  consensusReached : Bool
  billedAmount : ℚ
deriving DecidableEq

def LedgerEntry.charge (entry : LedgerEntry) : Charge :=
  ⟨entry.nodeRoundCount, entry.consensusReached, entry.billedAmount⟩

/-- The votes of a most frequent ballot. -/
def mostVotes (ballots : List String) : ℕ := (ballots.map fun h => ballots.count h).max?.getD 0

theorem mostVotes_of_plurality {ballots : List String} {w : String} (h : Plurality ballots w) :
    mostVotes ballots = ballots.count w := by
  have hmax : (ballots.map fun h => ballots.count h).max? = some (ballots.count w) := by
    rw [List.max?_eq_some_iff]
    constructor
    · exact List.mem_map.mpr ⟨w, h.mem, rfl⟩
    · intro n hn
      obtain ⟨x, -, rfl⟩ := List.mem_map.mp hn
      exact h.max x
  rw [mostVotes, hmax, Option.getD_some]

variable (R : Rounding)

/-- The charge for a round of `nodeCount` nodes. -/
def chargeFor (tier : PricingTier) (nodeCount : ℕ) (cr : ConsensusResult) : Charge :=
  ⟨nodeCount, cr.consensusReached, computeBilledAmount R nodeCount tier⟩

@[simp] theorem nodeCount_chargeFor (tier : PricingTier) (nodeCount : ℕ) (cr : ConsensusResult) :
    (chargeFor R tier nodeCount cr).nodeCount = nodeCount := rfl

theorem chargeFor_inj {tier : PricingTier} {n m : ℕ} {cr : ConsensusResult} :
    chargeFor R tier n cr = chargeFor R tier m cr ↔ n = m := by
  constructor
  · intro h
    exact congrArg Charge.nodeCount h
  · intro h
    rw [h]

/-- All results but those of the largest group are faulty. -/
theorem length_faultyNodes_add {crypto : Crypto} (results : List NodeResult)
    (publicKeys : Option (OrderedDict String crypto.PublicKey)) (t : ℚ) :
    (runConsensus R results publicKeys t).faultyNodes.length +
      mostVotes (ballots results publicKeys) = results.length := by
  have hnodes := (honest_append_faulty R results publicKeys t).length_eq
  rw [List.length_append, List.length_map] at hnodes
  have hhonest : (runConsensus R results publicKeys t).honestNodes.length =
      mostVotes (ballots results publicKeys) := by
    cases hw : (runConsensus R results publicKeys t).agreedHash with
    | none =>
      have hnil := (runConsensus_agreedHash_eq_none_iff R results publicKeys t).mp hw
      rw [runConsensus_honestNodes, hw, hnil]
      simp [mostVotes]
    | some w =>
      rw [length_honestNodes R results publicKeys t hw]
      exact (mostVotes_of_plurality
        ((runConsensus_agreedHash_iff R results publicKeys t w).mp hw)).symm
  omega

/-! ## Rounds that are charged -/

/-- A round with these results is recorded and answered. -/
structure P2PNetwork.Concludes (net : P2PNetwork rt) (results : List NodeResult) : Prop where
  audited : net.auditLog.isSome
  enough : net.minResponses ≤ results.length
  answered : results ≠ []

theorem P2PNetwork.not_concludes {net : P2PNetwork rt} {results : List NodeResult}
    (h : ¬ net.Concludes results) :
    net.auditLog = none ∨ (results.length : ℤ) < net.minResponses ∨ results = [] := by
  by_contra hall
  push Not at hall
  obtain ⟨haudit, hmin, hne⟩ := hall
  exact h ⟨Option.isSome_iff_ne_none.mpr haudit, hmin, hne⟩

/-- As many servers return no result as return one outside the largest group of verified
results with one hash. -/
def P2PNetwork.EqualUnits (net : P2PNetwork rt) (results : List NodeResult) : Prop :=
  net.servers.length + mostVotes (ballots results (some net.publicKeys)) = 2 * results.length

theorem P2PNetwork.equalUnits_iff (net : P2PNetwork rt) (results : List NodeResult) (t : ℚ) :
    results.length + (runConsensus R results (some net.publicKeys) t).faultyNodes.length =
      net.servers.length ↔ net.EqualUnits results := by
  have hfaulty := length_faultyNodes_add R results (some net.publicKeys) t
  unfold EqualUnits
  omega

/-! ## The global endpoint -/

namespace App

/-- What a submission charges. -/
def charges (app : App rt) (ctx : SubmitContext) (body : TransactionRequest)
    (channel : NodeServer rt → Channel) : List Charge :=
  (app.newEntries (app.submitTransaction R ctx body channel).1).map LedgerEntry.charge

theorem newEntries_of_tracker {app after : App rt} (h : after.tracker = app.tracker) :
    app.newEntries after = [] := by
  unfold newEntries
  rw [h]
  cases app.tracker with
  | none => rfl
  | some tracker => exact List.drop_length

theorem charges_untracked {app : App rt} (h : app.tracker = none) (ctx : SubmitContext)
    (body : TransactionRequest) (channel : NodeServer rt → Channel) :
    app.charges R ctx body channel = [] := by
  rw [charges, newEntries, h]
  rfl

/-- Results plus faulty nodes are charged. -/
theorem charges_of_concludes {app : App rt} {tracker : BillingTracker}
    (htracker : app.tracker = some tracker) (ctx : SubmitContext) {body : TransactionRequest}
    {channel : NodeServer rt → Channel} (h : app.network.Concludes (app.respondents body channel)) :
    let cr := runConsensus R (app.respondents body channel) (some app.network.publicKeys)
      app.network.quorumThreshold
    app.charges R ctx body channel = [chargeFor R ctx.billing.tier
      ((app.respondents body channel).length + cr.faultyNodes.length) cr] := by
  intro cr
  obtain ⟨log, hlog⟩ := Option.isSome_iff_exists.mp h.audited
  obtain ⟨saved, pending, hbegin, -, hpending, -⟩ := app.submitBegin_eq R ctx h.audited
  have hend := submitEnd_succeeds R { app with
    network := { app.network with servers := app.network.serve body.toEcnTx channel }
    saves := app.saves ++ saved } ctx body.toEcnTx hpending
    (app.network.gather body.toEcnTx channel) hlog h.enough h.answered
  dsimp only at hend
  rw [P2PNetwork.publicKeys_serve] at hend
  obtain ⟨after, response, -, -, -, heq, -, hbilled, -⟩ := hend
  unfold charges submitTransaction
  rw [hbegin]
  dsimp only
  rw [heq]
  simp only [newEntries, hbilled, billedTracker, htracker, Option.map_some,
    BillingTracker.recordRound, List.drop_left, List.map_cons, List.map_nil]
  rfl

/-- A submission that fails charges nothing. -/
theorem charges_of_not_concludes (app : App rt) (ctx : SubmitContext) {body : TransactionRequest}
    {channel : NodeServer rt → Channel}
    (h : ¬ app.network.Concludes (app.respondents body channel)) :
    app.charges R ctx body channel = [] := by
  have hfail := P2PNetwork.not_concludes h
  rw [charges, List.map_eq_nil_iff]
  refine newEntries_of_tracker ?_
  unfold submitTransaction
  cases hlog : app.network.auditLog with
  | none => simp [submitBegin, hlog]
  | some log =>
    obtain ⟨saved, record, hbegin, -⟩ := app.submitBegin_eq R ctx (by rw [hlog]; rfl)
    rw [hbegin]
    obtain ⟨network, e, he⟩ := submitEnd_fails R { app with
      network := { app.network with servers := app.network.serve body.toEcnTx channel }
      saves := app.saves ++ saved } ctx body.toEcnTx record
      (app.network.gather body.toEcnTx channel) hfail
    dsimp only
    rw [he]

end App

/-! ## A tenant's endpoint -/

/-- The same request to the global endpoint, whose form has three further fields. -/
def TenantTransactionRequest.toTransactionRequest (body : TenantTransactionRequest) :
    TransactionRequest where
  type := body.type
  productId := body.productId
  destination := body.destination
  shipper := body.shipper
  receiver := body.receiver
  atCustoms := body.atCustoms
  checkName := body.checkName
  inspector := body.inspector
  reason := body.reason
  releasedBy := body.releasedBy
  from_ := none
  to_ := none
  amount := none

@[simp] theorem TenantTransactionRequest.toEcnTx_toTransactionRequest
    (body : TenantTransactionRequest) : body.toTransactionRequest.toEcnTx = body.toEcnTx := by
  simp [TransactionRequest.toEcnTx, TenantTransactionRequest.toEcnTx, toTransactionRequest,
    optionalField]

theorem App.respondents_toTransactionRequest (app : App rt) (body : TenantTransactionRequest)
    (channel : NodeServer rt → Channel) : app.respondents body.toTransactionRequest channel =
      P2PNetwork.resultsOf (app.network.gather body.toEcnTx channel) := by
  rw [respondents, TenantTransactionRequest.toEcnTx_toTransactionRequest]

/-- The fate of the request to the server at a place. -/
def channelAt (net : P2PNetwork rt) (channel : NodeServer rt → Channel) (place : ℕ) : Channel :=
  (net.servers[place]?).elim .requestLost channel

namespace ActiveTenant

/-- A round that is answered ends with its event and its decision. -/
theorem finishRound_of_concludes (tenant : ActiveTenant rt) (now : ℕ) (tx : Transaction)
    {responses : List (NodeServer rt × Response)}
    (h : tenant.network.Concludes (P2PNetwork.resultsOf responses)) :
    let cr := runConsensus R (P2PNetwork.resultsOf responses) (some tenant.network.publicKeys)
      tenant.network.quorumThreshold
    ∃ event, (tenant.finishRound R now tx responses).2 = .ok (event, cr.consensusReached) := by
  intro cr
  obtain ⟨log, hlog⟩ := Option.isSome_iff_exists.mp h.audited
  have hempty : (P2PNetwork.resultsOf responses).isEmpty = false := by simpa using h.answered
  refine ⟨log.event now tx (P2PNetwork.resultsOf responses) cr, ?_⟩
  unfold finishRound
  rw [P2PNetwork.collect_of_le R h.enough]
  have hget := log.getEvent_record now tx (P2PNetwork.resultsOf responses) cr
  have hlength : (log.record now tx (P2PNetwork.resultsOf responses) cr).events.length =
      log.events.length + 1 := by simp [AuditLog.record]
  simp only [hempty, Bool.false_eq_true, if_false, auditLog, hlog, Option.map_some,
    Option.getD_some]
  rw [← hlength] at hget
  rw [hget]

/-- Any other round fails. -/
theorem finishRound_fails (tenant : ActiveTenant rt) (now : ℕ) (tx : Transaction)
    {responses : List (NodeServer rt × Response)}
    (h : ¬ tenant.network.Concludes (P2PNetwork.resultsOf responses)) :
    ∃ e, (tenant.finishRound R now tx responses).2 = .error e := by
  unfold finishRound
  rcases lt_or_ge ((P2PNetwork.resultsOf responses).length : ℤ) tenant.network.minResponses with
    hlt | hmin
  · obtain ⟨e, he⟩ := P2PNetwork.collect_of_lt R hlt now tx
    rw [he]
    exact ⟨_, rfl⟩
  · rw [P2PNetwork.collect_of_le R hmin]
    dsimp only
    split
    · exact ⟨_, rfl⟩
    · next hne =>
      have hnone : tenant.network.auditLog = none := by
        rcases P2PNetwork.not_concludes h with h | h | h
        · exact h
        · exact absurd h (not_lt.mpr hmin)
        · simp [h] at hne
      simp only [auditLog, hnone, Option.map_none, Option.getD_none]
      exact ⟨_, rfl⟩

theorem finishRound_servers (tenant : ActiveTenant rt) (now : ℕ) (tx : Transaction)
    (responses : List (NodeServer rt × Response)) :
    (tenant.finishRound R now tx responses).1.network.servers = tenant.network.servers := by
  have hservers := P2PNetwork.collect_servers R tenant.network now tx responses
  unfold finishRound
  split
  · next h =>
    rw [h] at hservers
    exact hservers
  · next h =>
    rw [h] at hservers
    dsimp only
    split
    · exact hservers
    · split <;> exact hservers

end ActiveTenant

theorem filterMap_getElem?_range {α : Type*} (l : List α) :
    (List.range l.length).filterMap (fun j => l[j]?) = l := by
  have hmap : (List.range l.length).map (fun j => l[j]?) = l.map some := by
    refine List.ext_getElem (by simp) fun j hj hj' => ?_
    simp
  calc (List.range l.length).filterMap (fun j => l[j]?)
      = ((List.range l.length).map fun j => l[j]?).filterMap id := by
        rw [List.filterMap_map, Function.id_comp]
    _ = l := by rw [hmap, List.filterMap_map, Function.id_comp, List.filterMap_some]

/-- The places of a broadcast are those of its participants, in order. -/
theorem filterMap_places (net : P2PNetwork rt) :
    (Concurrent.places net).filterMap (fun j => net.servers[j]?) = net.participating := by
  unfold Concurrent.places P2PNetwork.participating
  conv_rhs => rw [← filterMap_getElem?_range net.servers, List.filter_filterMap]
  rw [List.filterMap_filter]
  refine List.filterMap_congr fun j _ => ?_
  cases net.servers[j]? with
  | none => rfl
  | some server => simp [Option.filter]

namespace TenantService

variable (py : Builtins)

/-- The moves of one submission: the request arrives, the servers that it reaches read it,
and the handler goes on. -/
def submission (net : P2PNetwork rt) (id : CallId) (body : TenantTransactionRequest)
    (ctx : TenantSubmitContext) (channel : ℕ → Channel) : List (TenantEvent rt) :=
  ⟨id.1, .submitTransaction id.2 body⟩ ::
    (((Concurrent.places net).filter fun place => (channel place).reaches).map fun place =>
      ⟨id.1, .serve id.2 place⟩) ++
    [⟨id.1, .gathered id.2 ctx channel⟩]

/-- Ledger entries of a tenant that one state has beyond another. -/
def newEntries (tenantId : String) (before after : TenantService rt) : List LedgerEntry :=
  match before.tracker, after.tracker with
  | some t, some t' =>
    (t'.getBillingLedger tenantId).drop (t.getBillingLedger tenantId).length
  | _, _ => []

/-- What a tenant is charged in a run. -/
def charges (tenantId : String) (s : TenantService rt) (events : List (TenantEvent rt)) :
    List Charge :=
  (newEntries tenantId s (events.foldl (fun s e => (s.step R py e).1) s)).map LedgerEntry.charge

/-- The servers at the places `read` have read the request of a suspended broadcast, and
nothing else has happened to the network. -/
structure Reading (net : P2PNetwork rt) (tracker : Option SharedTracker) (id : CallId)
    (tx : Transaction) (read : List ℕ) (s : TenantService rt) (ref : CallId)
    (tenant : ActiveTenant rt) (replies : OrderedDict ℕ Reply) : Prop where
  call : s.calls.get? id = some (.broadcasting ref tx (Concurrent.places net) replies false)
  held : s.tenants.get? ref = some tenant
  network : tenant.network = { net with servers := tenant.network.servers }
  servers : tenant.network.servers = net.servers.mapIdx fun j server =>
    if j ∈ read then (server.handleClient tx).1 else server
  replies : ∀ j, replies.get? j =
    if j ∈ read then (net.servers[j]?).map fun server => (server.handleClient tx).2 else none
  tracker : s.tracker = tracker

theorem reading_submit {s : TenantService rt} {id ref : CallId} {tenant : ActiveTenant rt}
    (htenant : s.getTenant id.1 = some (ref, tenant)) (hfresh : s.calls.get? id = none)
    (body : TenantTransactionRequest) :
    Reading tenant.network s.tracker id body.toEcnTx []
      (s.step R py ⟨id.1, .submitTransaction id.2 body⟩).1 ref tenant .empty := by
  have hstep : (s.step R py ⟨id.1, .submitTransaction id.2 body⟩).1 =
      s.setCall id (.broadcasting ref body.toEcnTx (Concurrent.places tenant.network) .empty
        false) := by
    simp [step, newCall, hfresh, submitTransaction, htenant]
  have hheld : s.tenants.get? ref = some tenant := by
    unfold getTenant at htenant
    cases href : s.registry.get? id.1 with
    | none => simp [href] at htenant
    | some ref' =>
      cases hfound : s.tenants.get? ref' with
      | none => simp [href, hfound] at htenant
      | some tenant' =>
        simp only [href, hfound, Option.bind_some, Option.map_some, Option.some.injEq,
          Prod.mk.injEq] at htenant
        obtain ⟨rfl, rfl⟩ := htenant
        exact hfound
  rw [hstep]
  constructor
  · simp [setCall]
  · exact hheld
  · rfl
  · refine List.ext_getElem? fun j => ?_
    simp
  · intro j
    rw [if_neg List.not_mem_nil]
    rfl
  · rfl

namespace Reading

variable {R} {py} {net : P2PNetwork rt} {tracker : Option SharedTracker} {id ref : CallId}
  {tx : Transaction} {read : List ℕ} {s : TenantService rt} {tenant : ActiveTenant rt}
  {replies : OrderedDict ℕ Reply}

theorem getElem?_servers (h : Reading net tracker id tx read s ref tenant replies) (j : ℕ) :
    tenant.network.servers[j]? = (net.servers[j]?).map fun server =>
      if j ∈ read then (server.handleClient tx).1 else server := by
  rw [h.servers, List.getElem?_mapIdx]

/-- A further server reads the request. -/
theorem serve (h : Reading net tracker id tx read s ref tenant replies) {place : ℕ}
    (hplace : place ∈ Concurrent.places net) (hnew : place ∉ read) :
    ∃ tenant' replies', Reading net tracker id tx (place :: read)
      (s.step R py ⟨id.1, .serve id.2 place⟩).1 ref tenant' replies' := by
  have hlt : place < net.servers.length := List.mem_range.mp (List.mem_filter.mp hplace).1
  have hserver : net.servers[place]? = some net.servers[place] := List.getElem?_eq_getElem hlt
  have hown : tenant.network.servers[place]? = some net.servers[place] := by
    rw [h.getElem?_servers, hserver, Option.map_some, if_neg hnew]
  have hunread : replies.get? place = none := by rw [h.replies, if_neg hnew]
  have hlength : place < tenant.network.servers.length :=
    (List.getElem?_eq_some_iff.mp hown).1
  let served : ActiveTenant rt := { tenant with
    network := { tenant.network with
      servers := tenant.network.servers.set place (net.servers[place].handleClient tx).1 } }
  let replies' := replies.set place (net.servers[place].handleClient tx).2
  have hstep : (s.step R py ⟨id.1, .serve id.2 place⟩).1 = (s.setTenant ref served).setCall id
      (.broadcasting ref tx (Concurrent.places net) replies' false) := by
    simp [step, TenantService.serve, h.call, h.held, ActiveTenant.serve, hown, hplace, hunread,
      served, replies']
  refine ⟨served, replies', ?_⟩
  rw [hstep]
  constructor
  · simp [setCall]
  · simp [setCall, setTenant]
  · simp only [served]
    rw [h.network]
  · refine List.ext_getElem? fun j => ?_
    simp only [served, List.getElem?_set, List.getElem?_mapIdx, List.mem_cons]
    by_cases hj : j = place
    · subst hj
      simp [hlength, hserver]
    · rw [if_neg (Ne.symm hj), h.getElem?_servers]
      simp [hj]
  · intro j
    simp only [replies', OrderedDict.get?_set, List.mem_cons]
    by_cases hj : j = place
    · subst hj
      simp [hserver]
    · simp [hj, h.replies]
  · exact h.tracker

/-- Several servers read it one after the other. -/
theorem serveAll (places : List ℕ) (hnodup : places.Nodup)
    (hplaces : ∀ place ∈ places, place ∈ Concurrent.places net ∧ place ∉ read)
    (h : Reading net tracker id tx read s ref tenant replies) :
    ∃ tenant' replies', Reading net tracker id tx (places.reverse ++ read)
      ((places.map fun place => ⟨id.1, .serve id.2 place⟩).foldl
        (fun s e => (s.step R py e).1) s) ref tenant' replies' := by
  induction places generalizing s read tenant replies with
  | nil => exact ⟨tenant, replies, h⟩
  | cons place places ih =>
    obtain ⟨hnot, hnodup⟩ := List.nodup_cons.mp hnodup
    obtain ⟨hplace, hnew⟩ := hplaces place List.mem_cons_self
    obtain ⟨served, replies', hserved⟩ := h.serve hplace hnew
    have hrest : ∀ p ∈ places, p ∈ Concurrent.places net ∧ p ∉ place :: read := by
      intro p hp
      obtain ⟨hmem, hunread⟩ := hplaces p (List.mem_cons_of_mem place hp)
      refine ⟨hmem, fun hread => ?_⟩
      rcases List.mem_cons.mp hread with rfl | hread
      · exact hnot hp
      · exact hunread hread
    obtain ⟨last, replies'', hlast⟩ := ih hnodup hrest hserved
    refine ⟨last, replies'', ?_⟩
    rw [List.reverse_cons, List.append_assoc]
    exact hlast

/-- Keys and ids are kept. -/
theorem publicKeys (h : Reading net tracker id tx read s ref tenant replies) :
    tenant.network.publicKeys = net.publicKeys := by
  have hmap : (tenant.network.servers.map fun server => (server.nodeId, server.publicKey)) =
      net.servers.map fun server => (server.nodeId, server.publicKey) := by
    refine List.ext_getElem? fun j => ?_
    rw [List.getElem?_map, List.getElem?_map, h.getElem?_servers]
    cases net.servers[j]? with
    | none => rfl
    | some server =>
      simp only [Option.map_some]
      split
      · rw [NodeServer.handleClient_nodeId, NodeServer.handleClient_publicKey]
      · rfl
  rw [P2PNetwork.publicKeys, hmap]
  rfl

/-- Once the servers that it reaches have read the request, the broadcast has the results
of the global endpoint. -/
theorem results (h : Reading net tracker id tx read s ref tenant replies)
    (channel : NodeServer rt → Channel)
    (hread : ∀ place ∈ Concurrent.places net,
      place ∈ read ↔ (channelAt net channel place).reaches = true) :
    P2PNetwork.resultsOf (tenant.gather (Concurrent.places net) replies (channelAt net channel)) =
      P2PNetwork.resultsOf (net.gather tx channel) := by
  unfold P2PNetwork.resultsOf ActiveTenant.gather P2PNetwork.gather
  rw [List.filterMap_filterMap, ← filterMap_places, List.filterMap_map, List.filterMap_filterMap]
  refine List.filterMap_congr fun place hplace => ?_
  rw [h.getElem?_servers, h.replies]
  have hreach := hread place hplace
  cases hserver : net.servers[place]? with
  | none => rfl
  | some server =>
    simp only [channelAt, hserver, Option.elim_some] at hreach ⊢
    simp only [Option.map_some, Option.bind_some, Function.comp]
    cases hchannel : channel server <;>
      simp [hchannel, Channel.reaches] at hreach <;>
      simp [hreach, responseTo, sendToServer]

theorem concludes_iff (h : Reading net tracker id tx read s ref tenant replies)
    (results : List NodeResult) : tenant.network.Concludes results ↔ net.Concludes results := by
  have haudit : tenant.network.auditLog = net.auditLog := by rw [h.network]
  have hmin : tenant.network.minResponses = net.minResponses := by rw [h.network]
  constructor
  · intro hc
    exact ⟨haudit ▸ hc.audited, hmin ▸ hc.enough, hc.answered⟩
  · intro hc
    exact ⟨haudit ▸ hc.audited, hmin ▸ hc.enough, hc.answered⟩

/-- The handler goes on, and charges an answered round to all nodes. -/
theorem gathered (R : Rounding) (py : Builtins)
    (h : Reading net tracker id tx read s ref tenant replies)
    (ctx : TenantSubmitContext) (channel : NodeServer rt → Channel)
    (hread : ∀ place ∈ Concurrent.places net,
      place ∈ read ↔ (channelAt net channel place).reaches = true) :
    let results := P2PNetwork.resultsOf (net.gather tx channel)
    let cr := runConsensus R results (some net.publicKeys) net.quorumThreshold
    let after := (s.step R py ⟨id.1, .gathered id.2 ctx (channelAt net channel)⟩).1
    (net.Concludes results → after.tracker = tracker.map fun t =>
      t.recordRound R ctx.billing id.1 ctx.txId net.servers.length cr.consensusReached) ∧
    (¬ net.Concludes results → after.tracker = tracker) := by
  intro results cr after
  let responses := tenant.gather (Concurrent.places net) replies (channelAt net channel)
  have hresults : P2PNetwork.resultsOf responses = results := h.results channel hread
  have hquorum : tenant.network.quorumThreshold = net.quorumThreshold := by rw [h.network]
  have hconcludes : tenant.network.Concludes (P2PNetwork.resultsOf responses) ↔
      net.Concludes results := by rw [hresults, h.concludes_iff]
  have hcall : s.calls.get? (id.1, id.2) =
      some (.broadcasting ref tx (Concurrent.places net) replies false) := h.call
  constructor
  · intro hc
    obtain ⟨event, hevent⟩ :=
      tenant.finishRound_of_concludes R ctx.billing.now tx (hconcludes.mpr hc)
    rw [hresults, h.publicKeys, hquorum] at hevent
    have hlength : (tenant.finishRound R ctx.billing.now tx responses).1.network.servers.length =
        net.servers.length := by
      rw [ActiveTenant.finishRound_servers, h.servers, List.length_mapIdx]
    simp only [after, step, TenantService.gathered, hcall, h.held]
    simp only [responses] at hevent hlength
    rw [hevent]
    simp only [recordRound, setCall, setTenant, hlength, h.tracker]
    rfl
  · intro hc
    obtain ⟨e, he⟩ :=
      tenant.finishRound_fails R ctx.billing.now tx (mt hconcludes.mp hc)
    simp only [after, step, TenantService.gathered, hcall, h.held]
    simp only [responses] at he
    rw [he]
    exact h.tracker

end Reading

/-- A whole submission to a tenant, with the fates of its requests. -/
theorem tracker_submission {s : TenantService rt} {id ref : CallId} {tenant : ActiveTenant rt}
    (htenant : s.getTenant id.1 = some (ref, tenant)) (hfresh : s.calls.get? id = none)
    (body : TenantTransactionRequest) (ctx : TenantSubmitContext)
    (channel : NodeServer rt → Channel) :
    let net := tenant.network
    let results := P2PNetwork.resultsOf (net.gather body.toEcnTx channel)
    let cr := runConsensus R results (some net.publicKeys) net.quorumThreshold
    let after := (submission net id body ctx (channelAt net channel)).foldl
      (fun s e => (s.step R py e).1) s
    (net.Concludes results → after.tracker = s.tracker.map fun t =>
      t.recordRound R ctx.billing id.1 ctx.txId net.servers.length cr.consensusReached) ∧
    (¬ net.Concludes results → after.tracker = s.tracker) := by
  intro net results cr after
  let reached := (Concurrent.places net).filter fun place => (channelAt net channel place).reaches
  have hnodup : reached.Nodup := (List.nodup_range.filter _).filter _
  have hstart := reading_submit R py htenant hfresh body
  have hreached : ∀ place ∈ reached, place ∈ Concurrent.places net ∧ place ∉ ([] : List ℕ) := by
    intro place hp
    exact ⟨(List.mem_filter.mp hp).1, List.not_mem_nil⟩
  obtain ⟨last, replies, hlast⟩ := hstart.serveAll reached hnodup hreached
  have hread : ∀ place ∈ Concurrent.places net, place ∈ reached.reverse ++ [] ↔
      (channelAt net channel place).reaches = true := by
    intro place hp
    simp [reached, hp]
  have hafter := hlast.gathered R py ctx channel hread
  simp only [after, submission, List.cons_append, List.foldl_cons, List.foldl_append,
    List.foldl_nil]
  exact hafter

theorem newEntries_of_tracker {tenantId : String} {s after : TenantService rt}
    (h : after.tracker = s.tracker) : newEntries tenantId s after = [] := by
  unfold newEntries
  rw [h]
  cases s.tracker with
  | none => rfl
  | some tracker => exact List.drop_length

theorem charges_untracked {s : TenantService rt} (h : s.tracker = none) (tenantId : String)
    (events : List (TenantEvent rt)) : s.charges R py tenantId events = [] := by
  rw [charges, newEntries, h]
  rfl

/-- A recorded round is one charge. -/
theorem charge_recordRound {s after : TenantService rt} {tracker : SharedTracker}
    (htracker : s.tracker = some tracker) {ctx : BillingContext} {tenantId txId : String}
    {nodeCount : ℕ} {cr : ConsensusResult}
    (h : after.tracker = s.tracker.map fun t =>
      t.recordRound R ctx tenantId txId nodeCount cr.consensusReached) :
    (newEntries tenantId s after).map LedgerEntry.charge = [chargeFor R ctx.tier nodeCount cr] := by
  have hcharge (entries : List LedgerEntry) : entries.map LedgerEntry.charge =
      (entries.map LedgerEntry.unnumbered).map LedgerEntry.charge := by
    rw [List.map_map]
    rfl
  have hentries := tracker.entries_recordRound R ctx tenantId txId nodeCount cr.consensusReached
    tenantId
  simp only [SharedTracker.billsOf, if_true] at hentries
  rw [newEntries, h, htracker, Option.map_some, hcharge, List.map_drop, hentries,
    List.drop_append_of_le_length (by simp), List.drop_of_length_le (by simp)]
  rfl

section Submission

variable {s : TenantService rt} {id ref : CallId} {tenant : ActiveTenant rt}
  (htenant : s.getTenant id.1 = some (ref, tenant)) (hfresh : s.calls.get? id = none)
  (ctx : TenantSubmitContext) (body : TenantTransactionRequest) (channel : NodeServer rt → Channel)

include htenant hfresh

/-- All nodes of the network are charged. -/
theorem charges_of_concludes {tracker : SharedTracker} (htracker : s.tracker = some tracker)
    (h : tenant.network.Concludes
      (P2PNetwork.resultsOf (tenant.network.gather body.toEcnTx channel))) :
    s.charges R py id.1
        (submission tenant.network id body ctx (channelAt tenant.network channel)) =
      [chargeFor R ctx.billing.tier tenant.network.servers.length
        (runConsensus R (P2PNetwork.resultsOf (tenant.network.gather body.toEcnTx channel))
          (some tenant.network.publicKeys) tenant.network.quorumThreshold)] :=
  charge_recordRound R htracker ((tracker_submission R py htenant hfresh body ctx channel).1 h)

theorem charges_of_not_concludes
    (h : ¬ tenant.network.Concludes
      (P2PNetwork.resultsOf (tenant.network.gather body.toEcnTx channel))) :
    s.charges R py id.1
      (submission tenant.network id body ctx (channelAt tenant.network channel)) = [] := by
  rw [charges, newEntries_of_tracker
    ((tracker_submission R py htenant hfresh body ctx channel).2 h), List.map_nil]

end Submission

end TenantService

/-! ## The two endpoints on one network -/

/-- The tenant runs on the network of the application, in a process with one tracker. -/
structure SharesNetwork (app : App rt) (s : TenantService rt) (id : CallId) : Prop where
  tenant : ∃ ref tenant, s.getTenant id.1 = some (ref, tenant) ∧ tenant.network = app.network
  fresh : s.calls.get? id = none
  tracker : s.tracker.isSome = app.tracker.isSome

variable (py : Builtins)

/-- The two endpoints charge alike exactly when they charge nothing or as many servers are
silent as are faulty. -/
theorem charges_alike_iff {app : App rt} {s : TenantService rt} {id : CallId}
    (h : SharesNetwork app s id) (ctx : SubmitContext) (tenantCtx : TenantSubmitContext)
    (htier : tenantCtx.billing.tier = ctx.billing.tier) (body : TenantTransactionRequest)
    (channel : NodeServer rt → Channel) :
    app.charges R ctx body.toTransactionRequest channel =
        s.charges R py id.1
          (TenantService.submission app.network id body tenantCtx
            (channelAt app.network channel)) ↔
      app.tracker = none ∨
        ¬ app.network.Concludes (app.respondents body.toTransactionRequest channel) ∨
        app.network.EqualUnits (app.respondents body.toTransactionRequest channel) := by
  obtain ⟨ref, tenant, htenant, hnet⟩ := h.tenant
  cases htracker : app.tracker with
  | none =>
    have hnone : s.tracker = none := by
      have hsome := h.tracker
      rw [htracker] at hsome
      exact Option.isNone_iff_eq_none.mp (by simpa using hsome)
    rw [App.charges_untracked R htracker, TenantService.charges_untracked R py hnone]
    simp
  | some tracker =>
    obtain ⟨shared, hshared⟩ : ∃ shared, s.tracker = some shared := by
      refine Option.isSome_iff_exists.mp ?_
      rw [h.tracker, htracker]
      rfl
    have hcharged :=
      TenantService.charges_of_concludes R py htenant h.fresh tenantCtx body channel hshared
    have hfree :=
      TenantService.charges_of_not_concludes R py htenant h.fresh tenantCtx body channel
    rw [hnet, ← App.respondents_toTransactionRequest] at hcharged hfree
    by_cases hc : app.network.Concludes (app.respondents body.toTransactionRequest channel)
    · rw [App.charges_of_concludes R htracker ctx hc, hcharged hc, htier, List.singleton_inj,
        chargeFor_inj, P2PNetwork.equalUnits_iff]
      simp [hc]
    · rw [app.charges_of_not_concludes R ctx hc, hfree hc]
      simp [hc]

/-! ### Only one endpoint charges a faulty node twice -/

/-- A shipment between two nodes. -/
def shipmentApp : App (referenceRuntime true) where
  network := .init .binary64 none
    [.init _ "Node-1" (makeInitialState ["PROD-001"]) "127.0.0.1" 9001 [1] false,
     .init _ "Node-2" (makeInitialState ["PROD-001"]) "127.0.0.1" 9002 [2] false]
    (some .empty) none none none
  saves := []
  tracker := some .empty
  published := []
  dispatched := []

/-- A tenant on the same two nodes. -/
def shipmentService : TenantService (referenceRuntime true) where
  registry := .ofList [("acme", ("acme", 0))]
  tenants := .ofList [(("acme", 0),
    { tenantId := "acme", name := "Acme", network := shipmentApp.network
      webhookRegistry := .empty })]
  calls := .empty
  tracker := some ⟨none, .empty⟩

theorem shipment_sharesNetwork : SharesNetwork shipmentApp shipmentService ("acme", 1) where
  tenant := ⟨("acme", 0), _, rfl, rfl⟩
  fresh := rfl
  tracker := rfl

def shipmentBody : TenantTransactionRequest :=
  ⟨"ship", some "PROD-001", some "port", some "S", none, none, none, none, none, none⟩

def shipmentContext : SubmitContext := ⟨"tx-1", 0, ⟨.standard, "2024-01", 0⟩⟩

def plainBuiltins : Builtins := ⟨List.sum, fun _ => ""⟩

/-- The first request meets `fate`; the second server answers without a signature. -/
def unsignedSecond (fate : Channel) (server : NodeServer (referenceRuntime true)) : Channel :=
  if server.nodeId = "Node-2" then .byzantine (.result "Node-2" "00" none) 0 else fate

theorem silent_and_unsigned_charged_alike :
    shipmentApp.charges .binary64 shipmentContext shipmentBody.toTransactionRequest
        (unsignedSecond .requestLost) =
      shipmentService.charges .binary64 plainBuiltins "acme"
        (TenantService.submission shipmentApp.network ("acme", 1) shipmentBody
          ⟨"tx-2", shipmentContext.billing⟩
          (channelAt shipmentApp.network (unsignedSecond .requestLost))) :=
  (charges_alike_iff .binary64 plainBuiltins shipment_sharesNetwork shipmentContext
    ⟨"tx-2", shipmentContext.billing⟩ rfl shipmentBody (unsignedSecond .requestLost)).mpr
    (.inr (.inr (by unfold P2PNetwork.EqualUnits; decide +kernel)))

/-- An honest first server is alone with its hash. -/
theorem mostVotes_unsignedSecond :
    mostVotes (ballots (shipmentApp.respondents shipmentBody.toTransactionRequest
      (unsignedSecond (.answered 0))) (some shipmentApp.network.publicKeys)) = 1 := by
  decide +kernel

theorem unsigned_shipment_charged_twice :
    SharesNetwork shipmentApp shipmentService ("acme", 1) ∧
    (shipmentApp.charges .binary64 shipmentContext shipmentBody.toTransactionRequest
      (unsignedSecond (.answered 0))).map Charge.nodeCount = [3] ∧
    (shipmentService.charges .binary64 plainBuiltins "acme"
      (TenantService.submission shipmentApp.network ("acme", 1) shipmentBody
        ⟨"tx-2", shipmentContext.billing⟩
        (channelAt shipmentApp.network (unsignedSecond (.answered 0))))).map
      Charge.nodeCount = [2] := by
  have hcount : (shipmentApp.respondents shipmentBody.toTransactionRequest
      (unsignedSecond (.answered 0))).length = 2 := by
    decide +kernel
  have hconcludes : shipmentApp.network.Concludes (shipmentApp.respondents
      shipmentBody.toTransactionRequest (unsignedSecond (.answered 0))) := by
    refine ⟨rfl, ?_, List.ne_nil_of_length_pos (by omega)⟩
    rw [hcount]
    decide
  refine ⟨shipment_sharesNetwork, ?_, ?_⟩
  · have hcharged := App.charges_of_concludes .binary64
      (show shipmentApp.tracker = some _ from rfl) shipmentContext hconcludes
    have hfaulty := length_faultyNodes_add .binary64 (shipmentApp.respondents
      shipmentBody.toTransactionRequest (unsignedSecond (.answered 0)))
      (some shipmentApp.network.publicKeys) shipmentApp.network.quorumThreshold
    rw [mostVotes_unsignedSecond, hcount] at hfaulty
    rw [hcharged, List.map_cons, List.map_nil, hcount, nodeCount_chargeFor]
    -- The sum is not to be evaluated, so its second part gets a name.
    generalize List.length _ = faulty at hfaulty ⊢
    have hone : faulty = 1 := by omega
    rw [hone]
  · obtain ⟨ref, tenant, htenant, hnet⟩ := shipment_sharesNetwork.tenant
    have hcharged := TenantService.charges_of_concludes .binary64 plainBuiltins htenant rfl
      ⟨"tx-2", shipmentContext.billing⟩ shipmentBody (unsignedSecond (.answered 0)) rfl
    rw [hnet, ← App.respondents_toTransactionRequest] at hcharged
    rw [hcharged hconcludes]
    rfl

end ECN
