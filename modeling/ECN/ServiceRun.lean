import ECN.Access
import ECN.AuditReplay
import ECN.LedgerRecords
import ECN.Lockstep

/-!
# The service as one state

A service over honest servers that takes one submission after the other, with no message
lost and nothing beyond the limits, behaves like a single state. It confirms what the state
accepts, with the hash of the new state and every node behind it, and refuses what the state
rejects. After five rejections in a row it refuses everything. The audit log, the ledger and
the events are those of the confirmed submissions.
-/
namespace ECN

open InStep (responses served nodeIds_served publicKeys_served)

variable {rt : Runtime} (R : Rounding) (L : Limits)

/-! ## What a user sees -/

/-- A submission whose messages are all delivered. -/
structure Post (rt : Runtime) where
  ctx : SubmitContext
  body : TransactionRequest
  latencyMs : NodeServer rt → ℚ

namespace Post

def tx (post : Post rt) : Transaction := post.body.toEcnTx

def submission (post : Post rt) : P2PNetwork.Submission rt :=
  ⟨post.tx, post.ctx.billing.now, post.latencyMs⟩

end Post

/-- `POST /transactions`, whose broadcast can meet the limits. -/
def App.submitTransactionWithin (app : App rt) (ctx : SubmitContext) (body : TransactionRequest)
    (channel : NodeServer rt → Channel) : App rt × Except HttpError TransactionResponse :=
  match app.submitBegin R ctx with
  | (app, .error e) => (app, .error e)
  | (app, .ok record) =>
    let tx := body.toEcnTx
    let servers := app.network.serveWithin L tx channel
    ({ app with network := { app.network with servers } }).submitEnd R ctx tx record
      (app.network.gatherWithin L tx channel)

def App.post (app : App rt) (post : Post rt) : App rt × Except HttpError TransactionResponse :=
  app.submitTransactionWithin R L post.ctx post.body fun s => .answered (post.latencyMs s)

/-- One state, and the confirmed submissions, each with the hash of the state after it. -/
structure Facade (rt : Runtime) where
  machine : Sequential
  confirmed : List (Post rt × String)

namespace Facade

/-- The next state and its hash, unless the submission is refused. -/
def next (facade : Facade rt) (post : Post rt) : Option (State × String) :=
  if facade.machine.rejections < excludedThreshold then
    (rt.execute facade.machine.state post.tx).toOption.bind fun new =>
      (stateHash rt false new).toOption.map fun hash => (new, hash)
  else none

def step (facade : Facade rt) (post : Post rt) : Facade rt :=
  match facade.next post with
  | some (new, hash) => ⟨⟨new, 0⟩, facade.confirmed ++ [(post, hash)]⟩
  | none => ⟨⟨facade.machine.state, facade.machine.rejections + 1⟩, facade.confirmed⟩

/-- The limits do not show at the next submission. -/
def WithinLimits (facade : Facade rt) (post : Post rt) : Prop :=
  facade.machine.WithinLimits L rt post.tx

instance (facade : Facade rt) (post : Post rt) : Decidable (facade.WithinLimits L post) :=
  inferInstanceAs (Decidable (facade.machine.WithinLimits L rt post.tx))

theorem next_eq_some_iff {facade : Facade rt} {post : Post rt} {new : State} {hash : String} :
    facade.next post = some (new, hash) ↔ facade.machine.rejections < excludedThreshold ∧
      rt.execute facade.machine.state post.tx = .ok new ∧ stateHash rt false new = .ok hash := by
  unfold next
  split_ifs with hactive
  · cases rt.execute facade.machine.state post.tx with
    | error e => simp [Except.toOption]
    | ok new' =>
      simp only [Except.toOption, Option.bind_some, Option.map_eq_some_iff, Prod.mk.injEq,
        Except.ok.injEq, hactive, true_and]
      constructor
      · rintro ⟨hash', hsome, rfl, rfl⟩
        cases hhash : stateHash rt false new' with
        | error e =>
          rw [hhash] at hsome
          cases hsome
        | ok hash'' =>
          rw [hhash] at hsome
          cases hsome
          exact ⟨rfl, rfl⟩
      · rintro ⟨rfl, hhash⟩
        exact ⟨hash, by rw [hhash], rfl, rfl⟩
  · simp [hactive]

/-- A refusal in time is a rejection by the engine. -/
theorem rejected_of_next (hr : rt.Registered) {facade : Facade rt} {post : Post rt}
    (hshape : WellShaped facade.machine.state) (ht : WellTyped post.tx)
    (hactive : facade.machine.rejections < excludedThreshold) (h : facade.next post = none) :
    ∃ e, rt.execute facade.machine.state post.tx = .error e := by
  cases hex : rt.execute facade.machine.state post.tx with
  | error e => exact ⟨e, rfl⟩
  | ok new =>
    obtain ⟨hash, hhash⟩ := stateHash_ok rt (hr.execute_wellShaped hshape ht hex) false
    rw [next_eq_some_iff.mpr ⟨hactive, hex, hhash⟩] at h
    cases h

end Facade

/-- The event of the `n`-th confirmed submission, counted from zero. -/
structure Certifies (ids : List String) (n : ℕ) (confirmed : Post rt × String)
    (event : AuditEvent) : Prop where
  roundId : event.roundId = n + 1
  timestamp : event.timestamp = isoTimestamp confirmed.1.ctx.billing.now
  transaction : event.transaction = confirmed.1.tx
  agreedHash : event.agreedHash = some confirmed.2
  consensusReached : event.consensusReached = true
  honestNodes : event.honestNodes = ids
  faultyNodes : event.faultyNodes = []
  invalidSigNodes : event.invalidSigNodes = []

/-- The service confirms what the facade confirms, and refuses the rest as unprocessable. -/
def Answered (ids : List String) (w : App rt × Facade rt) (post : Post rt) : Prop :=
  match w.2.next post, (w.1.post R L post).2 with
  | some (_, hash), .ok response => ∃ event record, response = eventToResponse event record ∧
      Certifies ids w.2.confirmed.length (post, hash) event ∧
      record.txId = post.ctx.txId ∧ record.state = .replicated
  | none, .error e => e.statusCode = 422
  | _, _ => False

/-- The charge of a confirmed submission. -/
def charge (nodeCount : ℕ) (tracker : BillingTracker) (confirmed : Post rt × String) :
    BillingTracker :=
  (tracker.recordRound R confirmed.1.ctx.billing "" confirmed.1.ctx.txId nodeCount true).1

/-- Every server is in the facade's state, and the records are those of the confirmed
submissions. -/
structure Shows (ids : List String) (w : App rt × Facade rt) : Prop where
  servers : w.1.network.servers.map (fun s => (s.nodeId, s.state)) =
    ids.map fun nodeId => (nodeId, w.2.machine.state)
  log : ∃ events, w.1.network.auditLog = some ⟨events⟩ ∧
    events.length = w.2.confirmed.length ∧
    (∀ n confirmed event, w.2.confirmed[n]? = some confirmed → events[n]? = some event →
      Certifies ids n confirmed event) ∧
    w.1.published = events.map (fun event => (.transactions, event)) ∧ w.1.dispatched = events
  tracker : w.1.tracker = some (w.2.confirmed.foldl (charge R ids.length) .empty)

/-- Both after a submission. -/
def together (w : App rt × Facade rt) (post : Post rt) : App rt × Facade rt :=
  ((w.1.post R L post).1, w.2.step post)

/-! ## The fields of a submission -/

/-- Texts, flags and an amount, the accounts as texts. -/
theorem mem_postedTx {body : TransactionRequest} {e : Scalar × Value} (h : e ∈ body.toEcnTx) :
    e.2.stringKeyed = true ∧ ∃ key, e.1 = .str key ∧
      (key = "from" ∨ key = "to" → ∃ s, e.2 = .str s) := by
  simp only [TransactionRequest.toEcnTx, List.mem_cons, List.mem_append] at h
  rcases h with rfl | ((((((((((h | h) | h) | h) | h) | h) | h) | h) | h) | h) | h) | h
  · exact ⟨rfl, "type", rfl, by simp⟩
  all_goals
    obtain ⟨hkey, a, hvalue⟩ := Service.mem_optionalField h
    exact ⟨by rw [hvalue]; rfl, _, hkey, by simp [hvalue]⟩

theorem wellTyped_postedTx (body : TransactionRequest) : WellTyped body.toEcnTx := by
  have haccount : ∀ key v, key = "from" ∨ key = "to" →
      PyDict.get? body.toEcnTx (.str key) = some v → ∃ s, v = .str s := by
    intro key v hkey hv
    obtain ⟨e, hfind, rfl⟩ := Option.map_eq_some_iff.mp hv
    obtain ⟨-, name, hname, htext⟩ := mem_postedTx (List.mem_of_find?_eq_some hfind)
    have hsame : e.1 = .str key := by simpa using List.find?_some hfind
    rw [hname] at hsame
    cases hsame
    exact htext hkey
  refine ⟨?_, fun v => haccount "from" v (.inl rfl), fun v => haccount "to" v (.inr rfl)⟩
  rw [Value.stringKeyed_dict_iff]
  intro e he
  obtain ⟨hvalue, key, hkey, -⟩ := mem_postedTx he
  exact ⟨⟨key, hkey⟩, hvalue⟩

/-! ## A round of honest servers -/

theorem P2PNetwork.getQuorumThreshold_le_one (env : Option ℚ) :
    getQuorumThreshold R env ≤ 1 := by
  have hdefault : defaultQuorumThreshold R ≤ 1 := by
    rw [← R.one]
    exact R.mono (by norm_num)
  unfold getQuorumThreshold
  split
  · next val =>
    split_ifs with hval
    · exact hval.2
    · exact hdefault
  · exact hdefault

section Round

variable {p2p : P2PNetwork rt} {spec : Sequential}

/-- What one server sends back. -/
structure Vote (keys : OrderedDict String rt.PublicKey) (hash : String) (server : NodeServer rt)
    (r : NodeResult) : Prop where
  nodeId : r.nodeId = server.nodeId
  accepted : ECN.accepted (some keys) r = true
  stateHash : r.stateHash = hash

theorem forall₂_resultsOf {servers : List (NodeServer rt)} {response : NodeServer rt → Response}
    {P : NodeServer rt → NodeResult → Prop}
    (h : ∀ s ∈ servers, ∃ r latencyMs, response s = some (r, latencyMs) ∧ P s r) :
    List.Forall₂ P servers (P2PNetwork.resultsOf (servers.map fun s => (s, response s))) := by
  induction servers with
  | nil => exact .nil
  | cons s servers ih =>
    obtain ⟨r, latencyMs, hresponse, hr⟩ := h s List.mem_cons_self
    have hrest := ih fun other hmem => h other (List.mem_cons_of_mem s hmem)
    have hhead : P2PNetwork.resultsOf ((s :: servers).map fun s => (s, response s)) =
        r :: P2PNetwork.resultsOf (servers.map fun s => (s, response s)) := by
      rw [P2PNetwork.resultsOf, List.map_cons, List.filterMap_cons_some]
      · rfl
      · rw [hresponse]
        rfl
    rw [hhead]
    exact .cons hr hrest

/-- Every honest server votes for the hash of the new state. -/
theorem InStep.votes (h : InStep p2p spec)
    (hhonest : ∀ s ∈ p2p.servers, s.node.malicious = false) {sub : P2PNetwork.Submission rt}
    {new : State} {hash : String} (he : Node.evaluate rt false spec.state sub.tx = .ok (new, hash)) :
    List.Forall₂ (Vote p2p.publicKeys hash) p2p.servers
      (P2PNetwork.resultsOf (responses p2p.servers sub)) := by
  apply forall₂_resultsOf
  intro s hs
  have hhash : honestHash rt s.state sub.tx = some hash := by
    rw [h.common s hs]
    exact honestHash_eq_some_iff.mpr ⟨new, he⟩
  have hsome := answered_isSome s sub.tx (sub.latencyMs s)
  rw [hhash] at hsome
  obtain ⟨⟨r, latencyMs⟩, hresponse⟩ := Option.isSome_iff_exists.mp hsome
  obtain ⟨hid, hacc, hsame⟩ := result_of_answered
    (P2PNetwork.get?_publicKeys h.ids hs) (hhonest s hs) hresponse
  exact ⟨r, latencyMs, hresponse, hid, hacc, Option.some.inj (hsame.symm.trans hhash)⟩

theorem votes_agree {keys : OrderedDict String rt.PublicKey} {hash : String}
    {servers : List (NodeServer rt)} {results : List NodeResult}
    (h : List.Forall₂ (Vote keys hash) servers results) :
    results.map NodeResult.nodeId = servers.map NodeServer.nodeId ∧
      ∀ r ∈ results, accepted (some keys) r = true ∧ r.stateHash = hash := by
  induction h with
  | nil => exact ⟨rfl, fun r hr => nomatch hr⟩
  | cons hvote hrest ih =>
    obtain ⟨hids, hall⟩ := ih
    constructor
    · rw [List.map_cons, List.map_cons, hids, hvote.nodeId]
    · rw [List.forall_mem_cons]
      exact ⟨⟨hvote.accepted, hvote.stateHash⟩, hall⟩

/-- All nodes are honest and agree. -/
structure Unanimous (ids : List String) (hash : String) (cr : ConsensusResult) : Prop where
  agreedHash : cr.agreedHash = some hash
  consensusReached : cr.consensusReached = true
  honestNodes : cr.honestNodes = ids
  faultyNodes : cr.faultyNodes = []
  invalidSigNodes : cr.invalidSigNodes = []

/-- The event that a unanimous round records. -/
theorem Unanimous.certifies {ids : List String} {hash : String} {cr : ConsensusResult}
    (h : Unanimous ids hash cr) {events : List AuditEvent} {confirmed : List (Post rt × String)}
    (hlength : events.length = confirmed.length) (post : Post rt) (results : List NodeResult) :
    Certifies ids confirmed.length (post, hash)
      (AuditLog.event ⟨events⟩ post.ctx.billing.now post.tx results cr) where
  roundId := congrArg (· + 1) hlength
  timestamp := rfl
  transaction := rfl
  agreedHash := h.agreedHash
  consensusReached := h.consensusReached
  honestNodes := h.honestNodes
  faultyNodes := h.faultyNodes
  invalidSigNodes := h.invalidSigNodes

theorem runConsensus_of_votes {keys : OrderedDict String rt.PublicKey} {hash : String}
    {servers : List (NodeServer rt)} {results : List NodeResult}
    (h : List.Forall₂ (Vote keys hash) servers results) (hne : results ≠ []) {t : ℚ} (ht : t ≤ 1) :
    Unanimous (servers.map NodeServer.nodeId) hash (runConsensus R results (some keys) t) := by
  obtain ⟨hids, hall⟩ := votes_agree h
  obtain ⟨hagreed, hreached, hfaulty⟩ := P2PNetwork.runConsensus_of_agreement R (some keys) ht
    hne hash (fun r hr => (hall r hr).1) fun r hr => (hall r hr).2
  refine ⟨hagreed, hreached, ?_, hfaulty, ?_⟩
  · rw [runConsensus_honestNodes, verifiedResults, List.filter_eq_self.mpr fun r hr => (hall r hr).1,
      List.filter_eq_self.mpr, hids]
    intro r hr
    rw [hagreed, (hall r hr).2]
    simp
  · rw [runConsensus_invalidSigNodes, invalidSigIds, List.map_eq_nil_iff, List.filter_eq_nil_iff]
    intro r hr
    simp [(hall r hr).1]

/-- A submission that the common state accepts. -/
theorem InStep.round (h : InStep p2p spec) (hactive : spec.rejections < excludedThreshold)
    (hhonest : ∀ s ∈ p2p.servers, s.node.malicious = false) (ht : p2p.quorumThreshold ≤ 1)
    {sub : P2PNetwork.Submission rt} {new : State} {hash : String} (hnew : WellShaped new)
    (he : Node.evaluate rt false spec.state sub.tx = .ok (new, hash)) :
    ∃ results cr health history, p2p.submitted R sub =
        ({ p2p with
            servers := served p2p.servers sub.tx
            health
            history
            auditLog := p2p.auditLog.map fun log => log.record sub.now sub.tx results cr },
          .ok (results, cr)) ∧
      InStep { p2p with
        servers := served p2p.servers sub.tx
        health
        history
        auditLog := p2p.auditLog.map fun log => log.record sub.now sub.tx results cr } ⟨new, 0⟩ ∧
      results.length = p2p.servers.length ∧ Unanimous (p2p.servers.map NodeServer.nodeId) hash cr := by
  have hvotes := h.votes hhonest he
  have hlength := hvotes.length_eq
  have hne : P2PNetwork.resultsOf (responses p2p.servers sub) ≠ [] := by
    intro hnil
    rw [hnil] at hlength
    exact h.nonempty (List.eq_nil_of_length_eq_zero hlength)
  let net := { p2p with servers := served p2p.servers sub.tx }
  have hpresent : net.minResponses ≤
      (P2PNetwork.resultsOf (responses p2p.servers sub)).length := by
    rw [← hlength]
    exact h.most
  have hround := P2PNetwork.collect_of_le R hpresent sub.now sub.tx
  dsimp only [net] at hround
  rw [publicKeys_served] at hround
  exact ⟨_, _, _, _, (h.submitted_eq R hactive sub).trans hround,
    h.after_accepted hactive hnew he _ _, hlength.symm, runConsensus_of_votes R hvotes hne ht⟩

end Round

/-! ## One submission -/

namespace App

variable {L} {app : App rt} {post : Post rt} {log : AuditLog} {network : P2PNetwork rt}

/-- The stretch before the round saves records and no more, and the round is the one without
limits. -/
theorem post_eq (hlog : app.network.auditLog = some log)
    (hl : ∀ s ∈ app.network.participating, Unlimited L s post.tx) :
    ∃ saves record, record.state = .consensusPending ∧ record.tenantId = "" ∧
      record.txId = post.ctx.txId ∧
      app.post R L post = App.submitEnd R { app with
        saves
        network := { app.network with
          servers := app.network.serve post.tx fun s => .answered (post.latencyMs s) } }
        post.ctx post.tx record
        (app.network.gather post.tx fun s => .answered (post.latencyMs s)) := by
  have hbegin := app.submitBegin_saves R post.ctx (by rw [hlog]; rfl)
  let first := newRecord "" post.ctx.txId app.network.servers.length post.ctx.startedAt
  refine ⟨app.saves ++ ([first, { first with state := .executing },
    { first with state := .proposed }] ++ [{ first with state := .consensusPending }]),
    { first with state := .consensusPending }, rfl, rfl, rfl, ?_⟩
  rw [App.post, submitTransactionWithin, hbegin]
  dsimp only
  rw [← P2PNetwork.serveWithin_of_unlimited hl, ← P2PNetwork.gatherWithin_of_unlimited hl]
  rfl

theorem post_error (hlog : app.network.auditLog = some log)
    (hl : ∀ s ∈ app.network.participating, Unlimited L s post.tx) {e : InsufficientQuorumError}
    (hsub : app.network.submitted R post.submission = (network, .error e)) :
    ∃ saves, app.post R L post = ({ app with saves, network }, .error ⟨422, e.message⟩) := by
  obtain ⟨saves, record, -, -, -, hpost⟩ := post_eq R hlog hl
  rw [P2PNetwork.submitted, P2PNetwork.broadcast] at hsub
  refine ⟨saves, ?_⟩
  rw [hpost, submitEnd]
  dsimp only [Post.submission] at hsub ⊢
  rw [hsub]

theorem post_ok (hlog : app.network.auditLog = some log)
    (hl : ∀ s ∈ app.network.participating, Unlimited L s post.tx) {results : List NodeResult}
    {cr : ConsensusResult}
    (hsub : app.network.submitted R post.submission = (network, .ok (results, cr)))
    (hne : results ≠ [])
    (hrecorded : network.auditLog = some (log.record post.ctx.billing.now post.tx results cr)) :
    let event := log.event post.ctx.billing.now post.tx results cr
    ∃ saves record, app.post R L post = (App.announce { app with
        network
        saves
        tracker := app.tracker.map fun tracker => (tracker.recordRound R post.ctx.billing ""
          post.ctx.txId (results.length + cr.faultyNodes.length) cr.consensusReached).1 } event,
      .ok (eventToResponse event record)) ∧
      record.txId = post.ctx.txId ∧ record.state = .replicated := by
  intro event
  obtain ⟨saves, record, hstate, htenant, hid, hpost⟩ := post_eq R hlog hl
  rw [P2PNetwork.submitted, P2PNetwork.broadcast] at hsub
  have hevent : (some (log.record post.ctx.billing.now post.tx results cr)).bind
      (fun log => log.getEvent log.events.length) = some event := by
    rw [Option.bind_some]
    simpa [AuditLog.record] using log.getEvent_record post.ctx.billing.now post.tx results cr
  rw [← hrecorded] at hevent
  obtain ⟨finalized, billed, replicated, hfinish, -, -, hreplicated, hsame⟩ :=
    submitFinish_announces R { app with saves, network } post.ctx hstate hne cr hevent
  refine ⟨saves ++ [finalized, billed, replicated], replicated, ?_, ?_, hreplicated⟩
  · rw [hpost, submitEnd]
    dsimp only [Post.submission] at hsub ⊢
    rw [hsub]
    dsimp only
    rw [hfinish, billedTracker, htenant, hid]
  · rw [(hsame replicated (by simp)).1, hid]

end App

/-! ## Any run -/

/-- Honest servers in step with the facade, under a threshold that all of them reach, and the
records that it shows. -/
structure Serves (ids : List String) (w : App rt × Facade rt) : Prop where
  inStep : InStep w.1.network w.2.machine
  honest : ∀ s ∈ w.1.network.servers, s.node.malicious = false
  threshold : w.1.network.quorumThreshold ≤ 1
  shows : Shows R ids w

namespace Serves

variable {R L} {ids : List String} {app : App rt} {facade : Facade rt} {post : Post rt}

theorem ids_eq (h : Serves R ids (app, facade)) :
    app.network.servers.map NodeServer.nodeId = ids := by
  have hservers := congrArg (List.map Prod.fst) h.shows.servers
  simpa [List.map_map, Function.comp_def] using hservers

/-- A refusal leaves all but the health records and the saved records as it was. -/
theorem refused (hr : rt.Registered) (h : Serves R ids (app, facade))
    (hl : facade.WithinLimits L post) (hnone : facade.next post = none) :
    Answered R L ids (app, facade) post ∧ Serves R ids (together R L (app, facade) post) := by
  obtain ⟨events, hlog, hlength, hcertified, hpublished, hdispatched⟩ := h.shows.log
  obtain ⟨health, e, hsub, hnext⟩ : ∃ health e,
      app.network.submitted R post.submission = ({ app.network with health }, .error e) ∧
      InStep { app.network with health }
        ⟨facade.machine.state, facade.machine.rejections + 1⟩ := by
    by_cases hactive : facade.machine.rejections < excludedThreshold
    · obtain ⟨e, hex⟩ := Facade.rejected_of_next hr h.inStep.shape (wellTyped_postedTx post.body)
        hactive hnone
      have hex' : rt.execute facade.machine.state post.submission.tx = .error e := hex
      exact h.inStep.rejected R hactive hex'
    · have hdead : excludedThreshold ≤ facade.machine.rejections := not_lt.mp hactive
      obtain ⟨e, hsub⟩ := h.inStep.submitted_excluded R hdead post.submission
      exact ⟨app.network.health, e, hsub, h.inStep.later hdead⟩
  obtain ⟨saves, hpost⟩ := App.post_error R hlog (h.inStep.unlimited hl) hsub
  have htogether : together R L (app, facade) post =
      ({ app with saves, network := { app.network with health } },
        ⟨⟨facade.machine.state, facade.machine.rejections + 1⟩, facade.confirmed⟩) := by
    rw [together, Facade.step, hpost, hnone]
  constructor
  · rw [Answered, hpost, hnone]
  · rw [htogether]
    exact ⟨hnext, h.honest, h.threshold, h.shows.servers,
      ⟨events, hlog, hlength, hcertified, hpublished, hdispatched⟩, h.shows.tracker⟩

theorem map_servers {servers : List (NodeServer rt)} {state : State}
    (hcommon : ∀ s ∈ servers, s.state = state) (hids : servers.map NodeServer.nodeId = ids) :
    servers.map (fun s => (s.nodeId, s.state)) = ids.map fun nodeId => (nodeId, state) := by
  rw [← hids, List.map_map]
  exact List.map_congr_left fun s hs => by rw [Function.comp, hcommon s hs]

/-- One more event under the next number. -/
theorem certifies_concat {confirmed : List (Post rt × String)} {events : List AuditEvent}
    {entry : Post rt × String} {event : AuditEvent} (hlength : events.length = confirmed.length)
    (h : ∀ n c e, confirmed[n]? = some c → events[n]? = some e → Certifies ids n c e)
    (hlast : Certifies ids confirmed.length entry event) (n : ℕ) (c : Post rt × String)
    (e : AuditEvent) (hc : (confirmed ++ [entry])[n]? = some c)
    (he : (events ++ [event])[n]? = some e) : Certifies ids n c e := by
  rcases Nat.lt_trichotomy n confirmed.length with hlt | rfl | hgt
  · rw [List.getElem?_append_left hlt] at hc
    rw [List.getElem?_append_left (hlength ▸ hlt)] at he
    exact h n c e hc he
  · rw [List.getElem?_concat_length] at hc
    rw [← hlength, List.getElem?_concat_length] at he
    cases hc
    cases he
    exact hlast
  · have hle : (confirmed ++ [entry]).length ≤ n := by
      rw [List.length_append, List.length_singleton]
      omega
    rw [List.getElem?_eq_none hle] at hc
    cases hc

/-- A confirmed submission moves every server, and is recorded, charged and announced. -/
theorem confirmed (hr : rt.Registered) (h : Serves R ids (app, facade))
    (hl : facade.WithinLimits L post) {new : State} {hash : String}
    (hsome : facade.next post = some (new, hash)) :
    Answered R L ids (app, facade) post ∧ Serves R ids (together R L (app, facade) post) := by
  obtain ⟨events, hlog, hlength, hcertified, hpublished, hdispatched⟩ := h.shows.log
  obtain ⟨hactive, hex, hhash⟩ := Facade.next_eq_some_iff.mp hsome
  have hnew := hr.execute_wellShaped h.inStep.shape (wellTyped_postedTx post.body) hex
  obtain ⟨hash', he⟩ := Node.evaluate_of_execute h.inStep.shape hnew hex
  obtain rfl : hash' = hash := by
    have hsame := (Node.stateHash_of_evaluate he).symm.trans hhash
    exact Except.ok.inj hsame
  have hround : Node.evaluate rt false facade.machine.state post.submission.tx =
      .ok (new, hash') := he
  obtain ⟨results, cr, health, history, hsub, hnext, hcount, hagree⟩ :=
    h.inStep.round R hactive h.honest h.threshold hnew hround
  have hne : results ≠ [] := by
    rintro rfl
    exact h.inStep.nonempty (List.eq_nil_of_length_eq_zero hcount.symm)
  obtain ⟨saves, record, hpost, hid, hstate⟩ :=
    App.post_ok R hlog (h.inStep.unlimited hl) hsub hne (by rw [hlog]; rfl)
  set event := AuditLog.event ⟨events⟩ post.ctx.billing.now post.tx results cr
  rw [h.ids_eq] at hagree
  have hevent : Certifies ids facade.confirmed.length (post, hash') event :=
    hagree.certifies hlength post results
  have hservers : (served app.network.servers post.tx).map NodeServer.nodeId = ids :=
    (nodeIds_served app.network.servers post.tx).trans h.ids_eq
  have hnodes : results.length + cr.faultyNodes.length = ids.length := by
    rw [hagree.faultyNodes, hcount, ← h.ids_eq, List.length_map]
    rfl
  constructor
  · rw [Answered, hpost, hsome]
    exact ⟨event, record, rfl, hevent, hid, hstate⟩
  · rw [together, Facade.step, hpost, hsome]
    refine ⟨hnext, ?_, h.threshold, map_servers hnext.common hservers, ?_, ?_⟩
    · intro s' hs'
      obtain ⟨s, hs, rfl⟩ := List.mem_map.mp hs'
      rw [s.handleClient_malicious]
      exact h.honest s hs
    · refine ⟨events ++ [event], by rw [hlog]; rfl, ?_, certifies_concat hlength hcertified hevent,
        ?_, ?_⟩
      · rw [List.length_append, List.length_append, hlength]
        rfl
      · have hfaulty : event.faultyNodes.isEmpty = true := by rw [hevent.faultyNodes]; rfl
        rw [App.announce, if_pos hfaulty, hpublished, List.map_append]
        rfl
      · rw [App.announce, hdispatched]
    · have htracker := h.shows.tracker
      dsimp only [App.announce] at htracker ⊢
      rw [htracker, Option.map_some, hnodes, hagree.consensusReached, List.foldl_append]
      rfl

/-- A run is answered as the facade answers it, and shows the facade all along. -/
theorem run (hr : rt.Registered) (h : Serves R ids (app, facade)) {posts : List (Post rt)}
    (hl : StepsMeet Facade.step (Facade.WithinLimits L) facade posts) :
    StepsMeet (together R L) (Answered R L ids) (app, facade) posts ∧
      Throughout (together R L) (Shows R ids) (app, facade) posts := by
  induction posts generalizing app facade with
  | nil => exact ⟨trivial, h.shows⟩
  | cons post posts ih =>
    obtain ⟨hwithin, hrest⟩ := hl
    obtain ⟨hanswered, hnext⟩ : Answered R L ids (app, facade) post ∧
        Serves R ids (together R L (app, facade) post) := by
      cases hnone : facade.next post with
      | none => exact h.refused hr hwithin hnone
      | some result => exact h.confirmed hr hwithin hnone
    obtain ⟨hmeet, hshows⟩ := ih hnext hrest
    exact ⟨⟨hanswered, hmeet⟩, h.shows, hshows⟩

end Serves

/-- Over honest servers that start in one state, whatever is submitted within the limits, each
submission is answered as the facade answers it, and after each the servers are in the facade's
state and the audit log, the ledger, the bus and the webhooks have what the facade has
confirmed. -/
theorem service_refines (hr : rt.Registered) {servers : List (NodeServer rt)} (hne : servers ≠ [])
    (hids : (servers.map NodeServer.nodeId).Nodup)
    (hhonest : ∀ s ∈ servers, s.node.malicious = false) {state : State}
    (hcommon : ∀ s ∈ servers, s.state = state) (hshape : WellShaped state) (env : Option ℚ)
    {posts : List (Post rt)}
    (hl : StepsMeet Facade.step (Facade.WithinLimits L) (⟨⟨state, 0⟩, []⟩ : Facade rt) posts) :
    let start := (App.lifespan R env servers, (⟨⟨state, 0⟩, []⟩ : Facade rt))
    let ids := servers.map NodeServer.nodeId
    StepsMeet (together R L) (Answered R L ids) start posts ∧
      Throughout (together R L) (Shows R ids) start posts := by
  intro start ids
  have hcount : 1 ≤ servers.length := List.length_pos_iff.mpr hne
  have hstart : Serves R ids start := {
    inStep := .init R hne hids hcommon hshape env _ none (by decide) (by simpa using hcount)
    honest := hhonest
    threshold := P2PNetwork.getQuorumThreshold_le_one R env
    shows := ⟨Serves.map_servers hcommon rfl, ⟨[], rfl, rfl, by simp, rfl, rfl⟩, rfl⟩ }
  exact hstart.run hr hl

/-! ### The servers that the service starts -/

def nodeConfigs : List String := ["Warehouse", "Shipper", "Customs", "Insurer", "Retailer"]

def defaultProductIds : List String := ["LAPTOP-001", "PHONE-002", "TABLET-003"]

def startServers : List (NodeServer (serviceRuntime referenceInterp referenceCrypto)) :=
  nodeConfigs.mapIdx fun i nodeId =>
    .init _ nodeId (makeInitialState defaultProductIds) "127.0.0.1" (18000 + i) [.ofNat i]
      false

def laptopShipment : TransactionRequest :=
  ⟨"ship", some "LAPTOP-001", some "port", some "S", none, none, none, none, none, none, none,
    none, none⟩

/-- Twice the same shipment, of which the second is refused. -/
theorem service_refines_shipments :
    let post := ⟨⟨"tx-1", 0, ⟨.standard, "2024-01", 0⟩⟩, laptopShipment, fun _ => 5⟩
    let start := (App.lifespan .binary64 none startServers,
      (⟨⟨makeInitialState defaultProductIds, 0⟩, []⟩ : Facade _))
    StepsMeet (together .binary64 defaultLimits) (Answered .binary64 defaultLimits nodeConfigs)
        start [post, post] ∧
      Throughout (together .binary64 defaultLimits) (Shows .binary64 nodeConfigs) start
        [post, post] := by
  intro post start
  have hservers : ∀ s ∈ startServers, s.node.malicious = false ∧
      s.state = makeInitialState defaultProductIds := by
    intro s hs
    simp only [startServers, nodeConfigs, List.mapIdx_cons, List.mapIdx_nil, List.mem_cons,
      List.not_mem_nil, or_false] at hs
    rcases hs with rfl | rfl | rfl | rfl | rfl
    all_goals exact ⟨rfl, rfl⟩
  have hlimits : StepsMeet Facade.step (Facade.WithinLimits defaultLimits) start.2
      [post, post] := by
    decide +kernel
  exact service_refines .binary64 defaultLimits (.inr rfl) (by decide) (by decide)
    (fun s hs => (hservers s hs).1) (fun s hs => (hservers s hs).2)
    (Service.wellShaped_makeInitialState defaultProductIds) none hlimits

end ECN
