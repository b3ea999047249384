import ECN.Api
import ECN.ReferenceRuntime
import ECN.Runs
import ECN.Validity

/-!
# What a saved record says about its round

The end of a submission either fails and saves nothing or saves three records with
one outcome. The handler counts the participants as results plus faulty nodes although
every faulty node is among the results; the count is right exactly when the round
raises or is free of faults.
-/
namespace ECN

variable {rt : Runtime}

namespace App

variable (R : Rounding)

/-! ## The end of a submission -/

/-- A submission ends without a saved record when the network keeps no audit log or
when too few results arrive. -/
theorem submitEnd_fails (app : App rt) (ctx : SubmitContext) (tx : Transaction)
    (record : TransactionRecord) (responses : List (NodeServer rt × Response))
    (h : app.network.auditLog = none ∨
      ((P2PNetwork.resultsOf responses).length : ℤ) < app.network.minResponses ∨
      P2PNetwork.resultsOf responses = []) :
    ∃ network e, app.submitEnd R ctx tx record responses = ({ app with network }, .error e) := by
  unfold submitEnd
  rcases lt_or_ge ((P2PNetwork.resultsOf responses).length : ℤ) app.network.minResponses with
    hlt | hmin
  · obtain ⟨e, he⟩ := P2PNetwork.collect_of_lt R hlt ctx.billing.now tx
    rw [he]
    exact ⟨_, _, rfl⟩
  · rw [P2PNetwork.collect_of_le R hmin]
    dsimp only [submitFinish]
    split
    · exact ⟨_, _, rfl⟩
    · next hne =>
      have hnone : app.network.auditLog = none := by
        rcases h with h | h | h
        · exact h
        · exact absurd h (not_lt.mpr hmin)
        · simp [h] at hne
      rw [hnone]
      exact ⟨_, _, rfl⟩

/-- With too few results the rest of the application keeps everything but the health
records. -/
theorem submitEnd_of_lt (app : App rt) (ctx : SubmitContext) (tx : Transaction)
    (record : TransactionRecord) {responses : List (NodeServer rt × Response)}
    (h : ((P2PNetwork.resultsOf responses).length : ℤ) < app.network.minResponses) :
    ∃ health e, app.submitEnd R ctx tx record responses =
      ({ app with network := { app.network with health } }, .error e) := by
  obtain ⟨e, he⟩ := P2PNetwork.collect_of_lt R h ctx.billing.now tx
  unfold submitEnd
  rw [he]
  exact ⟨_, _, rfl⟩

/-- With enough results but nothing to answer with, only the network changes. -/
theorem submitEnd_unanswered (app : App rt) (ctx : SubmitContext) (tx : Transaction)
    (record : TransactionRecord) {responses : List (NodeServer rt × Response)}
    (hmin : app.network.minResponses ≤ (P2PNetwork.resultsOf responses).length)
    (h : P2PNetwork.resultsOf responses = [] ∨ app.network.auditLog = none) :
    ∃ e, app.submitEnd R ctx tx record responses =
      ({ app with network := (app.network.collect R ctx.billing.now tx responses).1 },
        .error e) := by
  unfold submitEnd
  rw [P2PNetwork.collect_of_le R hmin]
  dsimp only [submitFinish]
  split
  · exact ⟨_, rfl⟩
  · next hne =>
    have hnone : app.network.auditLog = none := by
      rcases h with h | h
      · simp [h] at hne
      · exact h
    rw [hnone]
    exact ⟨_, rfl⟩

/-- With enough results it announces the event that its own broadcast has recorded. -/
theorem submitEnd_announces (app : App rt) (ctx : SubmitContext) (tx : Transaction)
    {record : TransactionRecord} (hs : record.state = .consensusPending)
    (responses : List (NodeServer rt × Response)) {log : AuditLog}
    (hlog : app.network.auditLog = some log)
    (hmin : app.network.minResponses ≤ (P2PNetwork.resultsOf responses).length)
    (hne : P2PNetwork.resultsOf responses ≠ []) :
    let results := P2PNetwork.resultsOf responses
    let cr := runConsensus R results (some app.network.publicKeys) app.network.quorumThreshold
    let nodeCount := results.length + cr.faultyNodes.length
    ∃ network finalized billed replicated,
      app.submitEnd R ctx tx record responses = (App.announce { app with
          network
          saves := app.saves ++ [finalized, billed, replicated]
          tracker := app.billedTracker R ctx record nodeCount cr.consensusReached }
          (log.event ctx.billing.now tx results cr),
        .ok (eventToResponse (log.event ctx.billing.now tx results cr) replicated)) ∧
      network.servers = app.network.servers ∧ network.minResponses = app.network.minResponses ∧
      network.quorumThreshold = app.network.quorumThreshold ∧
      network.auditLog = some (log.record ctx.billing.now tx results cr) ∧
      finalized.state = .finalized ∧ billed.state = .billed ∧ replicated.state = .replicated ∧
      ∀ r ∈ [finalized, billed, replicated], r.txId = record.txId ∧
        r.consensusReached = cr.consensusReached ∧ r.nodeCount = nodeCount := by
  intro results cr nodeCount
  unfold submitEnd
  rw [P2PNetwork.collect_of_le R hmin]
  dsimp only
  let network : P2PNetwork rt := { app.network with
    health := responses.foldl (P2PNetwork.recordResponse ctx.billing.now) app.network.health
    history := app.network.history ++ [(tx, results, cr)]
    auditLog := app.network.auditLog.map fun l => l.record ctx.billing.now tx results cr }
  have hrecorded : network.auditLog = some (log.record ctx.billing.now tx results cr) := by
    simp [network, hlog]
  have hevent : ({ app with network } : App rt).network.auditLog.bind
      (fun log => log.getEvent log.events.length) =
        some (log.event ctx.billing.now tx results cr) := by
    have hget := log.getEvent_record ctx.billing.now tx results cr
    rw [hrecorded, Option.bind_some, ← hget]
    simp [AuditLog.record]
  obtain ⟨finalized, billed, replicated, heq, hstates⟩ :=
    ({ app with network } : App rt).submitFinish_announces R ctx hs hne cr hevent
  exact ⟨network, finalized, billed, replicated, heq, rfl, rfl, rfl, hrecorded, hstates⟩

/-- Otherwise it saves three records with the outcome of the round and charges it. -/
theorem submitEnd_succeeds (app : App rt) (ctx : SubmitContext) (tx : Transaction)
    {record : TransactionRecord} (hs : record.state = .consensusPending)
    (responses : List (NodeServer rt × Response)) {log : AuditLog}
    (hlog : app.network.auditLog = some log)
    (hmin : app.network.minResponses ≤ (P2PNetwork.resultsOf responses).length)
    (hne : P2PNetwork.resultsOf responses ≠ []) :
    let cr := runConsensus R (P2PNetwork.resultsOf responses) (some app.network.publicKeys)
      app.network.quorumThreshold
    let nodeCount := (P2PNetwork.resultsOf responses).length + cr.faultyNodes.length
    ∃ after response finalized billed replicated,
      app.submitEnd R ctx tx record responses = (after, .ok response) ∧
      after.saves = app.saves ++ [finalized, billed, replicated] ∧
      after.tracker = app.billedTracker R ctx record nodeCount cr.consensusReached ∧
      after.network.auditLog.isSome = true ∧
      finalized.state = .finalized ∧ billed.state = .billed ∧ replicated.state = .replicated ∧
      ∀ r ∈ [finalized, billed, replicated], r.txId = record.txId ∧
        r.consensusReached = cr.consensusReached ∧ r.nodeCount = nodeCount := by
  intro cr nodeCount
  obtain ⟨network, finalized, billed, replicated, heq, -, -, -, hrecorded, hstates⟩ :=
    app.submitEnd_announces R ctx tx hs responses hlog hmin hne
  refine ⟨_, _, finalized, billed, replicated, heq, rfl, rfl, ?_, hstates⟩
  simp [announce, hrecorded]

/-! ## The billed node count -/

/-- The results that the nodes return for a request. -/
def respondents (app : App rt) (body : TransactionRequest) (channel : NodeServer rt → Channel) :
    List NodeResult :=
  P2PNetwork.resultsOf (app.network.gather body.toEcnTx channel)

theorem respondents_length_le (app : App rt) (body : TransactionRequest)
    (channel : NodeServer rt → Channel) :
    (app.respondents body channel).length ≤ app.network.servers.length := by
  calc (app.respondents body channel).length
      ≤ (app.network.gather body.toEcnTx channel).length := List.length_filterMap_le _ _
    _ = app.network.participating.length := by rw [P2PNetwork.gather, List.length_map]
    _ ≤ app.network.servers.length := List.length_filter_le _ _

/-- Ledger entries that one state has beyond another. -/
def newEntries (before after : App rt) : List LedgerEntry :=
  match before.tracker, after.tracker with
  | some t, some t' => t'.entries.drop t.entries.length
  | _, _ => []

/-- A successful submission stores and charges the number of nodes that returned a
result, which is at most the number of nodes. -/
def BillsRespondents (app : App rt) (ctx : SubmitContext) (body : TransactionRequest)
    (channel : NodeServer rt → Channel) : Prop :=
  ∀ after response, app.submitTransaction R ctx body channel = (after, .ok response) →
    (∃ record, after.loadTxRecord ctx.txId = some record ∧
      record.nodeCount = (app.respondents body channel).length) ∧
    (∀ entry ∈ app.newEntries after,
      entry.nodeRoundCount = (app.respondents body channel).length) ∧
    (app.respondents body channel).length ≤ app.network.servers.length

/-- Every result carries a valid signature and all carry the same hash. -/
def FaultFree (net : P2PNetwork rt) (results : List NodeResult) : Prop :=
  (∀ r ∈ results, accepted (some net.publicKeys) r = true) ∧
    ∀ r ∈ results, ∀ r' ∈ results, r.stateHash = r'.stateHash

/-- The round raises before anything is billed, or it is free of faults. -/
def BillsExactly (app : App rt) (body : TransactionRequest) (channel : NodeServer rt → Channel) :
    Prop :=
  app.network.auditLog.isNone ∨
    ((app.respondents body channel).length : ℤ) < app.network.minResponses ∨
    FaultFree app.network (app.respondents body channel)

/-- A submission that cannot be billed fails. -/
theorem submitTransaction_fails (app : App rt) (ctx : SubmitContext) (body : TransactionRequest)
    (channel : NodeServer rt → Channel)
    (h : app.network.auditLog = none ∨
      ((app.respondents body channel).length : ℤ) < app.network.minResponses ∨
      app.respondents body channel = []) :
    ∃ after e, app.submitTransaction R ctx body channel = (after, .error e) := by
  unfold submitTransaction
  cases hlog : app.network.auditLog with
  | none =>
    have hbegin : app.submitBegin R ctx = (app, .error ⟨503, "Audit log not initialised"⟩) := by
      simp [submitBegin, hlog]
    rw [hbegin]
    exact ⟨_, _, rfl⟩
  | some log =>
    obtain ⟨saved, record, hbegin, -, -, -, -⟩ := app.submitBegin_eq R ctx (by rw [hlog]; rfl)
    rw [hbegin]
    dsimp only
    have hend := submitEnd_fails R { app with
      network := { app.network with servers := app.network.serve body.toEcnTx channel }
      saves := app.saves ++ saved } ctx body.toEcnTx record
      (app.network.gather body.toEcnTx channel) h
    obtain ⟨network, e, he⟩ := hend
    exact ⟨_, e, he⟩

/-- Any other submission stores and charges results plus faulty nodes. -/
theorem submitTransaction_succeeds (app : App rt) (ctx : SubmitContext)
    (body : TransactionRequest) (channel : NodeServer rt → Channel) {log : AuditLog}
    (hlog : app.network.auditLog = some log)
    (hmin : app.network.minResponses ≤ (app.respondents body channel).length)
    (hne : app.respondents body channel ≠ []) :
    let cr := runConsensus R (app.respondents body channel) (some app.network.publicKeys)
      app.network.quorumThreshold
    ∃ after response record, app.submitTransaction R ctx body channel = (after, .ok response) ∧
      after.loadTxRecord ctx.txId = some record ∧
      record.nodeCount = (app.respondents body channel).length + cr.faultyNodes.length ∧
      ∀ entry ∈ app.newEntries after,
        entry.nodeRoundCount = (app.respondents body channel).length + cr.faultyNodes.length := by
  intro cr
  obtain ⟨saved, pending, hbegin, -, hpending, hid, -⟩ := app.submitBegin_eq R ctx (by rw [hlog]; rfl)
  have hend := submitEnd_succeeds R { app with
    network := { app.network with servers := app.network.serve body.toEcnTx channel }
    saves := app.saves ++ saved } ctx body.toEcnTx hpending
    (app.network.gather body.toEcnTx channel) hlog hmin hne
  dsimp only at hend
  rw [P2PNetwork.publicKeys_serve] at hend
  obtain ⟨after, response, finalized, billed, replicated, heq, hsaves, htracker, -, -, -, -, hall⟩ :=
    hend
  obtain ⟨hrid, -, hrcount⟩ := hall replicated (by simp)
  refine ⟨after, response, replicated, ?_, ?_, hrcount, ?_⟩
  · unfold submitTransaction
    rw [hbegin]
    exact heq
  · rw [← hid, ← hrid, loadTxRecord, hsaves]
    simp
  · intro entry he
    unfold newEntries at he
    rw [htracker] at he
    cases ht : app.tracker with
    | none => simp [ht, billedTracker] at he
    | some tracker =>
      simp only [ht, billedTracker, Option.map_some, BillingTracker.recordRound,
        List.drop_left, List.mem_singleton] at he
      rw [he]
      rfl

instance (net : P2PNetwork rt) (results : List NodeResult) : Decidable (FaultFree net results) :=
  inferInstanceAs (Decidable ((∀ _ ∈ _, _) ∧ ∀ _ ∈ _, ∀ _ ∈ _, _))

instance (app : App rt) (body : TransactionRequest) (channel : NodeServer rt → Channel) :
    Decidable (app.BillsExactly body channel) :=
  inferInstanceAs (Decidable (_ ∨ _ ∨ _))

theorem billsExactly_of_billsRespondents {app : App rt} {ctx : SubmitContext}
    {body : TransactionRequest} {channel : NodeServer rt → Channel}
    (h : app.BillsRespondents R ctx body channel) : app.BillsExactly body channel := by
  cases hlog : app.network.auditLog with
  | none => exact .inl (by rw [hlog]; rfl)
  | some log =>
    rcases lt_or_ge ((app.respondents body channel).length : ℤ) app.network.minResponses with
      hlt | hmin
    · exact .inr (.inl hlt)
    right; right
    by_cases hne : app.respondents body channel = []
    · exact ⟨by simp [hne], by simp [hne]⟩
    obtain ⟨after, response, record, heq, hload, hcount, -⟩ :=
      app.submitTransaction_succeeds R ctx body channel hlog hmin hne
    obtain ⟨⟨record', hload', hcount'⟩, -, -⟩ := h after response heq
    rw [hload] at hload'
    obtain rfl := Option.some_inj.mp hload'
    refine (runConsensus_faultyNodes_eq_nil_iff R _ _ app.network.quorumThreshold).mp
      (List.length_eq_zero_iff.mp ?_)
    omega

/-- The billed node count is the number of respondents exactly when the round raises
before billing or is free of faults. -/
theorem billsRespondents_iff (app : App rt) (ctx : SubmitContext) (body : TransactionRequest)
    (channel : NodeServer rt → Channel) :
    app.BillsRespondents R ctx body channel ↔ app.BillsExactly body channel := by
  refine ⟨billsExactly_of_billsRespondents R, fun hexact after response heq => ?_⟩
  by_cases hfail : app.network.auditLog = none ∨
      ((app.respondents body channel).length : ℤ) < app.network.minResponses ∨
      app.respondents body channel = []
  · obtain ⟨after', e, he⟩ := app.submitTransaction_fails R ctx body channel hfail
    rw [heq] at he
    cases he
  · push Not at hfail
    obtain ⟨hlog, hmin, hne⟩ := hfail
    obtain ⟨log, hlog⟩ := Option.ne_none_iff_exists'.mp hlog
    obtain ⟨after', response', record, heq', hload, hcount, hentries⟩ :=
      app.submitTransaction_succeeds R ctx body channel hlog hmin hne
    rw [heq] at heq'
    cases heq'
    have hfree : FaultFree app.network (app.respondents body channel) := by
      rcases hexact with h | h | h
      · rw [hlog] at h
        cases h
      · exact absurd h (not_lt.mpr hmin)
      · exact h
    have hzero := (runConsensus_faultyNodes_eq_nil_iff R (app.respondents body channel)
      (some app.network.publicKeys) app.network.quorumThreshold).mpr hfree
    rw [hzero] at hcount hentries
    exact ⟨⟨record, hload, hcount⟩, hentries, app.respondents_length_le body channel⟩

/-! ### A faulty node is billed twice -/

/-- Two servers over one account. -/
def pairApp : App (referenceRuntime false) where
  network := .init .binary64 none
    [.init _ "Node-1" overdraftState "127.0.0.1" 9001 [1] false,
     .init _ "Node-2" overdraftState "127.0.0.1" 9002 [2] false]
    (some .empty) none none none
  saves := []
  tracker := some .empty
  published := []
  dispatched := []

def burnRequest : TransactionRequest :=
  ⟨"burn", none, none, none, none, none, none, none, none, none, some "A", none, some 4⟩

def firstContext : SubmitContext := ⟨"tx-1", 0, ⟨.standard, "2024-01", 0⟩⟩

/-- The first server answers without a signature. -/
def unsignedFirst (server : NodeServer (referenceRuntime false)) : Channel :=
  if server.nodeId = "Node-1" then .byzantine (.result "Node-1" "00" none) 0 else .answered 0

theorem unsigned_result_billed_twice :
    ¬ pairApp.BillsRespondents .binary64 firstContext burnRequest unsignedFirst ∧
    (pairApp.respondents burnRequest unsignedFirst).length = pairApp.network.servers.length := by
  have h : ¬ pairApp.BillsExactly burnRequest unsignedFirst ∧
      (pairApp.respondents burnRequest unsignedFirst).length = pairApp.network.servers.length := by
    decide +kernel
  exact ⟨fun hbills => h.1 (billsExactly_of_billsRespondents .binary64 hbills), h.2⟩

end App
end ECN
