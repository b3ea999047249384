import ECN.Auth
import ECN.Billing
import ECN.P2PNetwork
import ECN.Transaction

/-!
# Submitting transactions over HTTP

`submitTransaction` runs in two stretches without suspension. The first creates the
record and saves it four times, up to the start of the broadcast. The second begins
when the last request of the broadcast has ended, so it starts with the network's own
`collect`, and goes on to bill the round, save the record three more times and publish
the audit event.
-/
namespace ECN

variable {rt : Runtime}

/-! ## Requests -/

/-- Generic transaction payload. -/
structure TransactionRequest where
  type : String
  productId : Option String
  destination : Option String
  shipper : Option String
  receiver : Option String
  atCustoms : Option Bool
  checkName : Option String
  inspector : Option String
  reason : Option String
  releasedBy : Option String
  from_ : Option String
  to_ : Option String
  amount : Option ℤ

/-- A field that is left out when it is absent. -/
def optionalField (key : String) (value : Option Value) : PyDict :=
  match value with
  | some v => [(.str key, v)]
  | none => []

/-- The flat dictionary of the execution engine. -/
def TransactionRequest.toEcnTx (body : TransactionRequest) : Transaction :=
  (.str "type", .str body.type) ::
    (optionalField "product_id" (body.productId.map Value.str) ++
      optionalField "destination" (body.destination.map Value.str) ++
      optionalField "shipper" (body.shipper.map Value.str) ++
      optionalField "receiver" (body.receiver.map Value.str) ++
      optionalField "at_customs" (body.atCustoms.map Value.bool) ++
      optionalField "check_name" (body.checkName.map Value.str) ++
      optionalField "inspector" (body.inspector.map Value.str) ++
      optionalField "reason" (body.reason.map Value.str) ++
      optionalField "released_by" (body.releasedBy.map Value.str) ++
      optionalField "from" (body.from_.map Value.str) ++
      optionalField "to" (body.to_.map Value.str) ++
      optionalField "amount" (body.amount.map Value.int))

/-- What a successful submission returns. -/
structure TransactionResponse where
  txId : String
  lifecycleState : TxState
  roundId : ℕ
  timestamp : String
  transaction : Transaction
  consensusReached : Bool
  agreedHash : Option String
  honestNodes : List String
  faultyNodes : List String
  invalidSigNodes : List String
  votes : List NodeVote
  billedAmount : ℚ
  durationMs : ℤ

def eventToResponse (event : AuditEvent) (record : TransactionRecord) : TransactionResponse where
  txId := record.txId
  lifecycleState := record.state
  roundId := event.roundId
  timestamp := event.timestamp
  transaction := event.transaction
  consensusReached := event.consensusReached
  agreedHash := event.agreedHash
  honestNodes := event.honestNodes
  faultyNodes := event.faultyNodes
  invalidSigNodes := event.invalidSigNodes
  votes := event.votes
  billedAmount := record.billedAmount
  durationMs := record.durationMs

/-! ## The application -/

inductive Topic where
  | transactions
  | faults
  deriving DecidableEq, Repr

/-- The application's state. `saves` lists every record passed to the transaction
store, `published` every event put on the bus and `dispatched` every event handed to
the webhooks, in order. The audit log is the one that the network writes to. -/
structure App (rt : Runtime) where
  network : P2PNetwork rt
  saves : List TransactionRecord
  tracker : Option BillingTracker
  published : List (Topic × AuditEvent)
  dispatched : List AuditEvent

/-- Clock readings, the fresh id and the billing settings that one submission sees. -/
structure SubmitContext where
  txId : String
  startedAt : ℕ
  billing : BillingContext

namespace App

/-- The application that `lifespan` starts over new servers, with empty stores. -/
def lifespan (R : Rounding) (env : Option ℚ) (servers : List (NodeServer rt)) : App rt where
  network := .init R env servers (some .empty) none none none
  saves := []
  tracker := some .empty
  published := []
  dispatched := []

def saveTxRecord (app : App rt) (record : TransactionRecord) : App rt :=
  { app with saves := app.saves ++ [record] }

/-- The record last saved under an id. -/
def loadTxRecord (app : App rt) (txId : String) : Option TransactionRecord :=
  app.saves.reverse.find? fun record => record.txId = txId

variable (R : Rounding)

/-- Make a move of the lifecycle and save the record. -/
def advance (app : App rt) (now : ℕ) (record : TransactionRecord) (newState : TxState) :
    App rt × Except HttpError TransactionRecord :=
  match transition R now record newState with
  | .error e => (app, .error ⟨500, e.message⟩)
  | .ok record => (app.saveTxRecord record, .ok record)

/-- Make several moves in a row. -/
def advanceAll (app : App rt) (now : ℕ) (record : TransactionRecord) :
    List TxState → App rt × Except HttpError TransactionRecord
  | [] => (app, .ok record)
  | newState :: newStates =>
    match app.advance R now record newState with
    | (app, .error e) => (app, .error e)
    | (app, .ok record) => app.advanceAll now record newStates

/-- The stretch before the broadcast. -/
def submitBegin (app : App rt) (ctx : SubmitContext) :
    App rt × Except HttpError TransactionRecord :=
  if app.network.auditLog.isNone then (app, .error ⟨503, "Audit log not initialised"⟩)
  else
    let record := newRecord "" ctx.txId app.network.servers.length ctx.startedAt
    (app.saveTxRecord record).advanceAll R ctx.startedAt record
      [.executing, .proposed, .consensusPending]

/-- Move to `BILLED`, charge the round when a tracker is there, and save. -/
def bill (app : App rt) (ctx : SubmitContext) (record : TransactionRecord) :
    App rt × Except HttpError TransactionRecord :=
  match transition R ctx.billing.now record .billed with
  | .error e => (app, .error ⟨500, e.message⟩)
  | .ok record =>
    match app.tracker with
    | none => (app.saveTxRecord record, .ok record)
    | some tracker =>
      let (tracker, billed) := tracker.recordRound R ctx.billing record.tenantId record.txId
        record.nodeCount record.consensusReached
      let record := { record with billedAmount := billed }
      (({ app with tracker := some tracker }).saveTxRecord record, .ok record)

/-- Hand the event to the webhooks and put it on the bus. -/
def announce (app : App rt) (event : AuditEvent) : App rt :=
  { app with
    dispatched := app.dispatched ++ [event]
    published := app.published ++ (.transactions, event) ::
      (if event.faultyNodes.isEmpty then [] else [(.faults, event)]) }

/-- The stretch after the broadcast: finalize, bill, replicate, announce. -/
def submitFinish (app : App rt) (ctx : SubmitContext) (record : TransactionRecord)
    (results : List NodeResult) (cr : ConsensusResult) :
    App rt × Except HttpError TransactionResponse :=
  if results.isEmpty then
    (app, .error ⟨422, "All nodes rejected the transaction — check transaction type and fields"⟩)
  else
    match app.network.auditLog.bind fun log => log.getEvent log.events.length with
    | none => (app, .error ⟨500, "Audit event not recorded"⟩)
    | some event =>
      let record := { record with
        consensusReached := cr.consensusReached
        faultCount := cr.faultyNodes.length
        nodeCount := results.length + cr.faultyNodes.length }
      match app.advance R ctx.billing.now record .finalized with
      | (app, .error e) => (app, .error e)
      | (app, .ok record) =>
        match app.bill R ctx record with
        | (app, .error e) => (app, .error e)
        | (app, .ok record) =>
          match app.advance R ctx.billing.now record .replicated with
          | (app, .error e) => (app, .error e)
          | (app, .ok record) => (app.announce event, .ok (eventToResponse event record))

/-- Everything that follows the last response of the broadcast. -/
def submitEnd (app : App rt) (ctx : SubmitContext) (tx : Transaction) (record : TransactionRecord)
    (responses : List (NodeServer rt × Response)) : App rt × Except HttpError TransactionResponse :=
  match app.network.collect R ctx.billing.now tx responses with
  | (network, .error e) => ({ app with network }, .error ⟨422, e.message⟩)
  | (network, .ok (results, cr)) => ({ app with network }).submitFinish R ctx record results cr

/-- `POST /transactions`, with the fate of each request of its broadcast. -/
def submitTransaction (app : App rt) (ctx : SubmitContext) (body : TransactionRequest)
    (channel : NodeServer rt → Channel) : App rt × Except HttpError TransactionResponse :=
  match app.submitBegin R ctx with
  | (app, .error e) => (app, .error e)
  | (app, .ok record) =>
    let tx := body.toEcnTx
    ({ app with network := { app.network with servers := app.network.serve tx channel } }).submitEnd
      R ctx tx record (app.network.gather tx channel)

/-! ## What the two stretches do -/

theorem advance_of_valid (app : App rt) (now : ℕ) {record : TransactionRecord}
    {newState : TxState} (h : newState ∈ record.state.validTransitions) :
    ∃ record', app.advance R now record newState = (app.saveTxRecord record', .ok record') ∧
      record'.state = newState ∧ SameRound record record' := by
  obtain ⟨record', ht, hs, hsame⟩ := transition_of_valid R now h
  exact ⟨record', by rw [advance, ht], hs, hsame⟩

/-- A chain of valid moves saves one record for each. -/
theorem advanceAll_of_valid (app : App rt) (now : ℕ) (record : TransactionRecord)
    {states : List TxState}
    (h : List.IsChain (fun s s' => s' ∈ TxState.validTransitions s) (record.state :: states)) :
    ∃ saved last, app.advanceAll R now record states =
        ({ app with saves := app.saves ++ saved }, .ok last) ∧
      saved.map TransactionRecord.state = states ∧
      last.state = states.getLastD record.state ∧ SameRound record last := by
  induction states generalizing app record with
  | nil => exact ⟨[], record, by simp [advanceAll], rfl, rfl, rfl, rfl, rfl, rfl⟩
  | cons newState states ih =>
    obtain ⟨hmove, hrest⟩ := List.isChain_cons_cons.mp h
    obtain ⟨next, hnext, hstate, hsame⟩ := app.advance_of_valid R now hmove
    obtain ⟨saved, last, hall, hsaved, hlast, hsame'⟩ :=
      ih (app.saveTxRecord next) next (by rw [hstate]; exact hrest)
    refine ⟨next :: saved, last, ?_, by simp [hstate, hsaved], ?_, hsame.trans hsame'⟩
    · rw [advanceAll, hnext]
      dsimp only
      rw [hall]
      simp [saveTxRecord]
    · rw [hlast, hstate, List.getLastD_cons]

/-- The first stretch saves four records in states before finalization. -/
theorem submitBegin_eq (app : App rt) (ctx : SubmitContext) (ha : app.network.auditLog.isSome) :
    ∃ saved record, app.submitBegin R ctx = ({ app with saves := app.saves ++ saved }, .ok record) ∧
      saved ≠ [] ∧ record.state = .consensusPending ∧ record.txId = ctx.txId ∧
      ∀ r ∈ saved, r.state.isFinal = false := by
  have hsome : app.network.auditLog.isNone = false := by simpa using ha
  let first := newRecord "" ctx.txId app.network.servers.length ctx.startedAt
  have hchain : List.IsChain (fun s s' => s' ∈ TxState.validTransitions s)
      [.initiated, .executing, .proposed, .consensusPending] := by decide
  obtain ⟨saved, last, hall, hsaved, hlast, hsame⟩ :=
    (app.saveTxRecord first).advanceAll_of_valid R ctx.startedAt first hchain
  refine ⟨first :: saved, last, ?_, by simp, hlast, hsame.txId, ?_⟩
  · rw [submitBegin, if_neg (by simp [hsome])]
    exact hall.trans (by simp [saveTxRecord])
  · intro r hr
    rcases List.mem_cons.mp hr with rfl | hr
    · rfl
    · have hmem := List.mem_map_of_mem (f := TransactionRecord.state) hr
      rw [hsaved] at hmem
      revert hmem
      generalize r.state = s
      revert s
      decide

/-- The tracker after a finished submission has been charged. -/
def billedTracker (app : App rt) (ctx : SubmitContext) (record : TransactionRecord)
    (nodeCount : ℕ) (consensusReached : Bool) : Option BillingTracker :=
  app.tracker.map fun tracker =>
    (tracker.recordRound R ctx.billing record.tenantId record.txId nodeCount consensusReached).1

theorem bill_of_valid (app : App rt) (ctx : SubmitContext) {record : TransactionRecord}
    (h : record.state = .finalized) :
    ∃ record', app.bill R ctx record = (App.saveTxRecord { app with
        tracker := app.billedTracker R ctx record record.nodeCount record.consensusReached } record',
        .ok record') ∧ record'.state = .billed ∧ SameRound record record' := by
  obtain ⟨billed, ht, hs, hsame⟩ := transition_of_valid R ctx.billing.now
    (show TxState.billed ∈ record.state.validTransitions by rw [h]; decide)
  unfold bill billedTracker
  rw [ht]
  cases htr : app.tracker with
  | none =>
    refine ⟨billed, ?_, hs, hsame⟩
    dsimp only [Option.map_none]
    rw [← htr]
  | some tracker =>
    let amount := (tracker.recordRound R ctx.billing billed.tenantId billed.txId billed.nodeCount
      billed.consensusReached).2
    refine ⟨{ billed with billedAmount := amount }, ?_, hs, hsame.txId, hsame.tenantId,
      hsame.nodeCount, hsame.consensusReached⟩
    dsimp only [Option.map_some, amount]
    rw [hsame.txId, hsame.tenantId, hsame.nodeCount, hsame.consensusReached]

/-- The second stretch saves the record in each of the last three states, with one
outcome, charges the round once, announces the event and answers with it. -/
theorem submitFinish_announces (app : App rt) (ctx : SubmitContext) {record : TransactionRecord}
    (hs : record.state = .consensusPending) {results : List NodeResult} (hne : results ≠ [])
    (cr : ConsensusResult) {event : AuditEvent}
    (he : app.network.auditLog.bind (fun log => log.getEvent log.events.length) = some event) :
    ∃ finalized billed replicated,
      app.submitFinish R ctx record results cr = (App.announce { app with
        saves := app.saves ++ [finalized, billed, replicated]
        tracker := app.billedTracker R ctx record (results.length + cr.faultyNodes.length)
          cr.consensusReached } event, .ok (eventToResponse event replicated)) ∧
      finalized.state = .finalized ∧ billed.state = .billed ∧ replicated.state = .replicated ∧
      ∀ r ∈ [finalized, billed, replicated], r.txId = record.txId ∧
        r.consensusReached = cr.consensusReached ∧
        r.nodeCount = results.length + cr.faultyNodes.length := by
  have hempty : results.isEmpty = false := by simpa using hne
  unfold submitFinish
  rw [if_neg (by simp [hempty]), he]
  dsimp only
  let outcome := { record with
    consensusReached := cr.consensusReached
    faultCount := cr.faultyNodes.length
    nodeCount := results.length + cr.faultyNodes.length }
  obtain ⟨finalized, hfin, hfs, hfsame⟩ := app.advance_of_valid R ctx.billing.now
    (show TxState.finalized ∈ outcome.state.validTransitions by simp only [outcome, hs]; decide)
  rw [hfin]
  dsimp only
  obtain ⟨billed, hbill, hbs, hbsame⟩ := (app.saveTxRecord finalized).bill_of_valid R ctx hfs
  rw [hbill]
  dsimp only
  obtain ⟨replicated, hrep, hrs, hrsame⟩ := (App.saveTxRecord { app.saveTxRecord finalized with
    tracker := (app.saveTxRecord finalized).billedTracker R ctx finalized finalized.nodeCount
      finalized.consensusReached } billed).advance_of_valid R ctx.billing.now
    (show TxState.replicated ∈ billed.state.validTransitions by rw [hbs]; decide)
  rw [hrep]
  dsimp only
  refine ⟨finalized, billed, replicated, ?_, hfs, hbs, hrs, ?_⟩
  · simp only [saveTxRecord, billedTracker, hfsame.txId, hfsame.tenantId, hfsame.nodeCount,
      hfsame.consensusReached, List.append_assoc, List.cons_append, List.nil_append]
    rfl
  · have hb := hfsame.trans hbsame
    have hr := hb.trans hrsame
    intro r hmem
    simp only [List.mem_cons, List.not_mem_nil, or_false] at hmem
    rcases hmem with rfl | rfl | rfl
    · exact ⟨hfsame.txId, hfsame.consensusReached, hfsame.nodeCount⟩
    · exact ⟨hb.txId, hb.consensusReached, hb.nodeCount⟩
    · exact ⟨hr.txId, hr.consensusReached, hr.nodeCount⟩

end App
end ECN
