import ECN.Finality
import ECN.BillingReports

/-!
# The ledger and the transaction records

A submission charges its round between two saves of its record, with no suspension
before the last one. So whenever no handler is between two awaits, the ledger of the
global network and the records that are billed or replicated correspond one to one.
-/
namespace ECN

variable {rt : Runtime}

/-! ## The record last saved -/

/-- The record last saved under an id. -/
def lastSaved (saves : List TransactionRecord) (txId : String) : Option TransactionRecord :=
  saves.reverse.find? fun record => record.txId = txId

/-- Saving again under one id replaces the record of this id alone. -/
theorem lastSaved_append (saves saved : List TransactionRecord) (last : TransactionRecord)
    (h : ∀ r ∈ saved, r.txId = last.txId) (txId : String) :
    lastSaved (saves ++ (saved ++ [last])) txId =
      if last.txId = txId then some last else lastSaved saves txId := by
  unfold lastSaved
  rw [List.reverse_append, List.reverse_append, List.find?_append, List.reverse_singleton,
    List.singleton_append, List.find?_cons]
  by_cases hid : last.txId = txId
  · simp [hid]
  · have hnone : saved.reverse.find? (fun record => record.txId = txId) = none := by
      rw [List.find?_eq_none]
      intro r hr
      rw [h r (List.mem_reverse.mp hr)]
      simpa using hid
    simp [hid, hnone]

/-- Records that are saved under one id. -/
theorem mem_or_txId {saves saved : List TransactionRecord} {last r : TransactionRecord}
    (h : ∀ r ∈ saved, r.txId = last.txId) (hr : r ∈ saves ++ (saved ++ [last])) :
    r ∈ saves ∨ r.txId = last.txId := by
  rw [List.mem_append, List.mem_append, List.mem_singleton] at hr
  rcases hr with hr | hr | hr
  · exact .inl hr
  · exact .inr (h r hr)
  · exact .inr (congrArg TransactionRecord.txId hr)

theorem mem_of_lastSaved {saves : List TransactionRecord} {txId : String}
    {record : TransactionRecord} (h : lastSaved saves txId = some record) :
    record ∈ saves ∧ record.txId = txId :=
  ⟨List.mem_reverse.mp (List.mem_of_find?_eq_some h), by simpa using List.find?_some h⟩

/-! ## What a submission saves -/

namespace App

variable (R : Rounding)

/-- The record with the outcome of its round, finalized. -/
def finalizedRecord (now : ℕ) (record : TransactionRecord) (results : List NodeResult)
    (cr : ConsensusResult) : TransactionRecord :=
  { record with
    consensusReached := cr.consensusReached
    faultCount := cr.faultyNodes.length
    nodeCount := results.length + cr.faultyNodes.length
    state := .finalized
    finalizedAt := some now
    durationMs := elapsedMs R record.createdAt now }

/-- A finalized record that was charged. -/
def billedRecord (tier : PricingTier) (record : TransactionRecord) : TransactionRecord :=
  { record with
    state := .billed
    billedAmount := computeBilledAmount R record.nodeCount tier }

/-- `init_tracker()`, without stores. -/
def initTracker (app : App rt) : App rt := { app with tracker := some .empty }

/-- A valid move other than the fourth saves the record with the new state. -/
theorem advance_eq_ok (app : App rt) (now : ℕ) {record : TransactionRecord} {s newState : TxState}
    (hs : record.state = s) (h : newState ∈ s.validTransitions) (hne : newState ≠ .finalized) :
    app.advance R now record newState =
      (app.saveTxRecord { record with state := newState }, .ok { record with state := newState }) := by
  rw [advance, transition_eq_ok R now (hs ▸ h) hne]

theorem advance_finalized (app : App rt) (now : ℕ) {record : TransactionRecord}
    (hs : record.state = .consensusPending) (results : List NodeResult) (cr : ConsensusResult) :
    app.advance R now { record with
        consensusReached := cr.consensusReached
        faultCount := cr.faultyNodes.length
        nodeCount := results.length + cr.faultyNodes.length } .finalized =
      (app.saveTxRecord (finalizedRecord R now record results cr),
        .ok (finalizedRecord R now record results cr)) := by
  let outcome : TransactionRecord := { record with
    consensusReached := cr.consensusReached
    faultCount := cr.faultyNodes.length
    nodeCount := results.length + cr.faultyNodes.length }
  have houtcome : outcome.state = .consensusPending := hs
  rw [advance, transition_finalized R now houtcome]
  rfl

/-- The four records that a submission saves before its broadcast. -/
theorem submitBegin_saves (app : App rt) (ctx : SubmitContext)
    (ha : app.network.auditLog.isSome) :
    let first := newRecord "" ctx.txId app.network.servers.length ctx.startedAt
    app.submitBegin R ctx = ({ app with saves := app.saves ++
      ([first, { first with state := .executing }, { first with state := .proposed }] ++
        [{ first with state := .consensusPending }]) },
      .ok { first with state := .consensusPending }) := by
  intro first
  have hsome : app.network.auditLog.isNone = false := by simpa using ha
  rw [submitBegin, if_neg (by simp [hsome]), advanceAll,
    advance_eq_ok R _ _ (s := .initiated) rfl (by decide) (by decide)]
  dsimp only
  rw [advanceAll, advance_eq_ok R _ _ (s := .executing) rfl (by decide) (by decide)]
  dsimp only
  rw [advanceAll, advance_eq_ok R _ _ (s := .proposed) rfl (by decide) (by decide)]
  simp only [advanceAll, saveTxRecord, List.append_assoc, List.cons_append, List.nil_append]
  rfl

theorem bill_saves (app : App rt) (ctx : SubmitContext) {record : TransactionRecord}
    (hs : record.state = .finalized) {tracker : BillingTracker}
    (htracker : app.tracker = some tracker) :
    app.bill R ctx record = (App.saveTxRecord { app with
        tracker := some (tracker.recordRound R ctx.billing record.tenantId record.txId
          record.nodeCount record.consensusReached).1 } (billedRecord R ctx.billing.tier record),
      .ok (billedRecord R ctx.billing.tier record)) := by
  rw [bill, transition_eq_ok R _ (show TxState.billed ∈ _ by rw [hs]; decide) (by decide),
    htracker]
  rfl

/-- The three records that it saves after its broadcast, and the charge. -/
theorem submitEnd_saves (app : App rt) (ctx : SubmitContext) (tx : Transaction)
    {record : TransactionRecord} (hs : record.state = .consensusPending)
    (responses : List (NodeServer rt × Response)) {tracker : BillingTracker}
    (htracker : app.tracker = some tracker) {log : AuditLog}
    (hlog : app.network.auditLog = some log)
    (hmin : app.network.minResponses ≤ (P2PNetwork.resultsOf responses).length)
    (hne : P2PNetwork.resultsOf responses ≠ []) :
    let results := P2PNetwork.resultsOf responses
    let cr := runConsensus R results (some app.network.publicKeys) app.network.quorumThreshold
    let finalized := finalizedRecord R ctx.billing.now record results cr
    let billed := billedRecord R ctx.billing.tier finalized
    ∃ after response, app.submitEnd R ctx tx record responses = (after, .ok response) ∧
      after.network.auditLog.isSome ∧
      after.saves = app.saves ++ ([finalized, billed] ++ [{ billed with state := .replicated }]) ∧
      after.tracker = some (tracker.recordRound R ctx.billing finalized.tenantId finalized.txId
        finalized.nodeCount finalized.consensusReached).1 := by
  intro results cr finalized billed
  have hempty : results.isEmpty = false := by simpa using hne
  have hevent := log.getEvent_record ctx.billing.now tx results cr
  unfold submitEnd
  rw [P2PNetwork.collect_of_le R hmin]
  dsimp only
  unfold submitFinish
  rw [if_neg (by simp [results, hempty])]
  have hget : (app.network.auditLog.map fun l => l.record ctx.billing.now tx results cr).bind
      (fun log => log.getEvent log.events.length) =
        some (log.event ctx.billing.now tx results cr) := by
    rw [hlog, Option.map_some, Option.bind_some, ← hevent]
    simp [AuditLog.record]
  rw [hget]
  dsimp only
  rw [advance_finalized R _ _ hs]
  dsimp only
  generalize hmid : saveTxRecord _ _ = mid
  have hmidTracker : mid.tracker = some tracker := by
    rw [← hmid]
    exact htracker
  rw [bill_saves R mid ctx rfl hmidTracker]
  dsimp only
  rw [advance_eq_ok R _ _ (s := .billed) rfl (by decide) (by decide)]
  refine ⟨_, _, rfl, ?_, ?_, rfl⟩
  · subst hmid
    simp [announce, saveTxRecord, hlog]
  · subst hmid
    simp only [announce, saveTxRecord, List.append_assoc, List.cons_append, List.nil_append]
    rfl

end App

/-! ## The correspondence -/

/-- Billed or replicated. -/
def TxState.isBilled : TxState → Bool
  | .billed => true
  | .replicated => true
  | .initiated => false
  | .executing => false
  | .proposed => false
  | .consensusPending => false
  | .finalized => false

/-- An entry and a record of one round. -/
structure SameCharge (entry : LedgerEntry) (record : TransactionRecord) : Prop where
  txId : entry.txId = record.txId
  nodeRoundCount : entry.nodeRoundCount = record.nodeCount
  billedAmount : entry.billedAmount = record.billedAmount
  consensusReached : entry.consensusReached = record.consensusReached

/-- One entry for each record that is billed or replicated, and none for any other. -/
structure OneToOne (ledger : List LedgerEntry) (saves : List TransactionRecord) : Prop where
  once : (ledger.map LedgerEntry.txId).Nodup
  charged : ∀ entry ∈ ledger, ∃ record, lastSaved saves entry.txId = some record ∧
    record.state.isBilled = true ∧ SameCharge entry record
  recorded : ∀ txId record, lastSaved saves txId = some record → record.state.isBilled = true →
    ∃ entry ∈ ledger, SameCharge entry record

namespace OneToOne

variable {ledger : List LedgerEntry} {saves : List TransactionRecord}

theorem empty : OneToOne [] [] := ⟨List.nodup_nil, nofun, nofun⟩

/-- A record that is not yet billed has no entry. -/
theorem txId_ne (h : OneToOne ledger saves) {txId : String}
    (hopen : ∀ record, lastSaved saves txId = some record → record.state.isBilled = false)
    {entry : LedgerEntry} (he : entry ∈ ledger) : txId ≠ entry.txId := by
  rintro rfl
  obtain ⟨record, hlast, hbilled, -⟩ := h.charged entry he
  rw [hopen record hlast] at hbilled
  cases hbilled

/-- Saving a record that stays unbilled changes nothing. -/
theorem save (h : OneToOne ledger saves) {saved : List TransactionRecord}
    {last : TransactionRecord} (hsaved : ∀ r ∈ saved, r.txId = last.txId)
    (hopen : ∀ record, lastSaved saves last.txId = some record → record.state.isBilled = false)
    (hlast : last.state.isBilled = false) : OneToOne ledger (saves ++ (saved ++ [last])) where
  once := h.once
  charged entry he := by
    rw [lastSaved_append saves saved last hsaved, if_neg (h.txId_ne hopen he)]
    exact h.charged entry he
  recorded txId record hrecord hbilled := by
    rw [lastSaved_append saves saved last hsaved] at hrecord
    split at hrecord
    · obtain rfl := Option.some_inj.mp hrecord
      rw [hlast] at hbilled
      cases hbilled
    · exact h.recorded txId record hrecord hbilled

/-- Charging a record adds its entry. -/
theorem charge (h : OneToOne ledger saves) {saved : List TransactionRecord}
    {last : TransactionRecord} (hsaved : ∀ r ∈ saved, r.txId = last.txId)
    (hopen : ∀ record, lastSaved saves last.txId = some record → record.state.isBilled = false)
    (hlast : last.state.isBilled = true) {entry : LedgerEntry} (hsame : SameCharge entry last) :
    OneToOne (ledger ++ [entry]) (saves ++ (saved ++ [last])) where
  once := nodup_map_concat h.once fun old hold => by
    rw [hsame.txId]
    exact (h.txId_ne hopen hold).symm
  charged e he := by
    rw [lastSaved_append saves saved last hsaved]
    rcases List.mem_append.mp he with he | he
    · rw [if_neg (h.txId_ne hopen he)]
      exact h.charged e he
    · rw [List.mem_singleton.mp he, if_pos hsame.txId.symm]
      exact ⟨last, rfl, hlast, hsame⟩
  recorded txId record hrecord hbilled := by
    rw [lastSaved_append saves saved last hsaved] at hrecord
    split at hrecord
    · obtain rfl := Option.some_inj.mp hrecord
      exact ⟨entry, by simp, hsame⟩
    · obtain ⟨e, he, hcharge⟩ := h.recorded txId record hrecord hbilled
      exact ⟨e, List.mem_append_left _ he, hcharge⟩

end OneToOne

/-! ## One move -/

/-- The id that a move brings in. -/
def Move.txId : Move rt → Option String
  | .submit ctx _ => some ctx.txId
  | .deliver _ _ => none
  | .finish _ _ => none

namespace Submissions

variable (R : Rounding)

/-- The ledger corresponds to the records, and each record in flight is the last one
saved under its id. -/
structure Books (s : Submissions rt) (tracker : BillingTracker) : Prop where
  billing : s.app.tracker = some tracker
  oneToOne : OneToOne (tracker.getBillingLedger "") s.app.saves
  current : ∀ p ∈ s.inFlight, lastSaved s.app.saves p.record.txId = some p.record
  pending : ∀ p ∈ s.inFlight, p.record.state = .consensusPending ∧ p.record.tenantId = ""
  distinct : (s.inFlight.map fun p => p.record.txId).Nodup

/-- What a move with a fresh id keeps. -/
structure Kept (s s' : Submissions rt) (tracker : BillingTracker) (move : Move rt) : Prop where
  books : ∃ tracker', Books s' tracker' ∧ tracker.entries <+: tracker'.entries
  ids : ∀ r ∈ s'.app.saves, (∃ r' ∈ s.app.saves, r'.txId = r.txId) ∨ move.txId = some r.txId

variable {s : Submissions rt} {tracker : BillingTracker}

theorem Books.unchanged (h : s.Books tracker) (network : P2PNetwork rt) (inFlight : List InFlight)
    (hsub : inFlight.Sublist s.inFlight) (move : Move rt) :
    Kept s ⟨{ s.app with network }, inFlight⟩ tracker move where
  books := ⟨tracker, ⟨h.billing, h.oneToOne, fun p hp => h.current p (hsub.subset hp),
    fun p hp => h.pending p (hsub.subset hp), h.distinct.sublist (hsub.map _)⟩, List.prefix_rfl⟩
  ids r hr := .inl ⟨r, hr, rfl⟩

theorem Books.submit (h : s.Books tracker) (ctx : SubmitContext) (body : TransactionRequest)
    (hfresh : ∀ r ∈ s.app.saves, r.txId ≠ ctx.txId) :
    Kept s (s.step R (.submit ctx body)) tracker (.submit ctx body) := by
  by_cases ha : s.app.network.auditLog.isSome
  · let last : TransactionRecord :=
      { newRecord "" ctx.txId s.app.network.servers.length ctx.startedAt with
        state := .consensusPending }
    obtain ⟨saved, hids, hbegin⟩ : ∃ saved : List TransactionRecord,
        (∀ r ∈ saved, r.txId = last.txId) ∧ s.app.submitBegin R ctx =
          ({ s.app with saves := s.app.saves ++ (saved ++ [last]) }, .ok last) := by
      refine ⟨_, ?_, s.app.submitBegin_saves R ctx ha⟩
      simp [last, newRecord]
    have hunsaved : lastSaved s.app.saves last.txId = none := by
      rw [lastSaved, List.find?_eq_none]
      intro r hr
      exact fun hid => hfresh r (List.mem_reverse.mp hr) (of_decide_eq_true hid)
    have hother {p : InFlight} (hp : p ∈ s.inFlight) : last.txId ≠ p.record.txId := by
      intro hid
      have hcurrent := h.current p hp
      rw [← hid, hunsaved] at hcurrent
      cases hcurrent
    simp only [Submissions.step, hbegin]
    refine ⟨⟨tracker, ⟨h.billing, ?_, ?_, ?_, ?_⟩, List.prefix_rfl⟩, ?_⟩
    · exact h.oneToOne.save hids (by simp [hunsaved]) rfl
    · intro p hp
      rw [lastSaved_append _ _ _ hids]
      rcases List.mem_append.mp hp with hp | hp
      · rw [if_neg (hother hp)]
        exact h.current p hp
      · rw [List.mem_singleton.mp hp, if_pos rfl]
    · intro p hp
      rcases List.mem_append.mp hp with hp | hp
      · exact h.pending p hp
      · rw [List.mem_singleton.mp hp]
        exact ⟨rfl, rfl⟩
    · exact nodup_map_concat h.distinct fun p hp => (hother hp).symm
    · intro r hr
      rcases mem_or_txId hids hr with hr | hid
      · exact .inl ⟨r, hr, rfl⟩
      · exact .inr (congrArg some hid.symm)
  · have hnone : s.app.network.auditLog.isNone = true := by simpa using ha
    have hstep : s.step R (.submit ctx body) = s := by
      rw [step, App.submitBegin, if_pos hnone]
    rw [hstep]
    exact h.unchanged s.app.network s.inFlight (List.Sublist.refl _) _

theorem Books.finish (h : s.Books tracker) (i : ℕ) (responses : List (NodeServer rt × Response)) :
    Kept s (s.step R (.finish i responses)) tracker (.finish i responses) := by
  unfold Submissions.step
  dsimp only
  cases hi : s.inFlight[i]? with
  | none => exact h.unchanged s.app.network s.inFlight (List.Sublist.refl _) _
  | some p =>
    have hp := List.mem_of_getElem? hi
    dsimp only
    by_cases hfail : s.app.network.auditLog = none ∨
        ((P2PNetwork.resultsOf responses).length : ℤ) < s.app.network.minResponses ∨
        P2PNetwork.resultsOf responses = []
    · obtain ⟨network, e, hend⟩ := s.app.submitEnd_fails R p.ctx p.tx p.record responses hfail
      rw [hend]
      exact h.unchanged network _ (List.eraseIdx_sublist _ _) _
    · push Not at hfail
      obtain ⟨hlog, hmin, hne⟩ := hfail
      obtain ⟨log, hlog⟩ := Option.ne_none_iff_exists'.mp hlog
      obtain ⟨hpending, htenant⟩ := h.pending p hp
      obtain ⟨after, response, hend, -, hsaves, htracker⟩ :=
        s.app.submitEnd_saves R p.ctx p.tx hpending responses h.billing hlog hmin hne
      rw [hend]
      let finalized := App.finalizedRecord R p.ctx.billing.now p.record
        (P2PNetwork.resultsOf responses) (runConsensus R (P2PNetwork.resultsOf responses)
          (some s.app.network.publicKeys) s.app.network.quorumThreshold)
      let last : TransactionRecord :=
        { App.billedRecord R p.ctx.billing.tier finalized with state := .replicated }
      have hids : ∀ r ∈ [finalized, App.billedRecord R p.ctx.billing.tier finalized],
          r.txId = last.txId := by
        simp [last, App.billedRecord]
      have hcurrent := h.current p hp
      have hopen : ∀ record, lastSaved s.app.saves last.txId = some record →
          record.state.isBilled = false := by
        intro record hrecord
        obtain rfl := Option.some_inj.mp (hcurrent.symm.trans hrecord)
        rw [hpending]
        rfl
      have hledger := tracker.getBillingLedger_recordRound R p.ctx.billing finalized.tenantId
        finalized.txId finalized.nodeCount finalized.consensusReached ""
      rw [if_pos (show finalized.tenantId = "" from htenant)] at hledger
      have hother : ∀ q ∈ s.inFlight.eraseIdx i, last.txId ≠ q.record.txId := by
        intro q hq
        obtain ⟨j, hne, hj⟩ := List.mem_eraseIdx_iff_getElem?.mp hq
        exact name_ne_of_getElem? h.distinct hne.symm hi hj
      refine ⟨⟨_, ⟨htracker, ?_, ?_, ?_, ?_⟩, List.prefix_append _ _⟩, ?_⟩
      · rw [hledger, hsaves]
        exact h.oneToOne.charge hids hopen rfl ⟨rfl, rfl, rfl, rfl⟩
      · intro q hq
        rw [hsaves, lastSaved_append _ _ _ hids, if_neg (hother q hq)]
        exact h.current q (List.mem_of_mem_eraseIdx hq)
      · exact fun q hq => h.pending q (List.mem_of_mem_eraseIdx hq)
      · exact h.distinct.sublist ((List.eraseIdx_sublist _ _).map _)
      · intro r hr
        rw [hsaves] at hr
        rcases mem_or_txId hids hr with hr | hid
        · exact .inl ⟨r, hr, rfl⟩
        · exact .inl ⟨p.record, (mem_of_lastSaved hcurrent).1, hid.symm⟩

theorem Books.step (h : s.Books tracker) {move : Move rt}
    (hfresh : ∀ r ∈ s.app.saves, move.txId ≠ some r.txId) :
    Kept s (s.step R move) tracker move := by
  cases move with
  | submit ctx body =>
    exact h.submit R ctx body fun r hr he => hfresh r hr (congrArg some he.symm)
  | deliver i j =>
    unfold Submissions.step
    dsimp only
    split
    · exact h.unchanged _ s.inFlight (List.Sublist.refl _) _
    · exact h.unchanged s.app.network s.inFlight (List.Sublist.refl _) _
  | finish i responses => exact h.finish R i responses

/-! ## Runs -/

theorem Books.start (app : App rt) :
    Books (Submissions.start app.initTracker) .empty :=
  ⟨rfl, OneToOne.empty, nofun, nofun, List.nodup_nil⟩

/-- Whenever no handler is between two awaits, the ledger of the global network has one
entry for each record that is billed or replicated and none for any other, and no entry
that was there before has changed or gone. -/
theorem ledger_records (app : App rt) (past rest : List (Move rt))
    (hids : ((past ++ rest).filterMap Move.txId).Nodup) :
    let first := Submissions.start app.initTracker
    ∃ before tracker, (past.foldl (step R) first).app.tracker = some before ∧
      ((past ++ rest).foldl (step R) first).app.tracker = some tracker ∧
      OneToOne (tracker.getBillingLedger "") ((past ++ rest).foldl (step R) first).app.saves ∧
      before.entries <+: tracker.entries := by
  intro first
  have hstep (entries : List LedgerEntry) (s : Submissions rt) (move : Move rt)
      (hs : ∃ tracker, Books s tracker ∧ entries <+: tracker.entries)
      (hfresh : ∀ txId, move.txId = some txId → ¬ ∃ r ∈ s.app.saves, r.txId = txId) :
      (∃ tracker, Books (s.step R move) tracker ∧ entries <+: tracker.entries) ∧
        ∀ txId, (∃ r ∈ (s.step R move).app.saves, r.txId = txId) →
          (∃ r ∈ s.app.saves, r.txId = txId) ∨ move.txId = some txId := by
    obtain ⟨tracker, hbooks, hpre⟩ := hs
    obtain ⟨⟨tracker', hbooks', hpre'⟩, hids⟩ := hbooks.step R fun r hr hid =>
      hfresh r.txId hid ⟨r, hr, rfl⟩
    refine ⟨⟨tracker', hbooks', hpre.trans hpre'⟩, ?_⟩
    rintro _ ⟨r, hr, rfl⟩
    exact hids r hr
  obtain ⟨⟨before, hbefore, -⟩, hrest, hfresh⟩ := fresh_split (hstep [])
    ⟨_, Books.start app, List.nil_prefix⟩ (by rintro _ ⟨r, hr, -⟩; cases hr) hids
  obtain ⟨⟨tracker, htracker, hpre⟩, -⟩ := fresh_run (hstep before.entries)
    ⟨before, hbefore, List.prefix_rfl⟩ hrest hfresh
  rw [← List.foldl_append] at htracker
  exact ⟨before, tracker, hbefore.billing, htracker.billing, htracker.oneToOne, hpre⟩

/-- Two submissions in flight together. -/
def overlapping : List (Move (referenceRuntime false)) :=
  [.submit App.firstContext App.burnRequest,
    .submit { App.firstContext with txId := "tx-2" } App.burnRequest, Move.finish 0 splitResponses]

theorem ledger_records_overlapping :
    let first := Submissions.start App.pairApp.initTracker
    ∃ before tracker, (overlapping.foldl (step .binary64) first).app.tracker = some before ∧
      ((overlapping ++ [Move.finish 0 splitResponses]).foldl (step .binary64) first).app.tracker =
        some tracker ∧
      OneToOne (tracker.getBillingLedger "")
        ((overlapping ++ [Move.finish 0 splitResponses]).foldl (step .binary64) first).app.saves ∧
      before.entries <+: tracker.entries :=
  ledger_records .binary64 App.pairApp overlapping [Move.finish 0 splitResponses]
    (show ["tx-1", "tx-2"].Nodup by decide)

end Submissions
end ECN
