import ECN.LedgerRecords
import ECN.TransactionStore

/-!
# Lifecycles over restarts

Submissions save their records one state after the other, readers ask for the status of
a transaction at any time, and the process may end between any two saves, which ends all
submissions and empties the cache. The records saved under one id climb the seven states
in order whatever happens, and a reader sees the last of them.
-/
namespace ECN

variable {rt : Runtime}

/-! ## One handler -/

/-- What a broadcast that returns results says of its round. -/
structure RoundOutcome where
  consensusReached : Bool
  faultCount : ℕ
  nodeCount : ℕ

/-- What a handler meets at its next save: the time, the outcome of its broadcast unless
that raised, and the amount charged when there is a tracker. -/
structure Surroundings where
  now : ℕ
  outcome : Option RoundOutcome
  billed : Option ℚ

variable (R : Rounding)

/-- The record that a handler saves after this one, or nothing when it ends. -/
def proceed (around : Surroundings) (record : TransactionRecord) : Option TransactionRecord :=
  match record.state with
  | .initiated => (transition R around.now record .executing).toOption
  | .executing => (transition R around.now record .proposed).toOption
  | .proposed => (transition R around.now record .consensusPending).toOption
  | .consensusPending =>
    around.outcome.bind fun outcome =>
      (transition R around.now { record with
        consensusReached := outcome.consensusReached
        faultCount := outcome.faultCount
        nodeCount := outcome.nodeCount } .finalized).toOption
  | .finalized =>
    (transition R around.now record .billed).toOption.map fun record =>
      { record with billedAmount := around.billed.getD record.billedAmount }
  | .billed => (transition R around.now record .replicated).toOption
  | .replicated => none

/-- What the next record of a handler has to do with the one before. -/
structure Follows (record next : TransactionRecord) : Prop where
  state : next.state ∈ record.state.validTransitions
  txId : next.txId = record.txId
  tenantId : next.tenantId = record.tenantId
  createdAt : next.createdAt = record.createdAt
  stamp : next.state = .finalized → next.finalizedAt.isSome
  unstamped : next.state ≠ .finalized → next.finalizedAt = record.finalizedAt

theorem follows_of_transition {now : ℕ} {record next : TransactionRecord} {newState : TxState}
    (h : (transition R now record newState).toOption = some next) : Follows record next := by
  unfold transition at h
  split at h
  · cases h
  · next hvalid =>
    split at h
    · next hfin =>
      cases h
      exact ⟨not_not.mp hvalid, rfl, rfl, rfl, fun _ => rfl, fun hne => absurd hfin hne⟩
    · next hfin =>
      cases h
      exact ⟨not_not.mp hvalid, rfl, rfl, rfl, fun he => absurd he hfin, fun _ => rfl⟩

/-- The spec of one step of a handler. -/
theorem follows_of_proceed {around : Surroundings} {record next : TransactionRecord}
    (h : proceed R around record = some next) : Follows record next := by
  unfold proceed at h
  split at h
  · exact follows_of_transition R h
  · exact follows_of_transition R h
  · exact follows_of_transition R h
  · obtain ⟨outcome, -, h⟩ := Option.bind_eq_some_iff.mp h
    obtain ⟨hstate, htx, htenant, hcreated, hstamp, hunstamped⟩ := follows_of_transition R h
    exact ⟨hstate, htx, htenant, hcreated, hstamp, hunstamped⟩
  · obtain ⟨billed, hmove, rfl⟩ := Option.map_eq_some_iff.mp h
    obtain ⟨hstate, htx, htenant, hcreated, hstamp, hunstamped⟩ := follows_of_transition R hmove
    exact ⟨hstate, htx, htenant, hcreated, hstamp, hunstamped⟩
  · exact follows_of_transition R h
  · cases h

/-- One record is saved after another by one step of a handler. -/
def Proceeds (record next : TransactionRecord) : Prop :=
  ∃ around, proceed R around record = some next

/-- An undisturbed submission saves the records of these steps. -/
theorem submission_proceeds (app : App rt) (ctx : SubmitContext) (tx : Transaction)
    (responses : List (NodeServer rt × Response)) {tracker : BillingTracker}
    (htracker : app.tracker = some tracker) {log : AuditLog}
    (hlog : app.network.auditLog = some log)
    (hmin : app.network.minResponses ≤ (P2PNetwork.resultsOf responses).length)
    (hne : P2PNetwork.resultsOf responses ≠ []) :
    ∃ before pending after last response, app.submitBegin R ctx =
        ({ app with saves := app.saves ++ before }, .ok pending) ∧
      App.submitEnd R { app with saves := app.saves ++ before } ctx tx pending responses =
        (last, .ok response) ∧
      last.saves = app.saves ++ before ++ after ∧
      (before ++ after).IsChain (Proceeds R) ∧
      (before ++ after).map TransactionRecord.state = TxState.lifecycle := by
  let first := newRecord "" ctx.txId app.network.servers.length ctx.startedAt
  let pending : TransactionRecord := { first with state := .consensusPending }
  let before := [first, { first with state := .executing }, { first with state := .proposed }] ++
    [pending]
  have hbegin := app.submitBegin_saves R ctx (by rw [hlog]; rfl)
  obtain ⟨last, response, hend, -, hsaves, -⟩ :=
    App.submitEnd_saves R { app with saves := app.saves ++ before } ctx tx
      (show pending.state = .consensusPending from rfl) responses htracker hlog hmin hne
  refine ⟨before, pending, _, last, response, hbegin, hend, hsaves, ?_, rfl⟩
  let results := P2PNetwork.resultsOf responses
  let cr := runConsensus R results (some app.network.publicKeys) app.network.quorumThreshold
  let around : Surroundings :=
    { now := ctx.billing.now
      outcome := some ⟨cr.consensusReached, cr.faultyNodes.length,
        results.length + cr.faultyNodes.length⟩
      billed := some (computeBilledAmount R (results.length + cr.faultyNodes.length)
        ctx.billing.tier) }
  refine .cons_cons ⟨around, rfl⟩ (.cons_cons ⟨around, rfl⟩ (.cons_cons ⟨around, rfl⟩
    (.cons_cons ⟨around, rfl⟩ (.cons_cons ⟨around, rfl⟩ (.cons_cons ⟨around, rfl⟩
      (.singleton _))))))

/-! ## The records of one transaction -/

/-- Where a state stands in the lifecycle. -/
def TxState.rank : TxState → ℕ
  | .initiated => 0
  | .executing => 1
  | .proposed => 2
  | .consensusPending => 3
  | .finalized => 4
  | .billed => 5
  | .replicated => 6

theorem TxState.isFinal_iff (s : TxState) : s.isFinal = true ↔ 4 ≤ s.rank := by
  cases s <;> simp [TxState.isFinal, TxState.rank]

theorem TxState.rank_of_valid {s next : TxState} (h : next ∈ s.validTransitions) :
    next.rank = s.rank + 1 := by
  cases s <;> simp only [TxState.validTransitions, List.mem_singleton, List.not_mem_nil] at h
  all_goals
    subst h
    rfl

/-- What holds between a record and any record saved later under its id. -/
structure Earlier (record later : TransactionRecord) : Prop where
  rank : record.state.rank < later.state.rank
  tenantId : later.tenantId = record.tenantId
  createdAt : later.createdAt = record.createdAt
  finalizedAt : record.state.isFinal = true → later.finalizedAt = record.finalizedAt

theorem Earlier.trans {a b c : TransactionRecord} (hab : Earlier a b) (hbc : Earlier b c) :
    Earlier a c := by
  refine ⟨hab.rank.trans hbc.rank, hbc.tenantId.trans hab.tenantId,
    hbc.createdAt.trans hab.createdAt, fun hfinal => ?_⟩
  have hmid : b.state.isFinal = true := by
    have hrank := hab.rank
    rw [TxState.isFinal_iff] at hfinal ⊢
    omega
  exact (hbc.finalizedAt hmid).trans (hab.finalizedAt hfinal)

theorem Follows.earlier {record next : TransactionRecord} (h : Follows record next) :
    Earlier record next := by
  have hrank := TxState.rank_of_valid h.state
  refine ⟨by omega, h.tenantId, h.createdAt, fun hfinal => h.unstamped fun hfin => ?_⟩
  rw [TxState.isFinal_iff] at hfinal
  rw [hfin, show TxState.finalized.rank = 4 from rfl] at hrank
  omega

/-- The records of one transaction: they climb the lifecycle, are stamped when final, and
agree in what never changes. -/
structure IsLifecycle (records : List TransactionRecord) : Prop where
  states : records.map TransactionRecord.state <+: TxState.lifecycle
  stamped : ∀ r ∈ records, r.finalizedAt.isSome = r.state.isFinal
  ordered : records.Pairwise Earlier

namespace IsLifecycle

theorem nil : IsLifecycle [] := ⟨List.nil_prefix, nofun, List.Pairwise.nil⟩

theorem start (tenantId txId : String) (nodeCount now : ℕ) :
    IsLifecycle [newRecord tenantId txId nodeCount now] where
  states := by
    show [TxState.initiated] <+: TxState.lifecycle
    decide
  stamped r hr := by
    rw [List.mem_singleton.mp hr]
    rfl
  ordered := List.pairwise_singleton _ _

theorem next_state : ∀ states ∈ TxState.lifecycle.inits, ∀ s ∈ TxState.lifecycle,
    ∀ next ∈ s.validTransitions, states.getLast? = some s →
      states ++ [next] <+: TxState.lifecycle := by decide

variable {records : List TransactionRecord}

theorem concat (h : IsLifecycle records) {last next : TransactionRecord}
    (hlast : records.getLast? = some last) (hnext : Follows last next) :
    IsLifecycle (records ++ [next]) where
  states := by
    rw [List.map_append, List.map_singleton]
    refine next_state _ ((List.mem_inits _ _).mpr h.states) last.state ?_ next.state hnext.state ?_
    · cases last.state <;> decide
    · rw [List.getLast?_map, hlast, Option.map_some]
  stamped r hr := by
    rcases List.mem_append.mp hr with hr | hr
    · exact h.stamped r hr
    · rw [List.mem_singleton.mp hr]
      by_cases hfin : next.state = .finalized
      · rw [hnext.stamp hfin, hfin]
        rfl
      · rw [hnext.unstamped hfin, h.stamped last (List.mem_of_getLast? hlast)]
        have hrank := TxState.rank_of_valid hnext.state
        have hne : next.state.rank ≠ 4 := by
          intro he
          revert hfin he
          cases next.state <;> simp [TxState.rank]
        rw [Bool.eq_iff_iff, TxState.isFinal_iff, TxState.isFinal_iff]
        omega
  ordered := by
    rw [List.pairwise_append]
    refine ⟨h.ordered, List.pairwise_singleton _ _, fun r hr r' hr' => ?_⟩
    rw [List.mem_singleton.mp hr']
    obtain ⟨init, rfl⟩ := List.getLast?_eq_some_iff.mp hlast
    rcases List.mem_append.mp hr with hr | hr
    · exact ((List.pairwise_append.mp h.ordered).2.2 r hr last (by simp)).trans hnext.earlier
    · rw [List.mem_singleton.mp hr]
      exact hnext.earlier

/-- Any two records are the same or one is earlier. -/
theorem compare (h : IsLifecycle records) {r r' : TransactionRecord} (hr : r ∈ records)
    (hr' : r' ∈ records) : r = r' ∨ Earlier r r' ∨ Earlier r' r := by
  exact List.Pairwise.forall_of_forall_of_flip (R := fun a b => a = b ∨ Earlier a b ∨ Earlier b a)
    (fun _ _ => .inl rfl) (h.ordered.imp fun hab => .inr (.inl hab))
    (h.ordered.imp fun hab => .inr (.inr hab)) hr hr'

/-- No record is ahead of the last one. -/
theorem rank_le_last (h : IsLifecycle records) {last r : TransactionRecord}
    (hlast : records.getLast? = some last) (hr : r ∈ records) :
    r.state.rank ≤ last.state.rank := by
  obtain ⟨init, rfl⟩ := List.getLast?_eq_some_iff.mp hlast
  rcases List.mem_append.mp hr with hr | hr
  · exact ((List.pairwise_append.mp h.ordered).2.2 r hr last (by simp)).rank.le
  · rw [List.mem_singleton.mp hr]

theorem tenantId_eq (h : IsLifecycle records) {r r' : TransactionRecord} (hr : r ∈ records)
    (hr' : r' ∈ records) : r.tenantId = r'.tenantId ∧ r.createdAt = r'.createdAt := by
  rcases h.compare hr hr' with rfl | hab | hba
  · exact ⟨rfl, rfl⟩
  · exact ⟨hab.tenantId.symm, hab.createdAt.symm⟩
  · exact ⟨hba.tenantId, hba.createdAt⟩

theorem finalizedAt_eq (h : IsLifecycle records) {r r' : TransactionRecord} (hr : r ∈ records)
    (hr' : r' ∈ records) (hfinal : r.state.isFinal = true) (hfinal' : r'.state.isFinal = true) :
    r.finalizedAt = r'.finalizedAt := by
  rcases h.compare hr hr' with rfl | hab | hba
  · rfl
  · exact (hab.finalizedAt hfinal).symm
  · exact hba.finalizedAt hfinal'

end IsLifecycle

/-! ## Interleavings -/

/-- The stores, the last records of the submissions that are running, and the list of all
records that were ever saved. -/
structure Lifecycles where
  stores : RecordStores
  running : List TransactionRecord
  saves : List TransactionRecord

/-- A submission saves its first record, the `i`th running one takes its next step, a
status is read, or the process restarts. -/
inductive LifecycleMove where
  | submit (txId : String) (nodeCount now : ℕ)
  | proceed (i : ℕ) (around : Surroundings)
  | status (txId : String)
  | restart

/-- The id that a move brings in. -/
def LifecycleMove.txId : LifecycleMove → Option String
  | .submit txId _ _ => some txId
  | .proceed _ _ => none
  | .status _ => none
  | .restart => none

namespace Lifecycles

def start : Lifecycles := ⟨.empty, [], []⟩

def save (s : Lifecycles) (record : TransactionRecord) : Lifecycles :=
  { s with stores := s.stores.saveTxRecord record, saves := s.saves ++ [record] }

def step (s : Lifecycles) : LifecycleMove → Lifecycles
  | .submit txId nodeCount now =>
    let record := newRecord "" txId nodeCount now
    { s.save record with running := s.running ++ [record] }
  | .proceed i around =>
    match s.running[i]?.bind (proceed R around) with
    | some record => { s.save record with running := s.running.set i record }
    | none => { s with running := s.running.eraseIdx i }
  | .status txId => { s with stores := (s.stores.getTransactionStatus txId).1 }
  | .restart => { s with stores := s.stores.restart, running := [] }

/-- What a reader who asks for a status is answered. -/
def answer (s : Lifecycles) (txId : String) : Except HttpError TransactionStatusResponse :=
  (s.stores.getTransactionStatus txId).2

/-- What was saved under an id, in order. -/
def savedUnder (s : Lifecycles) (txId : String) : List TransactionRecord :=
  s.saves.filter fun record => record.txId = txId

/-! ## One move -/

theorem lastSaved_eq_getLast? (s : Lifecycles) (txId : String) :
    lastSaved s.saves txId = (s.savedUnder txId).getLast? := by
  rw [lastSaved, ← List.head?_filter, List.filter_reverse, List.head?_reverse, savedUnder]

theorem lastSaved_save (s : Lifecycles) (record : TransactionRecord) :
    lastSaved (s.save record).saves =
      Function.update (lastSaved s.saves) record.txId (some record) := by
  funext txId
  have happend := lastSaved_append s.saves [] record nofun txId
  rw [List.nil_append] at happend
  rw [save, happend, Function.update_apply]
  exact if_congr eq_comm rfl rfl

theorem savedUnder_save (s : Lifecycles) (record : TransactionRecord) (txId : String) :
    (s.save record).savedUnder txId =
      s.savedUnder txId ++ if record.txId = txId then [record] else [] := by
  rw [savedUnder, save, List.filter_append]
  by_cases hid : record.txId = txId <;> simp [savedUnder, hid]

/-- The stores hold the last records, the running submissions are at the last record of
their ids, and the records of each id are a lifecycle. -/
structure Tracked (s : Lifecycles) : Prop where
  stores : s.stores.Holds (lastSaved s.saves)
  running : ∀ r ∈ s.running, lastSaved s.saves r.txId = some r
  distinct : (s.running.map TransactionRecord.txId).Nodup
  lifecycle : ∀ txId, IsLifecycle (s.savedUnder txId)

theorem Tracked.start : Tracked start :=
  ⟨RecordStores.holds_empty, nofun, List.nodup_nil, fun _ => IsLifecycle.nil⟩

variable {s : Lifecycles}

/-- Ids that were saved under. -/
def Used (s : Lifecycles) (txId : String) : Prop := ∃ r ∈ s.saves, r.txId = txId

theorem used_save {record : TransactionRecord} {id : String} (h : (s.save record).Used id) :
    s.Used id ∨ record.txId = id := by
  obtain ⟨r, hr, rfl⟩ := h
  rcases List.mem_append.mp hr with hr | hr
  · exact .inl ⟨r, hr, rfl⟩
  · exact .inr (congrArg TransactionRecord.txId (List.mem_singleton.mp hr).symm)

theorem Tracked.submit (h : s.Tracked) {id : String} (nodeCount now : ℕ) (hfresh : ¬ s.Used id) :
    (s.step R (.submit id nodeCount now)).Tracked := by
  let record := newRecord "" id nodeCount now
  have hnone : ∀ r ∈ s.saves, r.txId ≠ id := fun r hr hid => hfresh ⟨r, hr, hid⟩
  have hlast : lastSaved s.saves record.txId = none := by
    rw [lastSaved, List.find?_eq_none]
    exact fun r hr hid => hnone r (List.mem_reverse.mp hr) (of_decide_eq_true hid)
  have hother : ∀ r ∈ s.running, r.txId ≠ record.txId := by
    intro r hr hid
    have hcurrent := h.running r hr
    rw [hid, hlast] at hcurrent
    cases hcurrent
  have hsaved := s.lastSaved_save record
  refine ⟨?_, fun r hr => ?_, ?_, fun txId => ?_⟩
  · show RecordStores.Holds _ (lastSaved (s.save record).saves)
    rw [hsaved]
    refine h.stores.save fun old hold => ?_
    rw [hlast] at hold
    cases hold
  · show lastSaved (s.save record).saves r.txId = some r
    rw [hsaved, Function.update_apply]
    rcases List.mem_append.mp hr with hr | hr
    · rw [if_neg (hother r hr)]
      exact h.running r hr
    · rw [List.mem_singleton.mp hr, if_pos rfl]
  · exact nodup_map_concat h.distinct hother
  · show IsLifecycle ((s.save record).savedUnder txId)
    rw [savedUnder_save]
    split
    · next hid =>
      have hempty : s.savedUnder txId = [] := by
        rw [savedUnder, List.filter_eq_nil_iff]
        exact fun r hr he => hnone r hr ((of_decide_eq_true he).trans hid.symm)
      rw [hempty]
      exact IsLifecycle.start "" id nodeCount now
    · rw [List.append_nil]
      exact h.lifecycle txId

theorem Tracked.proceed (h : s.Tracked) {i : ℕ} {last next : TransactionRecord}
    (hi : s.running[i]? = some last) (hnext : Follows last next) :
    Tracked { s.save next with running := s.running.set i next } := by
  have hcurrent : lastSaved s.saves next.txId = some last := by
    rw [hnext.txId]
    exact h.running last (List.mem_of_getElem? hi)
  have hsaved := s.lastSaved_save next
  have hids : (s.running.set i next).map TransactionRecord.txId =
      s.running.map TransactionRecord.txId := by
    obtain ⟨hlt, rfl⟩ := List.getElem?_eq_some_iff.mp hi
    rw [List.map_set, hnext.txId, ← List.getElem_map TransactionRecord.txId, List.set_getElem_self]
    rwa [List.length_map]
  refine ⟨?_, fun r hr => ?_, ?_, fun txId => ?_⟩
  · show RecordStores.Holds _ (lastSaved (s.save next).saves)
    rw [hsaved]
    refine h.stores.save fun old hold => ?_
    obtain rfl := Option.some_inj.mp (hcurrent.symm.trans hold)
    exact ⟨hnext.txId, hnext.tenantId, hnext.createdAt⟩
  · show lastSaved (s.save next).saves r.txId = some r
    rw [hsaved, Function.update_apply]
    obtain ⟨j, hj⟩ := List.mem_iff_getElem?.mp hr
    rw [List.getElem?_set] at hj
    by_cases hij : i = j
    · rw [if_pos hij, if_pos (List.getElem?_eq_some_iff.mp hi).1] at hj
      obtain rfl := Option.some_inj.mp hj
      rw [if_pos rfl]
    · rw [if_neg hij] at hj
      have hne : r.txId ≠ next.txId := by
        rw [hnext.txId]
        exact name_ne_of_getElem? h.distinct (Ne.symm hij) hj hi
      rw [if_neg hne]
      exact h.running r (List.mem_of_getElem? hj)
  · show ((s.running.set i next).map TransactionRecord.txId).Nodup
    rw [hids]
    exact h.distinct
  · show IsLifecycle ((s.save next).savedUnder txId)
    rw [savedUnder_save]
    split
    · next hid =>
      refine (h.lifecycle txId).concat ?_ hnext
      rw [← lastSaved_eq_getLast?, ← hid]
      exact hcurrent
    · rw [List.append_nil]
      exact h.lifecycle txId

/-- The spec of a move. -/
theorem Tracked.step (h : s.Tracked) (move : LifecycleMove)
    (hfresh : ∀ id, move.txId = some id → ¬ s.Used id) :
    (s.step R move).Tracked ∧ s.saves <+: (s.step R move).saves ∧
      ∀ id, (s.step R move).Used id → s.Used id ∨ move.txId = some id := by
  cases move with
  | submit id nodeCount now =>
    refine ⟨h.submit R nodeCount now (hfresh id rfl), List.prefix_append _ _, fun id' hused => ?_⟩
    exact (s.used_save hused).imp_right (congrArg some)
  | proceed i around =>
    unfold Lifecycles.step
    dsimp only
    cases hi : s.running[i]?.bind (ECN.proceed R around) with
    | none =>
      have hsub := List.eraseIdx_sublist s.running i
      exact ⟨⟨h.stores, fun r hr => h.running r (hsub.subset hr), h.distinct.sublist (hsub.map _),
        h.lifecycle⟩, List.prefix_rfl, fun id hused => .inl hused⟩
    | some next =>
      obtain ⟨last, hlast, hnext⟩ := Option.bind_eq_some_iff.mp hi
      have hfollows := follows_of_proceed R hnext
      refine ⟨h.proceed hlast hfollows, List.prefix_append _ _, fun id hused => .inl ?_⟩
      rcases s.used_save hused with hused | rfl
      · exact hused
      · have hcurrent := h.running last (List.mem_of_getElem? hlast)
        exact ⟨last, (mem_of_lastSaved hcurrent).1, hfollows.txId.symm⟩
  | status id =>
    exact ⟨⟨(h.stores.status id).2, h.running, h.distinct, h.lifecycle⟩, List.prefix_rfl,
      fun id' hused => .inl hused⟩
  | restart =>
    exact ⟨⟨h.stores.restart, nofun, List.nodup_nil, h.lifecycle⟩, List.prefix_rfl,
      fun id' hused => .inl hused⟩

/-! ## Runs -/

/-- The place of a state's text in the lifecycle. -/
def stage (text : String) : ℕ := (TxState.lifecycle.map TxState.value).idxOf text

theorem stage_value (state : TxState) : stage state.value = state.rank := by
  cases state <;> decide

/-- What an observer of one id finds in a state of a run, and in an earlier one. -/
structure Durable (before s : Lifecycles) (txId : String) : Prop where
  answer : s.answer txId = statusAnswer txId (s.savedUnder txId).getLast?
  states : (s.savedUnder txId).map TransactionRecord.state <+: TxState.lifecycle
  onward : ∀ seen, before.answer txId = .ok seen → ∃ now, s.answer txId = .ok now ∧
    stage seen.lifecycleState ≤ stage now.lifecycleState
  unstamped : ∀ r ∈ s.savedUnder txId, r.state.isFinal = false → r.finalizedAt = none
  stamped : ∀ r ∈ s.savedUnder txId, ∀ r' ∈ s.savedUnder txId, r.state.isFinal = true →
    r'.state.isFinal = true → r.finalizedAt.isSome ∧ r.finalizedAt = r'.finalizedAt
  constant : ∀ r ∈ s.savedUnder txId, ∀ r' ∈ s.savedUnder txId,
    r.tenantId = r'.tenantId ∧ r.createdAt = r'.createdAt

theorem Tracked.answer (h : s.Tracked) (txId : String) :
    s.answer txId = statusAnswer txId (s.savedUnder txId).getLast? := by
  rw [Lifecycles.answer, (h.stores.status txId).1, lastSaved_eq_getLast?]

theorem Tracked.durable {before : Lifecycles} (hbefore : before.Tracked) (h : s.Tracked)
    (hsaves : before.saves <+: s.saves) (txId : String) : Durable before s txId := by
  have hlife := h.lifecycle txId
  refine ⟨h.answer txId, hlife.states, fun seen hseen => ?_, fun r hr hopen => ?_,
    fun r hr r' hr' hfinal hfinal' => ⟨?_, hlife.finalizedAt_eq hr hr' hfinal hfinal'⟩,
    fun r hr r' hr' => hlife.tenantId_eq hr hr'⟩
  · rw [hbefore.answer] at hseen
    cases hold : (before.savedUnder txId).getLast? with
    | none =>
      rw [hold] at hseen
      cases hseen
    | some r =>
      rw [hold] at hseen
      cases hseen
      have hr : r ∈ s.savedUnder txId :=
        (hsaves.filter _).subset (List.mem_of_getLast? hold)
      obtain ⟨last, hlast⟩ := Option.isSome_iff_exists.mp
        (List.getLast?_isSome.mpr (List.ne_nil_of_mem hr))
      refine ⟨last.status, by rw [h.answer, hlast]; rfl, ?_⟩
      show stage r.state.value ≤ stage last.state.value
      rw [stage_value, stage_value]
      exact hlife.rank_le_last hlast hr
  · have hstamp := hlife.stamped r hr
    rw [hopen] at hstamp
    simpa using hstamp
  · rw [hlife.stamped r hr]
    exact hfinal

/-- Over every interleaving of submissions, readers and restarts, readers see the last
record saved under an id, and these records climb the lifecycle and keep what must not
change. -/
theorem durable_lifecycle (past rest : List LifecycleMove)
    (hids : ((past ++ rest).filterMap LifecycleMove.txId).Nodup) (txId : String) :
    Durable (past.foldl (step R) start) ((past ++ rest).foldl (step R) start) txId := by
  have hstep (saves : List TransactionRecord) (s : Lifecycles) (move : LifecycleMove)
      (hs : s.Tracked ∧ saves <+: s.saves)
      (hfresh : ∀ id, move.txId = some id → ¬ s.Used id) :
      ((s.step R move).Tracked ∧ saves <+: (s.step R move).saves) ∧
        ∀ id, (s.step R move).Used id → s.Used id ∨ move.txId = some id := by
    obtain ⟨htracked, hmore, hused⟩ := hs.1.step R move hfresh
    exact ⟨⟨htracked, hs.2.trans hmore⟩, hused⟩
  obtain ⟨⟨hbefore, -⟩, hrest, hfresh⟩ := fresh_split (hstep []) ⟨Tracked.start, List.nil_prefix⟩
    (by rintro _ ⟨r, hr, -⟩; cases hr) hids
  obtain ⟨⟨hafter, hmore⟩, -⟩ := fresh_run (hstep (past.foldl (step R) start).saves)
    ⟨hbefore, List.prefix_rfl⟩ hrest hfresh
  rw [← List.foldl_append] at hafter hmore
  exact hbefore.durable hafter hmore txId

/-- Surroundings with an agreed round. -/
def agreedRound : Surroundings := ⟨7, some ⟨true, 0, 5⟩, some (5 / 1000)⟩

/-- A submission that is read while it runs. -/
def observed : List LifecycleMove :=
  [.submit "tx-1" 5 0, .proceed 0 agreedRound, .status "tx-1"]

/-- Its next steps, and a restart right after it was finalized. -/
def interrupted : List LifecycleMove :=
  [.proceed 0 agreedRound, .proceed 0 agreedRound, .proceed 0 agreedRound, .restart]

theorem durable_lifecycle_interrupted :
    Durable (observed.foldl (step .binary64) start)
      ((observed ++ interrupted).foldl (step .binary64) start) "tx-1" :=
  durable_lifecycle .binary64 observed interrupted (by decide) "tx-1"

end Lifecycles
end ECN
