import ECN.BillingBackends

/-!
# A round that is recorded in part

A tracker keeps its counters and its ledger each in memory or in a database. `record_round`
writes the counter, then the ledger, then the service level. A counter store that raises
leaves everything as it was. A ledger that raises leaves a round that is counted and not
billed, and the counter of the tenant stays ahead of its ledger.
-/
namespace ECN

/-! ## Stores of either kind -/

/-- The counters of a tracker. -/
inductive CounterStore where
  | memory (counts : InMemoryCounts)
  | sqlite (store : SQLiteBillingStore)

/-- The ledger of a tracker. -/
inductive LedgerStore where
  | memory (ledger : InMemoryLedger)
  | sqlite (ledger : SQLiteBillingLedger)

namespace CounterStore

def new (durable : Bool) : CounterStore := if durable then .sqlite .new else .memory .new

def durable : CounterStore → Bool
  | .memory _ => false
  | .sqlite _ => true

/-- No result when the database raises; a dictionary never does. -/
def increment (tenantId period : String) (raises : Bool) : CounterStore → Option CounterStore
  | .memory counts => some (.memory (counts.increment tenantId period))
  | .sqlite store => if raises then none else some (.sqlite (store.increment tenantId period))

def getCount (tenantId period : String) : CounterStore → ℕ
  | .memory counts => counts.getCount tenantId period
  | .sqlite store => store.getCount tenantId period

end CounterStore

namespace LedgerStore

def new (durable : Bool) : LedgerStore := if durable then .sqlite .new else .memory .new

def durable : LedgerStore → Bool
  | .memory _ => false
  | .sqlite _ => true

/-- No result when the database raises; a list never does. -/
def appendEntry (txId tenantId period : String) (nodeRoundCount : ℕ) (billedAmount : ℚ)
    (consensusReached : Bool) (now : ℕ) (raises : Bool) : LedgerStore → Option LedgerStore
  | .memory ledger => some (.memory (ledger.appendEntry txId tenantId period nodeRoundCount
      billedAmount consensusReached now))
  | .sqlite ledger =>
    if raises then none
    else some (.sqlite (ledger.appendEntry txId tenantId period nodeRoundCount billedAmount
      consensusReached now))

def loadEntries (tenantId : String) : LedgerStore → List LedgerEntry
  | .memory ledger => ledger.loadEntries tenantId
  | .sqlite ledger => ledger.loadEntries tenantId

end LedgerStore

/-! ## The tracker -/

/-- A tracker with stores of any kinds, and the service level in memory. -/
structure MixedTracker where
  counter : CounterStore
  ledger : LedgerStore
  total : OrderedDict String ℕ
  faults : OrderedDict String ℕ

/-- The arguments of `record_round`, and which stores raise when they are asked. -/
structure RoundCall where
  ctx : BillingContext
  tenantId : String
  txId : String
  nodeCount : ℕ
  consensusReached : Bool
  counterRaises : Bool
  ledgerRaises : Bool

namespace MixedTracker

/-- A tracker over empty stores. -/
def new (durableCounter durableLedger : Bool) : MixedTracker :=
  ⟨.new durableCounter, .new durableLedger, .empty, .empty⟩

variable (R : Rounding)

/-- Record one round; the second component is the amount billed, or nothing when the call
raises. -/
def recordRound (s : MixedTracker) (c : RoundCall) : MixedTracker × Option ℚ :=
  let billedAmount := computeBilledAmount R c.nodeCount c.ctx.tier
  match s.counter.increment c.tenantId c.ctx.period c.counterRaises with
  | none => (s, none)
  | some counter =>
    match s.ledger.appendEntry c.txId c.tenantId c.ctx.period c.nodeCount billedAmount
      c.consensusReached c.ctx.now c.ledgerRaises with
    | none => ({ s with counter }, none)
    | some ledger =>
      ({ counter
         ledger
         total := s.total.increment c.tenantId
         faults := if c.consensusReached then s.faults else s.faults.increment c.tenantId },
        some billedAmount)

/-- The state after a call. -/
def step (s : MixedTracker) (c : RoundCall) : MixedTracker := (s.recordRound R c).1

/-- `_sla.get_stats`: all rounds, and those without consensus. -/
def getStats (s : MixedTracker) (tenantId : String) : ℕ × ℕ :=
  (s.total.getD tenantId 0, s.faults.getD tenantId 0)

/-- The two trackers report the same of every tenant. -/
structure SameBooks (s s' : MixedTracker) : Prop where
  usage : ∀ tenantId period, s.counter.getCount tenantId period = s'.counter.getCount tenantId period
  ledger : ∀ tenantId, s.ledger.loadEntries tenantId = s'.ledger.loadEntries tenantId
  sla : ∀ tenantId, s.getStats tenantId = s'.getStats tenantId

/-- A call that raises leaves the books as they were. -/
def AtomicRound (s : MixedTracker) (c : RoundCall) : Prop :=
  (s.recordRound R c).2 = none → SameBooks (s.recordRound R c).1 s

/-- Every tenant has as many ledger entries of a period as its counter says. -/
def Balanced (s : MixedTracker) : Prop :=
  ∀ tenantId period, s.counter.getCount tenantId period =
    ((s.ledger.loadEntries tenantId).filter fun e => e.period = period).length

/-- The ledger raises at most where the counter store has raised before it. -/
def LedgerSpared (s : MixedTracker) (c : RoundCall) : Prop :=
  s.ledger.durable = true → c.ledgerRaises = true →
    s.counter.durable = true ∧ c.counterRaises = true

end MixedTracker

/-! ## One store -/

namespace CounterStore

/-- The counters of all tenants, wherever they are kept. -/
def filed : CounterStore → OrderedDict (String × String) ℕ
  | .memory counts => counts.counts
  | .sqlite store => store.usage

theorem getCount_eq (s : CounterStore) (tenantId period : String) :
    s.getCount tenantId period = s.filed.getD (tenantId, period) 0 := by
  cases s with
  | memory counts => rfl
  | sqlite store => exact store.getCount_eq tenantId period

variable {s s' : CounterStore} {tenantId period : String} {raises : Bool}

theorem increment_eq_none_iff :
    s.increment tenantId period raises = none ↔ s.durable = true ∧ raises = true := by
  cases s <;> simp [increment, durable]

/-- A store that answers did not raise. -/
theorem not_raises (h : s.increment tenantId period raises = some s') :
    ¬ (s.durable = true ∧ raises = true) := by
  intro hraises
  rw [increment_eq_none_iff.mpr hraises] at h
  cases h

theorem filed_increment (h : s.increment tenantId period raises = some s') :
    s'.filed = s.filed.increment (tenantId, period) := by
  cases s with
  | memory counts =>
    cases h
    rfl
  | sqlite store =>
    cases raises with
    | true => cases h
    | false =>
      cases h
      exact congrArg SQLiteBillingStore.usage (store.increment_eq tenantId period)

theorem getCount_increment (h : s.increment tenantId period raises = some s')
    (tenantId' period' : String) : s'.getCount tenantId' period' =
      s.getCount tenantId' period' + if tenantId = tenantId' ∧ period = period' then 1 else 0 := by
  rw [getCount_eq, getCount_eq, filed_increment h, OrderedDict.getD_increment]
  simp

end CounterStore

namespace LedgerStore

/-- The entries of all tenants, wherever they are kept. -/
def booked : LedgerStore → List LedgerEntry
  | .memory ledger => ledger.entries
  | .sqlite ledger => ledger.rows.map LedgerRow.entry

theorem loadEntries_eq (s : LedgerStore) (tenantId : String) :
    s.loadEntries tenantId = s.booked.filter fun e => e.tenantId = tenantId := by
  cases s with
  | memory ledger => rfl
  | sqlite ledger => exact ledger.loadEntries_eq tenantId

variable {s s' : LedgerStore} {txId tenantId period : String} {nodeRoundCount : ℕ}
  {billedAmount : ℚ} {consensusReached : Bool} {now : ℕ} {raises : Bool}

theorem appendEntry_eq_none_iff : s.appendEntry txId tenantId period nodeRoundCount billedAmount
    consensusReached now raises = none ↔ s.durable = true ∧ raises = true := by
  cases s <;> simp [appendEntry, durable]

/-- A store that answers did not raise. -/
theorem not_raises (h : s.appendEntry txId tenantId period nodeRoundCount billedAmount
    consensusReached now raises = some s') : ¬ (s.durable = true ∧ raises = true) := by
  intro hraises
  rw [appendEntry_eq_none_iff.mpr hraises] at h
  cases h

theorem booked_appendEntry (h : s.appendEntry txId tenantId period nodeRoundCount billedAmount
    consensusReached now raises = some s') : ∃ ledgerId, s'.booked = s.booked ++
      [⟨ledgerId, txId, tenantId, period, nodeRoundCount, billedAmount, consensusReached, now⟩] := by
  cases s with
  | memory ledger =>
    cases h
    exact ⟨ledger.seq + 1, rfl⟩
  | sqlite ledger =>
    cases raises with
    | true => cases h
    | false =>
      cases h
      refine ⟨ledger.sequence + 1, ?_⟩
      cases consensusReached <;>
        simp [booked, SQLiteBillingLedger.appendEntry, SQLiteBillingLedger.insert, LedgerRow.entry]

/-- An entry counts for its tenant and its period. -/
theorem length_appendEntry (h : s.appendEntry txId tenantId period nodeRoundCount billedAmount
    consensusReached now raises = some s') (tenantId' period' : String) :
    ((s'.loadEntries tenantId').filter fun e => e.period = period').length =
      ((s.loadEntries tenantId').filter fun e => e.period = period').length +
        if tenantId = tenantId' ∧ period = period' then 1 else 0 := by
  obtain ⟨ledgerId, hbooked⟩ := booked_appendEntry h
  rw [loadEntries_eq, loadEntries_eq, hbooked, List.filter_append, List.filter_append,
    List.length_append]
  by_cases ht : tenantId = tenantId'
  · by_cases hp : period = period' <;> simp [ht, hp]
  · simp [ht]

end LedgerStore

/-! ## One round -/

namespace MixedTracker

variable {R : Rounding} {s : MixedTracker} {c : RoundCall}

/-- What a call does: nothing, when the counter store raises; the counter alone, when the
ledger raises; or everything. -/
inductive RoundEffect (R : Rounding) (s : MixedTracker) (c : RoundCall) : Prop where
  | nothing (hraises : s.counter.durable = true ∧ c.counterRaises = true)
      (h : s.recordRound R c = (s, none))
  | counted (counter : CounterStore)
      (hcounter : s.counter.increment c.tenantId c.ctx.period c.counterRaises = some counter)
      (hraises : s.ledger.durable = true ∧ c.ledgerRaises = true)
      (h : s.recordRound R c = ({ s with counter }, none))
  | billed (counter : CounterStore) (ledger : LedgerStore) (amount : ℚ)
      (hcounter : s.counter.increment c.tenantId c.ctx.period c.counterRaises = some counter)
      (hledger : s.ledger.appendEntry c.txId c.tenantId c.ctx.period c.nodeCount amount
        c.consensusReached c.ctx.now c.ledgerRaises = some ledger)
      (hcounted : (s.recordRound R c).1.counter = counter)
      (hbilled : (s.recordRound R c).1.ledger = ledger)
      (h : (s.recordRound R c).2 = some amount)

theorem roundEffect (R : Rounding) (s : MixedTracker) (c : RoundCall) : RoundEffect R s c := by
  cases hcounter : s.counter.increment c.tenantId c.ctx.period c.counterRaises with
  | none =>
    refine .nothing (CounterStore.increment_eq_none_iff.mp hcounter) ?_
    simp only [recordRound, hcounter]
  | some counter =>
    cases hledger : s.ledger.appendEntry c.txId c.tenantId c.ctx.period c.nodeCount
      (computeBilledAmount R c.nodeCount c.ctx.tier) c.consensusReached c.ctx.now
      c.ledgerRaises with
    | none =>
      refine .counted counter hcounter (LedgerStore.appendEntry_eq_none_iff.mp hledger) ?_
      simp only [recordRound, hcounter, hledger]
    | some ledger =>
      refine .billed counter ledger _ hcounter hledger ?_ ?_ ?_
      all_goals simp only [recordRound, hcounter, hledger]

theorem SameBooks.refl (s : MixedTracker) : SameBooks s s :=
  ⟨fun _ _ => rfl, fun _ => rfl, fun _ => rfl⟩

theorem not_spared {counter : CounterStore}
    (hcounter : s.counter.increment c.tenantId c.ctx.period c.counterRaises = some counter)
    (hraises : s.ledger.durable = true ∧ c.ledgerRaises = true) : ¬ s.LedgerSpared c :=
  fun h => CounterStore.not_raises hcounter (h hraises.1 hraises.2)

theorem atomicRound_iff (R : Rounding) (s : MixedTracker) (c : RoundCall) :
    s.AtomicRound R c ↔ s.LedgerSpared c := by
  rcases roundEffect R s c with ⟨hraises, h⟩ | ⟨counter, hcounter, hraises, h⟩ |
    ⟨counter, ledger, amount, hcounter, hledger, -, -, h⟩
  · refine iff_of_true (fun _ => ?_) fun _ _ => hraises
    rw [h]
    exact .refl s
  · refine iff_of_false (fun hatomic => ?_) (not_spared hcounter hraises)
    have husage := (hatomic (by rw [h])).usage c.tenantId c.ctx.period
    rw [h, CounterStore.getCount_increment hcounter] at husage
    simp at husage
  · refine iff_of_true (fun hnone => ?_) fun hdurable hraises => ?_
    · rw [h] at hnone
      cases hnone
    · exact absurd ⟨hdurable, hraises⟩ (LedgerStore.not_raises hledger)

/-- The books stay balanced over a call exactly when the ledger is spared. -/
theorem balanced_step_iff (h : s.Balanced) : (s.step R c).Balanced ↔ s.LedgerSpared c := by
  unfold step
  rcases roundEffect R s c with ⟨hraises, heq⟩ | ⟨counter, hcounter, hraises, heq⟩ |
    ⟨counter, ledger, amount, hcounter, hledger, hcounted, hbilled, -⟩
  · rw [heq]
    exact iff_of_true h fun _ _ => hraises
  · rw [heq]
    refine iff_of_false (fun hnext => ?_) (not_spared hcounter hraises)
    have hcount := hnext c.tenantId c.ctx.period
    rw [CounterStore.getCount_increment hcounter, h c.tenantId c.ctx.period] at hcount
    simp at hcount
  · refine iff_of_true (fun tenantId period => ?_) fun hdurable hraises => ?_
    · rw [hcounted, hbilled, CounterStore.getCount_increment hcounter,
        LedgerStore.length_appendEntry hledger, h tenantId period]
    · exact absurd ⟨hdurable, hraises⟩ (LedgerStore.not_raises hledger)

/-! ## Runs -/

/-- A round is recorded atomically exactly when the ledger is spared; from balanced books, a
run keeps the counters equal to the numbers of ledger entries in every state exactly when
all its calls spare the ledger. -/
theorem recordRound_atomic_iff (R : Rounding) :
    (∀ s c, AtomicRound R s c ↔ LedgerSpared s c) ∧
    ∀ s, Balanced s → ∀ calls,
      (Throughout (step R) Balanced s calls ↔ StepsMeet (step R) LedgerSpared s calls) := by
  refine ⟨atomicRound_iff R, fun s hs calls => ?_⟩
  exact throughout_iff_stepsMeet (I := fun _ => True) (fun _ _ _ _ => trivial)
    (fun s c _ h => balanced_step_iff h) trivial hs

theorem balanced_new (durableCounter durableLedger : Bool) :
    (new durableCounter durableLedger).Balanced := by
  intro tenantId period
  rw [CounterStore.getCount_eq, LedgerStore.loadEntries_eq]
  cases durableCounter <;> cases durableLedger <;> rfl

/-- A round of `acme`, with what the ledger does. -/
def acmeRound (ledgerRaises : Bool) : RoundCall :=
  ⟨⟨.standard, "2026-04", 0⟩, "acme", "tx-1", 3, true, false, ledgerRaises⟩

/-- Counters in memory and a ledger that answers. -/
theorem recordRound_atomic_answered :
    Throughout (step .exact) Balanced (new false true) [acmeRound false, acmeRound false] :=
  ((recordRound_atomic_iff .exact).2 (new false true) (balanced_new false true) _).mpr
    ⟨nofun, nofun, trivial⟩

/-- Both stores are in the database and the ledger raises: the round is counted and not
billed. -/
theorem counted_not_billed :
    ¬ AtomicRound .exact (new true true) (acmeRound true) ∧
    ¬ Throughout (step .exact) Balanced (new true true) [acmeRound true] ∧
    ((new true true).step .exact (acmeRound true)).counter.getCount "acme" "2026-04" = 1 ∧
    ((new true true).step .exact (acmeRound true)).ledger.loadEntries "acme" = [] := by
  have hspared : ¬ (new true true).LedgerSpared (acmeRound true) := fun h =>
    absurd (h rfl rfl).2 (by decide)
  refine ⟨fun h => hspared ((atomicRound_iff .exact _ _).mp h), fun h => ?_, ?_, ?_⟩
  · exact hspared ((balanced_step_iff (balanced_new true true)).mp h.2)
  · rw [CounterStore.getCount_eq]
    rfl
  · rw [LedgerStore.loadEntries_eq]
    rfl

/-! ## Trackers of one kind -/

/-- The tracker that keeps everything in memory. -/
def ofMemory (tracker : BillingTracker) : MixedTracker :=
  ⟨.memory ⟨tracker.counts⟩, .memory ⟨tracker.seq, tracker.entries⟩, tracker.total, tracker.faults⟩

/-- In memory a round is recorded as the tracker without stores records it. -/
theorem recordRound_ofMemory (R : Rounding) (tracker : BillingTracker) (c : RoundCall) :
    (ofMemory tracker).recordRound R c =
      (ofMemory (tracker.recordRound R c.ctx c.tenantId c.txId c.nodeCount c.consensusReached).1,
        some (tracker.recordRound R c.ctx c.tenantId c.txId c.nodeCount c.consensusReached).2) :=
  rfl

/-- The tables of a tracker with both stores in the database. -/
def tables (s : MixedTracker) : Option BillingTables :=
  match s.counter, s.ledger with
  | .sqlite store, .sqlite ledger => some ⟨store.usage, ledger.sequence, ledger.rows⟩
  | _, _ => none

/-- With stores that answer, the tables change as the tables of the shared tracker do. -/
theorem tables_recordRound (R : Rounding) {s : MixedTracker} {tables : BillingTables}
    (h : s.tables = some tables) {c : RoundCall} (hcounter : c.counterRaises = false)
    (hledger : c.ledgerRaises = false) : (s.step R c).tables =
      some ((tables.increment c.tenantId c.ctx.period).appendEntry c.txId c.tenantId c.ctx.period
        c.nodeCount (computeBilledAmount R c.nodeCount c.ctx.tier) c.consensusReached
        c.ctx.now) := by
  obtain ⟨counter, ledger, total, faults⟩ := s
  cases counter with
  | memory counts => cases h
  | sqlite store =>
    cases ledger with
    | memory ledger => cases h
    | sqlite ledger =>
      cases h
      simp only [step, recordRound, CounterStore.increment, LedgerStore.appendEntry, hcounter,
        hledger, SQLiteBillingStore.increment_eq]
      rfl

end MixedTracker
end ECN
