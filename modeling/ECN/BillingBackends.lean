import ECN.OrderedCodes
import ECN.TenantBilling

/-!
# Billing in memory and in a database

The counters and the ledger are implemented twice. In memory the counters stand in one
dictionary and a history is the sorted list of all items with the other tenants left out;
the ledger numbers its entries itself. In the database the counters are a table with a
primary key, a history is ordered by the bytes of the periods, the numbers come from the
autoincrement and flags are integers. No sequence of calls tells the two apart, but for
the times of the ledger entries.
-/
namespace ECN

/-! ## Counters -/

/-- `_InMemoryCounts`. -/
structure InMemoryCounts where
  counts : OrderedDict (String × String) ℕ

namespace InMemoryCounts

def new : InMemoryCounts := ⟨.empty⟩

def increment (s : InMemoryCounts) (tenantId period : String) : InMemoryCounts :=
  ⟨s.counts.set (tenantId, period) (s.counts.getD (tenantId, period) 0 + 1)⟩

def getCount (s : InMemoryCounts) (tenantId period : String) : ℕ :=
  s.counts.getD (tenantId, period) 0

def getAllPeriods (s : InMemoryCounts) (tenantId : String) : List PeriodCount :=
  (sortedCounts s.counts).filterMap (ownCount tenantId)

end InMemoryCounts

/-- The table `billing_usage`, with the tenant and the period as its primary key. -/
structure SQLiteBillingStore where
  usage : OrderedDict (String × String) ℕ

namespace SQLiteBillingStore

def new : SQLiteBillingStore := ⟨.empty⟩

/-- `INSERT ... ON CONFLICT DO UPDATE`. -/
def increment (s : SQLiteBillingStore) (tenantId period : String) : SQLiteBillingStore :=
  match s.usage.get? (tenantId, period) with
  | none => ⟨s.usage.set (tenantId, period) 1⟩
  | some roundCount => ⟨s.usage.set (tenantId, period) (roundCount + 1)⟩

def getCount (s : SQLiteBillingStore) (tenantId period : String) : ℕ :=
  match s.usage.get? (tenantId, period) with
  | none => 0
  | some roundCount => roundCount

/-- The rows of the tenant, ordered by the bytes of their periods. -/
def getAllPeriods (s : SQLiteBillingStore) (tenantId : String) : List PeriodCount :=
  ((s.usage.entries.map fun e => (e.1.1, e.1.2, e.2)).filterMap (ownCount tenantId)).mergeSort
    fun a b => decide (utf8Bytes a.period ≤ utf8Bytes b.period)

end SQLiteBillingStore

/-! ## Ledgers -/

/-- `_InMemoryLedger`. -/
structure InMemoryLedger where
  seq : ℕ
  entries : List LedgerEntry

namespace InMemoryLedger

def new : InMemoryLedger := ⟨0, []⟩

def appendEntry (s : InMemoryLedger) (txId tenantId period : String) (nodeRoundCount : ℕ)
    (billedAmount : ℚ) (consensusReached : Bool) (now : ℕ) : InMemoryLedger :=
  ⟨s.seq + 1, s.entries ++ [⟨s.seq + 1, txId, tenantId, period, nodeRoundCount, billedAmount,
    consensusReached, now⟩]⟩

def loadEntries (s : InMemoryLedger) (tenantId : String) : List LedgerEntry :=
  s.entries.filter fun e => e.tenantId = tenantId

end InMemoryLedger

/-- The table `billing_ledger`; the autoincrement has given out the ids up to `sequence`, in
the order of the rows. -/
structure SQLiteBillingLedger where
  sequence : ℕ
  rows : List LedgerRow
  ordered : rows.Pairwise fun a b => a.ledgerId < b.ledgerId
  issued : ∀ row ∈ rows, row.ledgerId ≤ sequence

namespace SQLiteBillingLedger

def new : SQLiteBillingLedger := ⟨0, [], .nil, nofun⟩

/-- Insert a row under the next id. -/
def insert (s : SQLiteBillingLedger) (row : ℕ → LedgerRow)
    (hid : ∀ n, (row n).ledgerId = n) : SQLiteBillingLedger where
  sequence := s.sequence + 1
  rows := s.rows ++ [row (s.sequence + 1)]
  ordered := by
    rw [List.pairwise_append]
    refine ⟨s.ordered, List.pairwise_singleton _ _, fun a ha b hb => ?_⟩
    have hold := s.issued a ha
    rw [List.mem_singleton.mp hb, hid]
    omega
  issued row' hrow := by
    rcases List.mem_append.mp hrow with hold | hnew
    · exact (s.issued row' hold).trans (Nat.le_succ _)
    · rw [List.mem_singleton.mp hnew, hid]

def appendEntry (s : SQLiteBillingLedger) (txId tenantId period : String) (nodeRoundCount : ℕ)
    (billedAmount : ℚ) (consensusReached : Bool) (now : ℕ) : SQLiteBillingLedger :=
  s.insert (fun ledgerId => ⟨ledgerId, txId, tenantId, period, nodeRoundCount, billedAmount,
    if consensusReached then 1 else 0, now⟩) fun _ => rfl

/-- The rows of the tenant, ordered by their ids. -/
def loadEntries (s : SQLiteBillingLedger) (tenantId : String) : List LedgerEntry :=
  ((s.rows.filter fun row => row.tenantId = tenantId).mergeSort
    fun a b => decide (a.ledgerId ≤ b.ledgerId)).map LedgerRow.entry

/-- The rows are stored in the order in which they are read. -/
theorem loadEntries_eq (s : SQLiteBillingLedger) (tenantId : String) :
    s.loadEntries tenantId = (s.rows.map LedgerRow.entry).filter fun e => e.tenantId = tenantId := by
  have hsorted : (s.rows.filter fun row => row.tenantId = tenantId).Pairwise
      fun a b => decide (a.ledgerId ≤ b.ledgerId) = true :=
    (s.ordered.filter _).imp fun h => decide_eq_true h.le
  rw [loadEntries, List.mergeSort_of_pairwise hsorted, List.filter_map]
  rfl

end SQLiteBillingLedger

/-! ## Calls -/

/-- A call to the counters or to the ledger. -/
inductive BillingCall where
  | increment (tenantId period : String)
  | appendEntry (txId tenantId period : String) (nodeRoundCount : ℕ) (billedAmount : ℚ)
      (consensusReached : Bool)
  | getCount (tenantId period : String)
  | getAllPeriods (tenantId : String)
  | loadEntries (tenantId : String)

/-- A call, with the time that each of the two ledgers reads from the clock. -/
structure TimedCall where
  call : BillingCall
  memoryTime : ℕ
  sqliteTime : ℕ

inductive BillingAnswer where
  | done
  | count (n : ℕ)
  | periods (history : List PeriodCount)
  | entries (ledger : List LedgerEntry)

/-- An entry without its time. -/
def LedgerEntry.untimed (e : LedgerEntry) : LedgerEntry := { e with recordedAt := 0 }

/-- An answer without the times of its entries. -/
def BillingAnswer.untimed : BillingAnswer → BillingAnswer
  | .done => .done
  | .count n => .count n
  | .periods history => .periods history
  | .entries ledger => .entries (ledger.map LedgerEntry.untimed)

/-- The back-ends of a tracker without stores. -/
structure MemoryBackend where
  counts : InMemoryCounts
  ledger : InMemoryLedger

/-- The back-ends of a tracker with a database. -/
structure SQLiteBackend where
  store : SQLiteBillingStore
  ledger : SQLiteBillingLedger

namespace MemoryBackend

def new : MemoryBackend := ⟨.new, .new⟩

def respond (s : MemoryBackend) (c : TimedCall) : MemoryBackend × BillingAnswer :=
  match c.call with
  | .increment tenantId period => ({ s with counts := s.counts.increment tenantId period }, .done)
  | .appendEntry txId tenantId period nodeRoundCount billedAmount consensusReached =>
    ({ s with
        ledger := s.ledger.appendEntry txId tenantId period nodeRoundCount billedAmount
          consensusReached c.memoryTime }, .done)
  | .getCount tenantId period => (s, .count (s.counts.getCount tenantId period))
  | .getAllPeriods tenantId => (s, .periods (s.counts.getAllPeriods tenantId))
  | .loadEntries tenantId => (s, .entries (s.ledger.loadEntries tenantId))

end MemoryBackend

namespace SQLiteBackend

def new : SQLiteBackend := ⟨.new, .new⟩

def respond (s : SQLiteBackend) (c : TimedCall) : SQLiteBackend × BillingAnswer :=
  match c.call with
  | .increment tenantId period => ({ s with store := s.store.increment tenantId period }, .done)
  | .appendEntry txId tenantId period nodeRoundCount billedAmount consensusReached =>
    ({ s with
        ledger := s.ledger.appendEntry txId tenantId period nodeRoundCount billedAmount
          consensusReached c.sqliteTime }, .done)
  | .getCount tenantId period => (s, .count (s.store.getCount tenantId period))
  | .getAllPeriods tenantId => (s, .periods (s.store.getAllPeriods tenantId))
  | .loadEntries tenantId => (s, .entries (s.ledger.loadEntries tenantId))

end SQLiteBackend

/-! ## Equivalence -/

/-- The table holds the counters of the dictionary. -/
def InMemoryCounts.Matches (m : InMemoryCounts) (q : SQLiteBillingStore) : Prop :=
  ∀ key, m.counts.get? key = q.usage.get? key

/-- The table holds the entries of the list, with the same ids, times aside. -/
structure InMemoryLedger.Matches (m : InMemoryLedger) (q : SQLiteBillingLedger) : Prop where
  seq : m.seq = q.sequence
  entries : m.entries.map LedgerEntry.untimed =
    (q.rows.map LedgerRow.entry).map LedgerEntry.untimed

theorem SQLiteBillingStore.increment_eq (q : SQLiteBillingStore) (tenantId period : String) :
    q.increment tenantId period = ⟨q.usage.increment (tenantId, period)⟩ := by
  unfold increment OrderedDict.increment OrderedDict.getD
  cases q.usage.get? (tenantId, period) <;> rfl

theorem SQLiteBillingStore.getCount_eq (q : SQLiteBillingStore) (tenantId period : String) :
    q.getCount tenantId period = q.usage.getD (tenantId, period) 0 := by
  unfold getCount OrderedDict.getD
  cases q.usage.get? (tenantId, period) <;> rfl

/-- Ordering by bytes is ordering by the periods. -/
theorem SQLiteBillingStore.periodHistory_getAllPeriods (q : SQLiteBillingStore)
    (tenantId : String) : PeriodHistory (filedCounts q.usage tenantId) (q.getAllPeriods tenantId) := by
  have hbytes : q.getAllPeriods tenantId =
      BillingTables.getAllPeriods ⟨q.usage, 0, []⟩ tenantId := by
    simp only [getAllPeriods, BillingTables.getAllPeriods, utf8Bytes_le_iff]
  rw [hbytes]
  exact BillingTables.periodHistory_getAllPeriods ⟨q.usage, 0, []⟩ tenantId

theorem InMemoryCounts.periodHistory_getAllPeriods (m : InMemoryCounts) (tenantId : String) :
    PeriodHistory (filedCounts m.counts tenantId) (m.getAllPeriods tenantId) :=
  ECN.periodHistory_getAllPeriods ⟨m.counts, 0, [], .empty, .empty⟩ tenantId

namespace InMemoryCounts.Matches

variable {m : InMemoryCounts} {q : SQLiteBillingStore}

theorem increment (h : m.Matches q) (tenantId period : String) :
    (m.increment tenantId period).Matches (q.increment tenantId period) := by
  intro key
  rw [SQLiteBillingStore.increment_eq]
  simp only [InMemoryCounts.increment, OrderedDict.increment, OrderedDict.get?_set,
    OrderedDict.getD, h key, h (tenantId, period)]

theorem getCount (h : m.Matches q) (tenantId period : String) :
    m.getCount tenantId period = q.getCount tenantId period := by
  rw [SQLiteBillingStore.getCount_eq, InMemoryCounts.getCount, OrderedDict.getD, OrderedDict.getD,
    h (tenantId, period)]

/-- There is one history of the same counters. -/
theorem getAllPeriods (h : m.Matches q) (tenantId : String) :
    m.getAllPeriods tenantId = q.getAllPeriods tenantId := by
  have hfiled : filedCounts m.counts tenantId = filedCounts q.usage tenantId := by
    funext period
    exact h (tenantId, period)
  have hhistory := m.periodHistory_getAllPeriods tenantId
  rw [hfiled] at hhistory
  exact hhistory.unique (q.periodHistory_getAllPeriods tenantId)

end InMemoryCounts.Matches

namespace InMemoryLedger.Matches

variable {m : InMemoryLedger} {q : SQLiteBillingLedger}

theorem appendEntry (h : m.Matches q) (txId tenantId period : String) (nodeRoundCount : ℕ)
    (billedAmount : ℚ) (consensusReached : Bool) (now now' : ℕ) :
    (m.appendEntry txId tenantId period nodeRoundCount billedAmount consensusReached now).Matches
      (q.appendEntry txId tenantId period nodeRoundCount billedAmount consensusReached now') := by
  refine ⟨congrArg (· + 1) h.seq, ?_⟩
  have hflag : ((if consensusReached then 1 else 0 : ℤ) ≠ 0) = (consensusReached = true) := by
    cases consensusReached <;> simp
  simp [InMemoryLedger.appendEntry, SQLiteBillingLedger.appendEntry, SQLiteBillingLedger.insert,
    h.entries, h.seq, LedgerRow.entry, LedgerEntry.untimed, hflag]

theorem loadEntries (h : m.Matches q) (tenantId : String) :
    (m.loadEntries tenantId).map LedgerEntry.untimed =
      (q.loadEntries tenantId).map LedgerEntry.untimed := by
  have hfilter (entries : List LedgerEntry) :
      (entries.filter fun e => e.tenantId = tenantId).map LedgerEntry.untimed =
        (entries.map LedgerEntry.untimed).filter fun e => e.tenantId = tenantId := by
    rw [List.filter_map]
    rfl
  rw [SQLiteBillingLedger.loadEntries_eq, InMemoryLedger.loadEntries, hfilter, hfilter, h.entries]

end InMemoryLedger.Matches

/-- Both parts match. -/
structure MemoryBackend.Matches (m : MemoryBackend) (q : SQLiteBackend) : Prop where
  counts : m.counts.Matches q.store
  ledger : m.ledger.Matches q.ledger

/-- One call: the back-ends still match, and answer alike. -/
theorem MemoryBackend.Matches.respond {m : MemoryBackend} {q : SQLiteBackend} (h : m.Matches q)
    (c : TimedCall) : (m.respond c).1.Matches (q.respond c).1 ∧
      (m.respond c).2.untimed = (q.respond c).2.untimed := by
  obtain ⟨call, memoryTime, sqliteTime⟩ := c
  cases call with
  | increment tenantId period => exact ⟨⟨h.counts.increment tenantId period, h.ledger⟩, rfl⟩
  | appendEntry txId tenantId period nodeRoundCount billedAmount consensusReached =>
    exact ⟨⟨h.counts, h.ledger.appendEntry txId tenantId period nodeRoundCount billedAmount
      consensusReached memoryTime sqliteTime⟩, rfl⟩
  | getCount tenantId period =>
    exact ⟨h, congrArg BillingAnswer.count (h.counts.getCount tenantId period)⟩
  | getAllPeriods tenantId =>
    exact ⟨h, congrArg BillingAnswer.periods (h.counts.getAllPeriods tenantId)⟩
  | loadEntries tenantId =>
    exact ⟨h, congrArg BillingAnswer.entries (h.ledger.loadEntries tenantId)⟩

/-- The two implementations give the same answers to every sequence of calls, the times of
the entries aside. -/
theorem billing_backends_equivalent (calls : List TimedCall) :
    (answers MemoryBackend.respond .new calls).map BillingAnswer.untimed =
      (answers SQLiteBackend.respond .new calls).map BillingAnswer.untimed := by
  refine answers_of_simulation (fun m q c (h : MemoryBackend.Matches m q) => h.respond c) ?_ calls
  exact ⟨fun _ => rfl, rfl, rfl⟩

end ECN
