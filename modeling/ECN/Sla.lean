import ECN.BillingReports
import ECN.Runs

/-!
# Service levels over periods and restarts

With database stores the usage counters and the ledger outlive the process, while the
counters of the service level live in memory and know no periods. They agree with the
ledger in exactly those runs in which the tracker restarts only while the ledger holds
nothing for the current period, and a period is left only for one of equal tallies.
-/
namespace ECN

/-! ## The tables -/

/-- A row of `billing_ledger`, with the flag as an integer. -/
structure LedgerRow where
  ledgerId : ℕ
  txId : String
  tenantId : String
  period : String
  nodeRoundCount : ℕ
  billedAmount : ℚ
  consensusReached : ℤ
  recordedAt : ℕ

/-- The entry that `load_entries` builds from a row. -/
def LedgerRow.entry (row : LedgerRow) : LedgerEntry :=
  ⟨row.ledgerId, row.txId, row.tenantId, row.period, row.nodeRoundCount, row.billedAmount,
    row.consensusReached ≠ 0, row.recordedAt⟩

/-- The usage counters and the ledger of one database; `sequence` is the last id that the
ledger's autoincrement has given out. -/
structure BillingTables where
  usage : OrderedDict (String × String) ℕ
  sequence : ℕ
  ledger : List LedgerRow

namespace BillingTables

def empty : BillingTables := ⟨.empty, 0, []⟩

/-- Insert the counter at one, or add one to it. -/
def increment (tables : BillingTables) (tenantId period : String) : BillingTables :=
  { tables with usage := tables.usage.increment (tenantId, period) }

def appendEntry (tables : BillingTables) (txId tenantId period : String) (nodeRoundCount : ℕ)
    (billedAmount : ℚ) (consensusReached : Bool) (recordedAt : ℕ) : BillingTables :=
  { tables with
    sequence := tables.sequence + 1
    ledger := tables.ledger ++ [⟨tables.sequence + 1, txId, tenantId, period, nodeRoundCount,
      billedAmount, if consensusReached then 1 else 0, recordedAt⟩] }

/-- The ledger entries of a tenant, by their ids. -/
def loadEntries (tables : BillingTables) (tenantId : String) : List LedgerEntry :=
  (tables.ledger.filter fun row => row.tenantId = tenantId).map LedgerRow.entry

end BillingTables

/-! ## The tracker -/

/-- A tracker over database stores, with the current tier and period. The last two
counters are in memory. -/
structure DurableTracker where
  tables : BillingTables
  total : OrderedDict String ℕ
  faults : OrderedDict String ℕ
  tier : PricingTier
  period : String

/-- A round is recorded, the clock enters another period, or the process restarts. -/
inductive BillingEvent where
  | recordRound (tenantId txId : String) (nodeCount : ℕ) (consensusReached : Bool) (now : ℕ)
  | enterPeriod (period : String)
  | restart

namespace DurableTracker

/-- A tracker over a new database. -/
def start (tier : PricingTier) (period : String) : DurableTracker :=
  ⟨.empty, .empty, .empty, tier, period⟩

variable (R : Rounding)

/-- Count the round, append it to the ledger, and update the service level. -/
def recordRound (s : DurableTracker) (tenantId txId : String) (nodeCount : ℕ)
    (consensusReached : Bool) (now : ℕ) : DurableTracker :=
  { s with
    tables := (s.tables.increment tenantId s.period).appendEntry txId tenantId s.period nodeCount
      (computeBilledAmount R nodeCount s.tier) consensusReached now
    total := s.total.increment tenantId
    faults := if consensusReached then s.faults else s.faults.increment tenantId }

def step (s : DurableTracker) : BillingEvent → DurableTracker
  | .recordRound tenantId txId nodeCount consensusReached now =>
    s.recordRound R tenantId txId nodeCount consensusReached now
  | .enterPeriod period => { s with period }
  | .restart => { s with total := .empty, faults := .empty }

def getSla (s : DurableTracker) (tenantId : String) : SlaResponse :=
  slaReport R s.tier tenantId (s.total.getD tenantId 0) (s.faults.getD tenantId 0)

/-! ## Tallies of the ledger -/

/-- The ledger entries of a tenant that belong to a period. -/
def entriesIn (s : DurableTracker) (tenantId period : String) : List LedgerEntry :=
  (s.tables.loadEntries tenantId).filter fun e => e.period = period

def roundsIn (s : DurableTracker) (tenantId period : String) : ℕ :=
  (s.entriesIn tenantId period).length

def faultsIn (s : DurableTracker) (tenantId period : String) : ℕ :=
  ((s.entriesIn tenantId period).filter fun e => !e.consensusReached).length

/-- The service level of every tenant is that of its ledger entries of the current
period. -/
def SlaCurrent (s : DurableTracker) : Prop :=
  ∀ tenantId,
    (s.getSla R tenantId).totalRounds = s.roundsIn tenantId s.period ∧
    (s.getSla R tenantId).faultRounds = s.faultsIn tenantId s.period ∧
    ((s.getSla R tenantId).slaMet = true ↔ R s.tier.slaThreshold ≤
      consensusRate R (s.roundsIn tenantId s.period) (s.faultsIn tenantId s.period))

/-- No restart while the ledger has entries of the current period, and no change to a
period of other tallies. -/
def KeepsSla (s : DurableTracker) : BillingEvent → Prop
  | .recordRound _ _ _ _ _ => True
  | .enterPeriod period => ∀ tenantId,
    s.roundsIn tenantId period = s.roundsIn tenantId s.period ∧
      s.faultsIn tenantId period = s.faultsIn tenantId s.period
  | .restart => ∀ tenantId, s.entriesIn tenantId s.period = []

/-! ## One event -/

theorem slaCurrent_iff_tallies (s : DurableTracker) : s.SlaCurrent R ↔ ∀ tenantId,
    s.total.getD tenantId 0 = s.roundsIn tenantId s.period ∧
      s.faults.getD tenantId 0 = s.faultsIn tenantId s.period := by
  constructor
  · intro h tenantId
    obtain ⟨htotal, hfaults, -⟩ := h tenantId
    exact ⟨htotal, hfaults⟩
  · intro h tenantId
    obtain ⟨htotal, hfaults⟩ := h tenantId
    refine ⟨htotal, hfaults, ?_⟩
    rw [← htotal, ← hfaults, getSla, slaReport, decide_eq_true_iff]

/-- A recorded round adds one entry, to its tenant and the current period. -/
theorem entriesIn_recordRound (s : DurableTracker) (tenantId txId : String) (nodeCount : ℕ)
    (consensusReached : Bool) (now : ℕ) : ∃ e : LedgerEntry,
      e.consensusReached = consensusReached ∧ ∀ t p,
        (s.recordRound R tenantId txId nodeCount consensusReached now).entriesIn t p =
          s.entriesIn t p ++ if tenantId = t ∧ s.period = p then [e] else [] := by
  let row : LedgerRow := ⟨s.tables.sequence + 1, txId, tenantId, s.period, nodeCount,
    computeBilledAmount R nodeCount s.tier, if consensusReached then 1 else 0, now⟩
  refine ⟨row.entry, ?_, fun t p => ?_⟩
  · cases consensusReached <;> rfl
  · have hledger : (s.recordRound R tenantId txId nodeCount consensusReached now).tables.ledger =
        s.tables.ledger ++ [row] := rfl
    simp only [entriesIn, BillingTables.loadEntries, hledger, List.filter_append, List.map_append]
    by_cases ht : tenantId = t
    · by_cases hp : s.period = p <;> simp [row, LedgerRow.entry, ht, hp]
    · simp [row, ht]

theorem slaCurrent_recordRound {s : DurableTracker} (h : s.SlaCurrent R) (tenantId txId : String)
    (nodeCount : ℕ) (consensusReached : Bool) (now : ℕ) :
    (s.recordRound R tenantId txId nodeCount consensusReached now).SlaCurrent R := by
  rw [slaCurrent_iff_tallies] at h ⊢
  obtain ⟨e, he, hentries⟩ :=
    s.entriesIn_recordRound R tenantId txId nodeCount consensusReached now
  intro t
  obtain ⟨htotal, hfaults⟩ := h t
  have hperiod : (s.recordRound R tenantId txId nodeCount consensusReached now).period =
      s.period := rfl
  simp only [roundsIn, faultsIn, hperiod, hentries, and_true] at htotal hfaults ⊢
  constructor
  · rw [recordRound, OrderedDict.getD_increment, htotal]
    by_cases ht : tenantId = t <;> simp [ht]
  · cases hc : consensusReached
    · rw [recordRound, if_neg (by simp), OrderedDict.getD_increment, hfaults]
      by_cases ht : tenantId = t <;> simp [ht, he, hc]
    · rw [recordRound, if_pos rfl, hfaults]
      by_cases ht : tenantId = t <;> simp [ht, he, hc]

theorem slaCurrent_step {s : DurableTracker} (h : s.SlaCurrent R) (event : BillingEvent) :
    (s.step R event).SlaCurrent R ↔ s.KeepsSla event := by
  cases event with
  | recordRound tenantId txId nodeCount consensusReached now =>
    exact iff_of_true (slaCurrent_recordRound R h tenantId txId nodeCount consensusReached now)
      trivial
  | enterPeriod period =>
    rw [slaCurrent_iff_tallies] at h ⊢
    refine forall_congr' fun t => ?_
    obtain ⟨htotal, hfaults⟩ := h t
    show (s.total.getD t 0 = s.roundsIn t period ∧ s.faults.getD t 0 = s.faultsIn t period) ↔ _
    rw [htotal, hfaults]
    exact and_congr eq_comm eq_comm
  | restart =>
    rw [slaCurrent_iff_tallies]
    refine forall_congr' fun t => ?_
    show (0 = s.roundsIn t s.period ∧ 0 = s.faultsIn t s.period) ↔ s.entriesIn t s.period = []
    constructor
    · intro hzero
      exact List.length_eq_zero_iff.mp hzero.1.symm
    · intro hnil
      simp [roundsIn, faultsIn, hnil]

/-! ## Runs -/

/-- The service levels are those of the ledger throughout a run exactly when every step
of the run keeps the tallies of the current period. -/
theorem slaCurrent_iff (tier : PricingTier) (period : String) (events : List BillingEvent) :
    Throughout (step R) (SlaCurrent R) (start tier period) events ↔
      StepsMeet (step R) KeepsSla (start tier period) events := by
  refine throughout_iff_stepsMeet (I := fun _ => True) (fun _ _ _ _ => trivial)
    (fun s event _ h => slaCurrent_step R h event) trivial ?_
  rw [slaCurrent_iff_tallies]
  intro t
  exact ⟨rfl, rfl⟩

/-- One round without consensus. -/
def failedRound : BillingEvent := .recordRound "acme" "tx-1" 5 false 0

/-- A restart forgets the fault of the current period, and the next period inherits it. -/
theorem sla_not_current :
    ¬ Throughout (step .binary64) (SlaCurrent .binary64) (start .standard "2024-01")
        [failedRound, .restart] ∧
      ¬ Throughout (step .binary64) (SlaCurrent .binary64) (start .standard "2024-01")
        [failedRound, .enterPeriod "2024-02"] := by
  constructor
  · intro h
    obtain ⟨htotal, -⟩ := h.last "acme"
    exact absurd htotal (by decide)
  · intro h
    obtain ⟨htotal, -⟩ := h.last "acme"
    exact absurd htotal (by decide)

end DurableTracker
end ECN
