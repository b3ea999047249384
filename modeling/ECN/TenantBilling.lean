import ECN.Sla

/-!
# The tracker that all tenants share

The counters, the ledger and the service levels of all tenants are kept together, in memory
or in a database, and a tenant is told of them only what is filed under its id. `billsOf`
is that part of the tracker. A round changes it for the tenant that is charged, in a way
that depends on it alone, and every report of a tenant can be read off it, the numbers of
the ledger entries aside.
-/
namespace ECN

/-! ## Histories of usage -/

/-- The counters that are filed, one for each period, in the order of the periods. -/
structure PeriodHistory (filed : String → Option ℕ) (history : List PeriodCount) : Prop where
  ordered : history.Pairwise fun a b => a.period ≤ b.period
  nodup : history.Nodup
  mem_iff : ∀ c, c ∈ history ↔ filed c.period = some c.roundCount

theorem PeriodHistory.unique {filed : String → Option ℕ} {history history' : List PeriodCount}
    (h : PeriodHistory filed history) (h' : PeriodHistory filed history') : history = history' := by
  have hperm : history.Perm history' := by
    rw [List.perm_ext_iff_of_nodup h.nodup h'.nodup]
    intro c
    rw [h.mem_iff, h'.mem_iff]
  refine hperm.eq_of_pairwise ?_ h.ordered h'.ordered
  intro a b ha hb hab hba
  have hperiod : a.period = b.period := le_antisymm hab hba
  have hcount : some a.roundCount = some b.roundCount := by
    rw [← (h.mem_iff a).mp ha, ← (h'.mem_iff b).mp hb, hperiod]
  cases a
  cases b
  simp_all

/-- The counters of one tenant. -/
def filedCounts (counts : OrderedDict (String × String) ℕ) (tenantId period : String) : Option ℕ :=
  counts.get? (tenantId, period)

/-- The entry of a tenant's counter, if it is one of its own. -/
def ownCount (tenantId : String) (e : String × String × ℕ) : Option PeriodCount :=
  if e.1 = tenantId then some ⟨e.2.1, e.2.2⟩ else none

theorem ownCount_eq_some {tenantId : String} {e : String × String × ℕ} {c : PeriodCount} :
    ownCount tenantId e = some c ↔ e = (tenantId, c.period, c.roundCount) := by
  obtain ⟨tid, period, count⟩ := e
  obtain ⟨period', count'⟩ := c
  simp [ownCount]

/-- The own counters in any list of all counters. -/
theorem mem_filterMap_ownCount {counts : OrderedDict (String × String) ℕ}
    {listed : List (String × String × ℕ)}
    (hperm : listed.Perm (counts.entries.map fun e => (e.1.1, e.1.2, e.2))) (tenantId : String)
    (c : PeriodCount) :
    c ∈ listed.filterMap (ownCount tenantId) ↔
      filedCounts counts tenantId c.period = some c.roundCount := by
  simp only [List.mem_filterMap, ownCount_eq_some, filedCounts, OrderedDict.get?_eq_some_iff,
    exists_eq_right, hperm.mem_iff, List.mem_map, Prod.mk.injEq]
  constructor
  · rintro ⟨⟨⟨tid, period⟩, count⟩, he, rfl, rfl, rfl⟩
    exact he
  · intro he
    exact ⟨_, he, rfl, rfl, rfl⟩

theorem nodup_filterMap_ownCount {counts : OrderedDict (String × String) ℕ}
    {listed : List (String × String × ℕ)}
    (hperm : listed.Perm (counts.entries.map fun e => (e.1.1, e.1.2, e.2))) (tenantId : String) :
    (listed.filterMap (ownCount tenantId)).Nodup := by
  have hinj : Function.Injective fun e : (String × String) × ℕ => (e.1.1, e.1.2, e.2) := by
    rintro ⟨⟨tid, period⟩, count⟩ ⟨⟨tid', period'⟩, count'⟩ h
    simpa [and_assoc] using h
  have hlisted : listed.Nodup := hperm.nodup_iff.mpr (counts.nodup.of_map.map hinj)
  refine hlisted.filterMap ?_
  intro e e' c he he'
  rw [Option.mem_def, ownCount_eq_some] at he he'
  rw [he, he']

/-- Own counters in the order of tenant, period and count are in the order of periods. -/
theorem period_le_of_ownCount {tenantId : String} {e e' : String × String × ℕ}
    (h : toLex (e.1, toLex e.2) ≤ toLex (e'.1, toLex e'.2)) {c c' : PeriodCount}
    (hc : ownCount tenantId e = some c) (hc' : ownCount tenantId e' = some c') :
    c.period ≤ c'.period := by
  rw [ownCount_eq_some] at hc hc'
  subst hc hc'
  rcases Prod.Lex.toLex_le_toLex.mp h with hlt | ⟨-, hle⟩
  · exact absurd hlt (lt_irrefl _)
  · rcases Prod.Lex.toLex_le_toLex.mp hle with hlt | ⟨heq, -⟩
    · exact hlt.le
    · exact heq.le

theorem periodHistory_getAllPeriods (tracker : BillingTracker) (tenantId : String) :
    PeriodHistory (filedCounts tracker.counts tenantId) (tracker.getAllPeriods tenantId) := by
  have hperm : (sortedCounts tracker.counts).Perm _ := List.mergeSort_perm _ _
  refine ⟨?_, nodup_filterMap_ownCount hperm tenantId, mem_filterMap_ownCount hperm tenantId⟩
  have hsorted : (sortedCounts tracker.counts).Pairwise fun a b =>
      decide (toLex (a.1, toLex a.2) ≤ toLex (b.1, toLex b.2)) = true :=
    List.pairwise_mergeSort (by simpa using fun _ _ _ _ _ _ _ _ _ => le_trans)
      (by simpa using fun _ _ _ _ _ _ => le_total _ _) _
  refine hsorted.filterMap _ ?_
  intro e e' h c hc c' hc'
  exact period_le_of_ownCount (of_decide_eq_true h) hc hc'

namespace BillingTables

/-- The counters of a tenant, by their periods. -/
def getAllPeriods (tables : BillingTables) (tenantId : String) : List PeriodCount :=
  ((tables.usage.entries.map fun e => (e.1.1, e.1.2, e.2)).filterMap
    (ownCount tenantId)).mergeSort fun a b => decide (a.period ≤ b.period)

theorem periodHistory_getAllPeriods (tables : BillingTables) (tenantId : String) :
    PeriodHistory (filedCounts tables.usage tenantId) (tables.getAllPeriods tenantId) := by
  have hperm : (tables.getAllPeriods tenantId).Perm _ := List.mergeSort_perm _ _
  refine ⟨?_, hperm.nodup_iff.mpr (nodup_filterMap_ownCount (List.Perm.refl _) tenantId), ?_⟩
  · have hsorted : (tables.getAllPeriods tenantId).Pairwise fun a b =>
        decide (a.period ≤ b.period) = true :=
      List.pairwise_mergeSort
        (fun a b c hab hbc => by
          simpa using le_trans (of_decide_eq_true hab) (of_decide_eq_true hbc))
        (fun a b => by simpa using le_total a.period b.period) _
    exact hsorted.imp of_decide_eq_true
  · intro c
    rw [hperm.mem_iff]
    exact mem_filterMap_ownCount (List.Perm.refl _) tenantId c

end BillingTables

/-! ## The tracker -/

/-- The tracker of all tenants: database stores, if they are configured, and what it keeps
in memory. -/
structure SharedTracker where
  tables : Option BillingTables
  memory : BillingTracker

namespace SharedTracker

variable (R : Rounding)

/-- Record one completed round. -/
def recordRound (tracker : SharedTracker) (ctx : BillingContext) (tenantId txId : String)
    (nodeCount : ℕ) (consensusReached : Bool) : SharedTracker :=
  match tracker.tables with
  | none =>
    { tracker with
      memory := (tracker.memory.recordRound R ctx tenantId txId nodeCount consensusReached).1 }
  | some tables =>
    { tables := some ((tables.increment tenantId ctx.period).appendEntry txId tenantId ctx.period
        nodeCount (computeBilledAmount R nodeCount ctx.tier) consensusReached ctx.now)
      memory := { tracker.memory with
        total := tracker.memory.total.increment tenantId
        faults := if consensusReached then tracker.memory.faults
          else tracker.memory.faults.increment tenantId } }

/-- The counters of all tenants and periods. -/
def counts (tracker : SharedTracker) : OrderedDict (String × String) ℕ :=
  match tracker.tables with
  | none => tracker.memory.counts
  | some tables => tables.usage

def getAllPeriods (tracker : SharedTracker) (tenantId : String) : List PeriodCount :=
  match tracker.tables with
  | none => tracker.memory.getAllPeriods tenantId
  | some tables => tables.getAllPeriods tenantId

/-- Usage of a tenant in the current period and before. -/
def getUsage (tracker : SharedTracker) (tenantId period : String) : UsageResponse where
  tenantId
  currentPeriod := period
  roundCount := tracker.counts.getD (tenantId, period) 0
  allPeriods := tracker.getAllPeriods tenantId

/-- The ledger entries of a tenant. -/
def getBillingLedger (tracker : SharedTracker) (tenantId : String) : List LedgerEntry :=
  match tracker.tables with
  | none => tracker.memory.getBillingLedger tenantId
  | some tables => tables.loadEntries tenantId

/-- The service level of a tenant. -/
def getSla (tracker : SharedTracker) (tier : PricingTier) (tenantId : String) : SlaResponse :=
  tracker.memory.getSla R tier tenantId

end SharedTracker

/-! ## The bills of one tenant -/

/-- An entry without its number in the ledger. -/
def LedgerEntry.unnumbered (e : LedgerEntry) : LedgerEntry := { e with ledgerId := 0 }

/-- What is filed under the id of one tenant. -/
@[ext] structure TenantBills where
  counts : String → Option ℕ
  entries : List LedgerEntry
  total : ℕ
  faults : ℕ

namespace TenantBills

variable (R : Rounding)

/-- A round of the tenant itself. -/
def recordRound (bills : TenantBills) (ctx : BillingContext) (tenantId txId : String)
    (nodeCount : ℕ) (consensusReached : Bool) : TenantBills where
  counts period :=
    if period = ctx.period then some ((bills.counts period).getD 0 + 1) else bills.counts period
  entries := bills.entries ++ [⟨0, txId, tenantId, ctx.period, nodeCount,
    computeBilledAmount R nodeCount ctx.tier, consensusReached, ctx.now⟩]
  total := bills.total + 1
  faults := bills.faults + if consensusReached then 0 else 1

end TenantBills

namespace SharedTracker

variable (R : Rounding)

/-- The part of the tracker that is filed under a tenant's id, unnumbered. -/
def billsOf (tracker : SharedTracker) (tenantId : String) : TenantBills where
  counts := filedCounts tracker.counts tenantId
  entries := (tracker.getBillingLedger tenantId).map LedgerEntry.unnumbered
  total := tracker.memory.total.getD tenantId 0
  faults := tracker.memory.faults.getD tenantId 0

theorem counts_recordRound (tracker : SharedTracker) (ctx : BillingContext)
    (tenantId txId : String) (nodeCount : ℕ) (consensusReached : Bool) :
    (tracker.recordRound R ctx tenantId txId nodeCount consensusReached).counts =
      tracker.counts.increment (tenantId, ctx.period) := by
  unfold recordRound counts
  cases tracker.tables with
  | none => rfl
  | some tables => rfl

/-- A round adds one entry to the ledger of its own tenant. -/
theorem entries_recordRound (tracker : SharedTracker) (ctx : BillingContext)
    (tenantId txId : String) (nodeCount : ℕ) (consensusReached : Bool) (t : String) :
    ((tracker.recordRound R ctx tenantId txId nodeCount consensusReached).billsOf t).entries =
      (tracker.billsOf t).entries ++ if tenantId = t then
        [⟨0, txId, tenantId, ctx.period, nodeCount, computeBilledAmount R nodeCount ctx.tier,
          consensusReached, ctx.now⟩] else [] := by
  unfold billsOf recordRound getBillingLedger
  cases tracker.tables with
  | none =>
    simp only [BillingTracker.getBillingLedger_recordRound]
    by_cases ht : tenantId = t <;>
      simp [ht, BillingTracker.nextEntry, LedgerEntry.unnumbered]
  | some tables =>
    by_cases ht : tenantId = t <;>
      simp [ht, BillingTables.loadEntries, BillingTables.appendEntry, BillingTables.increment,
        LedgerRow.entry, LedgerEntry.unnumbered]

theorem counts_billsOf_recordRound (tracker : SharedTracker) (ctx : BillingContext)
    (tenantId txId : String) (nodeCount : ℕ) (consensusReached : Bool) (t period : String) :
    ((tracker.recordRound R ctx tenantId txId nodeCount consensusReached).billsOf t).counts period =
      if tenantId = t ∧ period = ctx.period then
        some (((tracker.billsOf t).counts period).getD 0 + 1)
      else (tracker.billsOf t).counts period := by
  simp only [billsOf, filedCounts, counts_recordRound, OrderedDict.increment, OrderedDict.get?_set,
    OrderedDict.getD, Prod.mk.injEq]
  by_cases h : t = tenantId ∧ period = ctx.period
  · obtain ⟨rfl, rfl⟩ := h
    simp
  · rw [if_neg h, if_neg fun h' => h ⟨h'.1.symm, h'.2⟩]

theorem total_recordRound (tracker : SharedTracker) (ctx : BillingContext)
    (tenantId txId : String) (nodeCount : ℕ) (consensusReached : Bool) (t : String) :
    ((tracker.recordRound R ctx tenantId txId nodeCount consensusReached).billsOf t).total =
      (tracker.billsOf t).total + if tenantId = t then 1 else 0 := by
  unfold billsOf recordRound
  cases tracker.tables with
  | none => exact OrderedDict.getD_increment _ _ _
  | some tables => exact OrderedDict.getD_increment _ _ _

theorem faults_recordRound (tracker : SharedTracker) (ctx : BillingContext)
    (tenantId txId : String) (nodeCount : ℕ) (consensusReached : Bool) (t : String) :
    ((tracker.recordRound R ctx tenantId txId nodeCount consensusReached).billsOf t).faults =
      (tracker.billsOf t).faults + if tenantId = t ∧ consensusReached = false then 1 else 0 := by
  unfold billsOf recordRound
  cases tracker.tables with
  | none =>
    cases consensusReached with
    | true => simp [BillingTracker.recordRound]
    | false => simp [BillingTracker.recordRound, OrderedDict.getD_increment]
  | some tables =>
    cases consensusReached with
    | true => simp
    | false => simp [OrderedDict.getD_increment]

/-- The bills of the tenant that is charged follow from its own, and all others stay. -/
theorem billsOf_recordRound (tracker : SharedTracker) (ctx : BillingContext)
    (tenantId txId : String) (nodeCount : ℕ) (consensusReached : Bool) (t : String) :
    (tracker.recordRound R ctx tenantId txId nodeCount consensusReached).billsOf t =
      if tenantId = t then
        (tracker.billsOf t).recordRound R ctx tenantId txId nodeCount consensusReached
      else tracker.billsOf t := by
  refine TenantBills.ext ?_ ?_ ?_ ?_
  · funext period
    rw [counts_billsOf_recordRound]
    by_cases ht : tenantId = t <;> simp [ht, TenantBills.recordRound]
  · rw [entries_recordRound]
    by_cases ht : tenantId = t <;> simp [ht, TenantBills.recordRound]
  · rw [total_recordRound]
    by_cases ht : tenantId = t <;> simp [ht, TenantBills.recordRound]
  · rw [faults_recordRound]
    by_cases ht : tenantId = t <;> cases consensusReached <;> simp [ht, TenantBills.recordRound]

/-- The numbers tell of other tenants: the first round of `b` comes second in the ledger. -/
example :
    let tracker : SharedTracker := ⟨none, .empty⟩
    let ctx : BillingContext := ⟨.basic, "2026-04", 0⟩
    (((tracker.recordRound .exact ctx "a" "t1" 3 true).recordRound .exact ctx "b" "t2" 3
      true).getBillingLedger "b").map LedgerEntry.ledgerId = [2] := by
  decide +kernel

/-! ## Reports of one tenant -/

theorem periodHistory_getAllPeriods (tracker : SharedTracker) (tenantId : String) :
    PeriodHistory (tracker.billsOf tenantId).counts (tracker.getAllPeriods tenantId) := by
  unfold billsOf counts getAllPeriods
  cases tracker.tables with
  | none => exact ECN.periodHistory_getAllPeriods tracker.memory tenantId
  | some tables => exact tables.periodHistory_getAllPeriods tenantId

variable {tracker tracker' : SharedTracker} {tenantId : String}

theorem getUsage_congr (h : tracker.billsOf tenantId = tracker'.billsOf tenantId)
    (period : String) : tracker.getUsage tenantId period = tracker'.getUsage tenantId period := by
  have hcount : tracker.counts.getD (tenantId, period) 0 =
      tracker'.counts.getD (tenantId, period) 0 :=
    congrArg (fun bills : TenantBills => (bills.counts period).getD 0) h
  have hhistory := tracker.periodHistory_getAllPeriods tenantId
  rw [h] at hhistory
  rw [getUsage, getUsage, hcount,
    hhistory.unique (tracker'.periodHistory_getAllPeriods tenantId)]

theorem getBillingLedger_congr (h : tracker.billsOf tenantId = tracker'.billsOf tenantId) :
    (tracker.getBillingLedger tenantId).map LedgerEntry.unnumbered =
      (tracker'.getBillingLedger tenantId).map LedgerEntry.unnumbered :=
  congrArg TenantBills.entries h

theorem getSla_congr (h : tracker.billsOf tenantId = tracker'.billsOf tenantId)
    (tier : PricingTier) : tracker.getSla R tier tenantId = tracker'.getSla R tier tenantId :=
  congrArg (fun bills : TenantBills => slaReport R tier tenantId bills.total bills.faults) h

end SharedTracker
end ECN
