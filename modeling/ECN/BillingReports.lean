import ECN.Billing
import Mathlib.Data.Prod.Lex

/-!
# What the billing tracker reports

The configuration of each pricing tier, and the three reports of one tenant: its usage
for each period, its ledger and its service level. The service level is computed from the
two counters that the tracker keeps for the tenant since it was created.
-/
namespace ECN

namespace PricingTier

def value : PricingTier → String
  | .basic => "basic"
  | .standard => "standard"
  | .critical => "critical"

/-- The decimal constant in the table of tiers. -/
def slaThreshold : PricingTier → ℚ
  | .basic => 95 / 100
  | .standard => 99 / 100
  | .critical => 9999 / 10000

/-- The decimal constant in the table of tiers. -/
def quorumThreshold : PricingTier → ℚ
  | .basic => 51 / 100
  | .standard => 67 / 100
  | .critical => 80 / 100

def description : PricingTier → String
  | .basic => "Internal workflows — 95% consensus SLA"
  | .standard => "Logistics — 99% consensus SLA"
  | .critical => "Financial settlement — 99.99% consensus SLA"

end PricingTier

/-! ## Reports -/

structure PeriodCount where
  period : String
  roundCount : ℕ
  deriving DecidableEq

structure UsageResponse where
  tenantId : String
  currentPeriod : String
  roundCount : ℕ
  allPeriods : List PeriodCount

structure SlaResponse where
  tenantId : String
  tier : PricingTier
  slaThreshold : ℚ
  quorumThreshold : ℚ
  pricePerRmae : ℚ
  description : String
  totalRounds : ℕ
  faultRounds : ℕ
  faultRate : ℚ
  consensusRate : ℚ
  slaMet : Bool
  creditsEarned : ℚ

section Reports

variable (R : Rounding)

/-- `round(x, 4)`: the nearest four-digit decimal, read back as a number. -/
def roundFour (x : ℚ) : ℚ := R (roundHalfEven (x * 10000) / 10000)

def consensusRate (total faultRounds : ℕ) : ℚ :=
  if 0 < total then R (((total : ℚ) - faultRounds) / total) else 1

def faultRate (total faultRounds : ℕ) : ℚ :=
  if 0 < total then R ((faultRounds : ℚ) / total) else 0

/-- The service level of a tenant with so many rounds and so many without consensus. -/
def slaReport (tier : PricingTier) (tenantId : String) (total faultRounds : ℕ) : SlaResponse where
  tenantId
  tier
  slaThreshold := R tier.slaThreshold
  quorumThreshold := R tier.quorumThreshold
  pricePerRmae := pricePerRmae R tier
  description := tier.description
  totalRounds := total
  faultRounds
  faultRate := roundFour R (faultRate R total faultRounds)
  consensusRate := roundFour R (consensusRate R total faultRounds)
  slaMet := R tier.slaThreshold ≤ consensusRate R total faultRounds
  creditsEarned := 0

/-- The counters of all tenants, in the order of tenant, period and count. -/
def sortedCounts (counts : OrderedDict (String × String) ℕ) : List (String × String × ℕ) :=
  (counts.entries.map fun e => (e.1.1, e.1.2, e.2)).mergeSort
    fun a b => decide (toLex (a.1, toLex a.2) ≤ toLex (b.1, toLex b.2))

namespace BillingTracker

def getAllPeriods (tracker : BillingTracker) (tenantId : String) : List PeriodCount :=
  (sortedCounts tracker.counts).filterMap fun e =>
    if e.1 = tenantId then some ⟨e.2.1, e.2.2⟩ else none

/-- Usage of a tenant in the current period and before. -/
def getUsage (tracker : BillingTracker) (tenantId period : String) : UsageResponse where
  tenantId
  currentPeriod := period
  roundCount := tracker.counts.getD (tenantId, period) 0
  allPeriods := tracker.getAllPeriods tenantId

/-- The ledger entries of a tenant. -/
def getBillingLedger (tracker : BillingTracker) (tenantId : String) : List LedgerEntry :=
  tracker.entries.filter fun e => e.tenantId = tenantId

/-- The service level of a tenant. -/
def getSla (tracker : BillingTracker) (tier : PricingTier) (tenantId : String) : SlaResponse :=
  slaReport R tier tenantId (tracker.total.getD tenantId 0) (tracker.faults.getD tenantId 0)

/-- The entry that the next round adds. -/
def nextEntry (tracker : BillingTracker) (ctx : BillingContext) (tenantId txId : String)
    (nodeCount : ℕ) (consensusReached : Bool) : LedgerEntry :=
  ⟨tracker.seq + 1, txId, tenantId, ctx.period, nodeCount, computeBilledAmount R nodeCount ctx.tier,
    consensusReached, ctx.now⟩

theorem entries_recordRound (tracker : BillingTracker) (ctx : BillingContext)
    (tenantId txId : String) (nodeCount : ℕ) (consensusReached : Bool) :
    (tracker.recordRound R ctx tenantId txId nodeCount consensusReached).1.entries =
      tracker.entries ++ [tracker.nextEntry R ctx tenantId txId nodeCount consensusReached] := rfl

/-- A round adds one entry, to the ledger of its own tenant. -/
theorem getBillingLedger_recordRound (tracker : BillingTracker) (ctx : BillingContext)
    (tenantId txId : String) (nodeCount : ℕ) (consensusReached : Bool) (t : String) :
    (tracker.recordRound R ctx tenantId txId nodeCount consensusReached).1.getBillingLedger t =
      tracker.getBillingLedger t ++ if tenantId = t then
        [tracker.nextEntry R ctx tenantId txId nodeCount consensusReached] else [] := by
  unfold getBillingLedger
  rw [entries_recordRound, List.filter_append]
  by_cases ht : tenantId = t <;> simp [nextEntry, ht]

end BillingTracker
end Reports
end ECN
