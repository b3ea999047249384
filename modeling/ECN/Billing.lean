import ECN.OrderedDict
import ECN.Rounding
import Mathlib.Data.String.Basic

/-!
# Usage-based billing

A resolved agreement event costs the node count times the price of the tier, rounded
to six decimals in the machine's arithmetic. Every recorded round increments a
counter, appends a ledger entry and updates the service-level statistics.
-/
namespace ECN

inductive PricingTier where
  | basic
  | standard
  | critical
  deriving DecidableEq, Repr

/-- The decimal constant in the table of tiers. -/
def PricingTier.price : PricingTier → ℚ
  | .basic => 1 / 1000
  | .standard => 5 / 1000
  | .critical => 20 / 1000

/-- The price as the program holds it. -/
def pricePerRmae (R : Rounding) (tier : PricingTier) : ℚ := R tier.price

/-- `round(x, 6)`: the nearest six-digit decimal, read back as a number. -/
def roundSix (R : Rounding) (x : ℚ) : ℚ := R (roundHalfEven (x * 1000000) / 1000000)

/-- Billed amount for one agreement event. -/
def computeBilledAmount (R : Rounding) (nodeCount : ℕ) (tier : PricingTier) : ℚ :=
  roundSix R (R (nodeCount * pricePerRmae R tier))

structure LedgerEntry where
  ledgerId : ℕ
  txId : String
  tenantId : String
  period : String
  nodeRoundCount : ℕ
  billedAmount : ℚ
  consensusReached : Bool
  recordedAt : ℕ

/-- In-memory counters, ledger and statistics. -/
structure BillingTracker where
  counts : OrderedDict (String × String) ℕ
  seq : ℕ
  entries : List LedgerEntry
  total : OrderedDict String ℕ
  faults : OrderedDict String ℕ

/-- The tier, the billing period and the time when a round is recorded. -/
structure BillingContext where
  tier : PricingTier
  period : String
  now : ℕ

namespace BillingTracker

def empty : BillingTracker := ⟨.empty, 0, [], .empty, .empty⟩

/-- Record one completed round; the second component is the amount billed. -/
def recordRound (R : Rounding) (ctx : BillingContext) (tracker : BillingTracker)
    (tenantId txId : String) (nodeCount : ℕ) (consensusReached : Bool) : BillingTracker × ℚ :=
  let billedAmount := computeBilledAmount R nodeCount ctx.tier
  ({ counts := tracker.counts.increment (tenantId, ctx.period)
     seq := tracker.seq + 1
     entries := tracker.entries ++ [⟨tracker.seq + 1, txId, tenantId, ctx.period, nodeCount,
       billedAmount, consensusReached, ctx.now⟩]
     total := tracker.total.increment tenantId
     faults := if consensusReached then tracker.faults else tracker.faults.increment tenantId },
    billedAmount)

end BillingTracker
end ECN
