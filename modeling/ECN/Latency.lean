import ECN.HealthLifecycle
import ECN.OrderStatistics
import ECN.Rounding

/-!
# Latency percentiles

A node's record keeps the latencies of its last responses. The reported percentile is the
one latency among them that at most nineteen in twenty are below and more than nineteen in
twenty are not above.
-/
namespace ECN

open OrderStatistics

namespace NodeHealth

/-- `int(n * 0.95)`, which is a product of floats, within the list. -/
def p95Index (n : ℕ) : ℕ :=
  min ⌊Rounding.binary64 (n * Rounding.binary64 (95 / 100))⌋.toNat (n - 1)

/-- 95th-percentile latency over the rolling window, if there is any. -/
def p95LatencyMs (health : NodeHealth) : Option ℚ :=
  if health.latencySamples = [] then none
  else atRank health.latencySamples (p95Index health.latencySamples.length)

/-- For a window the rounding of the product does not show, and the index is in the list. -/
theorem p95Index_eq {n : ℕ} (hpos : 0 < n) (hn : n ≤ latencyWindow) : p95Index n = 19 * n / 20 := by
  have hall : ∀ n < latencyWindow + 1, 0 < n → p95Index n = 19 * n / 20 := by decide +kernel
  exact hall n (Nat.lt_succ_of_le hn) hpos

theorem recordSuccess_latencySamples (health : NodeHealth) (now : ℕ) (latencyMs : ℚ) :
    (health.recordSuccess now latencyMs).latencySamples =
      (health.latencySamples ++ [latencyMs]).drop
        ((health.latencySamples ++ [latencyMs]).length - latencyWindow) := by
  unfold recordSuccess
  dsimp only
  split
  · split
    · rfl
    · rfl
  · rfl
  · rfl
  · rfl

theorem recordFailure_latencySamples (health : NodeHealth) (now : ℕ) :
    (health.recordFailure now).latencySamples = health.latencySamples := by
  unfold recordFailure
  dsimp only
  split_ifs
  · rfl
  · rfl
  · rfl
  · rfl
  · rfl

end NodeHealth

/-! ## The window -/

/-- The latency that a call reports for a node. -/
def HealthCall.latency (nodeId : String) : HealthCall → Option ℚ
  | .success k _ latencyMs => if k = nodeId then some latencyMs else none
  | .failure _ _ => none

/-- The last latencies reported for a node. -/
def lastLatencies (calls : List HealthCall) (nodeId : String) : List ℚ :=
  let latencies := calls.filterMap (HealthCall.latency nodeId)
  latencies.drop (latencies.length - latencyWindow)

/-- The window of a longer list is made from the window of the list. -/
theorem drop_window (ls : List ℚ) (x : ℚ) :
    (ls.drop (ls.length - latencyWindow) ++ [x]).drop
        ((ls.drop (ls.length - latencyWindow) ++ [x]).length - latencyWindow) =
      (ls ++ [x]).drop ((ls ++ [x]).length - latencyWindow) := by
  have hle : ls.length - latencyWindow ≤ ls.length := Nat.sub_le _ _
  have hwindow : 0 < latencyWindow := by decide
  rw [← List.drop_append_of_le_length hle, List.drop_drop]
  congr 1
  simp only [List.length_drop, List.length_append, List.length_singleton]
  omega

namespace NodeHealthRegistry

/-- The record of a node holds its last latencies, whatever other calls were made. -/
theorem latencySamples_recordAll (calls : List HealthCall) (nodeId : String) :
    ((recordAll calls).get nodeId).latencySamples = lastLatencies calls nodeId := by
  induction calls using List.reverseRecOn with
  | nil => rfl
  | append_singleton calls call ih =>
    rw [recordAll_concat, get_record]
    have hsame (h : call.latency nodeId = none) :
        lastLatencies (calls ++ [call]) nodeId = lastLatencies calls nodeId := by
      simp [lastLatencies, h]
    by_cases hid : call.nodeId = nodeId
    · rw [if_pos hid]
      cases call with
      | failure k now =>
        rw [hsame rfl, ← ih]
        exact NodeHealth.recordFailure_latencySamples _ now
      | success k now latencyMs =>
        obtain rfl : k = nodeId := hid
        have hnew : (calls ++ [HealthCall.success k now latencyMs]).filterMap
            (HealthCall.latency k) = calls.filterMap (HealthCall.latency k) ++ [latencyMs] := by
          simp [HealthCall.latency]
        show ((get (recordAll calls) k).recordSuccess now latencyMs).latencySamples = _
        rw [NodeHealth.recordSuccess_latencySamples, ih, lastLatencies, lastLatencies, hnew]
        exact drop_window _ latencyMs
    · rw [if_neg hid, ih, hsame]
      cases call with
      | failure k now => rfl
      | success k now latencyMs => exact if_neg hid

end NodeHealthRegistry

/-! ## The percentile -/

theorem length_lastLatencies (calls : List HealthCall) (nodeId : String) :
    (lastLatencies calls nodeId).length ≤ latencyWindow := by
  simp only [lastLatencies, List.length_drop]
  omega

/-- After any calls of the registry a node without latencies has no percentile, and the
percentile of any other is the one of its last latencies that at most nineteen in twenty of
them are below and more than nineteen in twenty are not above. -/
theorem p95_iff (calls : List HealthCall) (nodeId : String) :
    let recent := lastLatencies calls nodeId
    let reported := ((NodeHealthRegistry.recordAll calls).get nodeId).p95LatencyMs
    (reported = none ↔ recent = []) ∧
      ∀ p, reported = some p ↔ p ∈ recent ∧ 20 * below recent p ≤ 19 * recent.length ∧
        19 * recent.length < 20 * upTo recent p := by
  intro recent reported
  have hsamples : ((NodeHealthRegistry.recordAll calls).get nodeId).latencySamples = recent :=
    NodeHealthRegistry.latencySamples_recordAll calls nodeId
  have hreported : reported =
      if recent = [] then none else atRank recent (NodeHealth.p95Index recent.length) := by
    rw [← hsamples]
    rfl
  by_cases hempty : recent = []
  · rw [hreported, if_pos hempty]
    simp [hempty]
  · have hpos : 0 < recent.length := List.length_pos_iff.mpr hempty
    have hindex := NodeHealth.p95Index_eq hpos (length_lastLatencies calls nodeId)
    rw [hreported, if_neg hempty, hindex]
    constructor
    · have hlt : 19 * recent.length / 20 < recent.length := by omega
      rw [atRank_eq_none_iff]
      exact iff_of_false (not_le.mpr hlt) hempty
    · intro p
      rw [atRank_eq_some_iff, Nat.le_div_iff_mul_le (by decide), Nat.div_lt_iff_lt_mul (by decide),
        Nat.mul_comm (below recent p), Nat.mul_comm (upTo recent p)]

end ECN
