import ECN.NodeHealth

/-!
# The health lifecycle over a history of calls

Any sequence of successes and failures is recorded, for any nodes and with any clock
values. The state of a node, its counter and its time of exclusion are compared with the
history: the counter is the number of failures since the last success, and exclusion
starts with the fifth of them and ends with a success after the window.
-/
namespace ECN
namespace NodeHealth

theorem windowOver_iff (since : Option ℕ) (now : ℕ) :
    windowOver since now = true ↔ ∃ t, since = some t ∧ t + rehabWindow ≤ now := by
  cases since with
  | none => simp [windowOver]
  | some t =>
    have hover : windowOver (some t) now = true ↔ rehabWindow ≤ now - t := decide_eq_true_iff
    simp only [hover, Option.some.injEq, exists_eq_left', rehabWindow]
    omega

theorem recordSuccess_state (health : NodeHealth) (now : ℕ) (latencyMs : ℚ) :
    (health.recordSuccess now latencyMs).state =
      if health.state = .excluded then
        if windowOver health.excludedSince now then .rehabilitating else .excluded
      else .healthy := by
  unfold recordSuccess
  cases hs : health.state with
  | excluded =>
    simp only [if_true]
    split_ifs <;> simp
  | rehabilitating => simp
  | suspect => simp
  | healthy => simp

theorem recordSuccess_excludedSince (health : NodeHealth) (now : ℕ) (latencyMs : ℚ) :
    (health.recordSuccess now latencyMs).excludedSince =
      if health.state = .excluded ∧ windowOver health.excludedSince now then none
      else health.excludedSince := by
  unfold recordSuccess
  cases hs : health.state with
  | excluded =>
    simp only [true_and]
    split_ifs <;> rfl
  | rehabilitating => simp
  | suspect => simp
  | healthy => simp

theorem recordFailure_state (health : NodeHealth) (now : ℕ) :
    (health.recordFailure now).state =
      if health.state = .excluded ∨ excludedThreshold ≤ health.consecutiveFailures + 1 then
        .excluded
      else if suspectThreshold ≤ health.consecutiveFailures + 1 ∨
          health.state = .rehabilitating then .suspect
      else health.state := by
  unfold recordFailure
  by_cases hex : health.state = .excluded
  · simp [hex]
  · simp only [hex, if_false, false_or]
    by_cases h₅ : excludedThreshold ≤ health.consecutiveFailures + 1
    · simp [h₅]
    · by_cases h₃ : suspectThreshold ≤ health.consecutiveFailures + 1
      · simp [h₅, h₃]
      · simp only [h₅, h₃, if_false, false_or]
        split_ifs <;> rfl

theorem recordFailure_excludedSince (health : NodeHealth) (now : ℕ) :
    (health.recordFailure now).excludedSince =
      if health.state ≠ .excluded ∧ excludedThreshold ≤ health.consecutiveFailures + 1 then
        some now
      else health.excludedSince := by
  unfold recordFailure
  by_cases hex : health.state = .excluded
  · simp [hex]
  · simp only [hex, if_false, ne_eq, not_false_eq_true, true_and]
    split_ifs <;> rfl

/-- State, counter and time of exclusion agree with each other. -/
structure Consistent (health : NodeHealth) : Prop where
  healthy : health.state = .healthy → health.consecutiveFailures ≤ 2
  suspect : health.state = .suspect →
    1 ≤ health.consecutiveFailures ∧ health.consecutiveFailures ≤ 4
  rehabilitating : health.state = .rehabilitating → health.consecutiveFailures = 0
  excludedSince : health.excludedSince.isSome ↔ health.state = .excluded

theorem Consistent.init (nodeId : String) : (NodeHealth.init nodeId).Consistent := by
  constructor <;> simp [NodeHealth.init]

/-- Outside exclusion fewer failures than the threshold are counted. -/
theorem Consistent.lt_excludedThreshold {health : NodeHealth} (h : health.Consistent)
    (hex : health.state ≠ .excluded) : health.consecutiveFailures < excludedThreshold := by
  unfold excludedThreshold
  cases hs : health.state with
  | healthy => have := h.healthy hs; omega
  | suspect => have := h.suspect hs; omega
  | excluded => exact absurd hs hex
  | rehabilitating => have := h.rehabilitating hs; omega

theorem Consistent.recordSuccess {health : NodeHealth} (h : health.Consistent) (now : ℕ)
    (latencyMs : ℚ) : (health.recordSuccess now latencyMs).Consistent := by
  constructor
  · intro _
    simp
  · intro hs
    rw [recordSuccess_state] at hs
    split_ifs at hs
  · intro _
    simp
  · rw [recordSuccess_state, recordSuccess_excludedSince]
    by_cases hex : health.state = .excluded
    · by_cases hover : windowOver health.excludedSince now
      · simp [hex, hover]
      · simp [hex, hover, h.excludedSince]
    · simp [hex, h.excludedSince]

theorem Consistent.recordFailure {health : NodeHealth} (h : health.Consistent) (now : ℕ) :
    (health.recordFailure now).Consistent := by
  have hlt : health.state ≠ .excluded → health.consecutiveFailures < 5 := h.lt_excludedThreshold
  constructor
  · intro hs
    rw [recordFailure_state] at hs
    rw [recordFailure_failures]
    split_ifs at hs with h₁ h₂
    simp only [suspectThreshold, not_or] at h₂
    omega
  · intro hs
    rw [recordFailure_state] at hs
    rw [recordFailure_failures]
    split_ifs at hs with h₁ h₂ <;> simp only [excludedThreshold, not_or] at h₁
    · omega
    · have := h.suspect hs
      omega
  · intro hs
    rw [recordFailure_state] at hs
    split_ifs at hs with h₁ h₂
    exact absurd (Or.inr hs) h₂
  · rw [recordFailure_state, recordFailure_excludedSince]
    by_cases hex : health.state = .excluded
    · simp [hex, h.excludedSince]
    · by_cases hfive : excludedThreshold ≤ health.consecutiveFailures + 1
      · simp [hex, hfive]
      · have hnone : ¬ health.excludedSince.isSome := fun hsome => hex (h.excludedSince.mp hsome)
        simp only [hex, hfive, false_or, ne_eq, not_false_eq_true, and_false, if_false, hnone]
        split_ifs <;> simp [hex]

end NodeHealth

/-- One call of the registry, with the clock value it reads. -/
inductive HealthCall where
  | success (nodeId : String) (now : ℕ) (latencyMs : ℚ)
  | failure (nodeId : String) (now : ℕ)

namespace HealthCall

def nodeId : HealthCall → String
  | success nodeId _ _ => nodeId
  | failure nodeId _ => nodeId

def now : HealthCall → ℕ
  | success _ now _ => now
  | failure _ now => now

def isFailure : HealthCall → Bool
  | success _ _ _ => false
  | failure _ _ => true

end HealthCall

/-- The failures of a node since its last success. -/
def failuresInRow (nodeId : String) (calls : List HealthCall) : ℕ :=
  ((calls.filter fun call => call.nodeId = nodeId).reverse.takeWhile HealthCall.isFailure).length

theorem failuresInRow_concat (nodeId : String) (calls : List HealthCall) (call : HealthCall) :
    failuresInRow nodeId (calls ++ [call]) =
      if call.nodeId = nodeId then
        if call.isFailure then failuresInRow nodeId calls + 1 else 0
      else failuresInRow nodeId calls := by
  unfold failuresInRow
  rw [List.filter_append, List.reverse_append]
  by_cases hid : call.nodeId = nodeId
  · cases hf : call.isFailure <;> simp [hid, hf]
  · simp [hid]

namespace NodeHealthRegistry

def record (registry : NodeHealthRegistry) : HealthCall → NodeHealthRegistry
  | .success nodeId now latencyMs => registry.recordSuccess nodeId now latencyMs
  | .failure nodeId now => registry.recordFailure nodeId now

/-- The registry after a history of calls. -/
def recordAll (calls : List HealthCall) : NodeHealthRegistry := calls.foldl record .empty

def activeNodes (registry : NodeHealthRegistry) : List String :=
  (registry.entries.filter fun e => e.2.state ≠ .excluded).map Prod.fst

def excludedNodes (registry : NodeHealthRegistry) : List String :=
  (registry.entries.filter fun e => e.2.state = .excluded).map Prod.fst

/-! ## Active and excluded nodes -/

/-- Every known node is listed once, either as active or as excluded. -/
theorem activeNodes_append_excludedNodes_perm (registry : NodeHealthRegistry) :
    (registry.activeNodes ++ registry.excludedNodes).Perm registry.keys := by
  unfold activeNodes excludedNodes
  rw [← List.map_append]
  refine List.Perm.map Prod.fst (List.perm_append_comm.trans ?_)
  have h := List.filter_append_perm (fun e : String × NodeHealth => e.2.state = .excluded)
    registry.entries
  simpa using h

theorem mem_excludedNodes (registry : NodeHealthRegistry) (nodeId : String) :
    nodeId ∈ registry.excludedNodes ↔
      nodeId ∈ registry.keys ∧ (registry.get nodeId).state = .excluded := by
  unfold excludedNodes get OrderedDict.getD
  simp only [List.mem_map, List.mem_filter, Prod.exists, decide_eq_true_eq, exists_and_right,
    exists_eq_right, OrderedDict.mem_keys_iff, ← OrderedDict.get?_eq_some_iff]
  constructor
  · rintro ⟨health, hget, hex⟩
    simp [hget, hex]
  · rintro ⟨⟨health, hget⟩, hex⟩
    rw [hget] at hex
    exact ⟨health, hget, hex⟩

theorem activeNodes_disjoint_excludedNodes (registry : NodeHealthRegistry) :
    registry.activeNodes.Disjoint registry.excludedNodes := by
  have hnodup := registry.activeNodes_append_excludedNodes_perm.nodup_iff.mpr registry.nodup
  exact List.disjoint_of_nodup_append hnodup

/-! ## Histories -/

theorem recordAll_concat (calls : List HealthCall) (call : HealthCall) :
    recordAll (calls ++ [call]) = (recordAll calls).record call := by
  simp [recordAll]

/-- What one call makes of the record of a node. -/
theorem get_record (registry : NodeHealthRegistry) (call : HealthCall) (nodeId : String) :
    (registry.record call).get nodeId =
      if call.nodeId = nodeId then
        match call with
        | .success _ now latencyMs => (registry.get nodeId).recordSuccess now latencyMs
        | .failure _ now => (registry.get nodeId).recordFailure now
      else registry.get nodeId := by
  cases call with
  | success k now latencyMs =>
    by_cases hk : k = nodeId
    · simp [record, recordSuccess, HealthCall.nodeId, hk]
    · simp [record, recordSuccess, HealthCall.nodeId, hk, Ne.symm hk]
  | failure k now =>
    by_cases hk : k = nodeId
    · simp [record, recordFailure, HealthCall.nodeId, hk]
    · simp [record, recordFailure, HealthCall.nodeId, hk, Ne.symm hk]

theorem keys_record (registry : NodeHealthRegistry) (call : HealthCall) (nodeId : String) :
    nodeId ∈ (registry.record call).keys ↔ nodeId = call.nodeId ∨ nodeId ∈ registry.keys := by
  cases call <;> simp [record, recordSuccess, recordFailure, HealthCall.nodeId]

theorem consistent_recordAll (calls : List HealthCall) (nodeId : String) :
    ((recordAll calls).get nodeId).Consistent := by
  induction calls using List.reverseRecOn with
  | nil => exact .init nodeId
  | append_singleton calls call ih =>
    rw [recordAll_concat, get_record]
    split_ifs
    · cases call with
      | success k now latencyMs => exact ih.recordSuccess now latencyMs
      | failure k now => exact ih.recordFailure now
    · exact ih

/-- The counter is what the history says. -/
theorem consecutiveFailures_recordAll (calls : List HealthCall) (nodeId : String) :
    ((recordAll calls).get nodeId).consecutiveFailures = failuresInRow nodeId calls := by
  induction calls using List.reverseRecOn with
  | nil => rfl
  | append_singleton calls call ih =>
    rw [recordAll_concat, get_record, failuresInRow_concat]
    split_ifs with hid hfail
    · cases call with
      | success k now latencyMs => cases hfail
      | failure k now => simp [ih]
    · cases call with
      | success k now latencyMs => simp
      | failure k now => exact absurd rfl hfail
    · exact ih

theorem mem_keys_recordAll (calls : List HealthCall) (nodeId : String) :
    nodeId ∈ (recordAll calls).keys ↔ ∃ call ∈ calls, call.nodeId = nodeId := by
  induction calls using List.reverseRecOn with
  | nil => simp [recordAll, OrderedDict.keys, OrderedDict.empty]
  | append_singleton calls call ih =>
    rw [recordAll_concat, keys_record, ih]
    simp [eq_comm, or_comm]

/-- Two registries that agree on a node agree on it after any call. -/
theorem get?_record_congr {registry registry' : NodeHealthRegistry} {nodeId : String}
    (h : registry.get? nodeId = registry'.get? nodeId) (call : HealthCall) :
    (registry.record call).get? nodeId = (registry'.record call).get? nodeId := by
  have hget : registry.get nodeId = registry'.get nodeId := by
    unfold get OrderedDict.getD
    rw [h]
  cases call <;> simp only [record, recordSuccess, recordFailure, OrderedDict.get?_set] <;>
    split_ifs with hid
  all_goals first
    | exact h
    | rw [← hid, hget]

theorem get?_record_of_ne {call : HealthCall} {nodeId : String} (h : call.nodeId ≠ nodeId)
    (registry : NodeHealthRegistry) :
    (registry.record call).get? nodeId = registry.get? nodeId := by
  cases call <;> simp only [HealthCall.nodeId] at h <;>
    simp [record, recordSuccess, recordFailure, Ne.symm h]

/-- The record of a node depends on the calls for this node alone. -/
theorem get?_recordAll_filter (calls : List HealthCall) (nodeId : String) :
    (recordAll (calls.filter fun call => call.nodeId = nodeId)).get? nodeId =
      (recordAll calls).get? nodeId := by
  induction calls using List.reverseRecOn with
  | nil => rfl
  | append_singleton calls call ih =>
    rw [List.filter_append, recordAll_concat]
    by_cases hid : call.nodeId = nodeId
    · rw [List.filter_cons_of_pos (by simpa using hid), List.filter_nil, recordAll_concat]
      exact get?_record_congr ih call
    · rw [List.filter_cons_of_neg (by simpa using hid), List.filter_nil, List.append_nil,
        get?_record_of_ne hid, ih]

/-! ## Exclusion -/

/-- The calls leave the node excluded. -/
def LeavesExcluded (calls : List HealthCall) (nodeId : String) : Prop :=
  ((recordAll calls).get nodeId).state = .excluded

/-- The fifth failure in a row excluded the node at that time, and it is excluded since. -/
def ExcludedAt (calls : List HealthCall) (nodeId : String) (since : ℕ) : Prop :=
  ∃ past rest, calls = past ++ .failure nodeId since :: rest ∧
    ¬ LeavesExcluded past nodeId ∧
    failuresInRow nodeId (past ++ [.failure nodeId since]) = excludedThreshold ∧
    ∀ mid, mid <+: rest → LeavesExcluded (past ++ .failure nodeId since :: mid) nodeId

/-- From outside, a call excludes the node when it is its fifth failure in a row. -/
theorem leavesExcluded_concat_iff {calls : List HealthCall} {nodeId : String}
    (h : ¬ LeavesExcluded calls nodeId) (call : HealthCall) :
    LeavesExcluded (calls ++ [call]) nodeId ↔
      call.nodeId = nodeId ∧ call.isFailure ∧
        failuresInRow nodeId (calls ++ [call]) = excludedThreshold := by
  have hlt := (consistent_recordAll calls nodeId).lt_excludedThreshold h
  rw [consecutiveFailures_recordAll] at hlt
  unfold LeavesExcluded at *
  rw [recordAll_concat, get_record, failuresInRow_concat]
  by_cases hid : call.nodeId = nodeId
  · cases call with
    | success k now latencyMs =>
      simp [hid, NodeHealth.recordSuccess_state, h, HealthCall.isFailure]
    | failure k now =>
      simp only [hid, if_true, NodeHealth.recordFailure_state, h, false_or,
        consecutiveFailures_recordAll, HealthCall.isFailure, true_and]
      split_ifs with hfive hsus
      · simp only [true_iff]
        omega
      · simp only [false_iff]
        omega
      · simp only [h, false_iff]
        omega
  · simp [hid, h]

/-- From inside, only a success after the window ends the exclusion. -/
theorem state_concat_of_leavesExcluded {calls : List HealthCall} {nodeId : String}
    (h : LeavesExcluded calls nodeId) {since : ℕ}
    (hsince : ((recordAll calls).get nodeId).excludedSince = some since) (call : HealthCall) :
    ((recordAll (calls ++ [call])).get nodeId).state =
      if call.nodeId = nodeId ∧ call.isFailure = false ∧ since + rehabWindow ≤ call.now then
        .rehabilitating
      else .excluded := by
  unfold LeavesExcluded at h
  rw [recordAll_concat, get_record]
  by_cases hid : call.nodeId = nodeId
  · cases call with
    | success k now latencyMs =>
      have hover : NodeHealth.windowOver (some since) now = true ↔ since + rehabWindow ≤ now := by
        simp [NodeHealth.windowOver_iff]
      simp [hid, NodeHealth.recordSuccess_state, h, hsince, hover, HealthCall.isFailure,
        HealthCall.now]
    | failure k now => simp [hid, NodeHealth.recordFailure_state, h, HealthCall.isFailure]
  · simp [hid, h]

/-- While the node stays excluded, its time of exclusion stays the same. -/
theorem excludedSince_concat {calls : List HealthCall} {nodeId : String}
    (h : LeavesExcluded calls nodeId) {call : HealthCall}
    (hnext : LeavesExcluded (calls ++ [call]) nodeId) :
    ((recordAll (calls ++ [call])).get nodeId).excludedSince =
      ((recordAll calls).get nodeId).excludedSince := by
  unfold LeavesExcluded at h hnext
  rw [recordAll_concat, get_record] at hnext ⊢
  split_ifs at hnext ⊢ with hid
  · cases call with
    | success k now latencyMs =>
      dsimp only at hnext ⊢
      rw [NodeHealth.recordSuccess_state] at hnext
      rw [NodeHealth.recordSuccess_excludedSince]
      have hover : ¬ NodeHealth.windowOver ((recordAll calls).get nodeId).excludedSince now := by
        intro hover
        simp [h, hover] at hnext
      simp [hover]
    | failure k now => simp [NodeHealth.recordFailure_excludedSince, h]
  · rfl

/-- When the node becomes excluded, the time is that of the call. -/
theorem excludedSince_of_becomes {calls : List HealthCall} {nodeId : String}
    (h : ¬ LeavesExcluded calls nodeId) {since : ℕ}
    (hnext : LeavesExcluded (calls ++ [.failure nodeId since]) nodeId) :
    ((recordAll (calls ++ [.failure nodeId since])).get nodeId).excludedSince = some since := by
  have hfive := ((leavesExcluded_concat_iff h _).mp hnext).2.2
  rw [failuresInRow_concat, ← consecutiveFailures_recordAll] at hfive
  simp only [HealthCall.nodeId, HealthCall.isFailure, if_true] at hfive
  rw [recordAll_concat, get_record]
  simp [HealthCall.nodeId, NodeHealth.recordFailure_excludedSince, hfive,
    show ((recordAll calls).get nodeId).state ≠ .excluded from h]

/-- An excluded node was excluded by a fifth failure, at the time that is stored. -/
theorem exists_excludedAt {calls : List HealthCall} {nodeId : String}
    (h : LeavesExcluded calls nodeId) : ∃ since, ExcludedAt calls nodeId since ∧
      ((recordAll calls).get nodeId).excludedSince = some since := by
  induction calls using List.reverseRecOn with
  | nil => simp [LeavesExcluded, recordAll, get, OrderedDict.getD, NodeHealth.init] at h
  | append_singleton calls call ih =>
    by_cases hbefore : LeavesExcluded calls nodeId
    · obtain ⟨since, ⟨past, rest, rfl, hout, hfive, hstay⟩, hsince⟩ := ih hbefore
      refine ⟨since, ⟨past, rest ++ [call], by simp, hout, hfive, fun mid hmid => ?_⟩, ?_⟩
      · rcases List.prefix_concat_iff.mp hmid with rfl | hmid
        · simpa using h
        · exact hstay mid hmid
      · rw [excludedSince_concat hbefore h, hsince]
    · obtain ⟨hid, hfail, hfive⟩ := (leavesExcluded_concat_iff hbefore call).mp h
      cases call with
      | success k now latencyMs => cases hfail
      | failure k now =>
        obtain rfl : k = nodeId := hid
        refine ⟨now, ⟨calls, [], rfl, hbefore, hfive, fun mid hmid => ?_⟩,
          excludedSince_of_becomes hbefore h⟩
        rw [List.prefix_nil.mp hmid]
        exact h

/-- The lifecycle of a node after every history of calls: what its states say of its
failures, when it becomes excluded and when it leaves, which nodes are listed, and that
calls for other nodes do not matter. -/
theorem follows_lifecycle (calls : List HealthCall) (nodeId : String) :
    ((recordAll calls).get nodeId).Consistent ∧
    ((recordAll calls).get nodeId).consecutiveFailures = failuresInRow nodeId calls ∧
    (∀ call, ¬ LeavesExcluded calls nodeId → (LeavesExcluded (calls ++ [call]) nodeId ↔
      call.nodeId = nodeId ∧ call.isFailure ∧ failuresInRow nodeId (calls ++ [call]) = 5)) ∧
    (∀ call, LeavesExcluded calls nodeId → ∃ since, ExcludedAt calls nodeId since ∧
      ((recordAll (calls ++ [call])).get nodeId).state =
        if call.nodeId = nodeId ∧ call.isFailure = false ∧ since + rehabWindow ≤ call.now then
          .rehabilitating
        else .excluded) ∧
    ((recordAll calls).activeNodes ++ (recordAll calls).excludedNodes).Perm
      (recordAll calls).keys ∧
    (recordAll calls).activeNodes.Disjoint (recordAll calls).excludedNodes ∧
    (nodeId ∈ (recordAll calls).keys ↔ ∃ call ∈ calls, call.nodeId = nodeId) ∧
    (nodeId ∈ (recordAll calls).excludedNodes ↔ LeavesExcluded calls nodeId) ∧
    (recordAll calls).get? nodeId =
      (recordAll (calls.filter fun call => call.nodeId = nodeId)).get? nodeId := by
  refine ⟨consistent_recordAll calls nodeId, consecutiveFailures_recordAll calls nodeId,
    fun call hout => leavesExcluded_concat_iff hout call, ?_,
    activeNodes_append_excludedNodes_perm _, activeNodes_disjoint_excludedNodes _,
    mem_keys_recordAll calls nodeId, ?_, (get?_recordAll_filter calls nodeId).symm⟩
  · intro call hin
    obtain ⟨since, hat, hsince⟩ := exists_excludedAt hin
    exact ⟨since, hat, state_concat_of_leavesExcluded hin hsince call⟩
  · rw [mem_excludedNodes, mem_keys_recordAll]
    refine and_iff_right_of_imp fun hin => ?_
    obtain ⟨since, ⟨past, rest, rfl, -⟩, -⟩ := exists_excludedAt hin
    exact ⟨.failure nodeId since, by simp, rfl⟩

end NodeHealthRegistry
end ECN
