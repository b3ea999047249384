import ECN.Runs
import ECN.Validity

/-!
# Rejected transactions and node health

An error reply raises in the sender just as a dead connection does, so a rejection
counts as a failure of every server that reports it. A server is safe in a round when
it answers with a result or when its failures in a row stay below the threshold.
-/
namespace ECN

variable {rt : Runtime}

namespace P2PNetwork

/-- No server has left the healthy state. -/
def AllHealthy (net : P2PNetwork rt) : Prop :=
  ∀ s ∈ net.servers, (net.health.get s.nodeId).state = .healthy

instance (net : P2PNetwork rt) : Decidable net.AllHealthy :=
  inferInstanceAs (Decidable (∀ _ ∈ _, _))

theorem AllHealthy.participating {net : P2PNetwork rt} (h : net.AllHealthy) :
    net.participating = net.servers := by
  refine List.filter_eq_self.mpr fun s hs => ?_
  simp [isParticipating, h s hs]

/-! ## Health after a round -/

theorem recordResponse_get_of_ne (now : ℕ) (registry : NodeHealthRegistry)
    {p : NodeServer rt × Response} {nodeId : String} (hne : nodeId ≠ p.1.nodeId) :
    (recordResponse now registry p).get nodeId = registry.get nodeId := by
  unfold recordResponse
  split <;>
    simp [NodeHealthRegistry.recordSuccess, NodeHealthRegistry.recordFailure, hne]

theorem recordResponse_get_congr (now : ℕ) (p : NodeServer rt × Response)
    {registry registry' : NodeHealthRegistry}
    (h : registry.get p.1.nodeId = registry'.get p.1.nodeId) :
    (recordResponse now registry p).get p.1.nodeId =
      (recordResponse now registry' p).get p.1.nodeId := by
  unfold recordResponse
  split <;>
    simp [NodeHealthRegistry.recordSuccess, NodeHealthRegistry.recordFailure, h]

theorem foldl_recordResponse_get_of_notMem (now : ℕ)
    (responses : List (NodeServer rt × Response)) (registry : NodeHealthRegistry)
    {nodeId : String} (h : nodeId ∉ responses.map fun p => p.1.nodeId) :
    (responses.foldl (recordResponse now) registry).get nodeId = registry.get nodeId := by
  induction responses generalizing registry with
  | nil => rfl
  | cons p responses ih =>
    simp only [List.map_cons, List.mem_cons, not_or] at h
    rw [List.foldl_cons, ih _ h.2, recordResponse_get_of_ne now registry h.1]

/-- Failures that one round can add for a node id. -/
def failureBudget (responses : List (NodeServer rt × Response)) (nodeId : String) : ℕ :=
  responses.countP fun p => p.1.nodeId = nodeId

/-- A node stays healthy when all its responses are results, or when failures in all
of them would not make it suspect. -/
theorem foldl_recordResponse_healthy (now : ℕ) (nodeId : String)
    (responses : List (NodeServer rt × Response)) (registry : NodeHealthRegistry)
    (hh : (registry.get nodeId).state = .healthy)
    (h : (∀ p ∈ responses, p.1.nodeId = nodeId → p.2.isSome) ∨
      (registry.get nodeId).consecutiveFailures + failureBudget responses nodeId <
        suspectThreshold) :
    ((responses.foldl (recordResponse now) registry).get nodeId).state = .healthy := by
  induction responses generalizing registry with
  | nil => exact hh
  | cons p responses ih =>
    obtain ⟨server, response⟩ := p
    rw [List.foldl_cons]
    by_cases hid : server.nodeId = nodeId
    · have hbudget : failureBudget ((server, response) :: responses) nodeId =
          failureBudget responses nodeId + 1 := by simp [failureBudget, hid]
      cases response with
      | some r =>
        refine ih _ ?_ ?_
        · simp only [recordResponse, NodeHealthRegistry.recordSuccess, hid,
            NodeHealthRegistry.get_set, if_true]
          exact NodeHealth.recordSuccess_healthy (by simp [hh]) now _
        · rcases h with h | h
          · exact .inl fun q hq => h q (List.mem_cons_of_mem _ hq)
          · right
            simp only [recordResponse, NodeHealthRegistry.recordSuccess, hid,
              NodeHealthRegistry.get_set, if_true, NodeHealth.recordSuccess_failures]
            omega
      | none =>
        have hlt : (registry.get nodeId).consecutiveFailures +
            failureBudget ((server, none) :: responses) nodeId < suspectThreshold := by
          rcases h with h | h
          · exact absurd (h _ List.mem_cons_self hid) (by simp)
          · exact h
        refine ih _ ?_ (.inr ?_)
        · simp only [recordResponse, NodeHealthRegistry.recordFailure, hid,
            NodeHealthRegistry.get_set, if_true]
          exact (NodeHealth.recordFailure_healthy_iff hh now).mpr (by omega)
        · simp only [recordResponse, NodeHealthRegistry.recordFailure, hid,
            NodeHealthRegistry.get_set, if_true, NodeHealth.recordFailure_failures]
          omega
    · have hother := recordResponse_get_of_ne now registry (p := (server, response))
        (Ne.symm hid)
      refine ih _ (hother ▸ hh) ?_
      rw [hother]
      rcases h with h | h
      · exact .inl fun q hq => h q (List.mem_cons_of_mem _ hq)
      · right
        simpa [failureBudget, hid] using h

/-- With distinct ids each node's health moves by its own response alone. -/
theorem get_foldl_recordResponse (now : ℕ) {responses : List (NodeServer rt × Response)}
    (hids : (responses.map fun p => p.1.nodeId).Nodup) {p : NodeServer rt × Response}
    (hp : p ∈ responses) (registry : NodeHealthRegistry) :
    (responses.foldl (recordResponse now) registry).get p.1.nodeId =
      (recordResponse now registry p).get p.1.nodeId := by
  induction responses using List.reverseRecOn with
  | nil => cases hp
  | append_singleton responses q ih =>
    rw [List.foldl_append, List.foldl_cons, List.foldl_nil]
    rw [List.map_append, List.nodup_append] at hids
    rcases List.mem_append.mp hp with hp | hp
    · have hne : p.1.nodeId ≠ q.1.nodeId :=
        hids.2.2 _ (List.mem_map_of_mem hp) _ (by simp)
      rw [recordResponse_get_of_ne now _ hne]
      exact ih hids.1 hp
    · obtain rfl := List.mem_singleton.mp hp
      refine recordResponse_get_congr now p ?_
      exact foldl_recordResponse_get_of_notMem now responses registry fun hmem =>
        hids.2.2 _ hmem _ (by simp) rfl

/-! ## Submissions that every server answers -/

/-- One submitted transaction, with the clock and the latencies of its round. -/
structure Submission (rt : Runtime) where
  tx : Transaction
  now : ℕ
  latencyMs : NodeServer rt → ℚ

variable (R : Rounding)

/-- Every server answers in time, with a result or with an error. -/
def submit (net : P2PNetwork rt) (sub : Submission rt) : P2PNetwork rt :=
  (net.broadcast R sub.now sub.tx fun s => .answered (sub.latencyMs s)).1

/-- Every server returns a result, or has failures to spare: one for each server under
its id. -/
def Tolerable (net : P2PNetwork rt) (sub : Submission rt) : Prop :=
  ∀ s ∈ net.servers, (honestHash rt s.state sub.tx).isSome ∨
    (net.health.get s.nodeId).consecutiveFailures +
      net.servers.countP (fun s' => s'.nodeId = s.nodeId) < suspectThreshold

instance (net : P2PNetwork rt) (sub : Submission rt) : Decidable (net.Tolerable sub) :=
  inferInstanceAs (Decidable (∀ _ ∈ _, _))

@[simp] theorem submit_health (net : P2PNetwork rt) (sub : Submission rt) :
    (net.submit R sub).health =
      (net.gather sub.tx fun s => .answered (sub.latencyMs s)).foldl (recordResponse sub.now)
        net.health := by
  simp [submit, broadcast]

/-- Serving a round keeps the list of ids. -/
theorem serve_nodeIds (net : P2PNetwork rt) (tx : Transaction)
    (channel : NodeServer rt → Channel) :
    (net.serve tx channel).map NodeServer.nodeId = net.servers.map NodeServer.nodeId := by
  rw [serve, List.map_map]
  refine List.map_congr_left fun s _ => ?_
  dsimp only [Function.comp]
  split
  · exact sendToServer_nodeId s tx _
  · rfl

theorem submit_nodeIds (net : P2PNetwork rt) (sub : Submission rt) :
    (net.submit R sub).servers.map NodeServer.nodeId = net.servers.map NodeServer.nodeId := by
  rw [submit, broadcast, collect_servers]
  exact serve_nodeIds net sub.tx _

/-- Health depends on the ids alone. -/
theorem allHealthy_iff (net : P2PNetwork rt) : net.AllHealthy ↔
    ∀ nodeId ∈ net.servers.map NodeServer.nodeId, (net.health.get nodeId).state = .healthy := by
  simp [AllHealthy]

/-- One tolerable submission keeps every node healthy. -/
theorem AllHealthy.submit {net : P2PNetwork rt} (h : net.AllHealthy) {sub : Submission rt}
    (ht : net.Tolerable sub) : (net.submit R sub).AllHealthy := by
  rw [allHealthy_iff, submit_nodeIds, submit_health]
  intro nodeId hid
  obtain ⟨server, hs, rfl⟩ := List.mem_map.mp hid
  refine foldl_recordResponse_healthy sub.now server.nodeId _ _ (h server hs) ?_
  have hgather : net.gather sub.tx (fun s => .answered (sub.latencyMs s)) =
      net.servers.map fun s => (s, (sendToServer s sub.tx (.answered (sub.latencyMs s))).2) := by
    rw [gather, h.participating]
  rw [hgather]
  have hbudget : failureBudget (net.servers.map fun s =>
      (s, (sendToServer s sub.tx (.answered (sub.latencyMs s))).2)) server.nodeId =
        net.servers.countP fun s' => s'.nodeId = server.nodeId := by
    rw [failureBudget, List.countP_map]
    rfl
  rw [hbudget]
  by_cases hall : ∀ s ∈ net.servers, s.nodeId = server.nodeId →
      (honestHash rt s.state sub.tx).isSome
  · left
    intro p hp hpid
    obtain ⟨s, hmem, rfl⟩ := List.mem_map.mp hp
    rw [answered_isSome]
    exact hall s hmem hpid
  · right
    push Not at hall
    obtain ⟨s, hmem, hsid, hreject⟩ := hall
    rcases ht s hmem with hok | hspare
    · exact absurd hok hreject
    · rw [← hsid]
      exact hspare

/-- With distinct ids an intolerable submission makes some node suspect. -/
theorem tolerable_of_submit {net : P2PNetwork rt}
    (hids : (net.servers.map NodeServer.nodeId).Nodup) (h : net.AllHealthy)
    {sub : Submission rt} (h' : (net.submit R sub).AllHealthy) : net.Tolerable sub := by
  intro server hs
  by_contra hno
  push Not at hno
  obtain ⟨hreject, hspare⟩ := hno
  have hone : net.servers.countP (fun s' => s'.nodeId = server.nodeId) =
      (net.servers.map NodeServer.nodeId).count server.nodeId := by
    rw [List.count_eq_countP, List.countP_map]
    rfl
  rw [hone, List.count_eq_one_of_mem hids (List.mem_map_of_mem hs)] at hspare
  rw [allHealthy_iff, submit_nodeIds, submit_health, gather, h.participating] at h'
  have hhealthy := h' server.nodeId (List.mem_map_of_mem hs)
  have hmem : (server, (sendToServer server sub.tx (.answered (sub.latencyMs server))).2) ∈
      net.servers.map fun s => (s, (sendToServer s sub.tx (.answered (sub.latencyMs s))).2) :=
    List.mem_map.mpr ⟨server, hs, rfl⟩
  have hown := get_foldl_recordResponse sub.now (by rw [List.map_map]; exact hids) hmem net.health
  dsimp only at hown
  rw [hown] at hhealthy
  have hnone : (sendToServer server sub.tx (.answered (sub.latencyMs server))).2 = none := by
    rw [← Option.isNone_iff_eq_none, ← Option.not_isSome, answered_isSome]
    simpa using hreject
  rw [hnone] at hhealthy
  simp only [recordResponse, NodeHealthRegistry.recordFailure, NodeHealthRegistry.get_set,
    if_true, NodeHealth.recordFailure_healthy_iff (h server hs)] at hhealthy
  omega

/-- No node has left the healthy state and every node takes part in the next broadcast. -/
def TakesPart (net : P2PNetwork rt) : Prop :=
  net.AllHealthy ∧ net.participating = net.servers

theorem tolerable_of_throughout {net : P2PNetwork rt}
    (hids : (net.servers.map NodeServer.nodeId).Nodup) {subs : List (Submission rt)}
    (h : Throughout (P2PNetwork.submit R) TakesPart net subs) :
    StepsMeet (P2PNetwork.submit R) Tolerable net subs := by
  induction subs generalizing net with
  | nil => trivial
  | cons sub subs ih =>
    obtain ⟨hnow, hnext⟩ := h
    refine ⟨tolerable_of_submit R hids hnow.1 hnext.head.1, ih ?_ hnext⟩
    rw [submit_nodeIds]
    exact hids

/-- A run whose submissions are all tolerable leaves every node healthy and taking part
throughout; with distinct ids only such a run does. -/
theorem takesPart_of_tolerable {net : P2PNetwork rt} (h : net.AllHealthy)
    (subs : List (Submission rt)) :
    (StepsMeet (P2PNetwork.submit R) Tolerable net subs →
      Throughout (P2PNetwork.submit R) TakesPart net subs) ∧
    ((net.servers.map NodeServer.nodeId).Nodup →
      Throughout (P2PNetwork.submit R) TakesPart net subs →
        StepsMeet (P2PNetwork.submit R) Tolerable net subs) := by
  refine ⟨fun ht => ?_, fun hids => tolerable_of_throughout R hids⟩
  exact (Throughout.of_stepsMeet (fun _ _ hn hok => hn.submit R hok) h ht).mono
    fun _ hn => ⟨hn, hn.participating⟩

/-! ## Three overdrafts -/

def overdraftSubmission : Submission (referenceRuntime false) := ⟨overdraft, 0, fun _ => 0⟩

def withdrawalSubmission : Submission (referenceRuntime false) := ⟨withdrawal, 0, fun _ => 0⟩

theorem allHealthy_overdraftNetwork : overdraftNetwork.AllHealthy := by decide

/-- Two rejections are tolerable, and a success clears them. -/
theorem takesPart_two_overdrafts :
    Throughout (submit .binary64) TakesPart overdraftNetwork
      [overdraftSubmission, overdraftSubmission, withdrawalSubmission, overdraftSubmission] :=
  (takesPart_of_tolerable .binary64 allHealthy_overdraftNetwork _).1 (by decide +kernel)

/-- The third rejection in a row makes the nodes suspect, the fifth excludes them all. -/
theorem overdrafts_exclude_everyone :
    overdraftNetwork.AllHealthy ∧
    ¬ Throughout (submit .binary64) AllHealthy overdraftNetwork
      (List.replicate 3 overdraftSubmission) ∧
    ((List.replicate 5 overdraftSubmission).foldl (submit .binary64)
      overdraftNetwork).participating.length = 0 := by
  decide +kernel

end P2PNetwork
end ECN
