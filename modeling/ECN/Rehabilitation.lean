import ECN.Exclusion

/-!
# Exclusion and wrong answers

Two rules of the health lifecycle cannot take effect in the broadcast loop. A success
would take a node out of exclusion, but an excluded node is not sent anything, so no
success is ever recorded for it. And a wrong answer is a success to the loop, which
records it before the vote is counted, so wrong answers never demote a node.
-/
namespace ECN

variable {rt : Runtime}

/-- One broadcast: its transaction, its time and the fate of each request. -/
structure Round (rt : Runtime) where
  tx : Transaction
  now : ℕ
  channel : NodeServer rt → Channel

namespace P2PNetwork

variable (R : Rounding)

def play (net : P2PNetwork rt) (round : Round rt) : P2PNetwork rt :=
  (net.broadcast R round.now round.tx round.channel).1

theorem play_servers (net : P2PNetwork rt) (round : Round rt) :
    (net.play R round).servers = net.serve round.tx round.channel := by
  rw [play, broadcast, collect_servers]

theorem play_health (net : P2PNetwork rt) (round : Round rt) :
    (net.play R round).health =
      (net.gather round.tx round.channel).foldl (recordResponse round.now) net.health := by
  simp [play, broadcast]

/-! ## Excluded nodes -/

def IsExcluded (net : P2PNetwork rt) (nodeId : String) : Prop :=
  (net.health.get nodeId).state = .excluded

instance (net : P2PNetwork rt) (nodeId : String) : Decidable (net.IsExcluded nodeId) :=
  inferInstanceAs (Decidable (_ = _))

/-- The node is sent the next transaction. -/
def IsSent (net : P2PNetwork rt) (nodeId : String) : Prop :=
  ∃ server ∈ net.participating, server.nodeId = nodeId

theorem IsExcluded.not_isSent {net : P2PNetwork rt} {nodeId : String}
    (h : net.IsExcluded nodeId) : ¬ net.IsSent nodeId := by
  rintro ⟨server, hserver, rfl⟩
  have hpart := (List.mem_filter.mp hserver).2
  unfold IsExcluded at h
  simp [isParticipating, h] at hpart

/-- A round does not touch the record of an excluded node. -/
theorem IsExcluded.health_play {net : P2PNetwork rt} {nodeId : String}
    (h : net.IsExcluded nodeId) (round : Round rt) :
    (net.play R round).health.get nodeId = net.health.get nodeId := by
  rw [play_health]
  refine foldl_recordResponse_get_of_notMem round.now _ net.health fun hmem => h.not_isSent ?_
  obtain ⟨p, hp, rfl⟩ := List.mem_map.mp hmem
  obtain ⟨server, hserver, rfl⟩ := List.mem_map.mp hp
  exact ⟨server, hserver, rfl⟩

theorem IsExcluded.play {net : P2PNetwork rt} {nodeId : String} (h : net.IsExcluded nodeId)
    (round : Round rt) : (net.play R round).IsExcluded nodeId := by
  unfold IsExcluded
  rw [h.health_play R round]
  exact h

theorem IsExcluded.throughout {net : P2PNetwork rt} {nodeId : String}
    (h : net.IsExcluded nodeId) (rounds : List (Round rt)) :
    Throughout (P2PNetwork.play R) (fun net => net.IsExcluded nodeId) net rounds :=
  Throughout.of_step (P := fun net : P2PNetwork rt => net.IsExcluded nodeId)
    (fun _ round hnet => hnet.play R round) h rounds

/-- Some further rounds end the exclusion and the node is sent transactions again. -/
def Rehabilitates (net : P2PNetwork rt) (nodeId : String) : Prop :=
  ∃ rounds : List (Round rt), ¬ (rounds.foldl (P2PNetwork.play R) net).IsExcluded nodeId ∧
    (rounds.foldl (P2PNetwork.play R) net).IsSent nodeId

/-- Exclusion is permanent, whatever is broadcast at whatever time. -/
theorem not_rehabilitates {net : P2PNetwork rt} {nodeId : String} (h : net.IsExcluded nodeId) :
    ¬ net.Rehabilitates R nodeId := by
  rintro ⟨rounds, hended, -⟩
  exact hended (h.throughout R rounds).last

/-- The network after five rejections. -/
def fiveRejections : P2PNetwork (referenceRuntime false) :=
  (List.replicate 5 overdraftSubmission).foldl (submit .binary64) overdraftNetwork

theorem isExcluded_fiveRejections : fiveRejections.IsExcluded "Node-1" := by decide +kernel

theorem not_rehabilitates_fiveRejections : ¬ fiveRejections.Rehabilitates .binary64 "Node-1" :=
  not_rehabilitates .binary64 isExcluded_fiveRejections

/-- The window is long over and the node would answer, and it stays excluded. -/
theorem exclusion_is_permanent :
    fiveRejections.IsExcluded "Node-1" ∧
    NodeHealth.windowOver (fiveRejections.health.get "Node-1").excludedSince
      (2 * rehabWindow) = true ∧
    ∀ rounds : List (Round (referenceRuntime false)),
      (rounds.foldl (P2PNetwork.play .binary64) fiveRejections).IsExcluded "Node-1" :=
  ⟨isExcluded_fiveRejections, by decide +kernel,
    fun rounds => (isExcluded_fiveRejections.throughout .binary64 rounds).last⟩

/-! ## Wrong answers -/

/-- The node is listed as faulty in a round that returns. -/
def ListsFaulty (nodeId : String) :
    Except InsufficientQuorumError (List NodeResult × ConsensusResult) → Prop
  | .ok (_, cr) => nodeId ∈ cr.faultyNodes
  | .error _ => False

instance (nodeId : String) : DecidablePred (ListsFaulty nodeId)
  | .ok (_, cr) => inferInstanceAs (Decidable (nodeId ∈ cr.faultyNodes))
  | .error _ => inferInstanceAs (Decidable False)

def RepliesUnder (nodeId : String) : Response → Prop
  | some (r, _) => r.nodeId = nodeId
  | none => False

instance (nodeId : String) : DecidablePred (RepliesUnder nodeId)
  | some (r, _) => inferInstanceAs (Decidable (r.nodeId = nodeId))
  | none => inferInstanceAs (Decidable False)

/-- The node replies under its own id and is listed as faulty. -/
def AnswersWrongly (nodeId : String) (net : P2PNetwork rt) (round : Round rt) : Prop :=
  ListsFaulty nodeId (net.broadcast R round.now round.tx round.channel).2 ∧
    net.IsSent nodeId ∧ ∀ server ∈ net.participating, server.nodeId = nodeId →
      RepliesUnder nodeId (sendToServer server round.tx (round.channel server)).2

instance (nodeId : String) (net : P2PNetwork rt) (round : Round rt) :
    Decidable (net.AnswersWrongly R nodeId round) :=
  inferInstanceAs (Decidable (_ ∧ (∃ _ ∈ _, _) ∧ ∀ _ ∈ _, _ → _))

/-- A node outside exclusion that only succeeds is healthy. -/
theorem foldl_recordResponse_success (now : ℕ) (nodeId : String)
    (responses : List (NodeServer rt × Response)) (registry : NodeHealthRegistry)
    (hstate : (registry.get nodeId).state ≠ .excluded)
    (hsome : ∀ p ∈ responses, p.1.nodeId = nodeId → p.2.isSome)
    (hex : ∃ p ∈ responses, p.1.nodeId = nodeId) :
    ((responses.foldl (recordResponse now) registry).get nodeId).state = .healthy := by
  induction responses generalizing registry with
  | nil => simp at hex
  | cons p responses ih =>
    have hrest : ∀ q ∈ responses, q.1.nodeId = nodeId → q.2.isSome :=
      fun q hq => hsome q (List.mem_cons_of_mem p hq)
    rw [List.foldl_cons]
    by_cases hid : p.1.nodeId = nodeId
    · obtain ⟨⟨r, latencyMs⟩, hr⟩ := Option.isSome_iff_exists.mp (hsome p List.mem_cons_self hid)
      refine foldl_recordResponse_healthy now nodeId responses _ ?_ (.inl hrest)
      simp only [recordResponse, hr, NodeHealthRegistry.recordSuccess, hid,
        NodeHealthRegistry.get_set, if_true]
      exact NodeHealth.recordSuccess_healthy hstate now latencyMs
    · have hother := recordResponse_get_of_ne now registry (p := p) (Ne.symm hid)
      obtain ⟨q, hq, hqid⟩ := hex
      rcases List.mem_cons.mp hq with rfl | hq
      · exact absurd hqid hid
      · exact ih _ (hother ▸ hstate) hrest ⟨q, hq, hqid⟩

/-- A round in which a node answers wrongly leaves it healthy. -/
theorem healthy_of_answersWrongly {net : P2PNetwork rt} {nodeId : String} {round : Round rt}
    (h : net.AnswersWrongly R nodeId round) :
    ((net.play R round).health.get nodeId).state = .healthy := by
  obtain ⟨-, hsent, hreply⟩ := h
  rw [play_health]
  refine foldl_recordResponse_success round.now nodeId _ net.health
    (fun hex => IsExcluded.not_isSent hex hsent) ?_ ?_
  · intro p hp hid
    obtain ⟨server, hserver, rfl⟩ := List.mem_map.mp hp
    have hunder := hreply server hserver hid
    dsimp only
    cases hr : (sendToServer server round.tx (round.channel server)).2 with
    | some r => rfl
    | none => rw [hr] at hunder; cases hunder
  · obtain ⟨server, hserver, hid⟩ := hsent
    exact ⟨_, List.mem_map_of_mem hserver, hid⟩

theorem healthy_of_answersWrongly_run {net : P2PNetwork rt} {nodeId : String}
    {rounds : List (Round rt)} (hne : rounds ≠ [])
    (h : StepsMeet (P2PNetwork.play R) (AnswersWrongly R nodeId) net rounds) :
    ((rounds.foldl (P2PNetwork.play R) net).health.get nodeId).state = .healthy := by
  induction rounds generalizing net with
  | nil => exact absurd rfl hne
  | cons round rounds ih =>
    obtain ⟨hround, hrest⟩ := h
    by_cases hlast : rounds = []
    · subst hlast
      exact healthy_of_answersWrongly R hround
    · exact ih hlast hrest

/-- After the given number of wrong answers in a row the node is suspect, then excluded. -/
def Demoted (wrongAnswers : ℕ) (health : NodeHealth) : Prop :=
  (suspectThreshold ≤ wrongAnswers → health.state ≠ .healthy) ∧
    (excludedThreshold ≤ wrongAnswers → health.state = .excluded)

/-- No number of wrong answers in a row demotes a node. -/
theorem not_demoted_of_answersWrongly {net : P2PNetwork rt} {nodeId : String}
    {rounds : List (Round rt)} (hlen : suspectThreshold ≤ rounds.length)
    (h : StepsMeet (P2PNetwork.play R) (AnswersWrongly R nodeId) net rounds) :
    ¬ Demoted rounds.length ((rounds.foldl (P2PNetwork.play R) net).health.get nodeId) := by
  have hne : rounds ≠ [] := by
    rintro rfl
    simp [suspectThreshold] at hlen
  exact fun hdemoted => hdemoted.1 hlen (healthy_of_answersWrongly_run R hne h)

/-- The third server answers without a signature, the others cannot be reached. -/
def unsignedRound : Round (referenceRuntime false) :=
  ⟨withdrawal, 0, fun server =>
    if thirdServer server then .byzantine (.result "Node-3" "00" none) 0 else .requestLost⟩

theorem answersWrongly_unsigned : StepsMeet (P2PNetwork.play .binary64)
    (AnswersWrongly .binary64 "Node-3") overdraftNetwork (List.replicate 5 unsignedRound) := by
  decide +kernel

theorem not_demoted_unsigned :
    ¬ Demoted 5 (((List.replicate 5 unsignedRound).foldl (P2PNetwork.play .binary64)
      overdraftNetwork).health.get "Node-3") :=
  not_demoted_of_answersWrongly .binary64 (by decide) answersWrongly_unsigned

/-- Five unsigned answers in a row, each listed as a fault, leave the node healthy. -/
theorem wrong_answers_stay_healthy :
    StepsMeet (P2PNetwork.play .binary64) (AnswersWrongly .binary64 "Node-3") overdraftNetwork
      (List.replicate 5 unsignedRound) ∧
    (((List.replicate 5 unsignedRound).foldl (P2PNetwork.play .binary64)
      overdraftNetwork).health.get "Node-3").state = .healthy :=
  ⟨answersWrongly_unsigned, by decide +kernel⟩

end P2PNetwork
end ECN
