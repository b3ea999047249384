import ECN.Finality
import ECN.Stream

/-!
# Audit events in responses and on the bus

The handler of a submission does not receive the event of its round: it takes the last
one of the audit log. No other handler runs between the end of the broadcast, which
records the event, and the end of the handler, which publishes it, so the last event is
its own and the topics mirror the log.
-/
namespace ECN

variable {rt : Runtime}

/-! ## One move of the submissions -/

/-- A submission whose broadcast has returned, with the results of that broadcast. -/
structure Answer where
  request : InFlight
  results : List NodeResult
  outcome : Except HttpError TransactionResponse

namespace Submissions

variable (R : Rounding)

/-- The answer that a move gives. -/
def answered (s : Submissions rt) : Move rt → List Answer
  | .finish i responses =>
    match s.inFlight[i]? with
    | some p => [⟨p, P2PNetwork.resultsOf responses,
        (s.app.submitEnd R p.ctx p.tx p.record responses).2⟩]
    | none => []
  | .submit _ _ => []
  | .deliver _ _ => []

/-- The parts of a network that no submission changes. -/
structure SameSettings (net net' : P2PNetwork rt) : Prop where
  publicKeys : net'.publicKeys = net.publicKeys
  quorumThreshold : net'.quorumThreshold = net.quorumThreshold
  minResponses : net'.minResponses = net.minResponses

theorem SameSettings.refl (net : P2PNetwork rt) : SameSettings net net := ⟨rfl, rfl, rfl⟩

theorem SameSettings.trans {net net' net'' : P2PNetwork rt} (h : SameSettings net net')
    (h' : SameSettings net' net'') : SameSettings net net'' :=
  ⟨h'.publicKeys.trans h.publicKeys, h'.quorumThreshold.trans h.quorumThreshold,
    h'.minResponses.trans h.minResponses⟩

/-- What a move does to the audit log, to what is published and to the answers: no
success and at most a round without results on record, or one round recorded, published
and answered. -/
inductive RoundStep (s s' : Submissions rt) (answers : List Answer) : Prop where
  | quiet (hlog : s'.app.network.auditLog = s.app.network.auditLog)
      (hpublished : s'.app.published = s.app.published)
      (hanswers : ∀ a ∈ answers, ∀ response, a.outcome ≠ .ok response)
  | silent (log log' : AuditLog) (hmin : s.app.network.minResponses ≤ 0)
      (hlog : s.app.network.auditLog = some log) (hlog' : s'.app.network.auditLog = some log')
      (hevents : log.events <+: log'.events)
      (hanswers : ∀ a ∈ answers, ∀ response, a.outcome ≠ .ok response)
  | announced (log : AuditLog) (now : ℕ) (p : InFlight) (results : List NodeResult)
      (record : TransactionRecord)
      (cr : ConsensusResult)
      (hcr : cr = runConsensus R results (some s.app.network.publicKeys)
        s.app.network.quorumThreshold)
      (hlog : s.app.network.auditLog = some log)
      (hlog' : s'.app.network.auditLog = some (log.record now p.tx results cr))
      (hpublished : s'.app.published =
        (s.app.announce (log.event now p.tx results cr)).published)
      (hanswers : answers =
        [⟨p, results, .ok (eventToResponse (log.event now p.tx results cr) record)⟩])

theorem publicKeys_deliver (net : P2PNetwork rt) {server : NodeServer rt} {j : ℕ}
    (hj : net.servers[j]? = some server) (tx : Transaction) :
    P2PNetwork.publicKeys { net with servers := net.servers.set j (server.handleClient tx).1 } =
      net.publicKeys := by
  have hsame : (net.servers.set j (server.handleClient tx).1).map
      (fun s => (s.nodeId, s.publicKey)) = net.servers.map fun s => (s.nodeId, s.publicKey) := by
    apply List.ext_getElem?
    intro k
    rw [List.getElem?_map, List.getElem?_map, List.getElem?_set]
    by_cases hk : j = k
    · subst hk
      have hlt := (List.getElem?_eq_some_iff.mp hj).1
      rw [if_pos rfl, if_pos hlt, hj, Option.map_some, Option.map_some,
        NodeServer.handleClient_nodeId, NodeServer.handleClient_publicKey]
    · rw [if_neg hk]
  exact congrArg OrderedDict.ofList hsame

/-- The spec of a move. -/
theorem roundStep {s : Submissions rt} (hw : s.Waiting) (move : Move rt) :
    SameSettings s.app.network (s.step R move).app.network ∧
      RoundStep R s (s.step R move) (s.answered R move) := by
  cases move with
  | submit ctx body =>
    cases hlog : s.app.network.auditLog with
    | none =>
      have hstep : s.step R (.submit ctx body) = s := by
        simp [step, App.submitBegin, hlog]
      rw [hstep]
      exact ⟨.refl _, .quiet rfl rfl (by simp [answered])⟩
    | some log =>
      obtain ⟨saved, record, hbegin, -⟩ := s.app.submitBegin_eq R ctx (by rw [hlog]; rfl)
      simp only [step, hbegin]
      exact ⟨.refl _, .quiet rfl rfl (by simp [answered])⟩
  | deliver i j =>
    unfold step
    dsimp only
    split
    · next p server _ hj =>
      exact ⟨⟨publicKeys_deliver _ hj p.tx, rfl, rfl⟩, .quiet rfl rfl (by simp [answered])⟩
    · exact ⟨.refl _, .quiet rfl rfl (by simp [answered])⟩
  | finish i responses =>
    unfold step answered
    dsimp only
    cases hi : s.inFlight[i]? with
    | none => exact ⟨.refl _, .quiet rfl rfl (by simp)⟩
    | some p =>
      dsimp only
      let results := P2PNetwork.resultsOf responses
      let cr := runConsensus R results (some s.app.network.publicKeys)
        s.app.network.quorumThreshold
      rcases lt_or_ge (results.length : ℤ) s.app.network.minResponses with hlt | hmin
      · obtain ⟨health, e, hend⟩ := s.app.submitEnd_of_lt R p.ctx p.tx p.record hlt
        rw [hend]
        exact ⟨⟨rfl, rfl, rfl⟩, .quiet rfl rfl (by simp)⟩
      cases hlog : s.app.network.auditLog with
      | none =>
        obtain ⟨e, hend⟩ := s.app.submitEnd_unanswered R p.ctx p.tx p.record hmin (.inr hlog)
        rw [hend, P2PNetwork.collect_of_le R hmin]
        refine ⟨⟨rfl, rfl, rfl⟩, .quiet ?_ rfl (by simp)⟩
        dsimp only
        rw [hlog]
        rfl
      | some log =>
        by_cases hne : results = []
        · obtain ⟨e, hend⟩ := s.app.submitEnd_unanswered R p.ctx p.tx p.record hmin (.inl hne)
          have hzero : s.app.network.minResponses ≤ 0 := by simpa [hne] using hmin
          rw [hend, P2PNetwork.collect_of_le R hmin]
          refine ⟨⟨rfl, rfl, rfl⟩, .silent log (log.record p.ctx.billing.now p.tx results cr) hzero
            hlog ?_ (List.prefix_append _ _) (by simp)⟩
          dsimp only
          rw [hlog]
          rfl
        · obtain ⟨network, finalized, billed, replicated, hend, hservers, hmins, hthreshold, hrecord,
            -⟩ := s.app.submitEnd_announces R p.ctx p.tx (hw p (List.mem_of_getElem? hi)) responses
              hlog hmin hne
          rw [hend]
          refine ⟨⟨?_, hthreshold, hmins⟩, .announced log p.ctx.billing.now p results replicated cr
            rfl hlog hrecord rfl rfl⟩
          simp only [App.announce, P2PNetwork.publicKeys, hservers]

/-! ## The topics mirror the log -/

/-- What was published on a topic. -/
def publishedOn (published : List (Topic × AuditEvent)) (topic : Topic) : List AuditEvent :=
  (published.filter fun p => p.1 = topic).map Prod.snd

def hasFault (event : AuditEvent) : Bool := !event.faultyNodes.isEmpty

theorem publishedOn_announce (app : App rt) (event : AuditEvent) :
    publishedOn (app.announce event).published .transactions =
        publishedOn app.published .transactions ++ [event] ∧
      publishedOn (app.announce event).published .faults =
        publishedOn app.published .faults ++ [event].filter hasFault := by
  unfold publishedOn App.announce hasFault
  cases h : event.faultyNodes.isEmpty
  · simp [h]
  · simp [h]

/-- The topics hold the events of the log, which is numbered from one. -/
structure Mirrors (s : Submissions rt) (log : AuditLog) : Prop where
  recorded : s.app.network.auditLog = some log
  numbered : log.events.map AuditEvent.roundId = List.range' 1 log.events.length
  transactions : publishedOn s.app.published .transactions = log.events
  faults : publishedOn s.app.published .faults = log.events.filter hasFault

theorem Mirrors.step {s : Submissions rt} (hw : s.Waiting) (hmin : 0 < s.app.network.minResponses)
    {log : AuditLog} (h : Mirrors s log) (move : Move rt) :
    ∃ log', Mirrors (s.step R move) log' := by
  obtain ⟨hrecorded, hnumbered, htransactions, hfaults⟩ := h
  obtain ⟨-, hround⟩ := roundStep R hw move
  rcases hround with ⟨hlog, hpublished, -⟩ | ⟨_, _, hzero, -⟩ |
    ⟨log₀, now, p, results, record, cr, -, hlog, hlog', hpublished, -⟩
  · refine ⟨log, hlog.trans hrecorded, hnumbered, ?_, ?_⟩
    · rw [hpublished]
      exact htransactions
    · rw [hpublished]
      exact hfaults
  · omega
  · obtain rfl : log₀ = log := Option.some_inj.mp (hlog.symm.trans hrecorded)
    obtain ⟨htx, hfault⟩ := publishedOn_announce s.app (log₀.event now p.tx results cr)
    refine ⟨_, hlog', ?_, ?_, ?_⟩
    · rw [AuditLog.record, List.map_append, List.length_append, hnumbered]
      simp [AuditLog.event, List.range'_concat, Nat.add_comm]
    · rw [hpublished, htx, htransactions]
      rfl
    · rw [hpublished, hfault, hfaults, ← List.filter_append]
      rfl

/-- Whenever no handler is between two awaits, the events published to the transactions
topic are the audit log in the order of its rounds, and those published to the faults
topic are its events with a faulty node. -/
theorem topics_mirror_log (env : Option ℚ) (servers : List (NodeServer rt))
    (moves : List (Move rt)) :
    let s := moves.foldl (step R) (start (App.lifespan R env servers))
    ∃ log, s.app.network.auditLog = some log ∧
      log.events.map AuditEvent.roundId = List.range' 1 log.events.length ∧
      publishedOn s.app.published .transactions = log.events ∧
      publishedOn s.app.published .faults = log.events.filter hasFault := by
  intro s
  have hall : Throughout (step R) (fun s => s.Waiting ∧ 0 < s.app.network.minResponses ∧
      ∃ log, Mirrors s log) (start (App.lifespan R env servers)) moves := by
    apply Throughout.of_step
    · intro s move ⟨hw, hmin, log, hmirrors⟩
      have hsettings := (roundStep R hw move).1
      exact ⟨hw.step R move, by rw [hsettings.minResponses]; exact hmin,
        hmirrors.step R hw hmin move⟩
    · have hdefault : (start (App.lifespan R env servers)).app.network.minResponses = 1 := rfl
      exact ⟨nofun, by rw [hdefault]; omega, .empty, rfl, rfl, rfl, rfl⟩
  obtain ⟨-, -, log, hmirrors⟩ := hall.last
  exact ⟨log, hmirrors.recorded, hmirrors.numbered, hmirrors.transactions, hmirrors.faults⟩

/-- The calls that put the published events on the bus. -/
def busMoves (published : List (Topic × AuditEvent)) : List (BusMove AuditEvent) :=
  published.map fun p => .publish p.1.name p.2

/-- The bus of the application numbers and retains what was published on each topic. -/
theorem holds_busMoves (maxlen : ℕ) (published : List (Topic × AuditEvent)) :
    ((busMoves published).foldl EventBus.apply (.new AuditEvent maxlen)).Holds
      (publishedOn published) := by
  induction published using List.reverseRecOn with
  | nil => exact EventBus.holds_new maxlen
  | append_singleton published p ih =>
    have hlast := (ih.apply (.publish p.1.name p.2)).2
    have hmore : (fun t => publishedOn published t ++
        (BusMove.publish p.1.name p.2).payloads t) = publishedOn (published ++ [p]) := by
      funext t
      by_cases h : p.1 = t
      · simp [publishedOn, BusMove.payloads, h]
      · simp [publishedOn, BusMove.payloads, h]
    rw [busMoves, List.map_append, List.foldl_append, ← hmore]
    exact hlast

/-! ## Every answer reports its own round -/

/-- The systems of submissions with the answers given so far. -/
structure Answering (rt : Runtime) where
  submissions : Submissions rt
  answers : List Answer

def Answering.step (s : Answering rt) (move : Move rt) : Answering rt :=
  ⟨s.submissions.step R move, s.answers ++ s.submissions.answered R move⟩

/-- The rounds that the successful answers name. -/
def roundIds (answers : List Answer) : List ℕ :=
  answers.filterMap fun a => a.outcome.toOption.map TransactionResponse.roundId

/-- A response reports an event of the log, which was recorded for the request's own
transaction and results. -/
def OwnRound (net : P2PNetwork rt) (log : AuditLog) (answer : Answer)
    (response : TransactionResponse) : Prop :=
  let cr := runConsensus R answer.results (some net.publicKeys) net.quorumThreshold
  ∃ (earlier : AuditLog) (now : ℕ) (record : TransactionRecord),
    let event := earlier.event now answer.request.tx answer.results cr
    log.getEvent response.roundId = some event ∧ response = eventToResponse event record

theorem getEvent_mono {log log' : AuditLog} (h : log.events <+: log'.events) {id : ℕ}
    {event : AuditEvent} (he : log.getEvent id = some event) : log'.getEvent id = some event := by
  obtain ⟨rest, hrest⟩ := h
  unfold AuditLog.getEvent at he ⊢
  split at he
  · next hpos =>
    have hlt := (List.getElem?_eq_some_iff.mp he).1
    rw [if_pos hpos, ← hrest, List.getElem?_append_left hlt]
    exact he
  · cases he

/-- The invariant of the answers. -/
structure Reports (net : P2PNetwork rt) (s : Answering rt) : Prop where
  waiting : s.submissions.Waiting
  settings : SameSettings net s.submissions.app.network
  own : ∀ answer ∈ s.answers, ∀ response, answer.outcome = .ok response →
    ∃ log, s.submissions.app.network.auditLog = some log ∧ OwnRound R net log answer response
  increasing : (roundIds s.answers).Pairwise (· < ·)
  bounded : ∀ log, s.submissions.app.network.auditLog = some log →
    ∀ id ∈ roundIds s.answers, id ≤ log.events.length

theorem OwnRound.mono {net : P2PNetwork rt} {log log' : AuditLog} {answer : Answer}
    {response : TransactionResponse} (h : OwnRound R net log answer response)
    (hpre : log.events <+: log'.events) : OwnRound R net log' answer response := by
  obtain ⟨earlier, now, record, hget, hresponse⟩ := h
  exact ⟨earlier, now, record, getEvent_mono hpre hget, hresponse⟩

theorem roundIds_of_failed {answers : List Answer}
    (h : ∀ a ∈ answers, ∀ response, a.outcome ≠ .ok response) : roundIds answers = [] := by
  apply List.filterMap_eq_nil_iff.mpr
  intro a ha
  cases hoc : a.outcome with
  | error e => rfl
  | ok response => exact absurd hoc (h a ha response)

/-- Failed answers add nothing, while the log may grow. -/
theorem Reports.of_failed {net : P2PNetwork rt} {s s' : Answering rt} (h : Reports R net s)
    (hw : s'.submissions.Waiting) (hsettings : SameSettings net s'.submissions.app.network)
    {answers : List Answer} (hanswers : s'.answers = s.answers ++ answers)
    (hfailed : ∀ a ∈ answers, ∀ response, a.outcome ≠ .ok response)
    (hgrows : ∀ log, s.submissions.app.network.auditLog = some log →
      ∃ log', s'.submissions.app.network.auditLog = some log' ∧ log.events <+: log'.events)
    (hfrom : s.submissions.app.network.auditLog = none →
      s'.submissions.app.network.auditLog = none) : Reports R net s' := by
  have hids : roundIds s'.answers = roundIds s.answers := by
    rw [hanswers, roundIds, List.filterMap_append, ← roundIds, ← roundIds,
      roundIds_of_failed hfailed, List.append_nil]
  refine ⟨hw, hsettings, ?_, by rw [hids]; exact h.increasing, ?_⟩
  · intro answer ha response hok
    rw [hanswers, List.mem_append] at ha
    rcases ha with ha | ha
    · obtain ⟨log, hlog, hown⟩ := h.own answer ha response hok
      obtain ⟨log', hlog', hpre⟩ := hgrows log hlog
      exact ⟨log', hlog', hown.mono R hpre⟩
    · exact absurd hok (hfailed answer ha response)
  · intro log' hlog' id hid
    rw [hids] at hid
    cases hlog : s.submissions.app.network.auditLog with
    | none =>
      rw [hfrom hlog] at hlog'
      cases hlog'
    | some log =>
      obtain ⟨log'', hlog'', hpre⟩ := hgrows log hlog
      obtain rfl := Option.some_inj.mp (hlog''.symm.trans hlog')
      exact (h.bounded log hlog id hid).trans hpre.length_le

theorem Reports.step {net : P2PNetwork rt} {s : Answering rt} (h : Reports R net s)
    (move : Move rt) : Reports R net (s.step R move) := by
  obtain ⟨hsame, hround⟩ := roundStep R h.waiting move
  have hw := h.waiting.step R move
  have hsettings := h.settings.trans hsame
  rcases hround with ⟨hlog, -, hfailed⟩ | ⟨log, log', -, hlog, hlog', hpre, hfailed⟩ |
    ⟨log, now, p, results, record, cr, hcr, hlog, hlog', -, hanswers⟩
  · apply h.of_failed R hw hsettings rfl hfailed
    · exact fun log hsome => ⟨log, hlog.trans hsome, List.prefix_rfl⟩
    · exact fun hnone => hlog.trans hnone
  · apply h.of_failed R hw hsettings rfl hfailed
    · intro log₀ hsome
      obtain rfl := Option.some_inj.mp (hlog.symm.trans hsome)
      exact ⟨log', hlog', hpre⟩
    · intro hnone
      rw [hlog] at hnone
      cases hnone
  · rw [h.settings.publicKeys, h.settings.quorumThreshold] at hcr
    subst hcr
    let event := log.event now p.tx results
      (runConsensus R results (some net.publicKeys) net.quorumThreshold)
    have hids : roundIds (s.step R move).answers =
        roundIds s.answers ++ [log.events.length + 1] := by
      rw [Answering.step, hanswers, roundIds, List.filterMap_append, ← roundIds]
      rfl
    have hpre : log.events <+: (log.record now p.tx results
        (runConsensus R results (some net.publicKeys) net.quorumThreshold)).events :=
      List.prefix_append _ _
    refine ⟨hw, hsettings, ?_, ?_, ?_⟩
    · intro answer ha response hok
      rw [Answering.step, hanswers, List.mem_append, List.mem_singleton] at ha
      rcases ha with ha | rfl
      · obtain ⟨log₀, hlog₀, hown⟩ := h.own answer ha response hok
        obtain rfl := Option.some_inj.mp (hlog.symm.trans hlog₀)
        exact ⟨_, hlog', hown.mono R hpre⟩
      · cases hok
        exact ⟨_, hlog', log, now, record, log.getEvent_record now p.tx results _, rfl⟩
    · rw [hids, List.pairwise_append]
      refine ⟨h.increasing, List.pairwise_singleton _ _, ?_⟩
      intro id hid last hlast
      have hbound := h.bounded log hlog id hid
      have heq := List.mem_singleton.mp hlast
      omega
    · intro log₀ hlog₀ id hid
      obtain rfl := Option.some_inj.mp (hlog'.symm.trans hlog₀)
      rw [hids, List.mem_append, List.mem_singleton] at hid
      simp only [AuditLog.record, List.length_append, List.length_singleton]
      rcases hid with hid | rfl
      · have hbound := h.bounded log hlog id hid
        omega
      · omega

theorem reports_start (app : App rt) : Reports R app.network ⟨start app, []⟩ where
  waiting _ hp := by cases hp
  settings := .refl _
  own _ ha := by cases ha
  increasing := List.Pairwise.nil
  bounded _ _ _ hid := by cases hid

/-- A successful request answers with the event of its own round, and no two name the
same round. -/
theorem answers_own_round (app : App rt) (moves : List (Move rt)) :
    let s := moves.foldl (Answering.step R) ⟨start app, []⟩
    (∀ answer ∈ s.answers, ∀ response, answer.outcome = .ok response →
      let cr := runConsensus R answer.results (some app.network.publicKeys)
        app.network.quorumThreshold
      (∃ log, s.submissions.app.network.auditLog = some log ∧
        OwnRound R app.network log answer response) ∧
      response.transaction = answer.request.tx ∧
      response.votes = answer.results.map
        (fun r => ⟨r.nodeId, r.stateHash, r.signature, voteStatus cr r.nodeId⟩) ∧
      response.agreedHash = cr.agreedHash ∧ response.faultyNodes = cr.faultyNodes) ∧
    (roundIds s.answers).Nodup := by
  intro s
  have hall : Throughout (Answering.step R) (Reports R app.network) ⟨start app, []⟩ moves :=
    Throughout.of_step (fun _ move h => h.step R move) (reports_start R app) moves
  have hreports : Reports R app.network s := hall.last
  constructor
  · intro answer ha response hok
    obtain ⟨log, hlog, hown⟩ := hreports.own answer ha response hok
    have hfields := hown
    obtain ⟨earlier, now, record, -, rfl⟩ := hfields
    exact ⟨⟨log, hlog, hown⟩, rfl, rfl, rfl, rfl⟩
  · exact hreports.increasing.imp fun hlt => ne_of_lt hlt

end Submissions
end ECN
