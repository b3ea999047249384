import ECN.FloatRepr
import ECN.JsonFields

/-!
# The persistent audit trail

Every recorded event is written to a table as the JSON text of its dictionary, under the
tenant of its log. Opening a log reads the rows of its tenant in order, so a log that is
opened again is the one that was there before.
-/
namespace ECN

/-! ## Events as dictionaries -/

def VoteStatus.value : VoteStatus → String
  | .honest => "honest"
  | .hashFault => "hash_fault"
  | .sigFault => "sig_fault"

def NodeVote.toDict (v : NodeVote) : PyDict :=
  [(.str "node_id", .str v.nodeId), (.str "state_hash", .str v.stateHash),
    (.str "signature", optionalText v.signature), (.str "status", .str v.status.value)]

def countsDict (counts : OrderedDict String ℕ) : PyDict :=
  counts.entries.map fun e => (.str e.1, .int e.2)

def AuditEvent.toDict (event : AuditEvent) : PyDict :=
  [(.str "round_id", .int event.roundId), (.str "timestamp", .str event.timestamp),
    (.str "transaction", .dict event.transaction),
    (.str "votes", .list (event.votes.map fun v => .dict v.toDict)),
    (.str "agreed_hash", optionalText event.agreedHash),
    (.str "consensus_reached", .bool event.consensusReached),
    (.str "honest_nodes", texts event.honestNodes),
    (.str "faulty_nodes", texts event.faultyNodes),
    (.str "invalid_sig_nodes", texts event.invalidSigNodes),
    (.str "vote_counts", .dict (countsDict event.voteCounts))]

/-! ## Reading events back -/

def VoteStatus.parse (s : String) : Option VoteStatus :=
  [VoteStatus.honest, .hashFault, .sigFault].find? fun status => status.value = s

def Value.asCounts (v : Value) : Except Exc (OrderedDict String ℕ) := do
  let pairs ← (← v.asDict).mapM fun e => do
    return (← (Value.scalar e.1).asStr, ← e.2.asNat)
  return .ofList pairs

def NodeVote.ofDict (d : PyDict) : Except Exc NodeVote := do
  return {
    nodeId := ← (← d.item (.str "node_id")).asStr
    stateHash := ← (← d.item (.str "state_hash")).asStr
    signature := ← (d.getD "signature" .none).asOptionalStr
    status := ← (← d.item (.str "status")).asMember VoteStatus.parse }

/-- One round of `_load_from_store`, with its defaults. -/
def AuditEvent.ofDict (d : PyDict) : Except Exc AuditEvent := do
  let votes ← (← (d.getD "votes" (.list [])).asList).mapM fun v => do NodeVote.ofDict (← v.asDict)
  return {
    roundId := ← (← d.item (.str "round_id")).asNat
    timestamp := ← (← d.item (.str "timestamp")).asStr
    transaction := ← (← d.item (.str "transaction")).asDict
    votes
    agreedHash := ← (d.getD "agreed_hash" .none).asOptionalStr
    consensusReached := ← (d.getD "consensus_reached" (.bool false)).asBool
    honestNodes := ← (d.getD "honest_nodes" (.list [])).asTexts
    faultyNodes := ← (d.getD "faulty_nodes" (.list [])).asTexts
    invalidSigNodes := ← (d.getD "invalid_sig_nodes" (.list [])).asTexts
    voteCounts := ← (d.getD "vote_counts" (.dict [])).asCounts }

/-! ## The store -/

/-- A row of `audit_events`. -/
structure AuditRow where
  tenantId : String
  data : String

/-- The rows in the order of their ids. -/
structure SQLiteAuditStore where
  rows : List AuditRow

namespace SQLiteAuditStore

variable (py : Interp)

def append (store : SQLiteAuditStore) (event : PyDict) (tenantId : String) : SQLiteAuditStore :=
  ⟨store.rows ++ [⟨tenantId, (Value.dict event).jsonText py⟩]⟩

/-- The parsed rows of a tenant. -/
def loadAll (store : SQLiteAuditStore) (tenantId : String) : Except Exc (List Value) :=
  (store.rows.filter fun row => row.tenantId = tenantId).mapM fun row => storedValue row.data

end SQLiteAuditStore

/-- `_load_from_store`, of the log of one tenant. -/
def AuditLog.loadFromStore (store : SQLiteAuditStore) (tenantId : String) : Except Exc AuditLog := do
  let events ← (← store.loadAll tenantId).mapM fun v => do AuditEvent.ofDict (← v.asDict)
  return ⟨events⟩

/-! ## Round trips of events -/

theorem VoteStatus.parse_value (status : VoteStatus) : parse status.value = some status := by
  cases status <;> decide

@[simp] theorem asCounts_countsDict (counts : OrderedDict String ℕ) :
    (Value.dict (countsDict counts)).asCounts = .ok counts := by
  have hmap := mapM_eq_ok (fun e : String × ℕ => (Scalar.str e.1, Value.int e.2))
    (fun e => do return (← (Value.scalar e.1).asStr, ← e.2.asNat)) id counts.entries (by
      intro e _
      simp [Value.asStr, Value.asNat]
      rfl)
  rw [List.map_id] at hmap
  have hentries : OrderedDict.ofList counts.entries = counts :=
    OrderedDict.ext (OrderedDict.entries_ofList counts.nodup)
  simp only [Value.asCounts, Value.asDict, countsDict, bind, Except.bind, pure, Except.pure]
    at hmap ⊢
  rw [hmap]
  exact congrArg Except.ok hentries

theorem NodeVote.ofDict_toDict (v : NodeVote) : NodeVote.ofDict v.toDict = .ok v := by
  have hstatus := asMember_str v.status.parse_value
  simp [NodeVote.ofDict, NodeVote.toDict, PyDict.getD, PyDict.item, PyDict.get?, Value.asStr, bind,
    Except.bind, pure, Except.pure, hstatus]

theorem AuditEvent.ofDict_toDict (event : AuditEvent) :
    AuditEvent.ofDict event.toDict = .ok event := by
  have hvotes := mapM_eq_ok (fun v : NodeVote => Value.dict v.toDict)
    (fun v => do NodeVote.ofDict (← v.asDict)) id event.votes
    fun v _ => NodeVote.ofDict_toDict v
  rw [List.map_id] at hvotes
  simp [AuditEvent.ofDict, AuditEvent.toDict, PyDict.getD, PyDict.item, PyDict.get?, Value.asStr,
    Value.asList, Value.asNat, Value.asDict, Value.asBool, bind, Except.bind, pure, Except.pure]
    at hvotes ⊢
  rw [hvotes]

/-! ## Events as JSON -/

theorem isJsonDoc_vote (v : NodeVote) : IsJsonDoc (.dict v.toDict) := by
  refine .dict (by simp [NodeVote.toDict]) (by simp [NodeVote.toDict]) ?_
  simp only [NodeVote.toDict, List.mem_cons, List.not_mem_nil, or_false, forall_eq_or_imp,
    forall_eq]
  exact ⟨isJsonDoc_str _, isJsonDoc_str _, isJsonDoc_optionalText _, isJsonDoc_str _⟩

theorem isJsonDoc_countsDict (counts : OrderedDict String ℕ) :
    IsJsonDoc (.dict (countsDict counts)) := by
  refine .dict ?_ (fun e he => ?_) fun e he => ?_
  · have hkeys : (countsDict counts).map Prod.fst = counts.keys.map Scalar.str := by
      simp [countsDict, OrderedDict.keys]
    rw [hkeys]
    exact counts.nodup.map fun s t h => Scalar.str.inj h
  · obtain ⟨entry, -, rfl⟩ := List.mem_map.mp he
    exact ⟨entry.1, rfl⟩
  · obtain ⟨entry, -, rfl⟩ := List.mem_map.mp he
    exact .scalar rfl

theorem AuditEvent.isJsonDoc {event : AuditEvent} (h : IsJsonDoc (.dict event.transaction)) :
    IsJsonDoc (.dict event.toDict) := by
  refine .dict (by simp [toDict]) (by simp [toDict]) ?_
  have hvotes : IsJsonDoc (.list (event.votes.map fun v => .dict v.toDict)) := by
    refine .list fun v hv => ?_
    obtain ⟨vote, -, rfl⟩ := List.mem_map.mp hv
    exact isJsonDoc_vote vote
  simp only [toDict, List.mem_cons, List.not_mem_nil, or_false, forall_eq_or_imp, forall_eq]
  exact ⟨.scalar rfl, isJsonDoc_str _, h, hvotes, isJsonDoc_optionalText _, .scalar rfl,
    isJsonDoc_texts _, isJsonDoc_texts _, isJsonDoc_texts _, isJsonDoc_countsDict _⟩

/-! ## The store mirrors the logs -/

variable {py : Interp}

/-- The row of an event. -/
def AuditEvent.row (py : Interp) (event : AuditEvent) (tenantId : String) : AuditRow :=
  ⟨tenantId, (Value.dict event.toDict).jsonText py⟩

/-- Events are numbered from one by their position. -/
def AuditLog.Numbered (log : AuditLog) : Prop :=
  ∀ i (h : i < log.events.length), log.events[i].roundId = i + 1

/-- The rows of a tenant are those of the events of its log, in order, and every event
was one that could be written. -/
structure Mirrors (py : Interp) (store : SQLiteAuditStore) (tenantId : String) (log : AuditLog) :
    Prop where
  rows : (store.rows.filter fun row => row.tenantId = tenantId) = log.events.map (·.row py tenantId)
  json : ∀ event ∈ log.events, IsJsonDoc (.dict event.transaction)
  numbered : log.Numbered

theorem AuditLog.Numbered.record {log : AuditLog} (h : log.Numbered) (now : ℕ) (tx : Transaction)
    (results : List NodeResult) (cr : ConsensusResult) : (log.record now tx results cr).Numbered := by
  intro i hi
  rw [AuditLog.record, List.length_append, List.length_singleton] at hi
  rcases Nat.lt_succ_iff_lt_or_eq.mp hi with hlt | rfl
  · simp [AuditLog.record, hlt, h i hlt]
  · simp [AuditLog.record, AuditLog.event]

theorem AuditLog.Numbered.getEvent {log : AuditLog} (h : log.Numbered) {i : ℕ} (hpos : 1 ≤ i)
    (hi : i ≤ log.events.length) : ∃ event, log.getEvent i = some event ∧ event.roundId = i := by
  have hlt : i - 1 < log.events.length := by omega
  refine ⟨log.events[i - 1], ?_, ?_⟩
  · have hget : log.getEvent i = log.events[i - 1]? := if_pos hpos
    rw [hget, List.getElem?_eq_getElem hlt]
  · rw [h (i - 1) hlt]
    omega

variable {store : SQLiteAuditStore} {tenantId : String} {log : AuditLog}

/-- What is read back from the rows of some events is these events. -/
theorem loadFromStore_of_rows (hpy : py.ReprReads) {events : List AuditEvent}
    (hrows : (store.rows.filter fun row => row.tenantId = tenantId) =
      events.map (·.row py tenantId))
    (hjson : ∀ event ∈ events, IsJsonDoc (.dict event.transaction)) :
    AuditLog.loadFromStore store tenantId = .ok ⟨events⟩ := by
  have hvalues : store.loadAll tenantId = .ok (events.map fun event => .dict event.toDict) := by
    rw [SQLiteAuditStore.loadAll, hrows]
    apply mapM_eq_ok
    intro event hevent
    exact storedValue_eq_ok (jsonLoads_jsonText hpy (AuditEvent.isJsonDoc (hjson event hevent)))
  have hevents := mapM_eq_ok (fun event : AuditEvent => Value.dict event.toDict)
    (fun v => do AuditEvent.ofDict (← v.asDict)) id events
    fun event _ => event.ofDict_toDict
  rw [List.map_id] at hevents
  rw [AuditLog.loadFromStore, hvalues]
  exact congrArg (Except.map AuditLog.mk) hevents

theorem Mirrors.loadFromStore (hpy : py.ReprReads) (h : Mirrors py store tenantId log) :
    AuditLog.loadFromStore store tenantId = .ok log :=
  loadFromStore_of_rows hpy h.rows h.json

theorem Mirrors.record (h : Mirrors py store tenantId log) (now : ℕ) {tx : Transaction}
    (htx : IsJsonDoc (.dict tx)) (results : List NodeResult) (cr : ConsensusResult) :
    Mirrors py (store.append py (log.event now tx results cr).toDict tenantId) tenantId
      (log.record now tx results cr) := by
  refine ⟨?_, fun event hevent => ?_, h.numbered.record now tx results cr⟩
  · simp [SQLiteAuditStore.append, AuditLog.record, AuditEvent.row, h.rows]
  · rcases List.mem_append.mp hevent with hold | hnew
    · exact h.json event hold
    · rw [List.mem_singleton.mp hnew]
      exact htx

theorem Mirrors.append_other (h : Mirrors py store tenantId log) {other : String}
    (hne : other ≠ tenantId) (event : PyDict) :
    Mirrors py (store.append py event other) tenantId log := by
  refine ⟨?_, h.json, h.numbered⟩
  simp [SQLiteAuditStore.append, h.rows, hne]

/-! ## Tenants and restarts -/

/-- One store and the live log of every tenant. -/
structure AuditTrail where
  store : SQLiteAuditStore
  live : String → AuditLog

/-- A tenant's log records a round, or is opened again. -/
inductive AuditMove where
  | record (tenantId : String) (now : ℕ) (tx : Transaction) (results : List NodeResult)
      (cr : ConsensusResult)
  | restart (tenantId : String)

namespace AuditMove

/-- A recorded transaction is a JSON object. -/
def HasJson : AuditMove → Prop
  | .record _ _ tx _ _ => IsJsonDoc (.dict tx)
  | .restart _ => True

/-- The log of a tenant that never restarts and is alone. -/
def recorded (tenantId : String) (log : AuditLog) : AuditMove → AuditLog
  | .record tenantId' now tx results cr =>
    if tenantId' = tenantId then log.record now tx results cr else log
  | .restart _ => log

end AuditMove

namespace AuditTrail

def start : AuditTrail := ⟨⟨[]⟩, fun _ => AuditLog.empty⟩

def move (py : Interp) (trail : AuditTrail) : AuditMove → Except Exc AuditTrail
  | .record tenantId now tx results cr =>
    let log := trail.live tenantId
    .ok {
      store := trail.store.append py (log.event now tx results cr).toDict tenantId
      live := Function.update trail.live tenantId (log.record now tx results cr) }
  | .restart tenantId =>
    (AuditLog.loadFromStore trail.store tenantId).map fun log =>
      { trail with live := Function.update trail.live tenantId log }

/-- The store mirrors every live log. -/
def Kept (py : Interp) (trail : AuditTrail) : Prop :=
  ∀ tenantId, Mirrors py trail.store tenantId (trail.live tenantId)

theorem kept_start : start.Kept py := fun _ => ⟨rfl, nofun, nofun⟩

/-- One move: a restart changes nothing, a round is added to the log of its tenant. -/
theorem Kept.move {trail : AuditTrail} (hpy : py.ReprReads) (h : trail.Kept py) {m : AuditMove}
    (hm : m.HasJson) : ∃ next, trail.move py m = .ok next ∧ next.Kept py ∧
      ∀ tenantId, next.live tenantId = m.recorded tenantId (trail.live tenantId) := by
  cases m with
  | restart tenantId =>
    have hload := (h tenantId).loadFromStore hpy
    refine ⟨trail, ?_, h, fun _ => rfl⟩
    simp [AuditTrail.move, hload, Except.map]
  | record tenantId now tx results cr =>
    refine ⟨_, rfl, fun tenant => ?_, fun tenant => ?_⟩
    · by_cases htenant : tenant = tenantId
      · subst htenant
        simpa using (h tenant).record now hm results cr
      · simpa [htenant] using (h tenant).append_other (Ne.symm htenant) _
    · by_cases htenant : tenant = tenantId
      · subst htenant
        simp [AuditMove.recorded]
      · simp [AuditMove.recorded, htenant, Ne.symm htenant]

theorem Kept.run {trail : AuditTrail} (hpy : py.ReprReads) (h : trail.Kept py)
    {moves : List AuditMove} (hmoves : ∀ m ∈ moves, m.HasJson) :
    ∃ last, moves.foldlM (AuditTrail.move py) trail = .ok last ∧ last.Kept py ∧
      ∀ tenantId, last.live tenantId =
        moves.foldl (AuditMove.recorded tenantId) (trail.live tenantId) := by
  induction moves generalizing trail with
  | nil => exact ⟨trail, rfl, h, fun _ => rfl⟩
  | cons m moves ih =>
    obtain ⟨next, hnext, hkept, hlive⟩ := h.move hpy (hmoves m List.mem_cons_self)
    obtain ⟨last, hlast, hkept', hrest⟩ :=
      ih hkept fun m' hm' => hmoves m' (List.mem_cons_of_mem m hm')
    refine ⟨last, ?_, hkept', fun tenantId => ?_⟩
    · rw [List.foldlM_cons, hnext]
      exact hlast
    · rw [hrest, hlive, List.foldl_cons]

/-- After any rounds of any tenants and any restarts, a log that is opened again holds the
events of the live log: those recorded for its tenant, numbered from one. -/
theorem reloaded_log (hpy : py.ReprReads) (moves : List AuditMove)
    (hmoves : ∀ m ∈ moves, m.HasJson) :
    ∃ trail, moves.foldlM (AuditTrail.move py) start = .ok trail ∧ ∀ tenantId,
      AuditLog.loadFromStore trail.store tenantId = .ok (trail.live tenantId) ∧
      trail.live tenantId = moves.foldl (AuditMove.recorded tenantId) .empty ∧
      ∀ i, 1 ≤ i → i ≤ (trail.live tenantId).events.length →
        ∃ event, (trail.live tenantId).getEvent i = some event ∧ event.roundId = i := by
  obtain ⟨trail, hrun, hkept, hlive⟩ := kept_start.run hpy hmoves
  refine ⟨trail, hrun, fun tenantId => ⟨(hkept tenantId).loadFromStore hpy, hlive tenantId, ?_⟩⟩
  intro i hpos hi
  exact (hkept tenantId).numbered.getEvent hpos hi

def tenthTransfer : Transaction :=
  [(.str "type", .str "transfer"), (.str "fee", .scalar (.float (.ofRat (1 / 10))))]

def agreed : ConsensusResult where
  consensusReached := true
  agreedHash := some "00"
  honestNodes := ["n1"]
  faultyNodes := []
  invalidSigNodes := ["n2"]
  voteCounts := .ofList [("00", 1)]
  totalNodes := 2
  quorumThreshold := 1 / 2

/-- Two tenants take turns, and one of them restarts. -/
def tenantRounds : List AuditMove :=
  [.record "acme" 0 tenthTransfer
      [⟨"n1", "00", [], none, some "ab"⟩, ⟨"n2", "00", [], none, none⟩] agreed,
    .record "zenith" 1 [] [] agreed, .restart "acme", .record "acme" 2 [] [] agreed]

theorem reloaded_rounds : ∃ trail, tenantRounds.foldlM (AuditTrail.move printingInterp) start =
    .ok trail ∧ (AuditLog.loadFromStore trail.store "acme").map
      (fun log => log.events.map AuditEvent.roundId) = .ok [1, 2] := by
  have hempty : IsJsonDoc (.dict []) := .dict (by simp) (by simp) (by simp)
  have hjson : ∀ m ∈ tenantRounds, m.HasJson := by
    simp only [tenantRounds, List.mem_cons, List.not_mem_nil, or_false, forall_eq_or_imp,
      forall_eq]
    refine ⟨.dict (by simp [tenthTransfer]) (by simp [tenthTransfer]) ?_, hempty, trivial, hempty⟩
    simp only [tenthTransfer, List.mem_cons, List.not_mem_nil, or_false, forall_eq_or_imp,
      forall_eq]
    exact ⟨isJsonDoc_str _, .scalar (by decide +kernel)⟩
  obtain ⟨trail, hrun, hlogs⟩ := reloaded_log reprReads_printingInterp tenantRounds hjson
  obtain ⟨hload, hlive, -⟩ := hlogs "acme"
  refine ⟨trail, hrun, ?_⟩
  rw [hload, hlive]
  rfl

end AuditTrail
end ECN
