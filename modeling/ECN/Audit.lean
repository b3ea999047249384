import ECN.Consensus

/-!
# Audit trail

Every round that reaches consensus evaluation is recorded as an event with one vote
per result. Rounds are numbered from one by their position in the log. The clock counts
microseconds since 1970, and an event keeps the text of its time.
-/
namespace ECN

/-! ## Timestamps -/

def zeroPad (width n : ℕ) : String :=
  String.ofList (List.replicate (width - (toString n).length) '0') ++ toString n

/-- Year, month and day of a number of days since 1970. -/
def civilDate (days : ℕ) : ℕ × ℕ × ℕ :=
  -- Days are counted from 1 March of the year 0, in cycles of 400 years.
  let fromMarch := days + 719468
  let dayOfCycle := fromMarch % 146097
  let yearOfCycle :=
    (dayOfCycle - dayOfCycle / 1460 + dayOfCycle / 36524 - dayOfCycle / 146096) / 365
  let dayOfYear := dayOfCycle - (365 * yearOfCycle + yearOfCycle / 4 - yearOfCycle / 100)
  let marchMonth := (5 * dayOfYear + 2) / 153
  let month := if marchMonth < 10 then marchMonth + 3 else marchMonth - 9
  (yearOfCycle + fromMarch / 146097 * 400 + (if month ≤ 2 then 1 else 0), month,
    dayOfYear - (153 * marchMonth + 2) / 5 + 1)

/-- `datetime.now(utc).isoformat().replace("+00:00", "Z")`. -/
def isoTimestamp (now : ℕ) : String :=
  let seconds := now / 1000000
  let date := civilDate (seconds / 86400)
  zeroPad 4 date.1 ++ "-" ++ zeroPad 2 date.2.1 ++ "-" ++ zeroPad 2 date.2.2 ++ "T" ++
    zeroPad 2 (seconds / 3600 % 24) ++ ":" ++ zeroPad 2 (seconds / 60 % 60) ++ ":" ++
    zeroPad 2 (seconds % 60) ++
    (if now % 1000000 = 0 then "" else "." ++ zeroPad 6 (now % 1000000)) ++ "Z"

example : isoTimestamp 1709210096000007 = "2024-02-29T12:34:56.000007Z" := by decide +kernel

/-! ## Events -/

/-- `"honest"`, `"hash_fault"` or `"sig_fault"`. -/
inductive VoteStatus where
  | honest
  | hashFault
  | sigFault
  deriving DecidableEq, Repr

/-- A single node's vote in one consensus round. -/
structure NodeVote where
  nodeId : String
  stateHash : String
  signature : Option String
  status : VoteStatus

/-- Record of one consensus round. -/
structure AuditEvent where
  roundId : ℕ
  timestamp : String
  transaction : Transaction
  votes : List NodeVote
  agreedHash : Option String
  consensusReached : Bool
  honestNodes : List String
  faultyNodes : List String
  invalidSigNodes : List String
  voteCounts : OrderedDict String ℕ

structure AuditLog where
  events : List AuditEvent

/-- A bad signature takes precedence over a divergent hash. -/
def voteStatus (cr : ConsensusResult) (nodeId : String) : VoteStatus :=
  if nodeId ∈ cr.invalidSigNodes then .sigFault
  else if nodeId ∈ cr.faultyNodes then .hashFault
  else .honest

namespace AuditLog

def empty : AuditLog := ⟨[]⟩

/-- Build an event from raw round output. -/
def event (log : AuditLog) (now : ℕ) (tx : Transaction) (results : List NodeResult)
    (cr : ConsensusResult) : AuditEvent where
  roundId := log.events.length + 1
  timestamp := isoTimestamp now
  transaction := tx
  votes := results.map fun r => ⟨r.nodeId, r.stateHash, r.signature, voteStatus cr r.nodeId⟩
  agreedHash := cr.agreedHash
  consensusReached := cr.consensusReached
  honestNodes := cr.honestNodes
  faultyNodes := cr.faultyNodes
  invalidSigNodes := cr.invalidSigNodes
  voteCounts := cr.voteCounts

def record (log : AuditLog) (now : ℕ) (tx : Transaction) (results : List NodeResult)
    (cr : ConsensusResult) : AuditLog :=
  ⟨log.events ++ [log.event now tx results cr]⟩

/-- The event of a round, numbered from one. -/
def getEvent (log : AuditLog) (roundId : ℕ) : Option AuditEvent :=
  if 0 < roundId then log.events[roundId - 1]? else none

theorem getEvent_record (log : AuditLog) (now : ℕ) (tx : Transaction) (results : List NodeResult)
    (cr : ConsensusResult) : (log.record now tx results cr).getEvent (log.events.length + 1) =
      some (log.event now tx results cr) := by
  simp [getEvent, record]

end AuditLog
end ECN
