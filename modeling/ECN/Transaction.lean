import ECN.Rounding
import Mathlib.Data.String.Basic

/-!
# Transaction lifecycle

A record moves through seven states in one fixed order; any other move raises. The
move to `FINALIZED` stamps the time and the duration. Times are microseconds.
-/
namespace ECN

inductive TxState where
  | initiated
  | executing
  | proposed
  | consensusPending
  | finalized
  | billed
  | replicated
  deriving DecidableEq, Repr

namespace TxState

def value : TxState → String
  | .initiated => "INITIATED"
  | .executing => "EXECUTING"
  | .proposed => "PROPOSED"
  | .consensusPending => "CONSENSUS_PENDING"
  | .finalized => "FINALIZED"
  | .billed => "BILLED"
  | .replicated => "REPLICATED"

/-- The states that may follow. -/
def validTransitions : TxState → List TxState
  | .initiated => [.executing]
  | .executing => [.proposed]
  | .proposed => [.consensusPending]
  | .consensusPending => [.finalized]
  | .finalized => [.billed]
  | .billed => [.replicated]
  | .replicated => []

/-- Finalized or later. -/
def isFinal : TxState → Bool
  | .finalized => true
  | .billed => true
  | .replicated => true
  | .initiated => false
  | .executing => false
  | .proposed => false
  | .consensusPending => false

end TxState

/-- Raised when an illegal state transition is attempted. -/
structure InvalidTransitionError where
  message : String

/-- The record of one transaction. -/
structure TransactionRecord where
  txId : String
  tenantId : String
  state : TxState
  nodeCount : ℕ
  consensusReached : Bool
  faultCount : ℕ
  durationMs : ℤ
  billedAmount : ℚ
  createdAt : ℕ
  finalizedAt : Option ℕ

/-- A new record in the first state. -/
def newRecord (tenantId txId : String) (nodeCount now : ℕ) : TransactionRecord :=
  ⟨txId, tenantId, .initiated, nodeCount, false, 0, 0, 0, now, none⟩

/-- Whole milliseconds between two times, computed through seconds; never negative. -/
def elapsedMs (R : Rounding) (created now : ℕ) : ℤ :=
  max 0 ⌊R (R (((now : ℚ) - created) / 1000000) * 1000)⌋

/-- Advance `record` to `newState`. -/
def transition (R : Rounding) (now : ℕ) (record : TransactionRecord) (newState : TxState) :
    Except InvalidTransitionError TransactionRecord :=
  if newState ∉ record.state.validTransitions then
    .error ⟨"Cannot transition " ++ record.state.value ++ " → " ++ newState.value ++
      ". Allowed: [" ++ String.intercalate ", "
        (record.state.validTransitions.map fun s => "'" ++ s.value ++ "'") ++ "]"⟩
  else if newState = .finalized then
    .ok { record with
      state := newState
      finalizedAt := some now
      durationMs := elapsedMs R record.createdAt now }
  else .ok { record with state := newState }

/-- What no move of the lifecycle changes. -/
structure SameRound (record record' : TransactionRecord) : Prop where
  txId : record'.txId = record.txId
  tenantId : record'.tenantId = record.tenantId
  nodeCount : record'.nodeCount = record.nodeCount
  consensusReached : record'.consensusReached = record.consensusReached

theorem SameRound.trans {a b c : TransactionRecord} (hab : SameRound a b) (hbc : SameRound b c) :
    SameRound a c where
  txId := hbc.txId.trans hab.txId
  tenantId := hbc.tenantId.trans hab.tenantId
  nodeCount := hbc.nodeCount.trans hab.nodeCount
  consensusReached := hbc.consensusReached.trans hab.consensusReached

/-- A move in the table succeeds and changes the state and the stamps only. -/
theorem transition_of_valid (R : Rounding) (now : ℕ) {record : TransactionRecord}
    {newState : TxState} (h : newState ∈ record.state.validTransitions) :
    ∃ record', transition R now record newState = .ok record' ∧ record'.state = newState ∧
      SameRound record record' := by
  unfold transition
  rw [if_neg (not_not.mpr h)]
  split
  · exact ⟨_, rfl, rfl, rfl, rfl, rfl, rfl⟩
  · exact ⟨_, rfl, rfl, rfl, rfl, rfl, rfl⟩

/-- A move in the table other than the fourth changes the state alone. -/
theorem transition_eq_ok (R : Rounding) (now : ℕ) {record : TransactionRecord}
    {newState : TxState} (h : newState ∈ record.state.validTransitions)
    (hne : newState ≠ .finalized) :
    transition R now record newState = .ok { record with state := newState } := by
  rw [transition, if_neg (not_not.mpr h), if_neg hne]

/-- The move to `FINALIZED` stamps the time and the duration. -/
theorem transition_finalized (R : Rounding) (now : ℕ) {record : TransactionRecord}
    (h : record.state = .consensusPending) :
    transition R now record .finalized = .ok { record with
      state := .finalized
      finalizedAt := some now
      durationMs := elapsedMs R record.createdAt now } := by
  rw [transition, if_neg (by rw [h]; decide), if_pos rfl]

end ECN
