import ECN.Tenant

/-!
# The store of transaction records

Records are kept twice: in a cache in memory and as rows of a table. A row holds the
state as text and the outcome as an integer, and saving again leaves the tenant and the
time of creation of a row alone. Over records whose tenant and creation time do not
change, the two together are a map from ids to the record last saved, and losing the
cache does not change that map.
-/
namespace ECN

namespace TxState

/-- The seven states in order. -/
def lifecycle : List TxState :=
  [.initiated, .executing, .proposed, .consensusPending, .finalized, .billed, .replicated]

/-- `TxState(text)`. -/
def ofValue (text : String) : Except Exc TxState :=
  match lifecycle.find? fun s => s.value = text with
  | some s => .ok s
  | none => .error (.valueError (reprText text ++ " is not a valid TxState"))

@[simp] theorem ofValue_value (s : TxState) : ofValue s.value = .ok s := by
  cases s <;> decide

end TxState

/-- A row of `transactions`. -/
structure TransactionRow where
  txId : String
  tenantId : String
  state : String
  consensusReached : ℤ
  nodeCount : ℕ
  faultCount : ℕ
  durationMs : ℤ
  billedAmount : ℚ
  createdAt : ℕ
  finalizedAt : Option ℕ

/-- The row that is inserted for a record. -/
def TransactionRecord.row (record : TransactionRecord) : TransactionRow where
  txId := record.txId
  tenantId := record.tenantId
  state := record.state.value
  consensusReached := if record.consensusReached then 1 else 0
  nodeCount := record.nodeCount
  faultCount := record.faultCount
  durationMs := record.durationMs
  billedAmount := record.billedAmount
  createdAt := record.createdAt
  finalizedAt := record.finalizedAt

namespace TransactionRow

/-- `ON CONFLICT(tx_id) DO UPDATE`: two columns and the key stay as they are. -/
def update (old excluded : TransactionRow) : TransactionRow :=
  { excluded with
    txId := old.txId
    tenantId := old.tenantId
    createdAt := old.createdAt }

/-- The record that is built from a row. -/
def record (row : TransactionRow) : Except Exc TransactionRecord :=
  (TxState.ofValue row.state).map fun state =>
    { txId := row.txId
      tenantId := row.tenantId
      state
      nodeCount := row.nodeCount
      consensusReached := row.consensusReached ≠ 0
      faultCount := row.faultCount
      durationMs := row.durationMs
      billedAmount := row.billedAmount
      createdAt := row.createdAt
      finalizedAt := row.finalizedAt }

/-- A row tells its record. -/
@[simp] theorem record_row (r : TransactionRecord) : r.row.record = .ok r := by
  obtain ⟨txId, tenantId, state, nodeCount, consensusReached, faultCount, durationMs, billedAmount,
    createdAt, finalizedAt⟩ := r
  cases consensusReached <;> simp [record, TransactionRecord.row, Except.map]

/-- Updating changes no column that the new row has in common with the old one. -/
theorem update_row {old new : TransactionRecord} (hid : new.txId = old.txId)
    (htenant : new.tenantId = old.tenantId) (hcreated : new.createdAt = old.createdAt) :
    old.row.update new.row = new.row := by
  simp [update, TransactionRecord.row, hid, htenant, hcreated]

end TransactionRow

/-! ## Saving and loading -/

/-- The cache, and the table of a `SQLiteTransactionStore`. -/
structure RecordStores where
  cache : OrderedDict String TransactionRecord
  table : OrderedDict String TransactionRow

/-- Response schema for GET /transactions/:id. -/
structure TransactionStatusResponse where
  txId : String
  tenantId : String
  lifecycleState : String
  nodeCount : ℕ
  consensusReached : Bool
  faultCount : ℕ
  durationMs : ℤ
  billedAmount : ℚ
  createdAt : ℕ
  finalizedAt : Option ℕ

def TransactionRecord.status (record : TransactionRecord) : TransactionStatusResponse where
  txId := record.txId
  tenantId := record.tenantId
  lifecycleState := record.state.value
  nodeCount := record.nodeCount
  consensusReached := record.consensusReached
  faultCount := record.faultCount
  durationMs := record.durationMs
  billedAmount := record.billedAmount
  createdAt := record.createdAt
  finalizedAt := record.finalizedAt

def transactionNotFound (txId : String) : HttpError :=
  ⟨404, "Transaction " ++ reprText txId ++ " not found"⟩

/-- The answer about the record found under an id. -/
def statusAnswer (txId : String) (found : Option TransactionRecord) :
    Except HttpError TransactionStatusResponse :=
  match found with
  | some record => .ok record.status
  | none => .error (transactionNotFound txId)

namespace RecordStores

def empty : RecordStores := ⟨.empty, .empty⟩

/-- Insert the row of a record, or update the row that is there. -/
def upsertRow (table : OrderedDict String TransactionRow) (record : TransactionRecord) :
    OrderedDict String TransactionRow :=
  table.set record.txId
    (match table.get? record.txId with
      | some old => old.update record.row
      | none => record.row)

/-- Persist a record to both the cache and the table. -/
def saveTxRecord (stores : RecordStores) (record : TransactionRecord) : RecordStores where
  cache := stores.cache.set record.txId record
  table := upsertRow stores.table record

/-- The record under an id, from the cache or else from the table, which then fills the
cache. -/
def loadTxRecord (stores : RecordStores) (txId : String) :
    RecordStores × Except Exc (Option TransactionRecord) :=
  match stores.cache.get? txId with
  | some record => (stores, .ok (some record))
  | none =>
    match stores.table.get? txId with
    | some row =>
      match row.record with
      | .ok record => ({ stores with cache := stores.cache.set txId record }, .ok (some record))
      | .error e => (stores, .error e)
    | none => (stores, .ok none)

/-- `GET /transactions/:id`. -/
def getTransactionStatus (stores : RecordStores) (txId : String) :
    RecordStores × Except HttpError TransactionStatusResponse :=
  match stores.loadTxRecord txId with
  | (stores, .ok found) => (stores, statusAnswer txId found)
  | (stores, .error _) => (stores, .error internalServerError)

/-- The process ends and starts again over the same table. -/
def restart (stores : RecordStores) : RecordStores := { stores with cache := .empty }

/-! ## The stores are a map -/

/-- The table holds the row of the record last saved under each id, and the cache no
record but these. -/
structure Holds (stores : RecordStores) (last : String → Option TransactionRecord) : Prop where
  cache : ∀ txId record, stores.cache.get? txId = some record → last txId = some record
  table : ∀ txId, stores.table.get? txId = (last txId).map TransactionRecord.row

variable {stores : RecordStores} {last : String → Option TransactionRecord}

theorem holds_empty : empty.Holds fun _ => none := ⟨nofun, fun _ => rfl⟩

theorem Holds.restart (h : stores.Holds last) : stores.restart.Holds last := ⟨nofun, h.table⟩

/-- Saving replaces the record of one id. -/
theorem Holds.save (h : stores.Holds last) {record : TransactionRecord}
    (hsame : ∀ old, last record.txId = some old → record.txId = old.txId ∧
      record.tenantId = old.tenantId ∧ record.createdAt = old.createdAt) :
    (stores.saveTxRecord record).Holds (Function.update last record.txId (some record)) where
  cache txId r hr := by
    rw [saveTxRecord, OrderedDict.get?_set] at hr
    rw [Function.update_apply]
    by_cases hid : txId = record.txId
    · rw [if_pos hid] at hr ⊢
      exact hr
    · rw [if_neg hid] at hr ⊢
      exact h.cache txId r hr
  table txId := by
    rw [saveTxRecord, upsertRow, OrderedDict.get?_set, Function.update_apply, h.table record.txId]
    by_cases hid : txId = record.txId
    · rw [if_pos hid, if_pos hid]
      cases hold : last record.txId with
      | none => rfl
      | some old =>
        obtain ⟨hid, htenant, hcreated⟩ := hsame old hold
        exact congrArg some (TransactionRow.update_row hid htenant hcreated)
    · rw [if_neg hid, if_neg hid]
      exact h.table txId

/-- Loading returns the record last saved. -/
theorem Holds.load (h : stores.Holds last) (txId : String) :
    (stores.loadTxRecord txId).2 = .ok (last txId) ∧ (stores.loadTxRecord txId).1.Holds last := by
  unfold loadTxRecord
  cases hcache : stores.cache.get? txId with
  | some record =>
    rw [h.cache txId record hcache]
    exact ⟨rfl, h⟩
  | none =>
    rw [h.table txId]
    cases hlast : last txId with
    | none => exact ⟨rfl, h⟩
    | some record =>
      simp only [Option.map_some, TransactionRow.record_row]
      refine ⟨trivial, fun txId' r hr => ?_, h.table⟩
      rw [OrderedDict.get?_set] at hr
      by_cases hid : txId' = txId
      · rw [if_pos hid] at hr
        rw [hid, hlast, hr]
      · rw [if_neg hid] at hr
        exact h.cache txId' r hr

theorem Holds.status (h : stores.Holds last) (txId : String) :
    (stores.getTransactionStatus txId).2 = statusAnswer txId (last txId) ∧
      (stores.getTransactionStatus txId).1.Holds last := by
  obtain ⟨hanswer, hholds⟩ := h.load txId
  unfold getTransactionStatus
  revert hanswer hholds
  cases stores.loadTxRecord txId with
  | mk after found =>
    rintro rfl hholds
    exact ⟨rfl, hholds⟩

end RecordStores
end ECN
