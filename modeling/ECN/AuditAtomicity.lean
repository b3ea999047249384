import ECN.AuditStore
import ECN.Runs

/-!
# An append that fails

`record` takes the event into the log in memory and then asks the store to append it. When
the store raises, the exception goes to the caller and the event stays in the log. From
then on the numbers of the live log are ahead of the stored rows, and a restart takes up
the rows with their numbers.
-/
namespace ECN

variable (py : Interp)

/-- `record` of a log with a store; `raises` says that `store.append` raises. -/
def AuditLog.recordIn (log : AuditLog) (store : SQLiteAuditStore) (tenantId : String) (now : ℕ)
    (tx : Transaction) (results : List NodeResult) (cr : ConsensusResult) (raises : Bool) :
    AuditLog × SQLiteAuditStore :=
  let event := log.event now tx results cr
  let log : AuditLog := ⟨log.events ++ [event]⟩
  if raises then (log, store) else (log, store.append py event.toDict tenantId)

/-- A call of `record` on the log of a tenant, with what becomes of it, or a restart. -/
inductive AuditCall where
  | record (tenantId : String) (now : ℕ) (tx : Transaction) (results : List NodeResult)
      (cr : ConsensusResult) (raises : Bool)
  | restart (tenantId : String)

namespace AuditCall

def raises : AuditCall → Bool
  | .record _ _ _ _ _ raises => raises
  | .restart _ => false

/-- The call without its failure. -/
def move : AuditCall → AuditMove
  | .record tenantId now tx results cr _ => .record tenantId now tx results cr
  | .restart tenantId => .restart tenantId

end AuditCall

namespace AuditTrail

/-- One call. A log that cannot be opened is not replaced. -/
def call (trail : AuditTrail) : AuditCall → AuditTrail
  | .record tenantId now tx results cr raises =>
    let (log, store) :=
      (trail.live tenantId).recordIn py trail.store tenantId now tx results cr raises
    ⟨store, Function.update trail.live tenantId log⟩
  | .restart tenantId =>
    match AuditLog.loadFromStore trail.store tenantId with
    | .ok log => { trail with live := Function.update trail.live tenantId log }
    | .error _ => trail

/-- When the store raises, the events in memory are as before. -/
def AtomicCall (trail : AuditTrail) (c : AuditCall) : Prop :=
  c.raises = true → ∀ tenantId, (trail.call py c).live tenantId = trail.live tenantId

/-- Every live log is the one that its store would give, and its rounds are numbered by
their positions, each number once. -/
structure InStep (trail : AuditTrail) : Prop where
  reloads : ∀ tenantId,
    AuditLog.loadFromStore trail.store tenantId = .ok (trail.live tenantId)
  numbered : ∀ tenantId, (trail.live tenantId).Numbered
  unique : ∀ tenantId, ((trail.live tenantId).events.map AuditEvent.roundId).Nodup

end AuditTrail

variable {py}

theorem AuditLog.Numbered.nodup {log : AuditLog} (h : log.Numbered) :
    (log.events.map AuditEvent.roundId).Nodup := by
  rw [List.nodup_iff_injective_get]
  intro i j hij
  have hi : i.val < log.events.length := by simpa using i.isLt
  have hj : j.val < log.events.length := by simpa using j.isLt
  have hids : log.events[i.val].roundId = log.events[j.val].roundId := by simpa using hij
  rw [h _ hi, h _ hj] at hids
  ext
  omega

namespace AuditTrail

variable {trail next : AuditTrail}

theorem call_restart {tenantId : String} {log : AuditLog}
    (h : AuditLog.loadFromStore trail.store tenantId = .ok log) :
    trail.call py (.restart tenantId) =
      { trail with live := Function.update trail.live tenantId log } := by
  simp only [call, h]

/-- Without a failure, a call is the move of the undisturbed trail. -/
theorem call_of_move {c : AuditCall} (hc : c.raises = false)
    (h : trail.move py c.move = .ok next) : trail.call py c = next := by
  cases c with
  | record tenantId now tx results cr raises =>
    cases hc
    exact Except.ok.inj h
  | restart tenantId =>
    unfold AuditTrail.move AuditCall.move at h
    cases hload : AuditLog.loadFromStore trail.store tenantId with
    | error e => simp [hload, Except.map] at h
    | ok log =>
      simp only [hload, Except.map, Except.ok.injEq] at h
      rw [call_restart hload]
      exact h

/-- A failed append adds the event to the log, and no row to the store. -/
theorem call_raises (py : Interp) (trail : AuditTrail) {c : AuditCall} (hc : c.raises = true) :
    ∃ tenantId event, ((trail.call py c).live tenantId).events =
      (trail.live tenantId).events ++ [event] ∧ (trail.call py c).store = trail.store := by
  cases c with
  | restart tenantId => cases hc
  | record tenantId now tx results cr raises =>
    cases hc
    refine ⟨tenantId, (trail.live tenantId).event now tx results cr, ?_, rfl⟩
    simp [call, AuditLog.recordIn]

theorem atomicCall_iff (trail : AuditTrail) (c : AuditCall) :
    trail.AtomicCall py c ↔ c.raises = false := by
  constructor
  · intro h
    by_contra hraises
    rw [Bool.not_eq_false] at hraises
    obtain ⟨tenantId, event, hevents, -⟩ := call_raises py trail hraises
    rw [h hraises tenantId] at hevents
    simp at hevents
  · intro h hraises
    rw [h] at hraises
    cases hraises

theorem Kept.inStep (hpy : py.ReprReads) (h : trail.Kept py) : trail.InStep where
  reloads tenantId := (h tenantId).loadFromStore hpy
  numbered tenantId := (h tenantId).numbered
  unique tenantId := (h tenantId).numbered.nodup

/-- The log and its rows part at the first failure. -/
theorem InStep.not_raises {c : AuditCall} (h : trail.InStep) (hnext : (trail.call py c).InStep) :
    c.raises = false := by
  by_contra hraises
  rw [Bool.not_eq_false] at hraises
  obtain ⟨tenantId, event, hevents, hstore⟩ := call_raises py trail hraises
  have hload := hnext.reloads tenantId
  rw [hstore, h.reloads tenantId, Except.ok.injEq] at hload
  rw [← hload] at hevents
  simp at hevents

theorem Kept.call (hpy : py.ReprReads) (h : trail.Kept py) {c : AuditCall}
    (hjson : c.move.HasJson) (hc : c.raises = false) : (trail.call py c).Kept py := by
  obtain ⟨next, hmove, hkept, -⟩ := h.move hpy hjson
  rw [call_of_move hc hmove]
  exact hkept

/-- A run stays in step exactly when no append fails. -/
theorem inStep_iff (hpy : py.ReprReads) {calls : List AuditCall}
    (hjson : ∀ c ∈ calls, c.move.HasJson) :
    Throughout (call py) InStep start calls ↔ ∀ c ∈ calls, c.raises = false := by
  have hinputs : StepsMeet (call py) (fun _ c => c.raises = false) start calls ↔
      ∀ c ∈ calls, c.raises = false := stepsMeet_inputs
  rw [← hinputs]
  refine throughout_iff_stepsMeet_inputs (I := Kept py) (G := fun c => c.move.HasJson)
    (fun trail c hkept hc h hnext => ?_) (fun trail c hkept hc h => ?_) kept_start
    (kept_start.inStep hpy) hjson
  · exact hkept.call hpy hc (h.not_raises hnext)
  · exact ⟨h.not_raises, fun hraises => (hkept.call hpy hc hraises).inStep hpy⟩

/-- `record` is atomic with respect to its store on the calls in which the store does not
raise, and on no other; over runs, the live logs stay in step with the store exactly when
it never raises. -/
theorem record_atomic_iff (hpy : py.ReprReads) :
    (∀ trail c, AtomicCall py trail c ↔ c.raises = false) ∧
    ∀ calls : List AuditCall, (∀ c ∈ calls, c.move.HasJson) →
      (Throughout (call py) InStep start calls ↔ ∀ c ∈ calls, c.raises = false) :=
  ⟨atomicCall_iff, fun _ hjson => inStep_iff hpy hjson⟩

/-! ## A number given twice -/

/-- The first append fails. -/
def failedAppend : List AuditCall :=
  [.record "acme" 0 [] [] agreed true, .record "acme" 1 [] [] agreed false]

/-- The log is opened again after that. -/
def reopened : List AuditCall :=
  failedAppend ++ [.restart "acme", .record "acme" 2 [] [] agreed false]

theorem hasJson_reopened : ∀ c ∈ reopened, c.move.HasJson := by
  have hempty : IsJsonDoc (.dict []) := .dict (by simp) (by simp) (by simp)
  simp only [reopened, failedAppend, List.cons_append, List.nil_append, List.mem_cons,
    List.not_mem_nil, or_false, forall_eq_or_imp, forall_eq]
  exact ⟨hempty, hempty, trivial, hempty⟩

/-- Without the failed call, the same run stays in step. -/
theorem record_atomic_untroubled :
    AtomicCall printingInterp start (.record "acme" 1 [] [] agreed false) ∧
    Throughout (call printingInterp) InStep start reopened.tail := by
  have h := record_atomic_iff reprReads_printingInterp
  refine ⟨(h.1 start _).mpr rfl, (h.2 reopened.tail fun c hc => ?_).mpr (by decide)⟩
  exact hasJson_reopened c (List.mem_of_mem_tail hc)

def afterFailure : AuditTrail := failedAppend.foldl (call printingInterp) start

/-- The row of the second round, which is numbered 2, is all that the restart reads. -/
theorem loadFromStore_afterFailure : AuditLog.loadFromStore afterFailure.store "acme" =
    .ok ⟨[AuditLog.event ⟨[AuditLog.empty.event 0 [] [] agreed]⟩ 1 [] [] agreed]⟩ := by
  refine loadFromStore_of_rows reprReads_printingInterp ?_ fun event hevent => ?_
  · simp [afterFailure, failedAppend, call, AuditLog.recordIn, SQLiteAuditStore.append, start,
      AuditEvent.row, AuditLog.empty]
  rw [List.mem_singleton.mp hevent]
  exact .dict (by simp [AuditLog.event]) (by simp [AuditLog.event]) (by simp [AuditLog.event])

/-- The live log and the store part at once, and the number 2 is given to two rounds. -/
theorem number_given_twice :
    ¬ AtomicCall printingInterp start (.record "acme" 0 [] [] agreed true) ∧
    ¬ Throughout (call printingInterp) InStep start reopened ∧
    ((reopened.foldl (call printingInterp) start).live "acme").events.map
      AuditEvent.roundId = [2, 2] := by
  refine ⟨fun h => ?_, fun h => ?_, ?_⟩
  · exact absurd ((atomicCall_iff start _).mp h) (by decide)
  · have hall := (inStep_iff reprReads_printingInterp hasJson_reopened).mp h
    exact absurd (hall _ List.mem_cons_self) (by decide)
  · have hrun : reopened.foldl (call printingInterp) start =
        call printingInterp (call printingInterp afterFailure (.restart "acme"))
          (.record "acme" 2 [] [] agreed false) := by
      rw [reopened, List.foldl_append, List.foldl_cons, List.foldl_cons, List.foldl_nil,
        ← afterFailure]
    rw [hrun, call_restart loadFromStore_afterFailure]
    simp [call, AuditLog.recordIn, AuditLog.event]

end AuditTrail
end ECN
