import ECN.Node
import ECN.WrittenValues

/-!
# Limits of the interpreter

The interpreter turns no integer of too many digits into text, encodes no lone surrogate and
goes down a value only as far as its stack allows. A call of the state manager can meet these
limits before the state is replaced, and after. The second kind is decided by what the
transaction writes: `Exceeds` is the exact condition.
-/
namespace ECN

/-- What the interpreter lets through. Texts are sequences of characters, of which some may
stand for lone surrogates. -/
structure Limits where
  /-- Digits of an integer that is turned into text or read from it. -/
  maxDigits : ℕ
  /-- Frames of the stack that are left to `copy.deepcopy` in `apply_transaction`. -/
  copyFrames : ℕ
  /-- Nesting that is turned into text for a hash. -/
  hashDepth : ℕ
  /-- Nesting of a transaction that is written to a line. -/
  sendDepth : ℕ
  /-- Nesting of a transaction that is read from a line. -/
  readDepth : ℕ
  /-- Bytes of a line that a reader takes. -/
  lineBytes : ℕ
  surrogate : Char → Bool
  maxDigits_pos : 0 < maxDigits
  copyFrames_le : copyFrames ≤ 2 * hashDepth

/-- Why a call ends early: an exception of the program's own, or a limit. -/
inductive Failure where
  | raised (e : Exc)
  | limit

theorem exists_ok_iff {ε α : Type} {x : Except ε α} : (∃ a, x = .ok a) ↔ x.isOk = true := by
  cases x with
  | error e => simp [Except.isOk, Except.toBool]
  | ok a => simp [Except.isOk, Except.toBool]

instance decidableExistsOk {ε α : Type} (x : Except ε α) : Decidable (∃ a, x = .ok a) :=
  decidable_of_iff _ exists_ok_iff.symm

/-- `copy.deepcopy` takes a frame for a scalar and two for a container. -/
def copying : Gauge := ⟨none, 1, 2, by decide, nofun⟩

/-- Printers and parsers go one level down for a container. -/
def nesting : Gauge := ⟨none, 0, 1, by decide, nofun⟩

namespace Limits

variable (L : Limits)

def digits : Gauge where
  bound := some (10 ^ L.maxDigits)
  leaf := 0
  node := 0
  leaf_le_node := le_rfl
  one_lt_bound := by
    intro b hb
    rw [← Option.some_inj.mp hb]
    exact Nat.one_lt_pow L.maxDigits_pos.ne' (by decide)

/-- All integers in the value can be printed. -/
def InDigits (v : Value) : Prop := v.Fits L.digits 0

/-- `str(v).encode("utf-8")` raises nothing; inside a container a surrogate is escaped. -/
def Encodes : Value → Prop
  | .scalar (.str s) => ∀ c ∈ s.toList, L.surrogate c = false
  | .scalar _ | .list _ | .dict _ => True

/-- An account name or balance can be part of a leaf of the Merkle tree. -/
def IsLeaf (v : Value) : Prop := L.InDigits v ∧ L.Encodes v ∧ v.Fits nesting L.hashDepth

/-- The texts that the hash of the state is computed from stay within the limits. -/
def Hashes (useMerkle : Bool) (state : State) : Prop :=
  if useMerkle then Entries L.IsLeaf (balanceItems state)
  else L.InDigits (.dict state) ∧ (Value.dict state).Fits nesting L.hashDepth

def Copies (frames : ℕ) (state : State) : Prop := (Value.dict state).Fits copying frames

instance (v : Value) : Decidable (L.InDigits v) := inferInstanceAs (Decidable (_ = true))

instance (v : Value) : Decidable (L.Encodes v) := by
  unfold Encodes
  split
  · exact List.decidableBAll _ _
  · exact inferInstance
  · exact inferInstance
  · exact inferInstance

instance (v : Value) : Decidable (L.IsLeaf v) := inferInstanceAs (Decidable (_ ∧ _ ∧ _))

instance (useMerkle : Bool) (state : State) : Decidable (L.Hashes useMerkle state) := by
  unfold Hashes Entries
  infer_instance

instance (frames : ℕ) (state : State) : Decidable (Copies frames state) :=
  inferInstanceAs (Decidable (_ = true))

variable (rt : Runtime)

def stateHash (useMerkle : Bool) (state : State) : Except Failure String :=
  match ECN.stateHash rt useMerkle state with
  | .error e => .error (.raised e)
  | .ok h => if L.Hashes useMerkle state then .ok h else .error .limit

/-- A handler copies the state two calls further down. Where it raises for another reason as
well, that reason is shown. -/
def execute (state : State) (tx : Transaction) : Except Failure State :=
  match rt.execute state tx with
  | .error e => .error (.raised e)
  | .ok new => if Copies (L.copyFrames - 2) state then .ok new else .error .limit

/-- Hash the new state and compare it with the old one. -/
def summarize (useMerkle : Bool) (oldState newState : State) :
    Except Failure (String × List DiffEntry) :=
  match L.stateHash rt useMerkle newState with
  | .error f => .error f
  | .ok newHash =>
    match computeDiff oldState newState with
    | .error e => .error (.raised e)
    | .ok diff => .ok (newHash, diff)

/-- `apply_transaction`: both copies, both hashes and the engine can meet a limit. -/
def applyTransaction (m : StateManager) (tx : Transaction) :
    StateManager × Except Failure State :=
  if Copies L.copyFrames m.state then
    match L.stateHash rt m.useMerkle m.state with
    | .error f => (m, .error f)
    | .ok oldHash =>
      match L.execute rt m.state tx with
      | .error f => (m, .error f)
      | .ok newState =>
        match L.summarize rt m.useMerkle m.state newState with
        | .error f => ({ m with state := newState }, .error f)
        | .ok (newHash, diff) =>
          let next : StateManager :=
            { m with state := newState, trace := m.trace ++ [⟨tx, oldHash, newHash, diff⟩] }
          if Copies L.copyFrames newState then (next, .ok newState) else (next, .error .limit)
  else (m, .error .limit)

/-- `reset`: the copy of the new state comes first. -/
def reset (m : StateManager) (newState : Option State) : StateManager × Except Failure Unit :=
  if ∀ state ∈ newState, Copies L.copyFrames state then (m.reset newState, .ok ())
  else (m, .error .limit)

/-! ## Before and after the state is replaced -/

/-- The state can be copied and hashed, so that the engine decides about a transaction. -/
def Ready (m : StateManager) : Prop :=
  Copies (L.copyFrames - 2) m.state ∧ L.Hashes m.useMerkle m.state ∧
    ∃ h, ECN.stateHash rt m.useMerkle m.state = .ok h

/-- Nothing is raised after the state is replaced. -/
def Completes (m : StateManager) (new : State) : Prop :=
  (∃ s, StateManager.summarize rt m.useMerkle m.state new = .ok s) ∧
    L.Hashes m.useMerkle new ∧ Copies L.copyFrames new

variable {L rt} {m : StateManager} {tx : Transaction} {state new : State}

theorem copies_mono {a b : ℕ} (hab : a ≤ b) (h : Copies a state) : Copies b state :=
  Value.fits_of_fits (c := 1) rfl Nat.one_pos (by simp) (by simp) _ (by omega) h

theorem stateHash_eq_ok {useMerkle : Bool} {h : String} : L.stateHash rt useMerkle state = .ok h ↔
    ECN.stateHash rt useMerkle state = .ok h ∧ L.Hashes useMerkle state := by
  unfold stateHash
  split
  · next e he => simp [he]
  · next h' hh =>
    split
    · next hin => simp [hh, hin]
    · next hout => simp [hout]

theorem execute_eq_ok : L.execute rt state tx = .ok new ↔
    rt.execute state tx = .ok new ∧ Copies (L.copyFrames - 2) state := by
  unfold execute
  split
  · next e he => simp [he]
  · next s hs =>
    split
    · next hin => simp [hs, hin]
    · next hout => simp [hout]

theorem summarize_eq_ok {useMerkle : Bool} {s : String × List DiffEntry} :
    L.summarize rt useMerkle state new = .ok s ↔
      StateManager.summarize rt useMerkle state new = .ok s ∧ L.Hashes useMerkle new := by
  unfold summarize
  simp only [StateManager.summarize, bind_eq_ok, pure_eq_ok]
  constructor
  · intro h
    split at h
    · cases h
    · next newHash hnew =>
      split at h
      · cases h
      · next diff hdiff =>
        obtain ⟨hhash, hin⟩ := stateHash_eq_ok.mp hnew
        exact ⟨⟨newHash, hhash, diff, hdiff, Except.ok.inj h⟩, hin⟩
  · rintro ⟨⟨newHash, hhash, diff, hdiff, rfl⟩, hin⟩
    rw [stateHash_eq_ok.mpr ⟨hhash, hin⟩]
    simp only [hdiff]

/-- What a call can do: it is refused without effect, it raises with the new state in place,
or it does what it does without limits. -/
theorem applyTransaction_cases (L : Limits) (rt : Runtime) (m : StateManager) (tx : Transaction) :
    ((∃ f, L.applyTransaction rt m tx = (m, .error f)) ∧
      ¬ (L.Ready rt m ∧ ∃ new, rt.execute m.state tx = .ok new)) ∨
    (∃ new f trace, L.applyTransaction rt m tx = ({ m with state := new, trace }, .error f) ∧
      L.Ready rt m ∧ rt.execute m.state tx = .ok new ∧ ¬ L.Completes rt m new) ∨
    (∃ new trace, L.applyTransaction rt m tx = ({ m with state := new, trace }, .ok new) ∧
      m.applyTransaction rt tx = ({ m with state := new, trace }, .ok new) ∧
      L.Ready rt m ∧ rt.execute m.state tx = .ok new ∧ L.Completes rt m new) := by
  unfold applyTransaction
  split
  · next hcopy =>
    split
    · next f hf =>
      refine .inl ⟨⟨f, rfl⟩, ?_⟩
      rintro ⟨⟨-, hin, h, hh⟩, -⟩
      cases hf.symm.trans (stateHash_eq_ok.mpr ⟨hh, hin⟩)
    · next oldHash hold =>
      obtain ⟨hhash, hin⟩ := stateHash_eq_ok.mp hold
      split
      · next f hf =>
        refine .inl ⟨⟨f, rfl⟩, ?_⟩
        rintro ⟨⟨hroom, -, -⟩, new, hex⟩
        cases hf.symm.trans (execute_eq_ok.mpr ⟨hex, hroom⟩)
      · next new hnew =>
        obtain ⟨hex, hroom⟩ := execute_eq_ok.mp hnew
        have hready : L.Ready rt m := ⟨hroom, hin, oldHash, hhash⟩
        split
        · next f hf =>
          refine .inr (.inl ⟨new, f, m.trace, rfl, hready, hex, ?_⟩)
          rintro ⟨⟨s, hs⟩, hnewin, -⟩
          cases hf.symm.trans (summarize_eq_ok.mpr ⟨hs, hnewin⟩)
        · next newHash diff hsum =>
          obtain ⟨hs, hnewin⟩ := summarize_eq_ok.mp hsum
          have hideal : m.applyTransaction rt tx = ({ m with
              state := new, trace := m.trace ++ [⟨tx, oldHash, newHash, diff⟩] }, .ok new) := by
            unfold StateManager.applyTransaction StateManager.computeStateHash
            simp only [hhash, hex, hs]
          dsimp only
          split
          · next hlast =>
            exact .inr (.inr ⟨new, _, rfl, hideal, hready, hex, ⟨_, hs⟩, hnewin, hlast⟩)
          · next hlast =>
            exact .inr (.inl ⟨new, _, _, rfl, hready, hex, fun h => hlast h.2.2⟩)
  · next hcopy =>
    refine .inl ⟨⟨_, rfl⟩, ?_⟩
    rintro ⟨⟨hroom, -⟩, -⟩
    exact hcopy (copies_mono (Nat.sub_le _ _) hroom)

/-! ## What a transaction writes, against the limits -/

/-- The engine accepts, and a written value is nested too deeply to be copied, or cannot be
part of the text that is hashed. -/
def Exceeds (L : Limits) (rt : Runtime) (m : StateManager) (tx : Transaction) : Prop :=
  (∃ new, rt.execute m.state tx = .ok new) ∧ ∃ p ∈ writes rt.toInterp m.state tx,
    ¬ p.2.Fits copying (L.copyFrames - p.1 * 2) ∨
      if m.useMerkle then p.1 = 2 ∧ ¬ L.IsLeaf p.2 else ¬ L.InDigits p.2

instance (L : Limits) (rt : Runtime) (m : StateManager) : Decidable (L.Ready rt m) :=
  inferInstanceAs (Decidable (_ ∧ _ ∧ _))

instance (L : Limits) (rt : Runtime) (m : StateManager) (tx : Transaction) :
    Decidable (L.Exceeds rt m tx) :=
  inferInstanceAs (Decidable (_ ∧ ∃ _ ∈ _, _ ∨ ite _ _ _))

theorem keptByDebit_isLeaf (L : Limits) : KeptByDebit L.IsLeaf := by
  refine keptByDebit_of (fun hab hb => ?_) (fun ha hb => ?_) fun hx => ?_
  · obtain ⟨hallows, hleaf⟩ := Value.fits_scalar_iff.mp hb.1
    exact ⟨Value.fits_scalar_iff.mpr ⟨Gauge.allows_of_natAbs_le hab hallows, hleaf⟩, trivial,
      Value.fits_scalar_iff.mpr ⟨rfl, Nat.zero_le _⟩⟩
  · exact ⟨Value.fits_scalar_iff.mpr ⟨Gauge.allows_bit ha, hb.1.leaf_le⟩, trivial,
      Value.fits_scalar_iff.mpr ⟨rfl, Nat.zero_le _⟩⟩
  · exact ⟨Value.fits_scalar_iff.mpr ⟨rfl, hx.1.leaf_le⟩, trivial,
      Value.fits_scalar_iff.mpr ⟨rfl, Nat.zero_le _⟩⟩

theorem nesting_of_copies (h : Copies L.copyFrames state) :
    (Value.dict state).Fits nesting L.hashDepth :=
  Value.fits_of_fits (c := 2) rfl Nat.two_pos (by decide) (by decide) _ L.copyFrames_le h

theorem balanceItems_of_dict {es : PyDict} (hes : balancesField state = .dict es) :
    balanceItems state = es := by
  rw [balanceItems, hes]

theorem not_exceeds_iff (hex : rt.execute m.state tx = .ok new) : ¬ L.Exceeds rt m tx ↔
    (∀ p ∈ writes rt.toInterp m.state tx, p.2.Fits copying (L.copyFrames - p.1 * 2)) ∧
      ∀ p ∈ writes rt.toInterp m.state tx,
        if m.useMerkle then p.1 = 2 → L.IsLeaf p.2 else L.InDigits p.2 := by
  constructor
  · intro h
    refine ⟨fun p hp => ?_, fun p hp => ?_⟩
    · by_contra hcopy
      exact h ⟨⟨new, hex⟩, p, hp, .inl hcopy⟩
    · by_contra htext
      refine h ⟨⟨new, hex⟩, p, hp, .inr ?_⟩
      split
      · next hmode => simpa [hmode] using htext
      · next hmode => simpa [hmode] using htext
  · rintro ⟨hcopies, htexts⟩ ⟨-, p, hp, hcopy | htext⟩
    · exact hcopy (hcopies p hp)
    · have hp' := htexts p hp
      split at htext
      · next hmode =>
        rw [if_pos hmode] at hp'
        exact htext.2 (hp' htext.1)
      · next hmode =>
        rw [if_neg hmode] at hp'
        exact htext hp'

/-- After an accepted transaction the limits are met exactly when it does not exceed them. -/
theorem exceeds_iff (hr : rt.Registered) (hs : HasAccounts m.state) (hready : L.Ready rt m)
    (hex : rt.execute m.state tx = .ok new) :
    ¬ L.Exceeds rt m tx ↔ L.Hashes m.useMerkle new ∧ Copies L.copyFrames new := by
  obtain ⟨hroom, hin, -⟩ := hready
  have hcopies : Copies L.copyFrames new ↔ ∀ p ∈ writes rt.toInterp m.state tx,
      p.2.Fits copying (L.copyFrames - p.1 * 2) :=
    fits_execute_iff hr hs (copies_mono (Nat.sub_le L.copyFrames 2) hroom) hex
  rw [not_exceeds_iff hex, ← hcopies, and_comm]
  refine and_congr_left fun hlast => ?_
  unfold Hashes at hin ⊢
  split
  · next hmode =>
    rw [if_pos hmode] at hin
    obtain ⟨es, hes⟩ := hs
    rw [balanceItems_of_dict hes] at hin
    obtain ⟨fs, hfs, hiff⟩ := entries_execute_iff hr (keptByDebit_isLeaf L) hes hin hex
    rw [balanceItems_of_dict hfs, hiff]
  · next hmode =>
    rw [if_neg hmode] at hin
    have hdigits := fits_execute_iff hr hs hin.1 hex
    simp only [Nat.zero_sub] at hdigits
    exact ⟨fun h => ⟨hdigits.mpr h, nesting_of_copies hlast⟩, fun h => hdigits.mp h.1⟩

/-- On documented states that is all that can be raised too late. -/
theorem completes_iff_of_wellShaped (hr : rt.Registered) (hs : WellShaped m.state)
    (ht : WellTyped tx) (hready : L.Ready rt m) (hex : rt.execute m.state tx = .ok new) :
    L.Completes rt m new ↔ ¬ L.Exceeds rt m tx := by
  have hnew := hr.execute_wellShaped hs ht hex
  obtain ⟨h, hh⟩ := stateHash_ok rt hnew m.useMerkle
  obtain ⟨diff, hd⟩ := computeDiff_ok hs hnew
  rw [exceeds_iff hr hs.hasAccounts hready hex, Completes]
  refine and_iff_right ⟨(h, diff), ?_⟩
  simp only [StateManager.summarize, bind_eq_ok, pure_eq_ok]
  exact ⟨h, hh, diff, hd, rfl⟩

/-- A call that nothing stops after the engine is refused without effect, or does what it
does without limits. -/
theorem applyTransaction_within
    (h : L.Ready rt m → ∀ new, rt.execute m.state tx = .ok new → L.Completes rt m new) :
    (∃ f, L.applyTransaction rt m tx = (m, .error f)) ∨
      ∃ new trace, L.applyTransaction rt m tx = ({ m with state := new, trace }, .ok new) ∧
        m.applyTransaction rt tx = ({ m with state := new, trace }, .ok new) := by
  rcases applyTransaction_cases L rt m tx with
    ⟨hrefused, -⟩ | ⟨new, -, -, -, hready, hex, hover⟩ | ⟨new, trace, happ, hideal, -⟩
  · exact .inl hrefused
  · exact (hover (h hready new hex)).elim
  · exact .inr ⟨new, trace, happ, hideal⟩

end Limits

/-- The call would return a state. -/
def StateManager.CanApply (L : Limits) (rt : Runtime) (m : StateManager) (tx : Transaction) :
    Prop :=
  ∃ state, (L.applyTransaction rt m tx).2 = .ok state

instance (L : Limits) (rt : Runtime) (m : StateManager) (tx : Transaction) :
    Decidable (m.CanApply L rt tx) :=
  inferInstanceAs (Decidable (∃ _, _ = Except.ok _))

theorem StateManager.canApply_iff {L : Limits} {rt : Runtime} {m : StateManager}
    {tx : Transaction} : m.CanApply L rt tx ↔
      L.Ready rt m ∧ ∃ new, rt.execute m.state tx = .ok new ∧ L.Completes rt m new := by
  unfold CanApply
  rcases Limits.applyTransaction_cases L rt m tx with
    ⟨⟨f, happ⟩, hno⟩ | ⟨new, f, trace, happ, hready, hex, hover⟩ |
      ⟨new, trace, happ, -, hready, hex, hdone⟩
  · refine iff_of_false ?_ fun ⟨hready, new, hex, _⟩ => hno ⟨hready, new, hex⟩
    rw [happ]
    exact fun ⟨_, h⟩ => nomatch h
  · refine iff_of_false ?_ fun ⟨_, new', hex', hdone⟩ => ?_
    · rw [happ]
      exact fun ⟨_, h⟩ => nomatch h
    · exact hover (Except.ok.inj (hex'.symm.trans hex) ▸ hdone)
  · exact iff_of_true ⟨new, by rw [happ]⟩ ⟨hready, new, hex, hdone⟩

/-! ## Nodes -/

namespace Node

variable {rt : Runtime}

/-- Apply `tx` to this node's state, within the limits. -/
def executeWithin (L : Limits) (node : Node rt) (tx : Transaction) :
    Node rt × Except Failure NodeResult :=
  match L.applyTransaction rt node.manager tx with
  | (manager, .error f) => ({ node with manager }, .error f)
  | (manager, .ok newState) =>
    match L.stateHash rt manager.useMerkle manager.state with
    | .error f => ({ node with manager }, .error f)
    | .ok trueHash =>
      let reported := node.reportedHash trueHash
      ({ node with manager },
        .ok ⟨node.nodeId, reported, newState, manager.trace.getLast?,
          node.signingKey.map (signResult rt.toCrypto node.nodeId reported)⟩)

/-- What one request can do to a node: it is refused without effect, it raises with the new
state in place, or the node does what it does without limits. -/
theorem executeWithin_cases (L : Limits) (node : Node rt) (tx : Transaction) :
    ((∃ f, node.executeWithin L tx = (node, .error f)) ∧
      ¬ (L.Ready rt node.manager ∧ ∃ new, rt.execute node.manager.state tx = .ok new)) ∨
    (∃ new f trace, node.executeWithin L tx =
        ({ node with manager := { node.manager with state := new, trace } }, .error f) ∧
      L.Ready rt node.manager ∧ rt.execute node.manager.state tx = .ok new ∧
      ¬ L.Completes rt node.manager new) ∨
    (∃ new result trace, node.executeWithin L tx =
        ({ node with manager := { node.manager with state := new, trace } }, .ok result) ∧
      node.executeTransaction tx =
        ({ node with manager := { node.manager with state := new, trace } }, .ok result) ∧
      L.Ready rt node.manager ∧ rt.execute node.manager.state tx = .ok new ∧
      L.Completes rt node.manager new) := by
  unfold executeWithin
  rcases Limits.applyTransaction_cases L rt node.manager tx with
    ⟨⟨f, happ⟩, hno⟩ | ⟨new, f, trace, happ, hready, hex, hover⟩ |
      ⟨new, trace, happ, hideal, hready, hex, hdone⟩
  · exact .inl ⟨⟨f, by rw [happ]⟩, hno⟩
  · exact .inr (.inl ⟨new, f, trace, by rw [happ], hready, hex, hover⟩)
  · have ⟨⟨_, hsum⟩, hin, _⟩ := hdone
    simp only [StateManager.summarize, bind_eq_ok] at hsum
    obtain ⟨newHash, hhash, -⟩ := hsum
    have hwithin := Limits.stateHash_eq_ok.mpr ⟨hhash, hin⟩
    let reported := node.reportedHash newHash
    refine .inr (.inr ⟨new, ⟨node.nodeId, reported, new, trace.getLast?,
      node.signingKey.map (signResult rt.toCrypto node.nodeId reported)⟩, trace, ?_, ?_, hready,
      hex, hdone⟩)
    · rw [happ]
      dsimp only
      rw [hwithin]
    · rw [executeTransaction, hideal]
      dsimp only
      rw [StateManager.computeStateHash, hhash]

end Node

/-! ## The usual limits -/

/-- The interpreter's defaults, with some frames of the stack left to its callers. The first
private characters stand for the surrogates. -/
def defaultLimits : Limits where
  maxDigits := 4300
  copyFrames := 980
  hashDepth := 980
  sendDepth := 980
  readDepth := 980
  lineBytes := 2 ^ 16
  surrogate c := decide (57344 ≤ c.toNat ∧ c.toNat < 59392)
  maxDigits_pos := by decide
  copyFrames_le := by decide

end ECN
