import ECN.CanonicalJson
import ECN.SupplyChain
import ECN.Crypto

/-!
# State manager

One node's copy of the world state, its hash and its execution trace. The hash is
either the digest of the canonical JSON text or a Merkle root over the account
balances. `applyTransaction` replaces the state before it hashes the new one and
computes the balance difference, so an exception in either of these leaves the
new state in place.
-/
namespace ECN

/-- What a node process runs on. -/
structure Runtime extends Interp, Crypto where
  handlers : Handlers

variable (rt : Runtime)

def Runtime.execute (state : State) (tx : Transaction) : Except Exc State :=
  ECN.execute rt.toInterp rt.handlers state tx

/-- The handlers are one of the tables that the program registers. -/
def Runtime.Registered (rt : Runtime) : Prop :=
  rt.handlers = builtinHandlers rt.toInterp ∨
    rt.handlers = registerSupplyChainHandlers rt.toInterp (builtinHandlers rt.toInterp)

/-- An accepted transaction was run by one of the program's handlers. -/
theorem Runtime.Registered.exists_handler {rt : Runtime} (hr : rt.Registered)
    {state new : State} {tx : Transaction} (h : rt.execute state tx = .ok new) :
    ∃ handler, (handler ∈ ledgerHandlers rt.toInterp ∨ handler ∈ supplyChainHandlers rt.toInterp) ∧
      handler state tx = .ok new := by
  obtain ⟨t, handler, -, hget, hrun⟩ := (execute_eq_ok rt.toInterp).mp h
  refine ⟨handler, ?_, hrun⟩
  rcases hr with hr | hr
  · rw [hr] at hget
    exact .inl (mem_ledgerHandlers rt.toInterp hget)
  · rw [hr] at hget
    exact mem_handlers_of_registered rt.toInterp hget

theorem Runtime.Registered.execute_wellShaped {rt : Runtime} (hr : rt.Registered)
    {state new : State} {tx : Transaction} (hs : WellShaped state) (ht : WellTyped tx)
    (h : rt.execute state tx = .ok new) : WellShaped new := by
  refine ECN.execute_wellShaped rt.toInterp (fun t handler hget => ?_) hs ht h
  rcases hr with hr | hr
  · rw [hr] at hget
    exact keepsShape_builtin rt.toInterp hget
  · rw [hr] at hget
    exact keepsShape_registered rt.toInterp hget

/-! ## Merkle tree -/

/-- The next level; an odd last node is paired with itself. -/
def nextLevel (crypto : Crypto) : List String → List String
  | [] => []
  | [left] => [hexDigest crypto (utf8 (left ++ left))]
  | left :: right :: rest => hexDigest crypto (utf8 (left ++ right)) :: nextLevel crypto rest

/-- The levels above and including `level`; each pass shortens the level, so its
length is enough fuel. -/
def buildLevels (crypto : Crypto) : ℕ → List String → List (List String)
  | 0, level => [level]
  | fuel + 1, level =>
    if level.length ≤ 1 then [level]
    else level :: buildLevels crypto fuel (nextLevel crypto level)

def buildMerkleTree (crypto : Crypto) (leaves : List String) : List (List String) :=
  if leaves.isEmpty then [[hexDigest crypto []]] else buildLevels crypto leaves.length leaves

def merkleRoot (crypto : Crypto) (leaves : List String) : String :=
  ((buildMerkleTree crypto leaves).getLastD []).headD ""

theorem nextLevel_hex (crypto : Crypto) (level : List String) :
    ∀ s ∈ nextLevel crypto level, ∃ data, s = hexDigest crypto data := by
  induction level using nextLevel.induct with
  | case1 => simp [nextLevel]
  | case2 left => simp [nextLevel]
  | case3 left right rest ih =>
    simp only [nextLevel, List.mem_cons, forall_eq_or_imp]
    exact ⟨⟨_, rfl⟩, ih⟩

theorem nextLevel_ne_nil (crypto : Crypto) {level : List String} (h : level ≠ []) :
    nextLevel crypto level ≠ [] := by
  match level with
  | [] => exact absurd rfl h
  | [left] => simp [nextLevel]
  | left :: right :: rest => simp [nextLevel]

theorem buildLevels_last (crypto : Crypto) (fuel : ℕ) (level : List String) (hne : level ≠ [])
    (hhex : ∀ s ∈ level, ∃ data, s = hexDigest crypto data) :
    ∃ data, ((buildLevels crypto fuel level).getLastD []).headD "" = hexDigest crypto data := by
  induction fuel generalizing level with
  | zero =>
    obtain ⟨s, rest, rfl⟩ := List.exists_cons_of_ne_nil hne
    exact hhex s List.mem_cons_self
  | succ fuel ih =>
    rw [buildLevels]
    split
    · obtain ⟨s, rest, rfl⟩ := List.exists_cons_of_ne_nil hne
      exact hhex s List.mem_cons_self
    · obtain ⟨data, hdata⟩ := ih (nextLevel crypto level) (nextLevel_ne_nil crypto hne)
        (nextLevel_hex crypto level)
      refine ⟨data, ?_⟩
      have hcons : buildLevels crypto fuel (nextLevel crypto level) ≠ [] := by
        cases fuel with
        | zero => simp [buildLevels]
        | succ n => rw [buildLevels]; split <;> simp
      obtain ⟨l, ls, hl⟩ := List.exists_cons_of_ne_nil hcons
      rw [hl] at hdata ⊢
      simpa using hdata

/-- A Merkle root over digests is a digest. -/
theorem merkleRoot_hex (crypto : Crypto) (leaves : List String)
    (hhex : ∀ s ∈ leaves, ∃ data, s = hexDigest crypto data) :
    ∃ data, merkleRoot crypto leaves = hexDigest crypto data := by
  unfold merkleRoot buildMerkleTree
  split
  · exact ⟨[], rfl⟩
  · next h => exact buildLevels_last crypto _ leaves (by simpa using h) hhex

/-! ## Hashing and differences -/

/-- `balances.items()`. -/
def dictItems : Value → Except Exc PyDict
  | .dict es => .ok es
  | .scalar _ | .list _ => .error .attributeError

/-- Merkle root over the sorted accounts. -/
def merkleHash (state : State) : Except Exc String := do
  let balances := (PyDict.get? state (.str "balances")).getD (.dict [])
  let sorted ← pySorted (fun a b : Scalar × Value => a.1.lt b.1) (← dictItems balances)
  return merkleRoot rt.toCrypto (sorted.map fun e => hexDigest rt.toCrypto
    (utf8 ((Value.scalar e.1).pyStr rt.toInterp ++ ":" ++ e.2.pyStr rt.toInterp)))

/-- A state's hash in the given mode. -/
def stateHash (useMerkle : Bool) (state : State) : Except Exc String :=
  if useMerkle then merkleHash rt state
  else do return hexDigest rt.toCrypto (utf8 (← (Value.dict state).dumps rt.toInterp))

/-- The elements that `set(v)` collects. -/
def setElements : Value → Except Exc (List Scalar)
  | .dict es => .ok (es.map Prod.fst)
  | .list vs => vs.mapM Value.asKey
  | .scalar (.str s) => .ok (s.toList.map fun c => .str (String.ofList [c]))
  | .scalar _ => .error .typeError

/-- Keep the first of equal elements. -/
def distinctScalars (xs : List Scalar) : List Scalar :=
  xs.foldl (fun seen x => if seen.any fun y => y.eq x then seen else seen ++ [x]) []

/-- One account whose balance changed: old value, new value. -/
structure DiffEntry where
  account : Scalar
  oldValue : Value
  newValue : Value

/-- Balances that differ between two states, in account order. -/
def computeDiff (oldState newState : State) : Except Exc (List DiffEntry) := do
  let oldBalances := (PyDict.get? oldState (.str "balances")).getD (.dict [])
  let newBalances := (PyDict.get? newState (.str "balances")).getD (.dict [])
  let oldAccounts ← setElements oldBalances
  let newAccounts ← setElements newBalances
  let allAccounts ← pySorted Scalar.lt (distinctScalars (oldAccounts ++ newAccounts))
  let rows ← allAccounts.mapM fun acc => do
    return DiffEntry.mk acc (← oldBalances.getOr (.scalar acc) (.int 0))
      (← newBalances.getOr (.scalar acc) (.int 0))
  return rows.filter fun row => !row.oldValue.eq row.newValue

theorem mem_distinctScalars {xs : List Scalar} {x : Scalar} (h : x ∈ distinctScalars xs) :
    x ∈ xs := by
  suffices hacc : ∀ seen : List Scalar,
      x ∈ xs.foldl (fun seen x => if seen.any fun y => y.eq x then seen else seen ++ [x]) seen →
        x ∈ seen ∨ x ∈ xs by
    simpa using hacc [] h
  clear h
  induction xs with
  | nil => exact fun seen h => .inl h
  | cons y ys ih =>
    intro seen h
    rw [List.foldl_cons] at h
    rcases ih _ h with h | h
    · split at h
      · exact .inl h
      · simp only [List.mem_append, List.mem_singleton] at h
        rcases h with h | rfl
        · exact .inl h
        · exact .inr List.mem_cons_self
    · exact .inr (List.mem_cons_of_mem y h)

/-- Balances of a documented state, with an absent field read as empty. -/
theorem WellShaped.balances_getD {state : State} (hs : WellShaped state) :
    ∃ es, (PyDict.get? state (.str "balances")).getD (.dict []) = .dict es ∧
      (Value.dict es).stringKeyed = true := by
  cases hget : PyDict.get? state (.str "balances") with
  | none => exact ⟨[], rfl, rfl⟩
  | some v =>
    obtain ⟨es, rfl⟩ := hs.balances v hget
    exact ⟨es, rfl, PyDict.stringKeyed_get? hs.stringKeyed hget⟩

theorem lt_ok_of_str {a b : Scalar} (ha : ∃ s, a = .str s) (hb : ∃ t, b = .str t) :
    ∃ c, a.lt b = .ok c := by
  obtain ⟨s, rfl⟩ := ha
  obtain ⟨t, rfl⟩ := hb
  exact ⟨_, rfl⟩

/-- Accounts with string names can be sorted. -/
theorem merkleHash_ok {state : State} {es : PyDict}
    (hes : (PyDict.get? state (.str "balances")).getD (.dict []) = .dict es)
    (hkeys : ∀ e ∈ es, ∃ s, e.1 = .str s) : ∃ h, merkleHash rt state = .ok h := by
  obtain ⟨sorted, hsorted⟩ := pySorted_ok (fun a b : Scalar × Value => a.1.lt b.1)
    (fun e => ∃ s, e.1 = .str s) (fun _ _ ha hb => lt_ok_of_str ha hb) hkeys
  exact ⟨_, by
    simp only [merkleHash, hes, dictItems, bind, Except.bind, hsorted]
    rfl⟩

/-- Documented states hash in either mode. -/
theorem stateHash_ok {state : State} (hs : WellShaped state) (useMerkle : Bool) :
    ∃ h, stateHash rt useMerkle state = .ok h := by
  cases useMerkle with
  | false =>
    obtain ⟨text, htext⟩ := Value.dumps_ok rt.toInterp (.dict state) hs.stringKeyed
    exact ⟨_, by simp only [stateHash, Bool.false_eq_true, if_false, htext]; rfl⟩
  | true =>
    obtain ⟨es, hes, hkeys⟩ := hs.balances_getD
    rw [Value.stringKeyed_dict_iff] at hkeys
    exact merkleHash_ok rt hes fun e he => (hkeys e he).1

/-- Every state hash is the digest of some data. -/
theorem stateHash_hex {state : State} {useMerkle : Bool} {h : String}
    (hh : stateHash rt useMerkle state = .ok h) : ∃ data, h = hexDigest rt.toCrypto data := by
  cases useMerkle with
  | false =>
    simp only [stateHash, Bool.false_eq_true, if_false, bind_eq_ok, pure_eq_ok] at hh
    obtain ⟨text, -, rfl⟩ := hh
    exact ⟨_, rfl⟩
  | true =>
    simp only [stateHash, if_true, merkleHash, bind_eq_ok, pure_eq_ok] at hh
    obtain ⟨items, -, sorted, -, rfl⟩ := hh
    refine merkleRoot_hex rt.toCrypto _ fun s hs => ?_
    obtain ⟨e, -, rfl⟩ := List.mem_map.mp hs
    exact ⟨_, rfl⟩

/-- The row of an account in the comparison of two dictionaries. -/
def diffRow (oldBalances newBalances : PyDict) (acc : Scalar) : DiffEntry :=
  ⟨acc, (PyDict.get? oldBalances acc).getD (.int 0), (PyDict.get? newBalances acc).getD (.int 0)⟩

theorem str_of_mem_keys {es fs : PyDict} (hes : ∀ e ∈ es, ∃ s, e.1 = .str s)
    (hfs : ∀ e ∈ fs, ∃ s, e.1 = .str s) :
    ∀ k ∈ es.map Prod.fst ++ fs.map Prod.fst, ∃ s, k = .str s := by
  simp only [List.mem_append, List.mem_map]
  rintro k (⟨e, he, rfl⟩ | ⟨e, he, rfl⟩)
  · exact hes e he
  · exact hfs e he

/-- Comparing two dictionaries with string keys raises nothing, and keeps the rows of
the accounts of either that differ. -/
theorem computeDiff_of_dict {oldState newState : State} {es fs : PyDict}
    (hes : (PyDict.get? oldState (.str "balances")).getD (.dict []) = .dict es)
    (hfs : (PyDict.get? newState (.str "balances")).getD (.dict []) = .dict fs)
    (hekeys : ∀ e ∈ es, ∃ s, e.1 = .str s) (hfkeys : ∀ e ∈ fs, ∃ s, e.1 = .str s) :
    ∃ accounts : List Scalar,
      accounts.Perm (distinctScalars (es.map Prod.fst ++ fs.map Prod.fst)) ∧
      computeDiff oldState newState =
        .ok ((accounts.map (diffRow es fs)).filter fun row => !row.oldValue.eq row.newValue) := by
  obtain ⟨accounts, haccounts⟩ := pySorted_ok Scalar.lt (fun k => ∃ s, k = .str s)
    (fun _ _ ha hb => lt_ok_of_str ha hb) fun k hk =>
      str_of_mem_keys hekeys hfkeys k (mem_distinctScalars hk)
  have hrows : accounts.mapM (fun acc => (pure (diffRow es fs acc) : Except Exc DiffEntry)) =
      .ok (accounts.map (diffRow es fs)) := List.mapM_pure
  refine ⟨accounts, pySorted_perm haccounts, ?_⟩
  simp only [computeDiff, hes, hfs, setElements, bind_eq_ok, pure_eq_ok]
  exact ⟨_, rfl, _, rfl, _, haccounts, _, hrows, rfl⟩

/-- Documented states can be compared. -/
theorem computeDiff_ok {oldState newState : State} (ho : WellShaped oldState)
    (hn : WellShaped newState) : ∃ diff, computeDiff oldState newState = .ok diff := by
  obtain ⟨es, hes, hekeys⟩ := ho.balances_getD
  obtain ⟨fs, hfs, hfkeys⟩ := hn.balances_getD
  rw [Value.stringKeyed_dict_iff] at hekeys hfkeys
  obtain ⟨accounts, -, hdiff⟩ := computeDiff_of_dict hes hfs (fun e he => (hekeys e he).1)
    fun e he => (hfkeys e he).1
  exact ⟨_, hdiff⟩

/-! ## The manager -/

structure TraceEntry where
  tx : Transaction
  oldHash : String
  newHash : String
  diff : List DiffEntry

structure StateManager where
  state : State
  useMerkle : Bool
  trace : List TraceEntry

namespace StateManager

/-- A manager over a copy of the initial state. -/
def init (initialState : Option State) (useMerkle : Bool) : StateManager :=
  ⟨initialState.getD [(.str "balances", .dict [])], useMerkle, []⟩

/-- Replace the state, by the empty default when none is given, and clear the trace. -/
def reset (m : StateManager) (newState : Option State) : StateManager :=
  { m with state := newState.getD [(.str "balances", .dict [])], trace := [] }

def computeStateHash (m : StateManager) : Except Exc String := stateHash rt m.useMerkle m.state

/-- Hash the new state and compare it with the old one. -/
def summarize (useMerkle : Bool) (oldState newState : State) :
    Except Exc (String × List DiffEntry) := do
  let newHash ← stateHash rt useMerkle newState
  let diff ← computeDiff oldState newState
  return (newHash, diff)

/-- Execute `tx` against the current state and record it in the trace. -/
def applyTransaction (m : StateManager) (tx : Transaction) : StateManager × Except Exc State :=
  match m.computeStateHash rt with
  | .error e => (m, .error e)
  | .ok oldHash =>
    match rt.execute m.state tx with
    | .error e => (m, .error e)
    | .ok newState =>
      match summarize rt m.useMerkle m.state newState with
      | .error e => ({ m with state := newState }, .error e)
      | .ok (newHash, diff) =>
        ({ m with state := newState, trace := m.trace ++ [⟨tx, oldHash, newHash, diff⟩] },
          .ok newState)

/-- What one call can do: reject without effect, replace the state and still raise,
or succeed. -/
theorem applyTransaction_cases (m : StateManager) (tx : Transaction) :
    (∃ e, m.applyTransaction rt tx = (m, .error e) ∧
      ((∃ e', m.computeStateHash rt = .error e') ∨ ∃ e', rt.execute m.state tx = .error e')) ∨
    (∃ new e oldHash, m.applyTransaction rt tx = ({ m with state := new }, .error e) ∧
      m.computeStateHash rt = .ok oldHash ∧ rt.execute m.state tx = .ok new ∧
      summarize rt m.useMerkle m.state new = .error e) ∨
    (∃ new oldHash newHash diff, m.applyTransaction rt tx =
        ({ m with state := new, trace := m.trace ++ [⟨tx, oldHash, newHash, diff⟩] }, .ok new) ∧
      m.computeStateHash rt = .ok oldHash ∧ rt.execute m.state tx = .ok new ∧
      summarize rt m.useMerkle m.state new = .ok (newHash, diff)) := by
  unfold applyTransaction
  split
  · next e he => exact .inl ⟨e, rfl, .inl ⟨e, he⟩⟩
  · next oldHash hold =>
    split
    · next e he => exact .inl ⟨e, rfl, .inr ⟨e, he⟩⟩
    · next new hnew =>
      split
      · next e he => exact .inr (.inl ⟨new, e, oldHash, rfl, hold, hnew, he⟩)
      · next newHash diff hs =>
        exact .inr (.inr ⟨new, oldHash, newHash, diff, rfl, hold, hnew, hs⟩)

/-- On documented states the step is atomic: it raises exactly when the engine does,
and then nothing has changed. -/
theorem applyTransaction_wellShaped (m : StateManager) {tx : Transaction}
    (hm : WellShaped m.state) (hnew : ∀ new, rt.execute m.state tx = .ok new → WellShaped new) :
    (∃ e, m.applyTransaction rt tx = (m, .error e) ∧ rt.execute m.state tx = .error e) ∨
    (∃ new trace, m.applyTransaction rt tx =
        ({ m with state := new, trace := m.trace ++ [trace] }, .ok new) ∧
      rt.execute m.state tx = .ok new) := by
  obtain ⟨oldHash, hold⟩ := stateHash_ok rt hm m.useMerkle
  unfold applyTransaction computeStateHash
  rw [hold]
  cases hex : rt.execute m.state tx with
  | error e => exact .inl ⟨e, rfl, rfl⟩
  | ok new =>
    obtain ⟨newHash, hh⟩ := stateHash_ok rt (hnew new hex) m.useMerkle
    obtain ⟨diff, hd⟩ := computeDiff_ok hm (hnew new hex)
    have hs : summarize rt m.useMerkle m.state new = .ok (newHash, diff) := by
      simp only [summarize, bind_eq_ok, pure_eq_ok]
      exact ⟨_, hh, _, hd, rfl⟩
    exact .inr ⟨new, ⟨tx, oldHash, newHash, diff⟩, by simp only [hs], rfl⟩

@[simp] theorem applyTransaction_useMerkle (m : StateManager) (tx : Transaction) :
    (m.applyTransaction rt tx).1.useMerkle = m.useMerkle := by
  rcases applyTransaction_cases rt m tx with ⟨_, h, -⟩ | ⟨_, _, _, h, -⟩ | ⟨_, _, _, _, h, -⟩ <;>
    rw [h]

end StateManager
end ECN
