import ECN.Limits
import ECN.ReferenceRuntime

/-!
# Exceptions of the state manager

`apply_transaction` puts the new state in place before it hashes it. The new state of an
accepted transaction cannot be hashed when a mint opens an account whose name does not
compare with the names there, or an inspection adds a string key to a product with other
keys, or the transaction writes something beyond the limits of the interpreter; then the call
raises and the state has changed. In every other case an exception leaves the manager as it
was.
-/
namespace ECN

variable {rt : Runtime} {state new : State} {tx : Transaction} {es fs : PyDict}

/-! ## One transaction -/

/-- A mint to a new account whose name does not compare with one that is there. -/
def MixesAccounts (rt : Runtime) (state : State) (tx : Transaction) : Prop :=
  PyDict.get? tx (.str "type") = some (.str "mint") ∧
    ∃ es k, MintsTo rt.toInterp state tx es k ∧ PyDict.get? es k = none ∧
      ∃ e ∈ es, ¬ e.1.Comparable k

/-- A first inspection of a product with a key that is no string. -/
def MixesProduct (rt : Runtime) (state : State) (tx : Transaction) : Prop :=
  PyDict.get? tx (.str "type") = some (.str "inspect") ∧ (rt.handlers "inspect").isSome = true ∧
    ∃ es, InspectsFirst rt.toInterp state tx es ∧ ∃ e ∈ es, ∀ t, e.1 ≠ .str t

/-- No transaction closes an account or replaces the dictionary of accounts. -/
theorem accounts_execute (hr : rt.Registered) (hes : balancesField state = .dict es)
    (h : rt.execute state tx = .ok new) :
    ∃ fs, balancesField new = .dict fs ∧ es.map Prod.fst ⊆ fs.map Prod.fst := by
  have hs : HasAccounts state := ⟨es, hes⟩
  have hrewrites (hnew : RewritesAccounts rt.toInterp state new) :
      ∃ fs, balancesField new = .dict fs ∧ es.map Prod.fst ⊆ fs.map Prod.fst := by
    obtain ⟨es', fs, hget, rfl, hfs⟩ := hnew
    obtain rfl : es' = es := Value.dict.inj ((balancesField_of_get? hget).symm.trans hes)
    exact ⟨fs, balancesField_set state _, hfs.keys ▸ List.Subset.refl _⟩
  obtain ⟨handler, hmem, hrun⟩ := hr.exists_handler h
  rcases hmem with hmem | hmem
  · simp only [ledgerHandlers, List.mem_cons, List.not_mem_nil, or_false] at hmem
    rcases hmem with rfl | rfl | rfl
    · exact hrewrites (rewrites_handleTransfer hs hrun)
    · obtain ⟨es', k, v, hmint, -, rfl⟩ := writes_handleMint hs hrun
      obtain rfl : es' = es :=
        Value.dict.inj ((balancesField_of_get? hmint.balances).symm.trans hes)
      refine ⟨_, balancesField_set state _, ?_⟩
      cases hget : PyDict.get? es' k with
      | some w =>
        rw [PyDict.keys_set_of_isSome (by rw [hget, Option.isSome_some])]
        exact List.Subset.refl _
      | none =>
        rw [PyDict.set_of_get?_none hget, List.map_append]
        exact List.subset_append_left _ _
    · exact hrewrites (rewrites_handleBurn hs hrun)
  · obtain ⟨productId, product, hput⟩ := exists_putProduct rt.toInterp hmem hrun
    exact ⟨es, (balancesField_putProduct hput).trans hes, List.Subset.refl _⟩

/-- A write of the balances leaves a state that can be hashed, when the balances print and
the account names compare. -/
theorem hash_set_balances {useMerkle : Bool}
    (hget : PyDict.get? state (.str "balances") = some (.dict es))
    (hhash : ∃ h, stateHash rt useMerkle state = .ok h)
    (hvalues : (∀ e ∈ es, e.2.Prints rt.toInterp) → ∀ e ∈ fs, e.2.Prints rt.toInterp)
    (hnames : (fs.map Prod.fst).Pairwise Scalar.Comparable) :
    ∃ h, stateHash rt useMerkle (PyDict.set state (.str "balances") (.dict fs)) = .ok h := by
  cases useMerkle with
  | true => exact (merkleHash_ok_iff (balancesField_set state _)).mpr hnames
  | false =>
    have hstate := stateHash_default_ok_iff.mp hhash
    have hbalances := Value.prints_dict_iff.mp (hstate.get? hget)
    refine stateHash_default_ok_iff.mpr (hstate.set (by rw [hget, Option.isSome_some]) ?_)
    exact Value.prints_dict_iff.mpr ⟨hvalues hbalances.1, hnames⟩

/-- A product written back does not concern the Merkle hash. -/
theorem hash_putProduct {productId product : Value} {useMerkle : Bool}
    (hput : putProduct state productId product = .ok new) (hs : HasAccounts state)
    (hhash : ∃ h, stateHash rt useMerkle state = .ok h)
    (hprints : useMerkle = false → (Value.dict new).Prints rt.toInterp) :
    ∃ h, stateHash rt useMerkle new = .ok h := by
  cases useMerkle with
  | true =>
    obtain ⟨es, hes⟩ := hs
    refine (merkleHash_ok_iff ((balancesField_putProduct hput).trans hes)).mpr ?_
    exact comparable_of_hash hes hhash
  | false => exact stateHash_default_ok_iff.mpr (hprints rfl)

/-- The new state can be hashed unless the transaction mixes keys. -/
theorem hash_execute {useMerkle : Bool} (hr : rt.Registered) (hs : HasAccounts state)
    (ht : (Value.dict tx).stringKeyed = true) (hhash : ∃ h, stateHash rt useMerkle state = .ok h)
    (haccounts : ¬ MixesAccounts rt state tx)
    (hproduct : useMerkle = false → ¬ MixesProduct rt state tx)
    (h : rt.execute state tx = .ok new) : ∃ h, stateHash rt useMerkle new = .ok h := by
  have hprints (hmode : useMerkle = false) : (Value.dict state).Prints rt.toInterp :=
    stateHash_default_ok_iff.mp (hmode ▸ hhash)
  have hrewrites (hnew : RewritesAccounts rt.toInterp state new) :
      ∃ h, stateHash rt useMerkle new = .ok h := by
    obtain ⟨es, fs, hget, rfl, hfs⟩ := hnew
    refine hash_set_balances hget hhash hfs.values ?_
    rw [hfs.keys]
    exact comparable_of_hash (balancesField_of_get? hget) hhash
  have hsupply {handler : Handler} (hmem : handler ∈ supplyChainHandlers rt.toInterp)
      (hrun : handler state tx = .ok new)
      (hnew : useMerkle = false → (Value.dict new).Prints rt.toInterp) :
      ∃ h, stateHash rt useMerkle new = .ok h := by
    obtain ⟨productId, product, hput⟩ := exists_putProduct rt.toInterp hmem hrun
    exact hash_putProduct hput hs hhash hnew
  obtain ⟨t, handler, htype, hget, hrun⟩ := (execute_eq_ok rt.toInterp).mp h
  rcases hr.cases hget with ⟨-, rfl⟩ | ⟨rfl, rfl⟩ | ⟨-, rfl⟩ | ⟨-, rfl⟩ | ⟨-, rfl⟩ | ⟨rfl, rfl⟩ |
    ⟨-, rfl⟩ | ⟨-, rfl⟩
  · exact hrewrites (rewrites_handleTransfer hs hrun)
  · obtain ⟨es, k, v, hmint, hv, rfl⟩ := writes_handleMint hs hrun
    have hnames := comparable_of_hash (balancesField_of_get? hmint.balances) hhash
    refine hash_set_balances hmint.balances hhash
      (fun hes => PyDict.forall_set hes hv fun _ _ _ => hv) ?_
    cases hnew : PyDict.get? es k with
    | some w => rwa [PyDict.keys_set_of_isSome (by rw [hnew, Option.isSome_some])]
    | none =>
      rw [PyDict.set_of_get?_none hnew, List.map_append, List.pairwise_append]
      refine ⟨hnames, List.pairwise_singleton _ k, fun a ha b hb => ?_⟩
      obtain ⟨e, he, rfl⟩ := List.mem_map.mp ha
      rw [List.mem_singleton.mp hb]
      by_contra hmix
      exact haccounts ⟨htype, es, k, hmint, hnew, e, he, hmix⟩
  · exact hrewrites (rewrites_handleBurn hs hrun)
  · exact hsupply (by simp [supplyChainHandlers]) hrun fun hm =>
      prints_handleShip (hprints hm) ht hrun
  · exact hsupply (by simp [supplyChainHandlers]) hrun fun hm =>
      prints_handleReceive (hprints hm) ht hrun
  · refine hsupply (by simp [supplyChainHandlers]) hrun fun hm =>
      prints_handleInspect (hprints hm) ht (fun es hfirst e he => ?_) hrun
    by_contra hkey
    exact hproduct hm ⟨htype, by rw [hget, Option.isSome_some], es, hfirst, e, he,
      fun s hs => hkey ⟨s, hs⟩⟩
  · exact hsupply (by simp [supplyChainHandlers]) hrun fun hm =>
      prints_handleQuarantine (hprints hm) ht hrun
  · exact hsupply (by simp [supplyChainHandlers]) hrun fun hm =>
      prints_handleRelease (hprints hm) hrun

/-- After a mint that mixes accounts the state cannot be hashed in either mode. -/
theorem MixesAccounts.not_hash (hr : rt.Registered) (h : MixesAccounts rt state tx) :
    ∃ new, rt.execute state tx = .ok new ∧
      ∀ useMerkle, ¬ ∃ h, stateHash rt useMerkle new = .ok h := by
  obtain ⟨htype, es, k, hmint, hnew, e, he, hmix⟩ := h
  have hget : rt.handlers "mint" = some (handleMint rt.toInterp) := by
    rcases hr with hr | hr <;> rw [hr] <;> rfl
  obtain ⟨v, hrun⟩ := hmint.handleMint hnew
  refine ⟨_, (execute_eq_ok rt.toInterp).mpr ⟨_, _, htype, hget, hrun⟩, fun useMerkle hhash => ?_⟩
  have hnames := comparable_of_hash (balancesField_set state _) hhash
  rw [PyDict.set_of_get?_none hnew, List.map_append, List.pairwise_append] at hnames
  exact hmix (hnames.2.2 e.1 (List.mem_map_of_mem he) k List.mem_cons_self)

/-- After an inspection that mixes the keys of a product the state cannot be printed. -/
theorem MixesProduct.not_hash (hr : rt.Registered) (ht : (Value.dict tx).stringKeyed = true)
    (hhash : ∃ h, stateHash rt false state = .ok h) (h : MixesProduct rt state tx) :
    ∃ new, rt.execute state tx = .ok new ∧ ¬ ∃ h, stateHash rt false new = .ok h := by
  obtain ⟨htype, hregistered, es, hfirst, e, he, hkey⟩ := h
  have hget : rt.handlers "inspect" = some (handleInspect rt.toInterp) := by
    rcases hr with hr | hr
    · rw [hr] at hregistered
      cases hregistered
    · rw [hr]
      rfl
  obtain ⟨new, hrun, hstrings⟩ := hfirst.handleInspect (stateHash_default_ok_iff.mp hhash) ht
  refine ⟨new, (execute_eq_ok rt.toInterp).mpr ⟨_, _, htype, hget, hrun⟩, fun hnew => ?_⟩
  obtain ⟨t, ht⟩ := hstrings (stateHash_default_ok_iff.mp hnew) e he
  exact hkey t ht

/-! ## The manager -/

namespace StateManager

variable {L : Limits} {m : StateManager}

/-- The manager after a call, within the limits. -/
def stepWithin (L : Limits) (rt : Runtime) (m : StateManager) : Call → StateManager
  | .applyTransaction tx => (L.applyTransaction rt m tx).1
  | .reset newState => (L.reset m newState).1

/-- If the call raises, then the state, its hash and the trace are as before, and every
transaction that could be applied before still can be. -/
def Atomic (L : Limits) (rt : Runtime) (m : StateManager) : Call → Prop
  | .applyTransaction tx =>
    let after := (L.applyTransaction rt m tx).1
    (∃ f, (L.applyTransaction rt m tx).2 = .error f) →
      after.state = m.state ∧
      L.stateHash rt after.useMerkle after.state = L.stateHash rt m.useMerkle m.state ∧
      after.trace = m.trace ∧
      ∀ other, m.CanApply L rt other → after.CanApply L rt other
  | .reset _ => True

/-- In a state that can be copied and hashed, the call mixes no keys of different kinds and
writes nothing beyond the limits. -/
def Harmless (L : Limits) (rt : Runtime) (m : StateManager) : Call → Prop
  | .applyTransaction tx => L.Ready rt m →
    ¬ MixesAccounts rt m.state tx ∧ (m.useMerkle = false → ¬ MixesProduct rt m.state tx) ∧
      ¬ L.Exceeds rt m tx
  | .reset _ => True

/-- Transactions are JSON objects, and states that are set have string account names. -/
def Call.FromJson : Call → Prop
  | .applyTransaction tx => (Value.dict tx).stringKeyed = true
  | .reset newState => ∀ state, newState = some state → StringAccounts state

/-- A state that can be copied and hashed is one that a call may end in. -/
theorem completes_self (hs : HasAccounts m.state) (hready : L.Ready rt m) :
    L.Completes rt m m.state := by
  obtain ⟨hroom, hin, hash, hhash⟩ := hready
  obtain ⟨es, hes⟩ := hs
  obtain ⟨diff, hdiff⟩ := computeDiff_ok_of_comparable hes hes (List.Subset.refl _)
    (comparable_of_hash hes ⟨hash, hhash⟩)
  refine ⟨⟨(hash, diff), ?_⟩, hin, Limits.copies_mono (Nat.sub_le _ _) hroom⟩
  simp only [summarize, bind_eq_ok, pure_eq_ok]
  exact ⟨hash, hhash, diff, hdiff, rfl⟩

/-- A call is atomic exactly when nothing stops it after the engine has accepted. -/
theorem atomic_iff_completes (hs : HasAccounts m.state) :
    Atomic L rt m (.applyTransaction tx) ↔
      (L.Ready rt m → ∀ new, rt.execute m.state tx = .ok new → L.Completes rt m new) := by
  constructor
  · intro hatomic hready new hex
    rcases Limits.applyTransaction_cases L rt m tx with
      ⟨-, hrefused⟩ | ⟨new', f, trace, happ, -, hex', -⟩ | ⟨new', trace, -, -, -, hex', hdone⟩
    · exact (hrefused ⟨hready, new, hex⟩).elim
    · obtain rfl := Except.ok.inj (hex.symm.trans hex')
      obtain ⟨hsame, -⟩ := hatomic ⟨f, by rw [happ]⟩
      rw [happ] at hsame
      have hself : L.Completes rt m m.state := completes_self hs hready
      rwa [← show new = m.state from hsame] at hself
    · obtain rfl := Except.ok.inj (hex.symm.trans hex')
      exact hdone
  · rintro hcompletes ⟨f, herr⟩
    rcases Limits.applyTransaction_within hcompletes with ⟨f', happ⟩ | ⟨new, trace, happ, -⟩
    · rw [happ]
      exact ⟨rfl, rfl, rfl, fun other h => h⟩
    · rw [happ] at herr
      cases herr

/-- After an accepted transaction nothing is raised exactly when it neither mixes keys nor
exceeds the limits. -/
theorem completes_iff (hr : rt.Registered) (hs : HasAccounts m.state)
    (ht : (Value.dict tx).stringKeyed = true) (hready : L.Ready rt m)
    (hex : rt.execute m.state tx = .ok new) :
    L.Completes rt m new ↔ ¬ MixesAccounts rt m.state tx ∧
      (m.useMerkle = false → ¬ MixesProduct rt m.state tx) ∧ ¬ L.Exceeds rt m tx := by
  have hhash := hready.2.2
  rw [Limits.Completes, ← Limits.exceeds_iff hr hs hready hex, ← and_assoc]
  refine and_congr_left fun _ => ⟨?_, ?_⟩
  · rintro ⟨s, hsum⟩
    simp only [summarize, bind_eq_ok] at hsum
    obtain ⟨h, hh, -⟩ := hsum
    refine ⟨fun hmix => ?_, fun hmode hmix => ?_⟩
    · obtain ⟨new', hex', hnew⟩ := hmix.not_hash hr
      obtain rfl := Except.ok.inj (hex.symm.trans hex')
      exact hnew _ ⟨h, hh⟩
    · have hdefault : ∃ h, stateHash rt false m.state = .ok h := hmode ▸ hhash
      obtain ⟨new', hex', hnew⟩ := hmix.not_hash hr ht hdefault
      obtain rfl := Except.ok.inj (hex.symm.trans hex')
      exact hnew (hmode ▸ ⟨h, hh⟩)
  · rintro ⟨haccounts, hproduct⟩
    obtain ⟨es, hes⟩ := hs
    obtain ⟨fs, hfs, hsub⟩ := accounts_execute hr hes hex
    obtain ⟨h, hh⟩ := hash_execute hr ⟨es, hes⟩ ht hhash haccounts hproduct hex
    obtain ⟨diff, hdiff⟩ := computeDiff_ok_of_comparable hes hfs hsub
      (comparable_of_hash hfs ⟨h, hh⟩)
    refine ⟨(h, diff), ?_⟩
    simp only [summarize, bind_eq_ok, pure_eq_ok]
    exact ⟨h, hh, diff, hdiff, rfl⟩

/-- One call is atomic exactly when it is harmless. -/
theorem atomic_iff_harmless (hr : rt.Registered) (hs : HasAccounts m.state) {call : Call}
    (hcall : call.FromJson) : Atomic L rt m call ↔ Harmless L rt m call := by
  cases call with
  | reset newState => exact Iff.rfl
  | applyTransaction tx =>
    rw [atomic_iff_completes hs]
    constructor
    · intro hcompletes hready
      have hdone {new : State} (hex : rt.execute m.state tx = .ok new) :=
        (completes_iff hr hs hcall hready hex).mp (hcompletes hready new hex)
      refine ⟨fun hmix => ?_, fun hmode hmix => ?_, fun hexceeds => ?_⟩
      · obtain ⟨new, hex, -⟩ := hmix.not_hash hr
        exact (hdone hex).1 hmix
      · have hdefault : ∃ h, stateHash rt false m.state = .ok h := hmode ▸ hready.2.2
        obtain ⟨new, hex, -⟩ := hmix.not_hash hr hcall hdefault
        exact (hdone hex).2.1 hmode hmix
      · obtain ⟨new, hex⟩ := hexceeds.1
        exact (hdone hex).2.2 hexceeds
    · exact fun hharmless hready new hex =>
        (completes_iff hr hs hcall hready hex).mpr (hharmless hready)

theorem hasAccounts_stepWithin (hr : rt.Registered) (hs : HasAccounts m.state) {call : Call}
    (hcall : call.FromJson) : HasAccounts (stepWithin L rt m call).state := by
  cases call with
  | reset newState =>
    show HasAccounts (L.reset m newState).1.state
    unfold Limits.reset
    split
    · cases newState with
      | none => exact ⟨[], rfl⟩
      | some state => exact (hcall state rfl).hasAccounts
    · exact hs
  | applyTransaction tx =>
    have hexecute {new : State} (hex : rt.execute m.state tx = .ok new) : HasAccounts new := by
      obtain ⟨es, hes⟩ := hs
      obtain ⟨fs, hfs, -⟩ := accounts_execute hr hes hex
      exact ⟨fs, hfs⟩
    show HasAccounts (L.applyTransaction rt m tx).1.state
    rcases Limits.applyTransaction_cases L rt m tx with
      ⟨⟨f, happ⟩, -⟩ | ⟨new, f, trace, happ, -, hex, -⟩ | ⟨new, trace, happ, -, -, hex, -⟩
    · rw [happ]
      exact hs
    · rw [happ]
      exact hexecute hex
    · rw [happ]
      exact hexecute hex

/-- In every run from a state with string account names, all calls are atomic if and only
if all of them are harmless. -/
theorem atomic_iff (hr : rt.Registered) {initialState : Option State} {useMerkle : Bool}
    {calls : List Call} (hinit : ∀ state, initialState = some state → StringAccounts state)
    (hcalls : ∀ call ∈ calls, call.FromJson) :
    StepsMeet (stepWithin L rt) (Atomic L rt) (init initialState useMerkle) calls ↔
      StepsMeet (stepWithin L rt) (Harmless L rt) (init initialState useMerkle) calls := by
  have hs : HasAccounts (init initialState useMerkle).state := by
    cases initialState with
    | none => exact ⟨[], rfl⟩
    | some state => exact (hinit state rfl).hasAccounts
  exact stepsMeet_congr_inputs (I := fun m => HasAccounts m.state)
    (fun m call hm hcall => hasAccounts_stepWithin hr hm hcall)
    (fun m call hm hcall => atomic_iff_harmless hr hm hcall) hs hcalls

/-! ## Calls that raise too late -/

theorem not_atomic_of_exceeds (hr : rt.Registered) (hs : HasAccounts m.state)
    (hready : L.Ready rt m) (h : L.Exceeds rt m tx) : ¬ Atomic L rt m (.applyTransaction tx) := by
  intro hatomic
  obtain ⟨new, hex⟩ := h.1
  have hdone := (atomic_iff_completes hs).mp hatomic hready new hex
  exact (Limits.exceeds_iff hr hs hready hex).mpr hdone.2 h

theorem ready_of_wellShaped (hs : WellShaped m.state)
    (hroom : Limits.Copies (L.copyFrames - 2) m.state) (hin : L.Hashes m.useMerkle m.state) :
    L.Ready rt m :=
  ⟨hroom, hin, stateHash_ok rt hs m.useMerkle⟩

/-- An account and a product. -/
def aliceAndProduct : State :=
  (.str "balances", .dict [(.str "alice", .int 10)]) :: makeInitialState ["P"]

def mintTo (receiver : Scalar) (amount : ℕ) : Transaction :=
  [(.str "type", .str "mint"), (.str "to", .scalar receiver), (.str "amount", .int amount)]

/-- A list in a list in a list. -/
def nestedList : ℕ → Value
  | 0 => .none
  | n + 1 => .list [nestedList n]

def shipTo (destination : Value) : Transaction :=
  [(.str "type", .str "ship"), (.str "product_id", .str "P"), (.str "destination", destination),
    (.str "shipper", .str "S")]

theorem wellShaped_aliceAndProduct : WellShaped aliceAndProduct :=
  ⟨by decide, by rintro v ⟨⟩; exact ⟨_, rfl⟩⟩

theorem atomic_aliceAndProduct :
    StepsMeet (stepWithin defaultLimits (referenceRuntime true))
        (Atomic defaultLimits (referenceRuntime true)) (init (some aliceAndProduct) false)
        [.applyTransaction (mintTo (.str "bob") 1), .reset none,
          .applyTransaction (mintTo (.int 5) 1)] ↔
      StepsMeet (stepWithin defaultLimits (referenceRuntime true))
        (Harmless defaultLimits (referenceRuntime true)) (init (some aliceAndProduct) false)
        [.applyTransaction (mintTo (.str "bob") 1), .reset none,
          .applyTransaction (mintTo (.int 5) 1)] := by
  refine atomic_iff (.inr rfl) ?_ ?_
  · rintro _ ⟨⟩
    exact ⟨_, rfl, by simp⟩
  · simp [Call.FromJson, mintTo, Value.stringKeyed, Value.stringKeyedItems]

/-- A mint to the account `5` raises after it has replaced the state, and then no mint to
`alice`, which would have succeeded before, succeeds any more. A balance of 4301 digits, a
lone surrogate in a name under the Merkle tree, and a destination too deep to be copied
raise too late as well. -/
theorem raising_calls_not_atomic :
    let rt := referenceRuntime true
    let m := init (some aliceAndProduct) false
    let tree := init (some aliceAndProduct) true
    (¬ Atomic defaultLimits rt m (.applyTransaction (mintTo (.int 5) 1)) ∧
      m.CanApply defaultLimits rt (mintTo (.str "alice") 1) ∧
      ¬ CanApply defaultLimits rt
        (stepWithin defaultLimits rt m (.applyTransaction (mintTo (.int 5) 1)))
        (mintTo (.str "alice") 1)) ∧
    ¬ Atomic defaultLimits rt m (.applyTransaction (mintTo (.str "alice") (10 ^ 4300 - 1))) ∧
    ¬ Atomic defaultLimits rt tree (.applyTransaction (mintTo (.str "\uE000") 1)) ∧
    ¬ Atomic defaultLimits rt m (.applyTransaction (shipTo (nestedList 600))) := by
  intro rt m tree
  have hr : rt.Registered := .inr rfl
  have hs : HasAccounts aliceAndProduct := ⟨_, rfl⟩
  have hplain : defaultLimits.Ready rt m :=
    ready_of_wellShaped wellShaped_aliceAndProduct (by decide +kernel) (by decide +kernel)
  have htree : defaultLimits.Ready rt tree :=
    ready_of_wellShaped wellShaped_aliceAndProduct (by decide +kernel) (by decide +kernel)
  refine ⟨⟨fun h => ?_, ?_, ?_⟩, ?_, ?_, ?_⟩
  · have hmix : MixesAccounts rt m.state (mintTo (.int 5) 1) := by
      refine ⟨rfl, [(.str "alice", .int 10)], .int 5, ⟨rfl, ?_, rfl⟩, rfl, _, List.mem_cons_self,
        by decide⟩
      exact ⟨.int 1, 1, rfl, rfl, by decide⟩
    have hjson : Call.FromJson (.applyTransaction (mintTo (.int 5) 1)) :=
      show (Value.dict (mintTo (.int 5) 1)).stringKeyed = true by decide
    exact ((atomic_iff_harmless hr hs hjson).mp h hplain).1 hmix
  · unfold CanApply
    decide +kernel
  · unfold CanApply
    decide +kernel
  · exact not_atomic_of_exceeds hr hs hplain (by decide +kernel)
  · exact not_atomic_of_exceeds hr hs htree (by decide +kernel)
  · exact not_atomic_of_exceeds hr hs hplain (by decide +kernel)

end StateManager
end ECN
