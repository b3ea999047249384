import ECN.AtomicApply

/-!
# The supply over whole runs

A run of transfers, mints and burns is a sequence of postings to the ledger that the state
holds, as long as no credit makes a balance of too many digits and, under the Merkle tree,
no mint opens an account whose name cannot be encoded. A call that does either raises when
the new state is already in place.
-/
namespace ECN

variable {rt : Runtime} {L : Limits} {ledger : Ledger String} {m : StateManager}
  {tx : Transaction} {txs : List Transaction}

/-! ## Calls that credit too much -/

/-- The engine accepts, and the balance that is credited has too many digits, or the name
of the new account cannot be encoded for the Merkle tree. -/
def Limits.Overflows (L : Limits) (rt : Runtime) (m : StateManager) (tx : Transaction) : Prop :=
  (∃ new, rt.execute m.state tx = .ok new) ∧ ∃ p ∈ writes rt.toInterp m.state tx,
    ¬ L.InDigits p.2 ∨ m.useMerkle = true ∧ ¬ L.Encodes p.2

theorem creditedBalance_scalar {py : Interp} {es : PyDict} {k : Scalar} {v : Value}
    (h : creditedBalance py tx es k = some v) : ∃ s, v = .scalar s := by
  simp only [creditedBalance, Option.bind_eq_bind, Option.bind_eq_some_iff] at h
  obtain ⟨amount, -, n, -, hv⟩ := h
  cases hheld : (PyDict.get? es k).getD (.int 0) with
  | list vs =>
    rw [hheld] at hv
    cases hv
  | dict ds =>
    rw [hheld] at hv
    cases hv
  | scalar s =>
    rw [hheld] at hv
    simp only [Value.addInt, bind, Except.bind] at hv
    cases hadd : s.addInt n with
    | error e =>
      rw [hadd] at hv
      cases hv
    | ok t =>
      rw [hadd] at hv
      exact ⟨t, (Option.some_inj.mp hv).symm⟩

/-- A ledger transaction writes scalars into the balances, and nothing else. -/
theorem LedgerTx.writes_scalar (ht : LedgerTx tx) {py : Interp} {state : State} :
    ∀ p ∈ writes py state tx, p.1 = 2 ∧ ∃ s, p.2 = .scalar s := by
  obtain ⟨t, hmem, htype⟩ := ht.type
  have hcredited {es : PyDict} {k : Scalar} :
      ∀ p ∈ (creditedBalance py tx es k).toList.map fun v => (2, v),
        p.1 = 2 ∧ ∃ s, p.2 = .scalar s := by
    intro p hp
    obtain ⟨v, hv, rfl⟩ := List.mem_map.mp hp
    exact ⟨rfl, creditedBalance_scalar (Option.mem_toList.mp hv)⟩
  simp only [List.mem_cons, List.not_mem_nil, or_false] at hmem
  intro p hp
  rcases hmem with rfl | rfl | rfl
  · simp only [writes, htype] at hp
    split at hp
    · split at hp
      · cases hp
      · exact hcredited p hp
    · cases hp
  · simp only [writes, htype] at hp
    split at hp
    · rcases List.mem_append.mp hp with hp | hp
      · split at hp
        · cases hp
        · rw [List.mem_singleton.mp hp]
          exact ⟨rfl, _, rfl⟩
      · exact hcredited p hp
    · cases hp
  · simp [writes, htype] at hp

/-- A ledger transaction exceeds the limits only by what it credits. -/
theorem LedgerTx.overflows_of_exceeds (hr : rt.Registered) (ht : LedgerTx tx)
    (hm : Holds m.state ledger) (hready : L.Ready rt m) (h : L.Exceeds rt m tx) :
    L.Overflows rt m tx := by
  obtain ⟨⟨new, hex⟩, p, hp, hbeyond⟩ := h
  obtain ⟨htwo, s, hscalar⟩ := ht.writes_scalar p hp
  refine ⟨⟨new, hex⟩, p, hp, ?_⟩
  have hleaf : p.2.Fits nesting L.hashDepth := by
    rw [hscalar]
    exact Value.fits_scalar_iff.mpr ⟨by cases s <;> rfl, Nat.zero_le _⟩
  rcases hbeyond with hcopy | htext
  · -- The balances are copied, so there is room for a scalar among them.
    obtain ⟨-, -, -, -, hget, -⟩ := posts_execute hr hm ht hex
    have hbalances := hready.1.get? hget
    have hroom : 2 ≤ L.copyFrames - 2 - 2 := (Value.fits_dict_iff.mp hbalances).1
    refine (hcopy ?_).elim
    rw [htwo, hscalar]
    refine Value.fits_scalar_iff.mpr ⟨by cases s <;> rfl, ?_⟩
    show 1 ≤ L.copyFrames - 2 * 2
    omega
  · split at htext
    · next hmode =>
      by_cases hdigits : L.InDigits p.2
      · exact .inr ⟨hmode, fun hencodes => htext.2 ⟨hdigits, hencodes, hleaf⟩⟩
      · exact .inl hdigits
    · exact .inl htext

/-! ## Runs -/

namespace StateManager

/-- The manager after a call, within the limits. -/
def applyWithin (L : Limits) (rt : Runtime) (m : StateManager) (tx : Transaction) : StateManager :=
  (L.applyTransaction rt m tx).1

/-- The transactions of a run whose calls return. -/
def succeededWithin (L : Limits) (rt : Runtime) : StateManager → List Transaction →
    List Transaction
  | _, [] => []
  | m, tx :: txs =>
    if (L.applyTransaction rt m tx).2.isOk then
      tx :: succeededWithin L rt (m.applyWithin L rt tx) txs
    else succeededWithin L rt (m.applyWithin L rt tx) txs

/-- Only successful mints and burns move the total, no balance is overdrawn, no account is
closed, accounts that no successful transaction names are untouched, and a call that raises
changes nothing. -/
def LedgerSafe (L : Limits) (rt : Runtime) (m : StateManager) (txs : List Transaction) : Prop :=
  let done := succeededWithin L rt m txs
  let last := txs.foldl (applyWithin L rt) m
  totalSupply last.state =
      totalSupply m.state + (done.map (minted rt)).sum - (done.map (burned rt)).sum ∧
    (∀ e ∈ balanceItems last.state, ∃ account n, e = (.str account, .int n) ∧ 0 ≤ n) ∧
    (∀ account, (balanceOf m.state account).isSome → (balanceOf last.state account).isSome) ∧
    (∀ account, (∀ tx ∈ done, account ∉ namedAccounts tx) →
      balanceOf last.state account = balanceOf m.state account) ∧
    ∀ past tx rest f, txs = past ++ tx :: rest →
      (L.applyTransaction rt (past.foldl (applyWithin L rt) m) tx).2 = .error f →
        (past ++ [tx]).foldl (applyWithin L rt) m = past.foldl (applyWithin L rt) m

/-- A call either changes nothing and raises, or it is a posting and returns. -/
theorem applyWithin_ledger (hr : rt.Registered) (hm : Holds m.state ledger) (ht : LedgerTx tx)
    (hok : ¬ L.Overflows rt m tx) :
    (∃ f, L.applyTransaction rt m tx = (m, .error f)) ∨
    ∃ p ledger', Asks rt tx p ∧ ledger.post p = some ledger' ∧
      Holds (m.applyWithin L rt tx).state ledger' ∧ (L.applyTransaction rt m tx).2.isOk = true := by
  have hcompletes : L.Ready rt m → ∀ new, rt.execute m.state tx = .ok new →
      L.Completes rt m new := by
    intro hready new hex
    obtain ⟨h₀, hold⟩ := hready.2.2
    obtain ⟨p, ledger', -, -, hget, rfl⟩ := posts_execute hr hm ht hex
    obtain ⟨h, hh⟩ := stateHash_set_ledger ⟨h₀, hold⟩ hget ledger'
    obtain ⟨diff, hd⟩ := computeDiff_ledger hm (holds_set m.state ledger')
    refine ⟨⟨(h, diff), ?_⟩, (Limits.exceeds_iff hr ⟨_, hm⟩ hready hex).mp
      fun hexceeds => hok (ht.overflows_of_exceeds hr hm hready hexceeds)⟩
    simp only [summarize, bind_eq_ok, pure_eq_ok]
    exact ⟨h, hh, diff, hd, rfl⟩
  rcases Limits.applyTransaction_within hcompletes with hrefused | ⟨new, trace, happ, hideal⟩
  · exact .inl hrefused
  · rcases apply_ledger hr hm ht with ⟨e, herr⟩ | ⟨p, ledger', hasks, hpost, hholds, -⟩
    · cases congrArg Prod.snd (hideal.symm.trans herr)
    · rw [apply, hideal] at hholds
      refine .inr ⟨p, ledger', hasks, hpost, ?_, by rw [happ]; rfl⟩
      rw [applyWithin, happ]
      exact hholds

/-- A run is the sequence of postings of its successful calls. -/
theorem runWithin_ledger (hr : rt.Registered) (hm : Holds m.state ledger)
    (ht : ∀ tx ∈ txs, LedgerTx tx)
    (hok : StepsMeet (applyWithin L rt) (fun m tx => ¬ L.Overflows rt m tx) m txs) :
    ∃ ps ledger', List.Forall₂ (Asks rt) (succeededWithin L rt m txs) ps ∧
      ledger.postAll ps = some ledger' ∧ Holds (txs.foldl (applyWithin L rt) m).state ledger' := by
  induction txs generalizing m ledger with
  | nil => exact ⟨[], ledger, .nil, rfl, hm⟩
  | cons tx txs ih =>
    have hrest := fun tx' h => ht tx' (List.mem_cons_of_mem tx h)
    rcases applyWithin_ledger hr hm (ht tx List.mem_cons_self) hok.1 with
      ⟨f, happ⟩ | ⟨p, mid, hasks, hpost, hmid, hret⟩
    · have hstay : m.applyWithin L rt tx = m := by rw [applyWithin, happ]
      obtain ⟨ps, ledger', hps, hall, hlast⟩ := ih hm hrest (hstay ▸ hok.2)
      refine ⟨ps, ledger', ?_, hall, ?_⟩
      · rw [succeededWithin, happ, hstay]
        exact hps
      · rw [List.foldl_cons, hstay]
        exact hlast
    · obtain ⟨ps, ledger', hps, hall, hlast⟩ := ih hmid hrest hok.2
      refine ⟨p :: ps, ledger', ?_, Ledger.postAll_cons.mpr ⟨mid, hpost, hall⟩, hlast⟩
      rw [succeededWithin, if_pos hret]
      exact .cons hasks hps

/-- A run from a state with non-negative balances in which no call credits too much is
safe. -/
theorem ledger_safety (hr : rt.Registered) (hm : ∃ ledger, Holds m.state ledger)
    (ht : ∀ tx ∈ txs, LedgerTx tx)
    (hok : StepsMeet (applyWithin L rt) (fun m tx => ¬ L.Overflows rt m tx) m txs) :
    LedgerSafe L rt m txs := by
  unfold LedgerSafe
  intro done last
  obtain ⟨ledger, hm⟩ := hm
  obtain ⟨ps, ledger', hps, hall, hlast⟩ := runWithin_ledger hr hm ht hok
  refine ⟨?_, fun e he => hlast.nonneg he, fun account h => ?_, fun account hout => ?_, ?_⟩
  · have htotal := Ledger.total_postAll hall
    have hminted := sum_asked (fun hask => hask.minted) hps
    have hburned := sum_asked (fun hask => hask.burned) hps
    rw [hlast.totalSupply, hm.totalSupply, hminted, hburned]
    omega
  · rw [hm.balanceOf, Option.isSome_map] at h
    rw [hlast.balanceOf, Option.isSome_map]
    obtain ⟨held, hheld⟩ := Option.isSome_iff_exists.mp h
    have hmem : account ∈ ledger.keys := (OrderedDict.mem_keys_iff _ _).mpr ⟨held, hheld⟩
    obtain ⟨held', hheld'⟩ := (OrderedDict.mem_keys_iff _ _).mp (Ledger.keys_postAll hall hmem)
    rw [hheld']
    rfl
  · rw [hlast.balanceOf, hm.balanceOf, Ledger.get?_postAll hall (not_mem_accounts hps hout)]
  · rintro past tx rest f rfl hfail
    obtain ⟨hbefore, hnow, -⟩ := stepsMeet_append.mp hok
    obtain ⟨-, mid, -, -, hmid⟩ :=
      runWithin_ledger hr hm (fun t h => ht t (List.mem_append_left _ h)) hbefore
    rcases applyWithin_ledger hr hmid (ht tx (by simp)) hnow with ⟨f', happ⟩ | ⟨-, -, -, -, -, hret⟩
    · simp [applyWithin, happ]
    · rw [hfail] at hret
      cases hret

end StateManager

/-! ## A run with every kind of step -/

instance (L : Limits) (rt : Runtime) (m : StateManager) (tx : Transaction) :
    Decidable (L.Overflows rt m tx) :=
  inferInstanceAs (Decidable (_ ∧ ∃ _ ∈ _, _ ∨ _))

theorem pairRun_supply :
    totalSupply (pairRun.foldl (StateManager.applyWithin defaultLimits (referenceRuntime false))
        pairManager).state = 14 ∧
      (StateManager.succeededWithin defaultLimits (referenceRuntime false) pairManager
        pairRun).length = 4 := by
  have hr : (referenceRuntime false).Registered := .inl rfl
  have hm : ∃ ledger, Holds pairManager.state ledger :=
    ⟨⟨[("A", 10), ("B", 0)], by decide⟩, rfl⟩
  have hok : StepsMeet (StateManager.applyWithin defaultLimits (referenceRuntime false))
      (fun m tx => ¬ defaultLimits.Overflows (referenceRuntime false) m tx) pairManager
      pairRun := by
    decide +kernel
  have hsupply := (StateManager.ledger_safety hr hm ledgerTx_pairRun hok).1
  have hdone : totalSupply pairManager.state +
        ((StateManager.succeededWithin defaultLimits (referenceRuntime false) pairManager
          pairRun).map (minted (referenceRuntime false))).sum -
        ((StateManager.succeededWithin defaultLimits (referenceRuntime false) pairManager
          pairRun).map (burned (referenceRuntime false))).sum = 14 := by
    decide +kernel
  exact ⟨hsupply.trans hdone, by decide +kernel⟩

/-- A mint that brings ten units to a balance of 4301 digits is answered by an exception,
and the total has grown. -/
theorem StateManager.huge_mint_not_safe :
    let rt := referenceRuntime false
    let m := init (some [(.str "balances", .dict [(.str "alice", .int 10)])]) false
    (∃ ledger, Holds m.state ledger) ∧ LedgerTx (mintTo (.str "alice") (10 ^ 4300 - 1)) ∧
      ¬ LedgerSafe defaultLimits rt m [mintTo (.str "alice") (10 ^ 4300 - 1)] := by
  intro rt m
  refine ⟨⟨⟨[("alice", 10)], by decide⟩, rfl⟩, ⟨⟨nofun, ?_⟩, "mint", by decide, rfl⟩, ?_⟩
  · rintro v ⟨⟩
    exact ⟨_, rfl⟩
  · intro hsafe
    have hfailed :
        succeededWithin defaultLimits rt m [mintTo (.str "alice") (10 ^ 4300 - 1)] = [] := by
      decide +kernel
    have hkept := hsafe.1
    rw [hfailed] at hkept
    exact absurd hkept (by decide +kernel)

end ECN
