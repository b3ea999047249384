import ECN.Supply
import ECN.Runs

/-!
# The trace as a replayable log

Over any sequence of calls and resets whose calls either return or leave the state
alone, the trace is a path of recorded steps from the state of the last reset to the
current one.
-/
namespace ECN

variable {rt : Runtime} {state old new : State} {tx : Transaction}

/-! ## Account names -/

/-- A dictionary whose keys are strings. -/
def AccountDict (v : Value) : Prop := ∃ es, v = .dict es ∧ ∀ e ∈ es, ∃ account, e.1 = .str account

/-- The account names of the state are strings. -/
def StringAccounts (state : State) : Prop := AccountDict (balancesField state)

theorem AccountDict.setItem {v x w : Value} {account : String} (hv : AccountDict v)
    (h : v.setItem (.str account) x = .ok w) : AccountDict w := by
  obtain ⟨es, rfl, hes⟩ := hv
  obtain rfl := Except.ok.inj h
  exact ⟨_, rfl, PyDict.forall_set hes ⟨account, rfl⟩ fun e he _ => hes e he⟩

theorem StringAccounts.item {v : Value} (hs : StringAccounts state)
    (h : PyDict.item state (.str "balances") = .ok v) : AccountDict v := by
  unfold StringAccounts balancesField at hs
  rw [PyDict.item_eq_ok.mp h] at hs
  exact hs

theorem stringAccounts_set {v : Value} (state : State) (hv : AccountDict v) :
    StringAccounts (PyDict.set state (.str "balances") v) := by
  simpa [StringAccounts, balancesField, PyDict.get?_set_str] using hv

/-- A handler after which account names are still strings. -/
def KeepsAccounts (handler : Handler) : Prop :=
  ∀ state tx new, StringAccounts state → StringNames tx → handler state tx = .ok new →
    StringAccounts new

variable (py : Interp)

theorem keepsAccounts_handleTransfer : KeepsAccounts (handleTransfer py) := by
  intro state tx new hs ht h
  simp only [handleTransfer, bind_eq_ok, pure_eq_ok] at h
  obtain ⟨sender, hfrom, receiver, hto, -, -, -, -, -, -, balances, hbal, -, -, -, -, -, -, -, -,
    -, -, -, -, -, -, less, -, debited, hdeb, -, -, more, -, credited, hcred, rfl⟩ := h
  obtain ⟨s, rfl⟩ := ht.sender _ (PyDict.item_eq_ok.mp hfrom)
  obtain ⟨r, rfl⟩ := ht.receiver _ (PyDict.item_eq_ok.mp hto)
  exact stringAccounts_set state (((hs.item hbal).setItem hdeb).setItem hcred)

theorem keepsAccounts_handleMint : KeepsAccounts (handleMint py) := by
  intro state tx new hs ht h
  simp only [handleMint, bind_eq_ok, pure_eq_ok] at h
  obtain ⟨receiver, hto, -, -, -, -, -, -, balances, hbal, -, -, more, -, credited, hcred, rfl⟩ := h
  obtain ⟨r, rfl⟩ := ht.receiver _ (PyDict.item_eq_ok.mp hto)
  exact stringAccounts_set state ((hs.item hbal).setItem hcred)

theorem keepsAccounts_handleBurn : KeepsAccounts (handleBurn py) := by
  intro state tx new hs ht h
  simp only [handleBurn, bind_eq_ok, pure_eq_ok] at h
  obtain ⟨sender, hfrom, -, -, -, -, -, -, balances, hbal, -, -, -, -, -, -, -, -, -, -, less, -,
    debited, hdeb, rfl⟩ := h
  obtain ⟨s, rfl⟩ := ht.sender _ (PyDict.item_eq_ok.mp hfrom)
  exact stringAccounts_set state ((hs.item hbal).setItem hdeb)

/-- Writing a product back leaves the balances alone. -/
theorem stringAccounts_putProduct {productId product : Value} (hs : StringAccounts state)
    (h : putProduct state productId product = .ok new) : StringAccounts new := by
  simp only [putProduct, bind_eq_ok, pure_eq_ok] at h
  obtain ⟨_, -, products, -, rfl⟩ := h
  simpa [StringAccounts, balancesField, PyDict.get?_set_str] using hs

theorem StringAccounts.execute (hr : rt.Registered) (hs : StringAccounts state)
    (ht : StringNames tx) (h : rt.execute state tx = .ok new) : StringAccounts new := by
  obtain ⟨handler, hmem, hrun⟩ := hr.exists_handler h
  rcases hmem with hmem | hmem
  · simp only [ledgerHandlers, List.mem_cons, List.not_mem_nil, or_false] at hmem
    rcases hmem with rfl | rfl | rfl
    · exact keepsAccounts_handleTransfer rt.toInterp state tx new hs ht hrun
    · exact keepsAccounts_handleMint rt.toInterp state tx new hs ht hrun
    · exact keepsAccounts_handleBurn rt.toInterp state tx new hs ht hrun
  · obtain ⟨productId, product, hput⟩ := exists_putProduct rt.toInterp hmem hrun
    exact stringAccounts_putProduct hs hput

/-! ## Differences of balances -/

/-- `state.get("balances", {}).get(account, 0)`. -/
def balanceOrZero (state : State) (account : String) : Value :=
  (balanceOf state account).getD (.int 0)

/-- The rows are the accounts whose balance changed, each once, with both values. -/
structure ListsChanges (old new : State) (diff : List DiffEntry) : Prop where
  nodup : (diff.map DiffEntry.account).Nodup
  mem_iff : ∀ row, row ∈ diff ↔ ∃ account : String,
    (balanceOrZero old account).eq (balanceOrZero new account) = false ∧
      row = ⟨.str account, balanceOrZero old account, balanceOrZero new account⟩

theorem mem_distinctScalars_str {xs : List Scalar} {s : String} :
    .str s ∈ distinctScalars xs ↔ .str s ∈ xs := by
  refine ⟨mem_distinctScalars, fun h => ?_⟩
  suffices hacc : ∀ seen : List Scalar, Scalar.str s ∈ seen ∨ Scalar.str s ∈ xs →
      Scalar.str s ∈ xs.foldl (fun seen x =>
        if seen.any fun y => y.eq x then seen else seen ++ [x]) seen from hacc [] (.inr h)
  clear h
  induction xs with
  | nil => exact fun seen h => h.resolve_right List.not_mem_nil
  | cons x xs ih =>
    intro seen h
    rw [List.foldl_cons]
    refine ih _ ?_
    rcases h with h | h
    · left
      split
      · exact h
      · exact List.mem_append_left _ h
    · rcases List.mem_cons.mp h with rfl | h
      · left
        split
        · next hany => simpa using hany
        · exact List.mem_append_right _ List.mem_cons_self
      · exact .inr h

theorem nodup_distinctScalars {xs : List Scalar} (hxs : ∀ x ∈ xs, ∃ s, x = .str s) :
    (distinctScalars xs).Nodup := by
  suffices hacc : ∀ seen : List Scalar, seen.Nodup → (xs.foldl (fun seen x =>
      if seen.any fun y => y.eq x then seen else seen ++ [x]) seen).Nodup from
    hacc [] List.nodup_nil
  induction xs with
  | nil => exact fun seen h => h
  | cons x xs ih =>
    intro seen h
    rw [List.foldl_cons]
    refine ih (fun y hy => hxs y (List.mem_cons_of_mem x hy)) _ ?_
    obtain ⟨s, rfl⟩ := hxs x List.mem_cons_self
    split
    · exact h
    · next hany =>
      have hnew : Scalar.str s ∉ seen := by simpa using hany
      simpa using List.Nodup.concat hnew h

theorem computeDiff_listsChanges (ho : StringAccounts old) (hn : StringAccounts new)
    {diff : List DiffEntry} (h : computeDiff old new = .ok diff) : ListsChanges old new diff := by
  obtain ⟨es, hes, hekeys⟩ := ho
  obtain ⟨fs, hfs, hfkeys⟩ := hn
  have hreadOld : ∀ account, balanceOrZero old account =
      (PyDict.get? es (.str account)).getD (.int 0) := by
    intro account
    rw [balanceOrZero, balanceOf, balanceItems, hes]
  have hreadNew : ∀ account, balanceOrZero new account =
      (PyDict.get? fs (.str account)).getD (.int 0) := by
    intro account
    rw [balanceOrZero, balanceOf, balanceItems, hfs]
  have hstr := str_of_mem_keys hekeys hfkeys
  obtain ⟨accounts, hperm, hdiff⟩ := computeDiff_of_dict hes hfs hekeys hfkeys
  rw [hdiff] at h
  obtain rfl := Except.ok.inj h
  constructor
  · have haccounts : (accounts.map (diffRow es fs)).map DiffEntry.account = accounts := by
      rw [List.map_map]
      exact List.map_id accounts
    refine List.Nodup.sublist (List.filter_sublist.map _) ?_
    rw [haccounts]
    exact hperm.nodup_iff.mpr (nodup_distinctScalars hstr)
  · intro entry
    simp only [List.mem_filter, List.mem_map, Bool.not_eq_true', hreadOld, hreadNew]
    constructor
    · rintro ⟨⟨acc, hacc, rfl⟩, hne⟩
      obtain ⟨account, rfl⟩ := hstr acc (mem_distinctScalars (hperm.mem_iff.mp hacc))
      exact ⟨account, hne, rfl⟩
    · rintro ⟨account, hne, rfl⟩
      refine ⟨⟨.str account, hperm.mem_iff.mpr (mem_distinctScalars_str.mpr ?_), rfl⟩, hne⟩
      rw [List.mem_append]
      -- An account that neither state lists is read as zero in both.
      by_contra habsent
      rw [not_or] at habsent
      have hold : PyDict.get? es (.str account) = none :=
        Option.eq_none_iff_forall_ne_some.mpr fun v hv => habsent.1 (PyDict.mem_keys_of_get? hv)
      have hnew : PyDict.get? fs (.str account) = none :=
        Option.eq_none_iff_forall_ne_some.mpr fun v hv => habsent.2 (PyDict.mem_keys_of_get? hv)
      rw [hold, hnew] at hne
      cases hne

/-! ## Runs -/

namespace StateManager

/-- What is called on a manager. -/
inductive Call where
  | applyTransaction (tx : Transaction)
  | reset (newState : Option State)

/-- The manager after a call. -/
def step (rt : Runtime) (m : StateManager) : Call → StateManager
  | .applyTransaction tx => m.apply rt tx
  | .reset newState => m.reset newState

/-- The call returns, or it raises and the state is still there. -/
def Clean (rt : Runtime) (m : StateManager) : Call → Prop
  | .applyTransaction tx =>
    (m.applyTransaction rt tx).2.isOk = true ∨ (m.apply rt tx).state = m.state
  | .reset _ => True

instance (rt : Runtime) (m : StateManager) : DecidablePred (Clean rt m)
  | .applyTransaction tx => inferInstanceAs (Decidable
      ((m.applyTransaction rt tx).2.isOk = true ∨ (m.apply rt tx).state = m.state))
  | .reset _ => inferInstanceAs (Decidable True)

/-- The account names that the caller supplies are strings. -/
def Call.StringNames : Call → Prop
  | .applyTransaction tx => ECN.StringNames tx
  | .reset newState => ∀ state, newState = some state → StringAccounts state

/-- The state of the last reset, or the one at the start. -/
def startState (start : State) (calls : List Call) : State :=
  calls.foldl (fun start call => match call with
    | .applyTransaction _ => start
    | .reset newState => newState.getD [(.str "balances", .dict [])]) start

/-- The transactions that returned since the last reset, after those in `done`. -/
def successes (rt : Runtime) : StateManager → List Transaction → List Call → List Transaction
  | _, done, [] => done
  | m, done, .applyTransaction tx :: calls =>
    successes rt (m.apply rt tx)
      (if (m.applyTransaction rt tx).2.isOk then done ++ [tx] else done) calls
  | m, _, .reset newState :: calls => successes rt (m.reset newState) [] calls

/-- The entry describes the step between the two states. -/
structure Records (rt : Runtime) (useMerkle : Bool) (old : State) (entry : TraceEntry)
    (new : State) : Prop where
  executes : rt.execute old entry.tx = .ok new
  oldHash : stateHash rt useMerkle old = .ok entry.oldHash
  newHash : stateHash rt useMerkle new = .ok entry.newHash
  diff : ListsChanges old new entry.diff

theorem stringAccounts_empty : StringAccounts [(.str "balances", .dict [])] := ⟨[], rfl, by simp⟩

/-- A clean call changes nothing, or it appends one entry, which describes it. -/
theorem apply_records (hr : rt.Registered) {m : StateManager} (hm : StringAccounts m.state)
    (ht : ECN.StringNames tx) (hclean : Clean rt m (.applyTransaction tx)) :
    (m.apply rt tx = m ∧ (m.applyTransaction rt tx).2.isOk = false) ∨
    ∃ entry, Records rt m.useMerkle m.state entry (m.apply rt tx).state ∧ entry.tx = tx ∧
      (m.apply rt tx).trace = m.trace ++ [entry] ∧ StringAccounts (m.apply rt tx).state ∧
      (m.applyTransaction rt tx).2.isOk = true := by
  have hcases : (m.applyTransaction rt tx).2.isOk = true ∨
      (m.applyTransaction rt tx).1.state = m.state := hclean
  unfold apply
  rcases applyTransaction_cases rt m tx with
    ⟨e, happ, -⟩ | ⟨new, e, -, happ, -⟩ | ⟨new, oldHash, newHash, diff, happ, hold, hex, hsum⟩
  · rw [happ]
    exact .inl ⟨rfl, rfl⟩
  · rw [happ] at hcases ⊢
    rcases hcases with hok | hsame
    · cases hok
    · have hstate : new = m.state := hsame
      subst hstate
      exact .inl ⟨rfl, rfl⟩
  · have hnew : StringAccounts new := hm.execute hr ht hex
    simp only [summarize, bind_eq_ok, pure_eq_ok, Prod.mk.injEq] at hsum
    obtain ⟨_, hhash, _, hdiff, rfl, rfl⟩ := hsum
    rw [happ]
    exact .inr ⟨⟨tx, oldHash, _, _⟩,
      ⟨hex, hold, hhash, computeDiff_listsChanges hm hnew hdiff⟩, rfl, rfl, hnew, rfl⟩

/-- The trace of a run, when it continues a trace that is a trail of recorded steps. -/
theorem run_records (hr : rt.Registered) {m : StateManager} {start : State}
    {done : List Transaction} {calls : List Call} (hm : StringAccounts m.state)
    (htrail : Trail (Records rt m.useMerkle) start m.trace m.state)
    (htxs : m.trace.map TraceEntry.tx = done) (hnames : ∀ call ∈ calls, call.StringNames)
    (hclean : StepsMeet (step rt) (Clean rt) m calls) :
    let last := calls.foldl (step rt) m
    Trail (Records rt m.useMerkle) (startState start calls) last.trace last.state ∧
      last.trace.map TraceEntry.tx = successes rt m done calls ∧
      last.useMerkle = m.useMerkle := by
  induction calls generalizing m start done with
  | nil => exact ⟨htrail, htxs, rfl⟩
  | cons call calls ih =>
    obtain ⟨hcall, hrest⟩ := hclean
    have hnamesRest := fun c hc => hnames c (List.mem_cons_of_mem call hc)
    cases call with
    | applyTransaction tx =>
      have hmode : (m.apply rt tx).useMerkle = m.useMerkle := applyTransaction_useMerkle rt m tx
      have htx : ECN.StringNames tx := hnames _ List.mem_cons_self
      rcases apply_records hr hm htx hcall with
        ⟨hstay, hfail⟩ | ⟨entry, hentry, rfl, htrace, haccounts, hok⟩
      · have hsame : step rt m (.applyTransaction tx) = m := hstay
        rw [hsame] at hrest
        have hrun := ih hm htrail htxs hnamesRest hrest
        rw [List.foldl_cons, hsame, successes, hfail, hstay]
        exact hrun
      · have hnext : Trail (Records rt (m.apply rt entry.tx).useMerkle) start
            (m.apply rt entry.tx).trace (m.apply rt entry.tx).state := by
          rw [hmode, htrace]
          exact htrail.concat hentry
        have hdone : (m.apply rt entry.tx).trace.map TraceEntry.tx = done ++ [entry.tx] := by
          rw [htrace, List.map_append, htxs]
          rfl
        have hrun := ih haccounts hnext hdone hnamesRest hrest
        rw [hmode] at hrun
        rw [List.foldl_cons, successes, if_pos hok]
        exact hrun
    | reset newState =>
      have hstate : StringAccounts (m.reset newState).state := by
        cases newState with
        | none => exact stringAccounts_empty
        | some state => exact hnames _ List.mem_cons_self state rfl
      exact ih hstate rfl rfl hnamesRest hrest

/-- The trace is a faithful log. After any calls whose failures leave the state alone, it
has one entry for each success since the last reset; its hashes chain from the start state
to the current one; its transactions lead from the start state to the current one; and
each difference lists the balances that its step changed. -/
theorem trace_faithful (hr : rt.Registered) {initialState : Option State} {useMerkle : Bool}
    {calls : List Call} (hinit : ∀ state, initialState = some state → StringAccounts state)
    (hnames : ∀ call ∈ calls, call.StringNames)
    (hclean : StepsMeet (step rt) (Clean rt) (init initialState useMerkle) calls) :
    let first := init initialState useMerkle
    let start := startState first.state calls
    let m := calls.foldl (step rt) first
    m.trace.map TraceEntry.tx = successes rt first [] calls ∧
      (∀ entry rest, m.trace = entry :: rest →
        stateHash rt useMerkle start = .ok entry.oldHash) ∧
      (∀ past entry next rest, m.trace = past ++ entry :: next :: rest →
        entry.newHash = next.oldHash) ∧
      (∀ past entry, m.trace = past ++ [entry] → m.computeStateHash rt = .ok entry.newHash) ∧
      (m.trace.map TraceEntry.tx).foldlM rt.execute start = .ok m.state ∧
      ∀ past entry rest, m.trace = past ++ entry :: rest → ∃ old new,
        (past.map TraceEntry.tx).foldlM rt.execute start = .ok old ∧
        rt.execute old entry.tx = .ok new ∧ ListsChanges old new entry.diff := by
  intro first start m
  have hfirst : StringAccounts first.state := by
    cases initialState with
    | none => exact stringAccounts_empty
    | some state => exact hinit state rfl
  obtain ⟨htrail, htxs, hmode⟩ := run_records hr hfirst rfl rfl hnames hclean
  have hexecutes : ∀ {s e t}, Records rt useMerkle s e t → rt.execute s e.tx = .ok t :=
    fun h => h.executes
  refine ⟨htxs, ?_, ?_, ?_, htrail.replay hexecutes, ?_⟩
  · intro entry rest htrace
    rw [htrace] at htrail
    obtain ⟨new, hentry, -⟩ := htrail
    exact hentry.oldHash
  · intro past entry next rest htrace
    rw [htrace] at htrail
    obtain ⟨_, mid, -, hentry, _, hnext, -⟩ := htrail.split
    exact Except.ok.inj (hentry.newHash.symm.trans hnext.oldHash)
  · intro past entry htrace
    rw [htrace] at htrail
    obtain ⟨_, new, -, hentry, hlast⟩ := htrail.split
    have hstate : new = m.state := hlast
    subst hstate
    rw [computeStateHash, hmode]
    exact hentry.newHash
  · intro past entry rest htrace
    rw [htrace] at htrail
    obtain ⟨old, new, hpast, hentry, -⟩ := htrail.split
    exact ⟨old, new, hpast.replay hexecutes, hentry.executes, hentry.diff⟩

/-! ## A run with a failure and a reset -/

def pairCalls : List Call :=
  (pairRun.take 2).map .applyTransaction ++
    .reset (some pairManager.state) :: (pairRun.drop 2).map .applyTransaction

theorem stringNames_pairCalls : ∀ call ∈ pairCalls, call.StringNames := by
  simp only [pairCalls, List.mem_append, List.mem_cons, List.mem_map]
  rintro call (⟨tx, htx, rfl⟩ | rfl | ⟨tx, htx, rfl⟩)
  · exact (ledgerTx_pairRun tx (List.mem_of_mem_take htx)).toStringNames
  · rintro state ⟨⟩
    exact ⟨_, rfl, by simp⟩
  · exact (ledgerTx_pairRun tx (List.mem_of_mem_drop htx)).toStringNames

theorem pairCalls_replay :
    let rt := referenceRuntime false
    let m := pairCalls.foldl (step rt) (init none true)
    m.trace.length = 2 ∧
      (m.trace.map TraceEntry.tx).foldlM rt.execute pairManager.state = .ok m.state := by
  intro rt m
  have hr : rt.Registered := .inl rfl
  have hclean : StepsMeet (step rt) (Clean rt) (init none true) pairCalls := by decide +kernel
  have hlog := trace_faithful hr (by simp) stringNames_pairCalls hclean
  have hcount : (successes rt (init none true) [] pairCalls).length = 2 := by decide +kernel
  refine ⟨?_, hlog.2.2.2.2.1⟩
  rw [← hcount, ← hlog.1, List.length_map]

end StateManager

end ECN
