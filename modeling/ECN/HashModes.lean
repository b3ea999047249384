import ECN.FloatRepr
import ECN.JsonStates
import ECN.MerkleCommitment

/-!
# The two hash modes

The default hash commits to the whole state, the Merkle hash to the balances alone. States
that transactions reach are JSON with integer balances, so both commitments apply to them:
equal default hashes give equal Merkle hashes, and the modes agree on states that differ in
nothing but balances.
-/
namespace ECN

variable {rt : Runtime} {state state' new : State} {tx : Transaction}

/-! ## Integer balances -/

theorem IntDict.set {es : PyDict} (h : IntDict es) (account : String) (balance : ℤ) :
    IntDict (PyDict.set es (.str account) (.int balance)) where
  nodup := PyDict.nodup_keys_set h.nodup account _
  items := by
    refine PyDict.forall_set h.items ⟨account, balance, rfl⟩ fun e he _ => ?_
    obtain ⟨other, _, rfl⟩ := h.items e he
    exact ⟨other, balance, rfl⟩

theorem IntDict.get? {es : PyDict} (h : IntDict es) {k : Scalar} {v : Value}
    (hget : PyDict.get? es k = some v) : ∃ n, v = .int n := by
  obtain ⟨e, he, rfl⟩ := PyDict.get?_mem hget
  obtain ⟨account, balance, rfl⟩ := h.items e he
  exact ⟨balance, rfl⟩

theorem IntDict.item {es : PyDict} (h : IntDict es) {account : String} {v : Value}
    (hitem : (Value.dict es).item (.str account) = .ok v) : ∃ n, v = .int n :=
  h.get? (PyDict.item_eq_ok.mp hitem)

theorem IntBalances.item (hs : IntBalances state) {v : Value}
    (h : PyDict.item state (.str "balances") = .ok v) : ∃ es, v = .dict es ∧ IntDict es := by
  obtain ⟨es, hes, hint⟩ := hs
  unfold balancesField at hes
  rw [PyDict.item_eq_ok.mp h] at hes
  exact ⟨es, hes, hint⟩

theorem intBalances_set {es : PyDict} (state : State) (h : IntDict es) :
    IntBalances (PyDict.set state (.str "balances") (.dict es)) :=
  ⟨es, by simp [balancesField, PyDict.get?_set_str], h⟩

/-- Writing an integer under an account name. -/
theorem IntDict.setItem {es : PyDict} (h : IntDict es) {account : String} {n : ℤ} {v : Value}
    (hset : (Value.dict es).setItem (.str account) (.int n) = .ok v) :
    ∃ fs, v = .dict fs ∧ IntDict fs :=
  ⟨_, (Except.ok.inj hset).symm, h.set account n⟩

theorem intBalances_handleTransfer (hs : IntBalances state) (ht : StringNames tx)
    (h : handleTransfer rt.toInterp state tx = .ok new) : IntBalances new := by
  simp only [handleTransfer, bind_eq_ok, pure_eq_ok] at h
  obtain ⟨sender, hfrom, receiver, hto, -, -, amount, -, -, -, balances, hbal, -, -, -, -, -, -,
    -, -, held, hheld, -, -, -, -, less, hless, debited, hdeb, now, hnow, more, hmore, credited,
    hcred, rfl⟩ := h
  obtain ⟨s, rfl⟩ := ht.sender _ (PyDict.item_eq_ok.mp hfrom)
  obtain ⟨r, rfl⟩ := ht.receiver _ (PyDict.item_eq_ok.mp hto)
  obtain ⟨es, rfl, hint⟩ := hs.item hbal
  obtain ⟨k, rfl⟩ := hint.item hheld
  obtain rfl := Except.ok.inj hless
  obtain ⟨fs, rfl, hint'⟩ := hint.setItem hdeb
  obtain ⟨l, rfl⟩ := hint'.item hnow
  obtain rfl := Except.ok.inj hmore
  obtain ⟨gs, rfl, hint''⟩ := hint'.setItem hcred
  exact intBalances_set state hint''

theorem intBalances_handleMint (hs : IntBalances state) (ht : StringNames tx)
    (h : handleMint rt.toInterp state tx = .ok new) : IntBalances new := by
  simp only [handleMint, bind_eq_ok, pure_eq_ok] at h
  obtain ⟨receiver, hto, -, -, amount, -, -, -, balances, hbal, held, hheld, more, hmore,
    credited, hcred, rfl⟩ := h
  obtain ⟨r, rfl⟩ := ht.receiver _ (PyDict.item_eq_ok.mp hto)
  obtain ⟨es, rfl, hint⟩ := hs.item hbal
  have hheldInt : ∃ k, held = .int k := by
    obtain rfl := Except.ok.inj hheld
    cases hget : PyDict.get? es (.str r) with
    | none => exact ⟨0, rfl⟩
    | some v => exact hint.get? hget
  obtain ⟨k, rfl⟩ := hheldInt
  obtain rfl := Except.ok.inj hmore
  obtain ⟨fs, rfl, hint'⟩ := hint.setItem hcred
  exact intBalances_set state hint'

theorem intBalances_handleBurn (hs : IntBalances state) (ht : StringNames tx)
    (h : handleBurn rt.toInterp state tx = .ok new) : IntBalances new := by
  simp only [handleBurn, bind_eq_ok, pure_eq_ok] at h
  obtain ⟨sender, hfrom, -, -, amount, -, -, -, balances, hbal, -, -, -, -, held, hheld, -, -, -, -,
    less, hless, debited, hdeb, rfl⟩ := h
  obtain ⟨s, rfl⟩ := ht.sender _ (PyDict.item_eq_ok.mp hfrom)
  obtain ⟨es, rfl, hint⟩ := hs.item hbal
  obtain ⟨k, rfl⟩ := hint.item hheld
  obtain rfl := Except.ok.inj hless
  obtain ⟨fs, rfl, hint'⟩ := hint.setItem hdeb
  exact intBalances_set state hint'

/-- Writing a product back leaves the balances alone. -/
theorem intBalances_putProduct {productId product : Value} (hs : IntBalances state)
    (h : putProduct state productId product = .ok new) : IntBalances new := by
  simp only [putProduct, bind_eq_ok, pure_eq_ok] at h
  obtain ⟨_, -, products, -, rfl⟩ := h
  simpa [IntBalances, balancesField, PyDict.get?_set_str] using hs

theorem IntBalances.execute (hr : rt.Registered) (hs : IntBalances state) (ht : StringNames tx)
    (h : rt.execute state tx = .ok new) : IntBalances new := by
  obtain ⟨handler, hmem, hrun⟩ := hr.exists_handler h
  rcases hmem with hmem | hmem
  · simp only [ledgerHandlers, List.mem_cons, List.not_mem_nil, or_false] at hmem
    rcases hmem with rfl | rfl | rfl
    · exact intBalances_handleTransfer hs ht hrun
    · exact intBalances_handleMint hs ht hrun
    · exact intBalances_handleBurn hs ht hrun
  · obtain ⟨productId, product, hput⟩ := exists_putProduct rt.toInterp hmem hrun
    exact intBalances_putProduct hs hput

/-! ## Reached states -/

/-- A JSON object in which balances, if any, are integers. -/
structure JsonState (state : State) : Prop where
  json : IsJsonTree (.dict state)
  balances : IntBalances state

theorem JsonState.apply (hr : rt.Registered) {m : StateManager} (hm : JsonState m.state)
    (ht : JsonTx tx) : JsonState (m.apply rt tx).state := by
  have hexecute : ∀ new, rt.execute m.state tx = .ok new → JsonState new :=
    fun new h => ⟨hm.json.execute hr ht h, hm.balances.execute hr ht.toStringNames h⟩
  unfold StateManager.apply
  rcases StateManager.applyTransaction_cases rt m tx with
    ⟨e, happ, -⟩ | ⟨new, e, _, happ, -, hex, -⟩ | ⟨new, _, _, diff, happ, -, hex, -⟩
  · rw [happ]
    exact hm
  · rw [happ]
    exact hexecute new hex
  · rw [happ]
    exact hexecute new hex

/-- What any sequence of transactions reaches. -/
theorem JsonState.run (hr : rt.Registered) {m : StateManager} {txs : List Transaction}
    (hm : JsonState m.state) (ht : ∀ tx ∈ txs, JsonTx tx) :
    JsonState (txs.foldl (StateManager.apply rt) m).state := by
  induction txs generalizing m with
  | nil => exact hm
  | cons tx txs ih =>
    rw [List.forall_mem_cons] at ht
    exact ih (hm.apply hr ht.1) ht.2

/-! ## Same states and same balances -/

/-- The states without their balances are the same, and both or neither have the field. -/
structure SameElsewhere (state state' : State) : Prop where
  same : (Value.dict (PyDict.pop state (.str "balances"))).same
    (.dict (PyDict.pop state' (.str "balances"))) = true
  field : (PyDict.get? state (.str "balances")).isSome =
    (PyDict.get? state' (.str "balances")).isSome

theorem same_int_iff {n : ℤ} {v : Value} : (Value.int n).same v = true ↔ v = .int n := by
  cases v with
  | scalar s => simp [Value.same, eq_comm]
  | list vs => simp [Value.same]
  | dict es => simp [Value.same]

/-- Integer dictionaries are the same when their lookups are. -/
theorem IntDict.same_iff {es fs : PyDict} (hes : IntDict es) (hfs : IntDict fs) :
    (Value.dict es).same (.dict fs) = true ↔
      ∀ account : String, PyDict.get? es (.str account) = PyDict.get? fs (.str account) := by
  rw [← hes.perm_iff hfs, Value.same_dict_iff]
  constructor
  · rintro ⟨hlength, hitems⟩
    have hsub : es ⊆ fs := by
      intro e he
      obtain ⟨w, hget, hsame⟩ := hitems e he
      obtain ⟨account, balance, rfl⟩ := hes.items e he
      obtain rfl := same_int_iff.mp hsame
      exact (PyDict.get?_str_eq_some_iff hfs.nodup).mp hget
    exact (List.subperm_of_subset hes.nodup.of_map hsub).perm_of_length_le hlength.ge
  · intro hperm
    refine ⟨hperm.length_eq, fun e he => ?_⟩
    obtain ⟨account, balance, rfl⟩ := hes.items e he
    exact ⟨.int balance, (PyDict.get?_str_eq_some_iff hfs.nodup).mpr (hperm.mem_iff.mp he),
      same_int_iff.mpr rfl⟩

/-- The balances of a state with the field. -/
theorem IntBalances.get? (hs : IntBalances state) {v : Value}
    (h : PyDict.get? state (.str "balances") = some v) :
    ∃ es, v = .dict es ∧ IntDict es ∧
      ∀ account, balanceOf state account = PyDict.get? es (.str account) := by
  obtain ⟨es, rfl, hint⟩ := hs.item (PyDict.item_eq_ok.mpr h)
  exact ⟨es, rfl, hint, balanceOf_of_dict (by simp [balancesField, h])⟩

theorem balanceOf_of_none (h : PyDict.get? state (.str "balances") = none) (account : String) :
    balanceOf state account = none := by
  have hempty : balancesField state = .dict [] := by simp [balancesField, h]
  rw [balanceOf_of_dict hempty]
  rfl

theorem same_symm (hs : IsJsonTree (.dict state)) (hs' : IsJsonTree (.dict state'))
    (h : (Value.dict state).same (.dict state') = true) :
    (Value.dict state').same (.dict state) = true := by
  have hword : WordTexts printingInterp Scalar.isAtom := wordTexts_isAtom reprReads_printingInterp
  have htext : (Value.dict state).text printingInterp = (Value.dict state').text printingInterp :=
    (text_eq_iff_same hword hs hs').mpr h
  exact (text_eq_iff_same hword hs' hs).mp htext.symm

/-- The same states have the same balances. -/
theorem balanceOf_eq_of_same (hs : JsonState state) (hs' : JsonState state')
    (h : (Value.dict state).same (.dict state') = true) (account : String) :
    balanceOf state account = balanceOf state' account := by
  have hfield : ∀ {s t : State}, JsonState s → JsonState t →
      (Value.dict s).same (.dict t) = true →
        ∀ v, PyDict.get? s (.str "balances") = some v →
          balanceOf s account = balanceOf t account := by
    intro s t hs ht hst v hget
    obtain ⟨es, rfl, hes, hread⟩ := hs.balances.get? hget
    obtain ⟨w, hw, hsame⟩ := (Value.same_dict_iff.mp hst).2 _
      ((PyDict.get?_str_eq_some_iff hs.json.nodup_keys).mp hget)
    obtain ⟨fs, rfl, hfs, hread'⟩ := ht.balances.get? hw
    rw [hread, hread', (hes.same_iff hfs).mp hsame]
  cases hget : PyDict.get? state (.str "balances") with
  | some v => exact hfield hs hs' h v hget
  | none =>
    cases hget' : PyDict.get? state' (.str "balances") with
    | some v => exact (hfield hs' hs (same_symm hs.json hs'.json h) v hget').symm
    | none => rw [balanceOf_of_none hget, balanceOf_of_none hget']

theorem length_pop (es : PyDict) (k : Scalar) : (PyDict.pop es k).length +
    (if (PyDict.get? es k).isSome then 1 else 0) = es.length := by
  rw [PyDict.pop, List.length_eraseP, PyDict.get?, Option.isSome_map]
  by_cases h : (es.any fun e => e.1.eq k) = true
  · have hpos : 0 < es.length := by
      obtain ⟨e, he, -⟩ := List.any_eq_true.mp h
      exact List.length_pos_of_mem he
    have hfind : (es.find? fun e => e.1.eq k).isSome = true := by rwa [List.isSome_find?]
    rw [if_pos h, if_pos hfind]
    omega
  · have hfind : ¬ (es.find? fun e => e.1.eq k).isSome = true := by rwa [List.isSome_find?]
    rw [if_neg h, if_neg hfind]
    omega

/-- States with the same balances that agree elsewhere are the same. -/
theorem same_of_balances (hs : JsonState state) (hs' : JsonState state')
    (hbalances : ∀ account, balanceOf state account = balanceOf state' account)
    (helse : SameElsewhere state state') : (Value.dict state).same (.dict state') = true := by
  obtain ⟨hlength, hitems⟩ := Value.same_dict_iff.mp helse.same
  rw [Value.same_dict_iff]
  constructor
  · have hpop := length_pop state (.str "balances")
    have hpop' := length_pop state' (.str "balances")
    rw [helse.field] at hpop
    omega
  · intro e he
    obtain ⟨s, hkey⟩ := hs.json.str_keys e he
    by_cases hname : s = "balances"
    · have hget : PyDict.get? state (.str "balances") = some e.2 :=
        (PyDict.get?_str_eq_some_iff hs.json.nodup_keys).mpr (hname ▸ hkey ▸ he)
      obtain ⟨v, hget'⟩ : ∃ v, PyDict.get? state' (.str "balances") = some v := by
        rw [← Option.isSome_iff_exists, ← helse.field, hget]
        rfl
      obtain ⟨es, hes, hint, hread⟩ := hs.balances.get? hget
      obtain ⟨fs, rfl, hint', hread'⟩ := hs'.balances.get? hget'
      rw [hkey, hname, hes]
      refine ⟨_, hget', (hint.same_iff hint').mpr fun account => ?_⟩
      rw [← hread, ← hread', hbalances]
    · have hkept : e ∈ PyDict.pop state (.str "balances") :=
        (List.mem_eraseP_of_neg (by simpa [hkey] using hname)).mpr he
      obtain ⟨w, hget, hsame⟩ := hitems e hkept
      refine ⟨w, ?_, hsame⟩
      have hnodup := (hs'.json.pop (.str "balances")).nodup_keys
      rw [hkey] at hget ⊢
      have hmem := (PyDict.get?_str_eq_some_iff hnodup).mp hget
      exact (PyDict.get?_str_eq_some_iff hs'.json.nodup_keys).mpr (List.mem_of_mem_eraseP hmem)

/-- The modes of the state hash: over any runs from JSON states with integer balances, the
Merkle hashes of the states reached agree exactly when the balances do, equal default hashes
give equal Merkle hashes, and on states that agree outside their balances the modes tell the
same states apart. -/
theorem stateHash_modes (hpy : rt.toInterp.ReprReads) (hr : rt.Registered) (m m' : StateManager)
    (txs txs' : List Transaction) (hm : JsonState m.state) (hm' : JsonState m'.state)
    (ht : ∀ tx ∈ txs, JsonTx tx) (ht' : ∀ tx ∈ txs', JsonTx tx) :
    let state := (txs.foldl (StateManager.apply rt) m).state
    let state' := (txs'.foldl (StateManager.apply rt) m').state
    CollisionFree rt state state' → MerkleCollisionFree rt state state' →
      (stateHash rt true state = stateHash rt true state' ↔
        ∀ account, balanceOf state account = balanceOf state' account) ∧
      (stateHash rt false state = stateHash rt false state' →
        stateHash rt true state = stateHash rt true state') ∧
      (SameElsewhere state state' → (stateHash rt true state = stateHash rt true state' ↔
        stateHash rt false state = stateHash rt false state')) := by
  intro state state' hfree hmerkle
  have hs : JsonState state := hm.run hr ht
  have hs' : JsonState state' := hm'.run hr ht'
  have hbalances : stateHash rt true state = stateHash rt true state' ↔
      ∀ account, balanceOf state account = balanceOf state' account :=
    ⟨balanceOf_eq_of_merkleHash_eq hs.balances hs'.balances hmerkle,
      merkleHash_congr hs.balances hs'.balances⟩
  have hdefault := stateHash_eq_iff_same (wordTexts_isAtom hpy) hs.json hs'.json hfree
  have hdown : stateHash rt false state = stateHash rt false state' →
      stateHash rt true state = stateHash rt true state' :=
    fun h => hbalances.mpr (balanceOf_eq_of_same hs hs' (hdefault.mp h))
  refine ⟨hbalances, hdown, fun helse => ⟨fun h => ?_, hdown⟩⟩
  exact hdefault.mpr (same_of_balances hs hs' (hbalances.mp h) helse)

/-! ## Reached states, with and without balances -/

theorem jsonState_accountsState {accounts : List (String × ℤ)}
    (h : (accounts.map Prod.fst).Nodup) : JsonState (accountsState accounts) := by
  have hbalances := intBalances_accountsState h
  obtain ⟨es, hes, hint⟩ := hbalances
  obtain rfl := Value.dict.inj hes
  refine ⟨.dict (by simp [accountsState]) (by simp [accountsState]) ?_, ⟨_, hes, hint⟩⟩
  simp only [accountsState, List.mem_singleton, forall_eq]
  refine .dict hint.nodup (fun e he => ?_) fun e he => ?_
  · obtain ⟨account, balance, rfl⟩ := hint.items e he
    exact ⟨account, rfl⟩
  · obtain ⟨account, balance, rfl⟩ := hint.items e he
    exact .word rfl

theorem jsonState_makeInitialState (productIds : List String) :
    JsonState (makeInitialState productIds) := by
  have hproduct : IsJsonTree (.dict [(.str "status", .str "manufactured"),
      (.str "location", .str "factory"), (.str "owner", .str "manufacturer"),
      (.str "checks", .list [])]) := by
    refine .dict (by decide) (by simp) ?_
    simp only [List.mem_cons, List.not_mem_nil, or_false, forall_eq_or_imp, forall_eq]
    exact ⟨.str _, .str _, .str _, .list (by simp)⟩
  have hfold : ∀ es : PyDict, IsJsonTree (.dict es) → IsJsonTree (.dict (productIds.foldl
      (fun d pid => PyDict.set d (.str pid) (.dict [(.str "status", .str "manufactured"),
        (.str "location", .str "factory"), (.str "owner", .str "manufacturer"),
        (.str "checks", .list [])])) es)) := by
    induction productIds with
    | nil => exact fun es h => h
    | cons pid pids ih => exact fun es h => ih _ (h.set pid hproduct)
  refine ⟨.dict (by simp [makeInitialState]) (by simp [makeInitialState]) ?_,
    [], rfl, by simp, by simp⟩
  simp only [makeInitialState, List.mem_singleton, forall_eq]
  exact hfold [] (.dict (by simp) (by simp) (by simp))

/-- A mint reaches the state that another manager starts from, in both modes. -/
theorem stateHash_modes_mint :
    let rt := printingRuntime
    let minted := (StateManager.init (some (accountsState [("A", 1)])) true).apply rt
      [(.str "type", .str "mint"), (.str "to", .str "A"), (.str "amount", .int 1)]
    stateHash rt true minted.state = stateHash rt true (accountsState [("A", 2)]) ∧
      stateHash rt false minted.state = stateHash rt false (accountsState [("A", 2)]) := by
  intro rt minted
  have hr : rt.Registered := .inl rfl
  have hstart : JsonState (accountsState [("A", 1)]) := jsonState_accountsState (by decide)
  have hother : JsonState (accountsState [("A", 2)]) := jsonState_accountsState (by decide)
  have htx : ∀ tx ∈ ([[(.str "type", .str "mint"), (.str "to", .str "A"),
      (.str "amount", .int 1)]] : List Transaction), JsonTx tx := by
    simp only [List.mem_singleton, forall_eq]
    refine ⟨⟨fun v hv => ?_, fun v hv => ?_⟩, ?_⟩
    · cases hv
    · exact ⟨"A", (Option.some_inj.mp hv).symm⟩
    · simp only [List.mem_cons, List.not_mem_nil, or_false, forall_eq_or_imp, forall_eq]
      exact ⟨.str _, .str _, .word rfl⟩
  have hminted : minted.state = accountsState [("A", 2)] := by decide +kernel
  have hsorted : sortedBalances (accountsState [("A", 2)]) = .ok [(.str "A", .int 2)] := by decide
  have hsorted' : sortedBalances minted.state = .ok [(.str "A", .int 2)] := hminted ▸ hsorted
  have hfree : CollisionFree rt minted.state (accountsState [("A", 2)]) := by
    intro text text' h h' _
    rw [hminted, h'] at h
    rw [Except.ok.inj h]
  have hmerkle : MerkleCollisionFree rt minted.state (accountsState [("A", 2)]) :=
    merkleCollisionFree_of_sorted hsorted' hsorted (by decide +kernel)
  obtain ⟨hbalances, -, hmodes⟩ := stateHash_modes reprReads_printingRuntime hr
    (.init (some (accountsState [("A", 1)])) true) (.init (some (accountsState [("A", 2)])) true)
    _ [] hstart hother htx (by simp) hfree hmerkle
  have hroot := hbalances.mpr fun account => by rw [← hminted]; rfl
  exact ⟨hroot, (hmodes ⟨by decide +kernel, by decide +kernel⟩).mp hroot⟩

/-- A shipment does not show in the Merkle hash. -/
theorem merkleHash_ignores_products :
    let rt := referenceRuntime true
    let tx : Transaction := [(.str "type", .str "ship"), (.str "product_id", .str "P1"),
      (.str "destination", .str "port"), (.str "shipper", .str "S")]
    let m := StateManager.init (some (makeInitialState ["P1"])) false
    let shipped := m.apply rt tx
    JsonState m.state ∧ JsonTx tx ∧ CollisionFree rt m.state shipped.state ∧
      MerkleCollisionFree rt m.state shipped.state ∧
      stateHash rt true m.state = stateHash rt true shipped.state ∧
      stateHash rt false m.state ≠ stateHash rt false shipped.state := by
  intro rt tx m shipped
  have hm : JsonState m.state := jsonState_makeInitialState ["P1"]
  have htx : JsonTx tx := by
    refine ⟨⟨fun v hv => ?_, fun v hv => ?_⟩, ?_⟩
    · cases hv
    · cases hv
    · simp only [tx, List.mem_cons, List.not_mem_nil, or_false, forall_eq_or_imp, forall_eq]
      exact ⟨.str _, .str _, .str _, .str _⟩
  have hne : stateHash rt false m.state ≠ stateHash rt false shipped.state := by decide +kernel
  refine ⟨hm, htx, ?_, ?_, by decide +kernel, hne⟩
  · intro text text' h h' hsha
    refine absurd ?_ hne
    simp [stateHash, h, h', hexDigest, hsha, bind, Except.bind]
  · have hsorted : sortedBalances m.state = .ok [] := by decide
    have hsorted' : sortedBalances shipped.state = .ok [] := by decide +kernel
    exact merkleCollisionFree_of_sorted hsorted hsorted' (by decide +kernel)

end ECN
