import ECN.ComparableKeys
import ECN.Trace

/-!
# States that can be hashed

A state has a hash in the default mode when it prints, and in the Merkle mode when its
account names compare. What each handler writes, as far as these two are concerned.
-/
namespace ECN

variable {rt : Runtime} {state new : State} {tx : Transaction} {es fs : PyDict}

/-! ## Accounts -/

/-- The balances of the state, when there are any, form a dictionary. -/
def HasAccounts (state : State) : Prop := ∃ es, balancesField state = .dict es

theorem StringAccounts.hasAccounts (hs : StringAccounts state) : HasAccounts state := by
  obtain ⟨es, hes, -⟩ := hs
  exact ⟨es, hes⟩

theorem WellShaped.hasAccounts (hs : WellShaped state) : HasAccounts state := by
  obtain ⟨es, hes, -⟩ := hs.balances_getD
  exact ⟨es, hes⟩

theorem balancesField_of_get? {v : Value} (h : PyDict.get? state (.str "balances") = some v) :
    balancesField state = v := by
  rw [balancesField, h, Option.getD_some]

/-- Balances that can be read are a dictionary. -/
theorem HasAccounts.item {v : Value} (hs : HasAccounts state)
    (h : PyDict.item state (.str "balances") = .ok v) :
    ∃ es, v = .dict es ∧ PyDict.get? state (.str "balances") = some (.dict es) := by
  have hget := PyDict.item_eq_ok.mp h
  obtain ⟨es, hes⟩ := hs
  rw [balancesField_of_get? hget] at hes
  exact ⟨es, hes, hes ▸ hget⟩

theorem balancesField_set (state : State) (v : Value) :
    balancesField (PyDict.set state (.str "balances") v) = v := by
  rw [balancesField, PyDict.get?_set_str, if_pos rfl, Option.getD_some]

/-! ## What is hashed and compared -/

theorem merkleHash_ok_iff (hes : balancesField state = .dict es) :
    (∃ h, merkleHash rt state = .ok h) ↔ (es.map Prod.fst).Pairwise Scalar.Comparable := by
  have hsort : pySorted Scalar.lt (es.map Prod.fst) =
      (pySorted (fun a b : Scalar × Value => a.1.lt b.1) es).map (List.map Prod.fst) :=
    pySorted_map Prod.fst (fun _ _ => rfl) es
  rw [← Scalar.pySorted_ok_iff_pairwise, hsort]
  unfold balancesField at hes
  simp only [merkleHash, hes, dictItems, bind_eq_ok, pure_eq_ok]
  constructor
  · rintro ⟨h, _, ⟨⟩, sorted, hsorted, -⟩
    exact ⟨sorted.map Prod.fst, by rw [hsorted]; rfl⟩
  · rintro ⟨zs, hzs⟩
    cases hsorted : pySorted (fun a b : Scalar × Value => a.1.lt b.1) es with
    | error e =>
      rw [hsorted] at hzs
      cases hzs
    | ok sorted => exact ⟨_, es, rfl, sorted, hsorted, rfl⟩

theorem stateHash_default_ok_iff :
    (∃ h, stateHash rt false state = .ok h) ↔ (Value.dict state).Prints rt.toInterp := by
  simp only [stateHash, Bool.false_eq_true, if_false, bind_eq_ok, pure_eq_ok, Value.Prints]
  constructor
  · rintro ⟨h, text, htext, -⟩
    exact ⟨text, htext⟩
  · rintro ⟨text, htext⟩
    exact ⟨_, text, htext, rfl⟩

/-- The account names of a state that can be hashed compare. -/
theorem comparable_of_hash (hes : balancesField state = .dict es) {useMerkle : Bool}
    (h : ∃ hash, stateHash rt useMerkle state = .ok hash) :
    (es.map Prod.fst).Pairwise Scalar.Comparable := by
  cases useMerkle with
  | true => exact (merkleHash_ok_iff hes).mp h
  | false =>
    have hprints := stateHash_default_ok_iff.mp h
    cases hget : PyDict.get? state (.str "balances") with
    | none =>
      rw [balancesField, hget] at hes
      cases hes
      exact .nil
    | some v =>
      rw [balancesField_of_get? hget] at hes
      subst hes
      exact (Value.prints_dict_iff.mp (hprints.get? hget)).2

/-- No two accounts that are compared are equal. -/
theorem pairwise_distinctScalars (xs : List Scalar) :
    (distinctScalars xs).Pairwise fun a b => a.eq b = false := by
  suffices h : ∀ seen : List Scalar, (seen.Pairwise fun a b => a.eq b = false) →
      (xs.foldl (fun seen x =>
        if seen.any fun y => y.eq x then seen else seen ++ [x]) seen).Pairwise
          fun a b => a.eq b = false from h [] .nil
  induction xs with
  | nil => exact fun seen h => h
  | cons x xs ih =>
    intro seen h
    rw [List.foldl_cons]
    refine ih _ ?_
    split
    · exact h
    · next hnew =>
      refine List.pairwise_append.mpr ⟨h, List.pairwise_singleton _ x, fun a ha b hb => ?_⟩
      rw [List.mem_singleton.mp hb]
      simpa using fun heq => hnew (List.any_eq_true.mpr ⟨a, ha, heq⟩)

/-- States can be compared when the new one has all accounts and their names compare. -/
theorem computeDiff_ok_of_comparable {old : State} (hes : balancesField old = .dict es)
    (hfs : balancesField new = .dict fs) (hsub : es.map Prod.fst ⊆ fs.map Prod.fst)
    (hnames : (fs.map Prod.fst).Pairwise Scalar.Comparable) :
    ∃ diff, computeDiff old new = .ok diff := by
  have hall : ∀ a ∈ distinctScalars (es.map Prod.fst ++ fs.map Prod.fst), a ∈ fs.map Prod.fst := by
    intro a ha
    rcases List.mem_append.mp (mem_distinctScalars ha) with ha | ha
    · exact hsub ha
    · exact ha
  have hpairs : (distinctScalars (es.map Prod.fst ++ fs.map Prod.fst)).Pairwise
      Scalar.Comparable := by
    refine (pairwise_distinctScalars _).imp_of_mem fun {a b} ha hb hne => ?_
    by_cases hab : a = b
    · subst hab
      exact Scalar.comparable_self hne
    · exact hnames.forall (hall a ha) (hall b hb) hab
  obtain ⟨accounts, haccounts⟩ := (Scalar.pySorted_ok_iff_pairwise _).mpr hpairs
  have hrows : accounts.mapM (fun acc => (pure (diffRow es fs acc) : Except Exc DiffEntry)) =
      .ok (accounts.map (diffRow es fs)) := List.mapM_pure
  unfold balancesField at hes hfs
  refine ⟨(accounts.map (diffRow es fs)).filter fun row => !row.oldValue.eq row.newValue, ?_⟩
  simp only [computeDiff, hes, hfs, setElements, bind_eq_ok, pure_eq_ok]
  exact ⟨_, rfl, _, rfl, _, haccounts, _, hrows, rfl⟩

/-! ## Ledger transactions -/

theorem addInt_prints {py : Interp} {v w : Value} {n : ℤ} (h : v.addInt n = .ok w) :
    w.Prints py :=
  Value.prints_of_stringKeyed (addInt_stringKeyed h)

/-- The dictionary after writes under keys that are there. -/
structure Rewritten (py : Interp) (es fs : PyDict) : Prop where
  keys : fs.map Prod.fst = es.map Prod.fst
  values : (∀ e ∈ es, e.2.Prints py) → ∀ e ∈ fs, e.2.Prints py

theorem Rewritten.trans {py : Interp} {gs : PyDict} (h : Rewritten py es fs)
    (h' : Rewritten py fs gs) : Rewritten py es gs :=
  ⟨h'.keys.trans h.keys, fun hes => h'.values (h.values hes)⟩

theorem rewritten_setItem {py : Interp} {x v w c : Value} (hitem : (Value.dict es).item x = .ok w)
    (hv : v.Prints py) (h : (Value.dict es).setItem x v = .ok c) :
    ∃ fs, c = .dict fs ∧ Rewritten py es fs := by
  obtain ⟨k, hk, hget⟩ := bind_eq_ok.mp hitem
  obtain ⟨k', hk', hset⟩ := bind_eq_ok.mp h
  cases hk.symm.trans hk'
  have hsome : (PyDict.get? es k).isSome = true := by
    rw [PyDict.item_eq_ok.mp hget, Option.isSome_some]
  exact ⟨PyDict.set es k v, (pure_eq_ok.mp hset).symm, PyDict.keys_set_of_isSome hsome v,
    fun hes => PyDict.forall_set hes hv fun _ _ _ => hv⟩

/-- The new state of a transaction that opens no account. -/
def RewritesAccounts (py : Interp) (state new : State) : Prop :=
  ∃ es fs, PyDict.get? state (.str "balances") = some (.dict es) ∧
    new = PyDict.set state (.str "balances") (.dict fs) ∧ Rewritten py es fs

variable {py : Interp}

theorem rewrites_handleTransfer (hs : HasAccounts state)
    (h : handleTransfer py state tx = .ok new) : RewritesAccounts py state new := by
  simp only [handleTransfer, bind_eq_ok, pure_eq_ok] at h
  obtain ⟨sender, -, receiver, -, -, -, amount, -, -, -, balances, hbal, -, -, -, -, -, -, -, -,
    held, hheld, -, -, -, -, less, hless, debited, hdeb, now, hnow, more, hmore, credited, hcred,
    rfl⟩ := h
  obtain ⟨es, rfl, hget⟩ := hs.item hbal
  obtain ⟨fs, rfl, hfs⟩ := rewritten_setItem hheld (addInt_prints hless) hdeb
  obtain ⟨gs, rfl, hgs⟩ := rewritten_setItem hnow (addInt_prints hmore) hcred
  exact ⟨es, gs, hget, rfl, hfs.trans hgs⟩

theorem rewrites_handleBurn (hs : HasAccounts state)
    (h : handleBurn py state tx = .ok new) : RewritesAccounts py state new := by
  simp only [handleBurn, bind_eq_ok, pure_eq_ok] at h
  obtain ⟨sender, -, -, -, amount, -, -, -, balances, hbal, -, -, -, -, held, hheld, -, -, -, -,
    less, hless, debited, hdeb, rfl⟩ := h
  obtain ⟨es, rfl, hget⟩ := hs.item hbal
  obtain ⟨fs, rfl, hfs⟩ := rewritten_setItem hheld (addInt_prints hless) hdeb
  exact ⟨es, fs, hget, rfl, hfs⟩

/-- A mint of a positive amount to an account that may be new. -/
structure MintsTo (py : Interp) (state : State) (tx : Transaction) (es : PyDict) (k : Scalar) :
    Prop where
  receiver : PyDict.get? tx (.str "to") = some (.scalar k)
  amount : ∃ v n, PyDict.get? tx (.str "amount") = some v ∧ v.toInt py = .ok n ∧ 0 < n
  balances : PyDict.get? state (.str "balances") = some (.dict es)

/-- A mint writes under its recipient. -/
theorem writes_handleMint (hs : HasAccounts state) (h : handleMint py state tx = .ok new) :
    ∃ es k v, MintsTo py state tx es k ∧ v.Prints py ∧
      new = PyDict.set state (.str "balances") (.dict (PyDict.set es k v)) := by
  simp only [handleMint, bind_eq_ok, pure_eq_ok, raiseIf_eq_ok, decide_eq_false_iff_not,
    not_le] at h
  obtain ⟨receiver, hto, amount, hamount, n, hn, -, hpos, balances, hbal, held, hheld, more, hmore,
    credited, hcred, rfl⟩ := h
  obtain ⟨es, rfl, hget⟩ := hs.item hbal
  obtain ⟨k, hk, hset⟩ := bind_eq_ok.mp hcred
  obtain rfl := pure_eq_ok.mp hset
  cases receiver with
  | scalar a =>
    cases hk
    exact ⟨es, k, more, ⟨PyDict.item_eq_ok.mp hto,
      ⟨amount, n, PyDict.item_eq_ok.mp hamount, hn, hpos⟩, hget⟩, addInt_prints hmore, rfl⟩
  | list vs => cases hk
  | dict ds => cases hk

/-- A mint to a new account is accepted. -/
theorem MintsTo.handleMint {k : Scalar} (h : MintsTo py state tx es k)
    (hnew : PyDict.get? es k = none) : ∃ v, ECN.handleMint py state tx =
      .ok (PyDict.set state (.str "balances") (.dict (PyDict.set es k v))) := by
  obtain ⟨v, n, hamount, hn, hpos⟩ := h.amount
  refine ⟨.int (0 + n), ?_⟩
  simp only [ECN.handleMint, bind_eq_ok, pure_eq_ok, raiseIf_eq_ok, decide_eq_false_iff_not, not_le]
  exact ⟨_, PyDict.item_eq_ok.mpr h.receiver, v, PyDict.item_eq_ok.mpr hamount, n, hn, (), hpos, _,
    PyDict.item_eq_ok.mpr h.balances, .int 0, by simp [Value.getOr, Value.asKey, hnew, bind,
      Except.bind, pure, Except.pure], _, rfl, _, rfl, rfl⟩

/-! ## Supply-chain transactions -/

section Products

variable {productId product old : Value}

theorem balancesField_putProduct (h : putProduct state productId product = .ok new) :
    balancesField new = balancesField state := by
  simp only [putProduct, bind_eq_ok, pure_eq_ok] at h
  obtain ⟨_, -, products, -, rfl⟩ := h
  simp [balancesField, PyDict.get?_set_str]

theorem prints_getProduct (hs : (Value.dict state).Prints py)
    (h : getProduct py state productId = .ok product) : product.Prints py := by
  obtain ⟨products, hget, hitem⟩ := getProduct_item py h
  exact (hs.get? hget).item hitem

theorem prints_putProduct (hs : (Value.dict state).Prints py)
    (hold : getProduct py state productId = .ok old) (hp : product.Prints py)
    (h : putProduct state productId product = .ok new) : (Value.dict new).Prints py := by
  obtain ⟨products, hget, hitem⟩ := getProduct_item py hold
  simp only [putProduct, bind_eq_ok, pure_eq_ok, PyDict.item_eq_ok, hget] at h
  obtain ⟨_, ⟨⟩, products', hset, rfl⟩ := h
  exact hs.set (by rw [hget, Option.isSome_some]) ((hs.get? hget).setItem hp hitem hset)

/-- A field of a request that was read from the wire. -/
theorem prints_field {field : String} {v : Value} (ht : (Value.dict tx).stringKeyed = true)
    (h : PyDict.item tx (.str field) = .ok v) : v.Prints py :=
  Value.prints_of_stringKeyed (PyDict.stringKeyed_item ht h)

theorem prints_str (s : String) : (Value.str s).Prints py := Value.prints_of_stringKeyed rfl

theorem prints_handleShip (hs : (Value.dict state).Prints py)
    (ht : (Value.dict tx).stringKeyed = true) (h : handleShip py state tx = .ok new) :
    (Value.dict new).Prints py := by
  simp only [handleShip, bind_eq_ok, raiseIf_eq_ok] at h
  obtain ⟨productId, -, destination, hdest, shipper, hshipper, product, hproduct, status, hstatus,
    -, -, p1, h1, p2, h2, p3, h3, hput⟩ := h
  have hrecord := (prints_getProduct hs hproduct).isRecord hstatus
  have hshipped := ((hrecord.setItem (prints_str _) h1).setItem (prints_field ht hdest) h2).setItem
    (prints_field ht hshipper) h3
  exact prints_putProduct hs hproduct hshipped.1 hput

theorem prints_handleReceive (hs : (Value.dict state).Prints py)
    (ht : (Value.dict tx).stringKeyed = true) (h : handleReceive py state tx = .ok new) :
    (Value.dict new).Prints py := by
  simp only [handleReceive, bind_eq_ok, raiseIf_eq_ok] at h
  obtain ⟨productId, -, receiver, hrecv, product, hproduct, status, hstatus, -, -, p1, h1, p2, h2,
    hput⟩ := h
  have hrecord := (prints_getProduct hs hproduct).isRecord hstatus
  have hreceived := (hrecord.setItem (prints_str _) h1).setItem (prints_field ht hrecv) h2
  exact prints_putProduct hs hproduct hreceived.1 hput

theorem prints_handleQuarantine (hs : (Value.dict state).Prints py)
    (ht : (Value.dict tx).stringKeyed = true) (h : handleQuarantine py state tx = .ok new) :
    (Value.dict new).Prints py := by
  simp only [handleQuarantine, bind_eq_ok, raiseIf_eq_ok] at h
  obtain ⟨productId, -, reason, hreason, product, hproduct, status, hstatus, -, -, p1, h1, p2, h2,
    hput⟩ := h
  have hrecord := (prints_getProduct hs hproduct).isRecord hstatus
  have hheld := (hrecord.setItem (prints_str _) h1).setItem (prints_field ht hreason) h2
  exact prints_putProduct hs hproduct hheld.1 hput

theorem prints_handleRelease (hs : (Value.dict state).Prints py)
    (h : handleRelease py state tx = .ok new) : (Value.dict new).Prints py := by
  simp only [handleRelease, bind_eq_ok, raiseIf_eq_ok] at h
  obtain ⟨productId, -, product, hproduct, status, hstatus, -, -, p1, h1, p2, h2, hput⟩ := h
  have hrecord := ((prints_getProduct hs hproduct).isRecord hstatus).setItem (prints_str _) h1
  obtain ⟨es, rfl, -⟩ := hrecord.2
  obtain rfl := Except.ok.inj h2
  exact prints_putProduct hs hproduct (hrecord.pop _) hput

theorem prints_recordCheck {checks checkName checks' : Value} (hc : checks.Prints py)
    (hn : checkName.Prints py) (h : recordCheck checks checkName = .ok checks') :
    checks'.Prints py := by
  simp only [recordCheck, bind_eq_ok] at h
  obtain ⟨present, -, h⟩ := h
  split at h
  · rwa [← pure_eq_ok.mp h]
  · cases checks with
    | scalar s => cases h
    | dict es => cases h
    | list vs =>
      simp only [bind_eq_ok, pure_eq_ok] at h
      obtain ⟨ws, hws, rfl⟩ := h
      refine Value.prints_list_iff.mpr fun w hw => ?_
      rcases List.mem_append.mp ((pySorted_perm hws).mem_iff.mp hw) with hw | hw
      · exact Value.prints_list_iff.mp hc w hw
      · rwa [List.mem_singleton.mp hw]

/-- An inspection of a product that has no checks yet. -/
structure InspectsFirst (py : Interp) (state : State) (tx : Transaction) (es : PyDict) : Prop where
  product : ∃ productId, PyDict.get? tx (.str "product_id") = some productId ∧
    getProduct py state productId = .ok (.dict es)
  checkName : (PyDict.get? tx (.str "check_name")).isSome = true
  checks : PyDict.get? es (.str "checks") = none

theorem prints_handleInspect (hs : (Value.dict state).Prints py)
    (ht : (Value.dict tx).stringKeyed = true)
    (hfirst : ∀ es, InspectsFirst py state tx es → ∀ e ∈ es, ∃ t, e.1 = .str t)
    (h : handleInspect py state tx = .ok new) : (Value.dict new).Prints py := by
  simp only [handleInspect, bind_eq_ok] at h
  obtain ⟨productId, hid, checkName, hname, product, hproduct, checks, hchecks, checks', hrec,
    product', hset, hput⟩ := h
  have hprints := prints_getProduct hs hproduct
  cases product with
  | scalar s => cases hchecks
  | list vs => cases hchecks
  | dict es =>
    obtain rfl := Except.ok.inj hchecks
    obtain rfl := Except.ok.inj hset
    refine prints_putProduct hs hproduct ?_ hput
    cases hget : PyDict.get? es (.str "checks") with
    | some c =>
      rw [hget, Option.getD_some] at hrec
      have hnow := prints_recordCheck (hprints.get? hget) (prints_field ht hname) hrec
      exact hprints.set (by rw [hget, Option.isSome_some]) hnow
    | none =>
      rw [hget, Option.getD_none] at hrec
      have hnow : checks'.Prints py :=
        prints_recordCheck (Value.prints_of_stringKeyed rfl) (prints_field ht hname) hrec
      refine hprints.set_str (hfirst es ⟨⟨productId, PyDict.item_eq_ok.mp hid, hproduct⟩, ?_, hget⟩)
        hnow
      rw [PyDict.item_eq_ok.mp hname, Option.isSome_some]

/-- A first inspection is accepted, and the state prints only if the product's keys are
strings. -/
theorem InspectsFirst.handleInspect (h : InspectsFirst py state tx es)
    (hs : (Value.dict state).Prints py) (ht : (Value.dict tx).stringKeyed = true) :
    ∃ new, ECN.handleInspect py state tx = .ok new ∧
      ((Value.dict new).Prints py → ∀ e ∈ es, ∃ t, e.1 = .str t) := by
  obtain ⟨productId, hid, hproduct⟩ := h.product
  obtain ⟨checkName, hname⟩ := Option.isSome_iff_exists.mp h.checkName
  obtain ⟨products, hget, hitem⟩ := getProduct_item py hproduct
  obtain ⟨products', hset⟩ := Value.setItem_of_item hitem
    (.dict (PyDict.set es (.str "checks") (.list [checkName])))
  refine ⟨PyDict.set state (.str "products") products', ?_, fun hnew => ?_⟩
  · simp only [ECN.handleInspect, putProduct, bind_eq_ok, pure_eq_ok]
    refine ⟨_, PyDict.item_eq_ok.mpr hid, _, PyDict.item_eq_ok.mpr hname, _, hproduct, .list [],
      ?_, .list [checkName], rfl, _, rfl, products, PyDict.item_eq_ok.mpr hget, _, hset, rfl⟩
    simp [Value.getOr, Value.asKey, h.checks, bind, Except.bind, pure, Except.pure]
  · have hproducts : products'.Prints py := hnew.get? (by rw [PyDict.get?_set_str, if_pos rfl])
    have hrecord := hproducts.item (Value.item_setItem hitem hset)
    have hchecks : (Value.list [checkName]).Prints py :=
      Value.prints_list_iff.mpr fun v hv => by
        rw [List.mem_singleton.mp hv]
        exact prints_field ht (PyDict.item_eq_ok.mpr hname)
    intro e he
    exact Scalar.comparable_str.mp ((Value.prints_set_new_iff (prints_getProduct hs hproduct)
      h.checks hchecks).mp hrecord e he)

end Products

end ECN
