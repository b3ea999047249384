import ECN.Gauges
import ECN.HashableStates

/-!
# What a transaction writes

A transfer or a mint writes the credited balance, a mint also the name of a new account,
and a supply-chain transaction writes some of its own fields into a product. Whatever
measure the old state passes, the new state passes it exactly when these values do; a
debit only makes a balance smaller.
-/
namespace ECN

variable {rt : Runtime} {py : Interp} {state new : State} {tx : Transaction} {es fs : PyDict}

/-! ## The values -/

/-- The balance of an account once the amount is added to it. -/
def creditedBalance (py : Interp) (tx : Transaction) (es : PyDict) (k : Scalar) : Option Value := do
  let amount ← PyDict.get? tx (.str "amount")
  let n ← (amount.toInt py).toOption
  (((PyDict.get? es k).getD (.int 0)).addInt n).toOption

/-- Whether the product has the check already, and the check. -/
def checkRecorded (py : Interp) (state : State) (tx : Transaction) : Except Exc (Bool × Value) := do
  let productId ← PyDict.item tx (.str "product_id")
  let checkName ← PyDict.item tx (.str "check_name")
  let product ← getProduct py state productId
  let checks ← product.getOr (.str "checks") (.list [])
  return (← checks.contains checkName, checkName)

/-- What an accepted transaction puts into the state, each value with the number of
containers around it. -/
def writes (py : Interp) (state : State) (tx : Transaction) : List (ℕ × Value) :=
  let balance (v : Value) := (2, v)
  let field (name : String) := (PyDict.get? tx (.str name)).toList.map fun v => (3, v)
  match PyDict.get? tx (.str "type") with
  | some (.str "transfer") =>
    match PyDict.get? tx (.str "from"), PyDict.get? tx (.str "to"),
      PyDict.get? state (.str "balances") with
    | some (.scalar j), some (.scalar k), some (.dict es) =>
      if j.eq k then [] else (creditedBalance py tx es k).toList.map balance
    | _, _, _ => []
  | some (.str "mint") =>
    match PyDict.get? tx (.str "to"), PyDict.get? state (.str "balances") with
    | some (.scalar k), some (.dict es) =>
      (if (PyDict.get? es k).isSome then [] else [balance (.scalar k)]) ++
        (creditedBalance py tx es k).toList.map balance
    | _, _ => []
  | some (.str "ship") => field "destination" ++ field "shipper"
  | some (.str "receive") => field "receiver"
  | some (.str "inspect") =>
    match checkRecorded py state tx with
    | .ok (false, checkName) => [(3, .list [checkName])]
    | _ => []
  | some (.str "quarantine") => field "reason"
  | _ => []

/-! ## Equal keys -/

theorem ExtRat.eq_iff {x y : ExtRat} : x.eq y = true ↔ x = y ∧ x ≠ .nan := by
  cases x <;> cases y <;> simp [ExtRat.eq]

theorem Scalar.eq_iff {a b : Scalar} : a.eq b = true ↔
    (a.num = b.num ∧ a.num ≠ some .nan) ∧ (a.num = Option.none → a = b) := by
  unfold Scalar.eq
  cases ha : a.num with
  | none =>
    cases hb : b.num with
    | none => simp
    | some y => simp
  | some x =>
    cases hb : b.num with
    | none => simp
    | some y => simp [ExtRat.eq_iff]

theorem Scalar.eq_symm {a b : Scalar} (h : a.eq b = true) : b.eq a = true := by
  rw [Scalar.eq_iff] at h ⊢
  obtain ⟨⟨hnum, hnan⟩, hself⟩ := h
  rw [← hnum]
  exact ⟨⟨rfl, hnan⟩, fun hnone => (hself hnone).symm⟩

theorem Scalar.eq_trans {a b c : Scalar} (h : a.eq b = true) (h' : b.eq c = true) :
    a.eq c = true := by
  rw [Scalar.eq_iff] at h h' ⊢
  obtain ⟨⟨hnum, hnan⟩, hself⟩ := h
  obtain ⟨⟨hnum', -⟩, hself'⟩ := h'
  exact ⟨⟨hnum.trans hnum', hnan⟩, fun hnone => (hself hnone).trans (hself' (hnum ▸ hnone))⟩

/-- Equal keys find the same entry. -/
theorem PyDict.get?_congr {j k : Scalar} (h : j.eq k = true) (d : PyDict) :
    d.get? j = d.get? k := by
  have hkeys : (fun e : Scalar × Value => e.1.eq j) = fun e => e.1.eq k := by
    funext e
    rw [Bool.eq_iff_iff]
    exact ⟨fun he => Scalar.eq_trans he h, fun he => Scalar.eq_trans he (Scalar.eq_symm h)⟩
  rw [PyDict.get?, hkeys, PyDict.get?]

/-- A write under another key does not change an entry. -/
theorem PyDict.get?_set_of_ne {j k : Scalar} (h : j.eq k = false) (d : PyDict) (v : Value) :
    (d.set j v).get? k = d.get? k := by
  have hother {e : Scalar × Value} (he : e.1.eq j = true) : e.1.eq k = false := by
    by_contra hk
    rw [Scalar.eq_trans (Scalar.eq_symm he) (Bool.eq_true_of_not_eq_false hk)] at h
    cases h
  induction d with
  | nil => simp [PyDict.set, PyDict.get?, h]
  | cons e es ih =>
    unfold PyDict.get? at ih ⊢
    by_cases he : e.1.eq j = true
    · simp [PyDict.set, he, hother he]
    · cases hk : e.1.eq k with
      | true => simp [PyDict.set, he, hk]
      | false => simpa [PyDict.set, he, hk] using ih

/-! ## Balances -/

/-- A debit keeps the property, and so does a credit of what was debited. -/
def KeptByDebit (P : Value → Prop) : Prop :=
  ∀ {held less : Value} {n : ℤ}, 0 < n → held.ltInt n = .ok false → held.addInt (-n) = .ok less →
    P held → P less ∧ ∀ back, less.addInt n = .ok back → P back

/-- What a debit of an integer balance leaves. -/
theorem debit_cases {held less : Value} {n : ℤ} (hpos : 0 < n) (hfunds : held.ltInt n = .ok false)
    (hless : held.addInt (-n) = .ok less) :
    (∃ x y, held = .scalar (.float x) ∧ less = .scalar (.float y)) ∨
    (held = .bool true ∧ less = .int 0 ∧ n = 1) ∨
    ∃ h, n ≤ h ∧ held = .int h ∧ less = .int (h - n) := by
  cases held with
  | list vs => cases hless
  | dict es => cases hless
  | scalar s =>
    cases s with
    | none => cases hless
    | str s => cases hless
    | float x =>
      obtain ⟨t, ht, hpure⟩ := bind_eq_ok.mp hless
      obtain ⟨y, -, hy⟩ := bind_eq_ok.mp ht
      obtain rfl := pure_eq_ok.mp hy
      exact .inl ⟨x, y, rfl, (pure_eq_ok.mp hpure).symm⟩
    | int h =>
      have hle : n ≤ h := by
        rw [show (Value.scalar (.int h)).ltInt n = .ok (decide ((h : ℚ) < n)) from rfl,
          Except.ok.injEq, decide_eq_false_iff_not, not_lt] at hfunds
        exact_mod_cast hfunds
      refine .inr (.inr ⟨h, hle, rfl, ?_⟩)
      rw [show (Value.scalar (.int h)).addInt (-n) = .ok (.int (h + -n)) from rfl] at hless
      rw [← Except.ok.inj hless, sub_eq_add_neg]
    | bool b =>
      rw [show (Value.scalar (.bool b)).ltInt n =
        .ok (decide (((if b then 1 else 0 : ℚ)) < n)) from rfl, Except.ok.injEq,
        decide_eq_false_iff_not, not_lt] at hfunds
      rw [show (Value.scalar (.bool b)).addInt (-n) =
        .ok (.int ((if b then 1 else 0) + -n)) from rfl] at hless
      cases b with
      | false =>
        have hle : (n : ℚ) ≤ 0 := by simpa using hfunds
        have hle' : n ≤ 0 := by exact_mod_cast hle
        omega
      | true =>
        have hle : (n : ℚ) ≤ 1 := by simpa using hfunds
        have hle' : n ≤ 1 := by exact_mod_cast hle
        obtain rfl : n = 1 := by omega
        exact .inr (.inl ⟨rfl, (Except.ok.inj hless).symm, rfl⟩)

/-- A property of scalars that small integers, floats and smaller integers have is kept. -/
theorem keptByDebit_of {P : Value → Prop}
    (hle : ∀ {a b : ℤ}, a.natAbs ≤ b.natAbs → P (.int b) → P (.int a))
    (hbool : ∀ {b : Bool} {a : ℤ}, a.natAbs ≤ 1 → P (.bool b) → P (.int a))
    (hfloat : ∀ {x y : PyFloat}, P (.scalar (.float x)) → P (.scalar (.float y))) :
    KeptByDebit P := by
  intro held less n hpos hfunds hless hheld
  rcases debit_cases hpos hfunds hless with
    ⟨x, y, rfl, rfl⟩ | ⟨rfl, rfl, rfl⟩ | ⟨h, hn, rfl, rfl⟩
  · refine ⟨hfloat hheld, fun back hback => ?_⟩
    obtain ⟨t, ht, hpure⟩ := bind_eq_ok.mp hback
    obtain ⟨z, -, hz⟩ := bind_eq_ok.mp ht
    obtain rfl := pure_eq_ok.mp hz
    rw [← pure_eq_ok.mp hpure]
    exact hfloat hheld
  · refine ⟨hbool (by decide) hheld, fun back hback => ?_⟩
    rw [← Except.ok.inj hback]
    exact hbool (by decide) hheld
  · refine ⟨hle (by omega) hheld, fun back hback => ?_⟩
    rw [← Except.ok.inj hback, sub_add_cancel]
    exact hheld

theorem keptByDebit_fits (g : Gauge) (n : ℕ) : KeptByDebit (Value.Fits g n) := by
  refine keptByDebit_of (fun hab hb => ?_) (fun ha hb => ?_) fun hx => ?_
  · obtain ⟨hallows, hleaf⟩ := Value.fits_scalar_iff.mp hb
    exact Value.fits_scalar_iff.mpr ⟨Gauge.allows_of_natAbs_le hab hallows, hleaf⟩
  · exact Value.fits_scalar_iff.mpr ⟨Gauge.allows_bit ha, hb.leaf_le⟩
  · exact Value.fits_scalar_iff.mpr ⟨rfl, hx.leaf_le⟩

/-- How a ledger transaction rewrites the balances, as far as a property of their entries
is concerned. -/
structure WritesBalances (py : Interp) (state : State) (tx : Transaction) (new : State)
    (es fs : PyDict) : Prop where
  old : PyDict.get? state (.str "balances") = some (.dict es)
  replaced : new = PyDict.set state (.str "balances") (.dict fs)
  level : ∀ p ∈ writes py state tx, p.1 = 2
  entries : ∀ {P : Value → Prop}, KeptByDebit P → Entries P es →
    (Entries P fs ↔ ∀ p ∈ writes py state tx, P p.2)

/-- What is read from and written to a dictionary has one key. -/
theorem entry_of_setItem {x held v written : Value} (hitem : (Value.dict es).item x = .ok held)
    (hset : (Value.dict es).setItem x v = .ok written) :
    ∃ k, x = .scalar k ∧ PyDict.get? es k = some held ∧ written = .dict (PyDict.set es k v) := by
  obtain ⟨k, hk, hset⟩ := bind_eq_ok.mp hset
  obtain ⟨k', hk', hitem⟩ := bind_eq_ok.mp hitem
  cases hk.symm.trans hk'
  refine ⟨k, ?_, PyDict.item_eq_ok.mp hitem, (pure_eq_ok.mp hset).symm⟩
  cases x with
  | scalar s => rw [← Except.ok.inj hk]
  | list vs => cases hk
  | dict ds => cases hk

/-- A write under a key that is there keeps a property when the value has it. -/
theorem entries_overwrite_iff {P : Value → Prop} {k : Scalar} {held v : Value}
    (hes : Entries P es) (hget : PyDict.get? es k = some held) :
    Entries P (PyDict.set es k v) ↔ P v := by
  rw [entries_set_iff hes, hget]
  exact ⟨fun h => h.2, fun hv => ⟨nofun, hv⟩⟩

theorem entries_get? {P : Value → Prop} {k : Scalar} {held : Value} (hes : Entries P es)
    (hget : PyDict.get? es k = some held) : P held := by
  obtain ⟨e, he, rfl⟩ := PyDict.get?_mem hget
  exact (hes e he).2

theorem creditedBalance_eq {k : Scalar} {amount held more : Value} {n : ℤ}
    (hamount : PyDict.item tx (.str "amount") = .ok amount) (hn : amount.toInt py = .ok n)
    (hheld : (PyDict.get? es k).getD (.int 0) = held) (hmore : held.addInt n = .ok more) :
    creditedBalance py tx es k = some more := by
  simp [creditedBalance, PyDict.item_eq_ok.mp hamount, hn, hheld, hmore, Except.toOption]

theorem writesBalances_handleTransfer (hs : HasAccounts state)
    (htype : PyDict.get? tx (.str "type") = some (.str "transfer"))
    (h : handleTransfer py state tx = .ok new) :
    ∃ es fs, WritesBalances py state tx new es fs := by
  simp only [handleTransfer, bind_eq_ok, pure_eq_ok, raiseIf_eq_ok, decide_eq_false_iff_not,
    not_le, Bool.not_eq_false'] at h
  obtain ⟨sender, hfrom, receiver, hto, amount, hamount, n, hn, -, hpos, balances, hbal, -, -, -, -,
    -, -, -, -, held, hheld, short, hshort, -, rfl, less, hless, debited, hdeb, now, hnow, more,
    hmore, credited, hcred, rfl⟩ := h
  obtain ⟨es, rfl, hget⟩ := hs.item hbal
  obtain ⟨j, rfl, hj, rfl⟩ := entry_of_setItem hheld hdeb
  obtain ⟨k, rfl, hk, rfl⟩ := entry_of_setItem hnow hcred
  have hwrites : writes py state tx =
      if j.eq k then [] else (creditedBalance py tx es k).toList.map fun v => (2, v) := by
    simp only [writes, htype, PyDict.item_eq_ok.mp hfrom, PyDict.item_eq_ok.mp hto, hget]
  refine ⟨es, _, hget, rfl, ?_, fun {P} hP hes => ?_⟩
  · rw [hwrites]
    split
    · simp
    · simp
  · obtain ⟨hdebit, hback⟩ := hP hpos hshort hless (entries_get? hes hj)
    have hmid : Entries P (PyDict.set es j less) := (entries_overwrite_iff hes hj).mpr hdebit
    rw [entries_overwrite_iff hmid hk, hwrites]
    cases hjk : j.eq k with
    | true =>
      -- The account pays itself: the credit restores what was debited.
      rw [← PyDict.get?_congr hjk, PyDict.get?_set_of_isSome (by rw [hj, Option.isSome_some])] at hk
      obtain rfl := Option.some_inj.mp hk
      exact iff_of_true (hback more hmore) (by simp)
    | false =>
      rw [PyDict.get?_set_of_ne hjk] at hk
      rw [creditedBalance_eq hamount hn (by rw [hk, Option.getD_some]) hmore]
      simp

theorem writesBalances_handleMint (hs : HasAccounts state)
    (htype : PyDict.get? tx (.str "type") = some (.str "mint"))
    (h : handleMint py state tx = .ok new) : ∃ es fs, WritesBalances py state tx new es fs := by
  simp only [handleMint, bind_eq_ok, pure_eq_ok, raiseIf_eq_ok] at h
  obtain ⟨receiver, hto, amount, hamount, n, hn, -, -, balances, hbal, held, hheld, more, hmore,
    credited, hcred, rfl⟩ := h
  obtain ⟨es, rfl, hget⟩ := hs.item hbal
  obtain ⟨k, hk, hset⟩ := bind_eq_ok.mp hcred
  obtain rfl := pure_eq_ok.mp hset
  cases receiver with
  | list vs => cases hk
  | dict ds => cases hk
  | scalar s =>
    cases hk
    have hcredited : creditedBalance py tx es k = some more :=
      creditedBalance_eq hamount hn (Except.ok.inj hheld) hmore
    have hwrites : writes py state tx =
        (if (PyDict.get? es k).isSome then [] else [(2, .scalar k)]) ++ [(2, more)] := by
      simp only [writes, htype, PyDict.item_eq_ok.mp hto, hget, hcredited, Option.toList_some,
        List.map_singleton]
    refine ⟨es, _, hget, rfl, ?_, fun {P} hP hes => ?_⟩
    · rw [hwrites]
      split
      · simp
      · simp
    · rw [entries_set_iff hes, hwrites]
      cases hold : PyDict.get? es k with
      | none => simp
      | some w => simp

theorem writesBalances_handleBurn (hs : HasAccounts state)
    (htype : PyDict.get? tx (.str "type") = some (.str "burn"))
    (h : handleBurn py state tx = .ok new) : ∃ es fs, WritesBalances py state tx new es fs := by
  simp only [handleBurn, bind_eq_ok, pure_eq_ok, raiseIf_eq_ok, decide_eq_false_iff_not,
    not_le] at h
  obtain ⟨sender, hfrom, amount, hamount, n, hn, -, hpos, balances, hbal, -, -, -, -, held, hheld,
    short, hshort, -, rfl, less, hless, debited, hdeb, rfl⟩ := h
  obtain ⟨es, rfl, hget⟩ := hs.item hbal
  obtain ⟨j, rfl, hj, rfl⟩ := entry_of_setItem hheld hdeb
  have hwrites : writes py state tx = [] := by simp [writes, htype]
  refine ⟨es, _, hget, rfl, by simp [hwrites], fun {P} hP hes => ?_⟩
  rw [entries_overwrite_iff hes hj, hwrites]
  exact iff_of_true (hP hpos hshort hless (entries_get? hes hj)).1 (by simp)

/-! ## Products -/

/-- How a supply-chain transaction rewrites a product, as far as a gauge is concerned. -/
structure WritesProduct (py : Interp) (state : State) (tx : Transaction) (new : State) : Prop where
  balances : balancesField new = balancesField state
  level : ∀ p ∈ writes py state tx, p.1 = 3
  fits : ∀ {g : Gauge} {n : ℕ}, (Value.dict state).Fits g n →
    ((Value.dict new).Fits g n ↔ ∀ p ∈ writes py state tx, p.2.Fits g (n - 3 * g.node))

section Handlers

variable {g : Gauge} {n : ℕ}

theorem level_product (g : Gauge) (n : ℕ) :
    n - g.node - g.node - g.node = n - 3 * g.node := by omega

theorem writesProduct_handleShip (htype : PyDict.get? tx (.str "type") = some (.str "ship"))
    (h : handleShip py state tx = .ok new) : WritesProduct py state tx new := by
  simp only [handleShip, bind_eq_ok, raiseIf_eq_ok] at h
  obtain ⟨productId, -, destination, hdest, shipper, hshipper, product, hproduct, status, hstatus,
    -, -, p1, h1, p2, h2, p3, h3, hput⟩ := h
  have hwrites : writes py state tx = [(3, destination), (3, shipper)] := by
    simp [writes, htype, PyDict.item_eq_ok.mp hdest, PyDict.item_eq_ok.mp hshipper]
  refine ⟨balancesField_putProduct hput, by simp [hwrites], fun {g n} hs => ?_⟩
  have hp := fits_getProduct hs hproduct
  have hleaf := (hp.item hstatus).leaf_le
  have hp1 := (Value.fits_setItem_str_iff hp h1).mpr (Value.fits_str hleaf)
  rw [fits_putProduct_iff hs hproduct hput,
    Value.fits_setItem_twice_iff (by decide) hp1 h2 h3, level_product, hwrites]
  simp

theorem writesProduct_handleReceive (htype : PyDict.get? tx (.str "type") = some (.str "receive"))
    (h : handleReceive py state tx = .ok new) : WritesProduct py state tx new := by
  simp only [handleReceive, bind_eq_ok, raiseIf_eq_ok] at h
  obtain ⟨productId, -, receiver, hrecv, product, hproduct, status, hstatus, -, -, p1, h1, p2, h2,
    hput⟩ := h
  have hwrites : writes py state tx = [(3, receiver)] := by
    simp [writes, htype, PyDict.item_eq_ok.mp hrecv]
  refine ⟨balancesField_putProduct hput, by simp [hwrites], fun {g n} hs => ?_⟩
  have hp := fits_getProduct hs hproduct
  have hleaf := (hp.item hstatus).leaf_le
  have hp1 := (Value.fits_setItem_str_iff hp h1).mpr (Value.fits_str hleaf)
  rw [fits_putProduct_iff hs hproduct hput, Value.fits_setItem_str_iff hp1 h2, level_product,
    hwrites]
  simp

theorem writesProduct_handleQuarantine
    (htype : PyDict.get? tx (.str "type") = some (.str "quarantine"))
    (h : handleQuarantine py state tx = .ok new) : WritesProduct py state tx new := by
  simp only [handleQuarantine, bind_eq_ok, raiseIf_eq_ok] at h
  obtain ⟨productId, -, reason, hreason, product, hproduct, status, hstatus, -, -, p1, h1, p2, h2,
    hput⟩ := h
  have hwrites : writes py state tx = [(3, reason)] := by
    simp [writes, htype, PyDict.item_eq_ok.mp hreason]
  refine ⟨balancesField_putProduct hput, by simp [hwrites], fun {g n} hs => ?_⟩
  have hp := fits_getProduct hs hproduct
  have hleaf := (hp.item hstatus).leaf_le
  have hp1 := (Value.fits_setItem_str_iff hp h1).mpr (Value.fits_str hleaf)
  rw [fits_putProduct_iff hs hproduct hput, Value.fits_setItem_str_iff hp1 h2, level_product,
    hwrites]
  simp

theorem writesProduct_handleRelease (htype : PyDict.get? tx (.str "type") = some (.str "release"))
    (h : handleRelease py state tx = .ok new) : WritesProduct py state tx new := by
  simp only [handleRelease, bind_eq_ok, raiseIf_eq_ok] at h
  obtain ⟨productId, -, product, hproduct, status, hstatus, -, -, p1, h1, p2, h2, hput⟩ := h
  have hwrites : writes py state tx = [] := by simp [writes, htype]
  refine ⟨balancesField_putProduct hput, by simp [hwrites], fun {g n} hs => ?_⟩
  have hp := fits_getProduct hs hproduct
  have hleaf := (hp.item hstatus).leaf_le
  have hp1 := (Value.fits_setItem_str_iff hp h1).mpr (Value.fits_str hleaf)
  rw [fits_putProduct_iff hs hproduct hput, hwrites]
  refine iff_of_true ?_ (by simp)
  cases p1 with
  | scalar s => cases h2
  | list vs => cases h2
  | dict es =>
    obtain rfl := Except.ok.inj h2
    have hes := Value.fits_dict_iff.mp hp1
    exact Value.fits_dict_iff.mpr ⟨hes.1, fun e he => hes.2 e (List.mem_of_mem_eraseP he)⟩

/-- The check list after an inspection, against what the inspection adds. -/
theorem fits_recordCheck_iff {checks checkName checks' : Value} {present : Bool}
    (hpresent : checks.contains checkName = .ok present)
    (h : recordCheck checks checkName = .ok checks')
    (hc : checks.Fits g n ∨ checks = .list []) :
    checks'.Fits g n ↔
      if present then checks.Fits g n else (Value.list [checkName]).Fits g n := by
  simp only [recordCheck, hpresent, bind, Except.bind] at h
  cases present with
  | true => rw [← Except.ok.inj h, if_pos rfl]
  | false =>
    cases checks with
    | scalar s => cases h
    | dict es => cases h
    | list vs =>
      obtain ⟨ws, hws, hlist⟩ := bind_eq_ok.mp h
      obtain rfl := pure_eq_ok.mp hlist
      have hmem (w : Value) : w ∈ ws ↔ w ∈ vs ∨ w = checkName := by
        rw [(pySorted_perm hws).mem_iff]
        simp
      have hvs : ∀ v ∈ vs, g.node ≤ n → v.Fits g (n - g.node) := by
        intro v hv _
        rcases hc with hc | hc
        · exact (Value.fits_list_iff.mp hc).2 v hv
        · cases hc
          cases hv
      simp only [Bool.false_eq_true, if_false, Value.fits_list_iff, hmem, List.mem_singleton,
        forall_eq]
      refine and_congr_right fun hroom => ⟨fun hall => hall checkName (.inr rfl), ?_⟩
      rintro hname w (hw | rfl)
      · exact hvs w hw hroom
      · exact hname

theorem writesProduct_handleInspect (htype : PyDict.get? tx (.str "type") = some (.str "inspect"))
    (h : handleInspect py state tx = .ok new) : WritesProduct py state tx new := by
  simp only [handleInspect, bind_eq_ok] at h
  obtain ⟨productId, hid, checkName, hname, product, hproduct, checks, hchecks, checks', hrec,
    product', hset, hput⟩ := h
  obtain ⟨present, hpresent, -⟩ := bind_eq_ok.mp hrec
  have hrecorded : checkRecorded py state tx = .ok (present, checkName) := by
    simp only [checkRecorded, bind_eq_ok, pure_eq_ok]
    exact ⟨productId, hid, checkName, hname, product, hproduct, checks, hchecks, present, hpresent,
      rfl⟩
  have hwrites : writes py state tx = if present then [] else [(3, .list [checkName])] := by
    simp only [writes, htype, hrecorded]
    cases present with
    | true => rfl
    | false => rfl
  cases product with
  | scalar s => cases hchecks
  | list vs => cases hchecks
  | dict es =>
    obtain rfl := Except.ok.inj hchecks
    refine ⟨balancesField_putProduct hput, ?_, fun {g n} hs => ?_⟩
    · rw [hwrites]
      cases present with
      | true => simp
      | false => simp
    · have hp := fits_getProduct hs hproduct
      rw [fits_putProduct_iff hs hproduct hput, Value.fits_setItem_str_iff hp hset, level_product,
        hwrites]
      cases hget : PyDict.get? es (.str "checks") with
      | some c =>
        rw [hget, Option.getD_some] at hrec hpresent
        have hc : c.Fits g (n - 3 * g.node) := level_product g n ▸ hp.get? hget
        rw [fits_recordCheck_iff hpresent hrec (.inl hc)]
        cases present with
        | true => simpa using hc
        | false => simp
      | none =>
        rw [hget, Option.getD_none] at hrec hpresent
        obtain rfl : false = present := Except.ok.inj hpresent
        rw [fits_recordCheck_iff hpresent hrec (.inr rfl)]
        simp

end Handlers

/-! ## The engine -/

/-- The handler that is registered under each type. -/
theorem Runtime.Registered.cases (hr : rt.Registered) {t : String} {handler : Handler}
    (h : rt.handlers t = some handler) :
    (t = "transfer" ∧ handler = handleTransfer rt.toInterp) ∨
      (t = "mint" ∧ handler = handleMint rt.toInterp) ∨
      (t = "burn" ∧ handler = handleBurn rt.toInterp) ∨
      (t = "ship" ∧ handler = handleShip rt.toInterp) ∨
      (t = "receive" ∧ handler = handleReceive rt.toInterp) ∨
      (t = "inspect" ∧ handler = handleInspect rt.toInterp) ∨
      (t = "quarantine" ∧ handler = handleQuarantine rt.toInterp) ∨
      (t = "release" ∧ handler = handleRelease rt.toInterp) := by
  have hbuiltin (h : builtinHandlers rt.toInterp t = some handler) :
      (t = "transfer" ∧ handler = handleTransfer rt.toInterp) ∨
        (t = "mint" ∧ handler = handleMint rt.toInterp) ∨
        (t = "burn" ∧ handler = handleBurn rt.toInterp) := by
    unfold builtinHandlers at h
    split at h
    · exact .inl ⟨rfl, (Option.some.inj h).symm⟩
    · exact .inr (.inl ⟨rfl, (Option.some.inj h).symm⟩)
    · exact .inr (.inr ⟨rfl, (Option.some.inj h).symm⟩)
    · cases h
  rcases hr with hr | hr
  · rw [hr] at h
    have := hbuiltin h
    tauto
  · rw [hr] at h
    simp only [registerSupplyChainHandlers, registerHandler] at h
    split_ifs at h
    · simp_all
    · simp_all
    · simp_all
    · simp_all
    · simp_all
    · have := hbuiltin h
      tauto

/-- What the engine accepts is a rewrite of the balances or of a product. -/
theorem writes_execute (hr : rt.Registered) (hs : HasAccounts state)
    (h : rt.execute state tx = .ok new) :
    (∃ es fs, WritesBalances rt.toInterp state tx new es fs) ∨
      WritesProduct rt.toInterp state tx new := by
  obtain ⟨t, handler, htype, hget, hrun⟩ := (execute_eq_ok rt.toInterp).mp h
  rcases hr.cases hget with ⟨rfl, rfl⟩ | ⟨rfl, rfl⟩ | ⟨rfl, rfl⟩ | ⟨rfl, rfl⟩ | ⟨rfl, rfl⟩ |
    ⟨rfl, rfl⟩ | ⟨rfl, rfl⟩ | ⟨rfl, rfl⟩
  · exact .inl (writesBalances_handleTransfer hs htype hrun)
  · exact .inl (writesBalances_handleMint hs htype hrun)
  · exact .inl (writesBalances_handleBurn hs htype hrun)
  · exact .inr (writesProduct_handleShip htype hrun)
  · exact .inr (writesProduct_handleReceive htype hrun)
  · exact .inr (writesProduct_handleInspect htype hrun)
  · exact .inr (writesProduct_handleQuarantine htype hrun)
  · exact .inr (writesProduct_handleRelease htype hrun)

/-- The new state passes a gauge exactly when the written values do. -/
theorem fits_execute_iff (hr : rt.Registered) (hs : HasAccounts state) {g : Gauge} {n : ℕ}
    (hfits : (Value.dict state).Fits g n) (h : rt.execute state tx = .ok new) :
    (Value.dict new).Fits g n ↔
      ∀ p ∈ writes rt.toInterp state tx, p.2.Fits g (n - p.1 * g.node) := by
  rcases writes_execute hr hs h with ⟨es, fs, hw⟩ | hw
  · rw [hw.replaced, Value.fits_set_iff hfits fun hnone _ => by simp [hw.old] at hnone]
    obtain ⟨hroom, hes⟩ := Value.fits_dict_iff.mp (hfits.get? hw.old)
    have hlevel : n - g.node - g.node = n - 2 * g.node := by omega
    rw [Value.fits_dict_iff, hw.entries (keptByDebit_fits g _) hes, hlevel]
    refine ⟨fun hall p hp => ?_, fun hall => ⟨hroom, fun p hp => ?_⟩⟩
    · rw [hw.level p hp]
      exact hall.2 p hp
    · have hv := hall p hp
      rwa [hw.level p hp] at hv
  · rw [hw.fits hfits]
    refine forall₂_congr fun p hp => ?_
    rw [hw.level p hp]

/-- The balances of the new state have a property exactly when the values written into them
have it. -/
theorem entries_execute_iff (hr : rt.Registered) {P : Value → Prop} (hP : KeptByDebit P)
    (hes : balancesField state = .dict es) (hall : Entries P es)
    (h : rt.execute state tx = .ok new) :
    ∃ fs, balancesField new = .dict fs ∧
      (Entries P fs ↔ ∀ p ∈ writes rt.toInterp state tx, p.1 = 2 → P p.2) := by
  rcases writes_execute hr ⟨es, hes⟩ h with ⟨es', fs, hw⟩ | hw
  · obtain rfl : es' = es := Value.dict.inj ((balancesField_of_get? hw.old).symm.trans hes)
    refine ⟨fs, by rw [hw.replaced, balancesField_set], ?_⟩
    rw [hw.entries hP hall]
    exact forall₂_congr fun p hp => ⟨fun hp' _ => hp', fun h => h (hw.level p hp)⟩
  · refine ⟨es, hw.balances.trans hes, iff_of_true hall fun p hp htwo => ?_⟩
    rw [hw.level p hp] at htwo
    cases htwo

end ECN
