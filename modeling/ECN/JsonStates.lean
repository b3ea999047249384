import ECN.JsonAtoms
import ECN.JsonTree
import ECN.Supply

/-!
# Transactions keep states JSON

Every handler reads JSON values, floats included, out of the state and the transaction and
writes them back under string keys, so states stay JSON, and integer balances stay integers.
-/
namespace ECN

/-- JSON with any numbers: null, booleans, integers, floats, strings, lists, and objects with
distinct string keys. -/
abbrev IsJsonTree : Value → Prop := JsonOver Scalar.isAtom

/-! ## Access and update -/

namespace PyDict

variable {d : PyDict}

theorem mem_keys_set {s : String} {v : Value} {k : Scalar}
    (h : k ∈ (d.set (.str s) v).map Prod.fst) : k = .str s ∨ k ∈ d.map Prod.fst := by
  induction d with
  | nil => simpa [set] using h
  | cons e es ih =>
    by_cases he : e.1 = .str s
    · rw [set, if_pos (by simpa using he)] at h
      exact .inr h
    · rw [set, if_neg (by simpa using he), List.map_cons, List.mem_cons] at h
      rcases h with rfl | h
      · exact .inr List.mem_cons_self
      · exact (ih h).imp_right (List.mem_cons_of_mem e.1)

theorem nodup_keys_set (hd : (d.map Prod.fst).Nodup) (s : String) (v : Value) :
    ((d.set (.str s) v).map Prod.fst).Nodup := by
  induction d with
  | nil => simp [set]
  | cons e es ih =>
    rw [List.map_cons, List.nodup_cons] at hd
    by_cases he : e.1 = .str s
    · rw [set, if_pos (by simpa using he)]
      exact List.nodup_cons.mpr hd
    · rw [set, if_neg (by simpa using he), List.map_cons, List.nodup_cons]
      exact ⟨fun hmem => (mem_keys_set hmem).elim he hd.1, ih hd.2⟩

end PyDict

namespace JsonOver

variable {c v c' : Value} {es : PyDict}

theorem nodup_keys (h : IsJsonTree (.dict es)) : (es.map Prod.fst).Nodup := by
  cases h with
  | dict nodup keys values => exact nodup

theorem str_keys (h : IsJsonTree (.dict es)) : ∀ e ∈ es, ∃ s, e.1 = .str s := by
  cases h with
  | dict nodup keys values => exact keys

theorem values (h : IsJsonTree (.dict es)) : ∀ e ∈ es, IsJsonTree e.2 := by
  cases h with
  | dict nodup keys values => exact values

theorem elements {vs : List Value} (h : IsJsonTree (.list vs)) : ∀ v ∈ vs, IsJsonTree v := by
  cases h with
  | list values => exact values

theorem set (h : IsJsonTree (.dict es)) (s : String) (hv : IsJsonTree v) :
    IsJsonTree (.dict (PyDict.set es (.str s) v)) :=
  .dict (PyDict.nodup_keys_set h.nodup_keys s v)
    (PyDict.forall_set h.str_keys ⟨s, rfl⟩ fun e he _ => h.str_keys e he)
    (PyDict.forall_set h.values hv fun _ _ _ => hv)

theorem pop (h : IsJsonTree (.dict es)) (k : Scalar) : IsJsonTree (.dict (PyDict.pop es k)) :=
  .dict (h.nodup_keys.sublist (List.eraseP_sublist.map _))
    (fun e he => h.str_keys e (List.mem_of_mem_eraseP he))
    fun e he => h.values e (List.mem_of_mem_eraseP he)

/-- What a subscript reads out of a JSON value. -/
theorem item {x : Value} (hc : IsJsonTree c) (h : c.item x = .ok v) : IsJsonTree v := by
  cases c with
  | scalar s => cases h
  | dict es =>
    obtain ⟨k, -, hk⟩ := bind_eq_ok.mp h
    exact hc.of_get? (PyDict.item_eq_ok.mp hk)
  | list vs =>
    obtain ⟨i, -, hi⟩ := bind_eq_ok.mp h
    rw [← pure_eq_ok.mp hi, List.getD_eq_getElem?_getD]
    cases hget : vs[i]? with
    | none => exact .word rfl
    | some w => exact hc.elements w (List.mem_of_getElem? hget)

theorem setItem_str {s : String} (hc : IsJsonTree c) (hv : IsJsonTree v)
    (h : c.setItem (.str s) v = .ok c') : IsJsonTree c' := by
  cases c with
  | scalar s => cases h
  | list vs => cases h
  | dict es =>
    obtain rfl := Except.ok.inj h
    exact hc.set s hv

/-- Overwriting an element that is there. -/
theorem setItem {x w : Value} (hc : IsJsonTree c) (hv : IsJsonTree v) (hget : c.item x = .ok w)
    (h : c.setItem x v = .ok c') : IsJsonTree c' := by
  cases c with
  | scalar s => cases h
  | dict es =>
    obtain ⟨k, hk, hset⟩ := bind_eq_ok.mp h
    obtain ⟨k', hk', hitem⟩ := bind_eq_ok.mp hget
    rw [hk] at hk'
    cases hk'
    rw [← pure_eq_ok.mp hset]
    obtain ⟨s, rfl⟩ := PyDict.key_str_of_get? hc.stringKeyed (PyDict.item_eq_ok.mp hitem)
    exact hc.set s hv
  | list vs =>
    obtain ⟨i, -, hset⟩ := bind_eq_ok.mp h
    rw [← pure_eq_ok.mp hset]
    refine .list fun u hu => ?_
    rcases List.mem_or_eq_of_mem_set hu with hu | rfl
    · exact hc.elements u hu
    · exact hv

/-- Arithmetic on a number gives a number. -/
theorem addInt {n : ℤ} {w : Value} (h : v.addInt n = .ok w) : IsJsonTree w := by
  cases v with
  | scalar s =>
    obtain ⟨t, ht, hw⟩ := bind_eq_ok.mp h
    rw [← pure_eq_ok.mp hw]
    cases s with
    | none => cases ht
    | bool b =>
      obtain rfl := Except.ok.inj ht
      exact .word rfl
    | int m =>
      obtain rfl := Except.ok.inj ht
      exact .word rfl
    | float x =>
      obtain ⟨y, -, hy⟩ := bind_eq_ok.mp ht
      obtain rfl := pure_eq_ok.mp hy
      exact .word rfl
    | str s => cases ht
  | list vs => cases h
  | dict es => cases h

end JsonOver

/-! ## Handlers -/

/-- JSON fields, the account fields strings. -/
structure JsonTx (tx : Transaction) : Prop extends StringNames tx where
  fields : ∀ e ∈ tx, IsJsonTree e.2

theorem JsonTx.item {tx : Transaction} {k : Scalar} {v : Value} (h : JsonTx tx)
    (hitem : PyDict.item tx k = .ok v) : IsJsonTree v := by
  obtain ⟨e, he, rfl⟩ := PyDict.get?_mem (PyDict.item_eq_ok.mp hitem)
  exact h.fields e he

/-- A handler after which the state is still JSON. -/
def KeepsJson (handler : Handler) : Prop :=
  ∀ state tx new, IsJsonTree (.dict state) → JsonTx tx → handler state tx = .ok new →
    IsJsonTree (.dict new)

variable (py : Interp)

theorem keepsJson_handleTransfer : KeepsJson (handleTransfer py) := by
  intro state tx new hs ht h
  simp only [handleTransfer, bind_eq_ok, pure_eq_ok] at h
  obtain ⟨sender, hfrom, receiver, hto, -, -, amount, -, -, -, balances, hbal, -, -, -, -, -, -,
    -, -, held, hheld, -, -, -, -, less, hless, debited, hdeb, now, hnow, more, hmore, credited, hcred,
    rfl⟩ := h
  obtain ⟨s, rfl⟩ := ht.sender _ (PyDict.item_eq_ok.mp hfrom)
  obtain ⟨r, rfl⟩ := ht.receiver _ (PyDict.item_eq_ok.mp hto)
  have hb : IsJsonTree balances := hs.of_get? (PyDict.item_eq_ok.mp hbal)
  have hd : IsJsonTree debited := hb.setItem_str (.addInt hless) hdeb
  exact hs.set _ (hd.setItem_str (.addInt hmore) hcred)

theorem keepsJson_handleMint : KeepsJson (handleMint py) := by
  intro state tx new hs ht h
  simp only [handleMint, bind_eq_ok, pure_eq_ok] at h
  obtain ⟨receiver, hto, -, -, amount, -, -, -, balances, hbal, held, hheld, more, hmore,
    credited, hcred, rfl⟩ := h
  obtain ⟨r, rfl⟩ := ht.receiver _ (PyDict.item_eq_ok.mp hto)
  have hb : IsJsonTree balances := hs.of_get? (PyDict.item_eq_ok.mp hbal)
  exact hs.set _ (hb.setItem_str (.addInt hmore) hcred)

theorem keepsJson_handleBurn : KeepsJson (handleBurn py) := by
  intro state tx new hs ht h
  simp only [handleBurn, bind_eq_ok, pure_eq_ok] at h
  obtain ⟨sender, hfrom, -, -, amount, -, -, -, balances, hbal, -, -, -, -, held, hheld, -, -, -, -,
    less, hless, debited, hdeb, rfl⟩ := h
  obtain ⟨s, rfl⟩ := ht.sender _ (PyDict.item_eq_ok.mp hfrom)
  have hb : IsJsonTree balances := hs.of_get? (PyDict.item_eq_ok.mp hbal)
  exact hs.set _ (hb.setItem_str (.addInt hless) hdeb)

/-! ## Supply-chain handlers -/

variable {state new : State} {productId product : Value}

theorem JsonOver.getProduct (hs : IsJsonTree (.dict state))
    (h : getProduct py state productId = .ok product) : IsJsonTree product := by
  obtain ⟨products, hget, hitem⟩ := getProduct_item py h
  exact (hs.of_get? hget).item hitem

theorem JsonOver.putProduct {old : Value} (hs : IsJsonTree (.dict state))
    (hold : ECN.getProduct py state productId = .ok old) (hp : IsJsonTree product)
    (h : putProduct state productId product = .ok new) : IsJsonTree (.dict new) := by
  obtain ⟨products, hget, hitem⟩ := getProduct_item py hold
  simp only [ECN.putProduct, bind_eq_ok, pure_eq_ok, PyDict.item_eq_ok, hget] at h
  obtain ⟨_, ⟨⟩, products', hset, rfl⟩ := h
  exact hs.set _ ((hs.of_get? hget).setItem hp hitem hset)

theorem JsonOver.recordCheck {checks checkName checks' : Value} (hc : IsJsonTree checks)
    (hn : IsJsonTree checkName) (h : recordCheck checks checkName = .ok checks') : IsJsonTree checks' := by
  obtain ⟨present, -, h⟩ := bind_eq_ok.mp h
  split at h
  · rwa [← pure_eq_ok.mp h]
  · cases checks with
    | scalar s => cases h
    | dict es => cases h
    | list vs =>
      obtain ⟨ws, hws, h⟩ := bind_eq_ok.mp h
      rw [← pure_eq_ok.mp h]
      refine .list fun w hw => ?_
      rcases List.mem_append.mp ((pySorted_perm hws).mem_iff.mp hw) with hv | hv
      · exact hc.elements w hv
      · rwa [List.mem_singleton.mp hv]

theorem keepsJson_handleShip : KeepsJson (handleShip py) := by
  intro state tx new hs ht h
  simp only [handleShip, bind_eq_ok] at h
  obtain ⟨productId, -, destination, hdest, shipper, hshipper, product, hproduct, status, -, -, -,
    p1, h1, p2, h2, p3, h3, hput⟩ := h
  have k1 := (hs.getProduct py hproduct).setItem_str (.str _) h1
  have k2 := k1.setItem_str (ht.item hdest) h2
  have k3 := k2.setItem_str (ht.item hshipper) h3
  exact hs.putProduct py hproduct k3 hput

theorem keepsJson_handleReceive : KeepsJson (handleReceive py) := by
  intro state tx new hs ht h
  simp only [handleReceive, bind_eq_ok] at h
  obtain ⟨productId, -, receiver, hrecv, product, hproduct, status, -, -, -, p1, h1, p2, h2,
    hput⟩ := h
  have k1 := (hs.getProduct py hproduct).setItem_str (.str _) h1
  have k2 := k1.setItem_str (ht.item hrecv) h2
  exact hs.putProduct py hproduct k2 hput

theorem keepsJson_handleInspect : KeepsJson (handleInspect py) := by
  intro state tx new hs ht h
  simp only [handleInspect, bind_eq_ok] at h
  obtain ⟨productId, -, checkName, hname, product, hproduct, checks, hchecks, checks', hrec,
    product', hset, hput⟩ := h
  have k0 := hs.getProduct py hproduct
  have kc : IsJsonTree checks := by
    cases product with
    | scalar s => cases hchecks
    | list vs => cases hchecks
    | dict es =>
      obtain rfl := Except.ok.inj hchecks
      cases hget : PyDict.get? es (.str "checks") with
      | none => exact .list (by simp)
      | some c => exact k0.of_get? hget
  have k1 := k0.setItem_str (kc.recordCheck (ht.item hname) hrec) hset
  exact hs.putProduct py hproduct k1 hput

theorem keepsJson_handleQuarantine : KeepsJson (handleQuarantine py) := by
  intro state tx new hs ht h
  simp only [handleQuarantine, bind_eq_ok] at h
  obtain ⟨productId, -, reason, hreason, product, hproduct, status, -, -, -, p1, h1, p2, h2,
    hput⟩ := h
  have k1 := (hs.getProduct py hproduct).setItem_str (.str _) h1
  have k2 := k1.setItem_str (ht.item hreason) h2
  exact hs.putProduct py hproduct k2 hput

theorem keepsJson_handleRelease : KeepsJson (handleRelease py) := by
  intro state tx new hs ht h
  simp only [handleRelease, bind_eq_ok] at h
  obtain ⟨productId, -, product, hproduct, status, -, -, -, p1, h1, p2, h2, hput⟩ := h
  have k1 := (hs.getProduct py hproduct).setItem_str (.str _) h1
  cases p1 with
  | scalar s => cases h2
  | list vs => cases h2
  | dict es =>
    obtain rfl := Except.ok.inj h2
    exact hs.putProduct py hproduct (k1.pop _) hput

/-- Accepted transactions keep states JSON. -/
theorem JsonOver.execute {rt : Runtime} (hr : rt.Registered) {tx : Transaction}
    (hs : IsJsonTree (.dict state)) (ht : JsonTx tx) (h : rt.execute state tx = .ok new) :
    IsJsonTree (.dict new) := by
  obtain ⟨handler, hmem, hrun⟩ := hr.exists_handler h
  simp only [ledgerHandlers, supplyChainHandlers, List.mem_cons, List.not_mem_nil, or_false] at hmem
  rcases hmem with (rfl | rfl | rfl) | rfl | rfl | rfl | rfl | rfl
  · exact keepsJson_handleTransfer _ state tx new hs ht hrun
  · exact keepsJson_handleMint _ state tx new hs ht hrun
  · exact keepsJson_handleBurn _ state tx new hs ht hrun
  · exact keepsJson_handleShip _ state tx new hs ht hrun
  · exact keepsJson_handleReceive _ state tx new hs ht hrun
  · exact keepsJson_handleInspect _ state tx new hs ht hrun
  · exact keepsJson_handleQuarantine _ state tx new hs ht hrun
  · exact keepsJson_handleRelease _ state tx new hs ht hrun

end ECN
