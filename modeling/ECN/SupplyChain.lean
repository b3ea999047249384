import ECN.ExecutionEngine

/-!
# Supply-chain transactions

Products live under the state's `products` key. Each handler copies the state,
looks the product up, checks its status and writes the product back.
-/
namespace ECN

variable (py : Interp)

/-- `products[product_id]`, rejecting unknown products. -/
def getProduct (state : State) (productId : Value) : Except Exc Value := do
  let products := (PyDict.get? state (.str "products")).getD (.dict [])
  raiseIf (!(← products.contains productId))
    (.valueError ("Product '" ++ productId.pyStr py ++ "' not found in state"))
  products.item productId

/-- The state whose product was mutated in place. -/
def putProduct (state : State) (productId product : Value) : Except Exc State := do
  let products ← PyDict.item state (.str "products")
  return PyDict.set state (.str "products") (← products.setItem productId product)

/-- Ship a product from its current location to a new destination. -/
def handleShip (state : State) (tx : Transaction) : Except Exc State := do
  let productId ← PyDict.item tx (.str "product_id")
  let destination ← PyDict.item tx (.str "destination")
  let shipper ← PyDict.item tx (.str "shipper")
  let product ← getProduct py state productId
  let status ← product.item (.str "status")
  raiseIf (status.eq (.str "in_transit") || status.eq (.str "quarantined"))
    (.valueError ("Cannot ship product '" ++ productId.pyStr py ++ "': current status is '" ++
      status.pyStr py ++ "'"))
  let product ← product.setItem (.str "status") (.str "in_transit")
  let product ← product.setItem (.str "location") destination
  let product ← product.setItem (.str "owner") shipper
  putProduct state productId product

/-- Record receipt of a product at a destination. -/
def handleReceive (state : State) (tx : Transaction) : Except Exc State := do
  let productId ← PyDict.item tx (.str "product_id")
  let receiver ← PyDict.item tx (.str "receiver")
  let atCustoms := ((PyDict.get? tx (.str "at_customs")).getD (.bool false)).truthy
  let product ← getProduct py state productId
  let status ← product.item (.str "status")
  raiseIf (!status.eq (.str "in_transit"))
    (.valueError ("Cannot receive product '" ++ productId.pyStr py ++ "': current status is '" ++
      status.pyStr py ++ "'"))
  let product ← product.setItem (.str "status")
    (.str (if atCustoms then "at_customs" else "delivered"))
  let product ← product.setItem (.str "owner") receiver
  putProduct state productId product

/-- Append a check that is not there yet and sort the list. -/
def recordCheck (checks checkName : Value) : Except Exc Value := do
  if ← checks.contains checkName then return checks
  match checks with
  | .list vs => return .list (← pySorted Value.lt (vs ++ [checkName]))
  | .scalar _ | .dict _ => .error .attributeError

/-- Record a passed inspection. -/
def handleInspect (state : State) (tx : Transaction) : Except Exc State := do
  let productId ← PyDict.item tx (.str "product_id")
  let checkName ← PyDict.item tx (.str "check_name")
  let product ← getProduct py state productId
  let checks ← product.getOr (.str "checks") (.list [])
  let checks ← recordCheck checks checkName
  putProduct state productId (← product.setItem (.str "checks") checks)

/-- Flag a product as quarantined. -/
def handleQuarantine (state : State) (tx : Transaction) : Except Exc State := do
  let productId ← PyDict.item tx (.str "product_id")
  let reason ← PyDict.item tx (.str "reason")
  let product ← getProduct py state productId
  let status ← product.item (.str "status")
  raiseIf (status.eq (.str "quarantined"))
    (.valueError ("Product '" ++ productId.pyStr py ++ "' is already quarantined"))
  let product ← product.setItem (.str "status") (.str "quarantined")
  let product ← product.setItem (.str "quarantine_reason") reason
  putProduct state productId product

/-- `product.pop(key, None)`. -/
def popField (product : Value) (key : String) : Except Exc Value :=
  match product with
  | .dict es => .ok (.dict (PyDict.pop es (.str key)))
  | .scalar _ | .list _ => .error .attributeError

/-- Release a quarantined product. -/
def handleRelease (state : State) (tx : Transaction) : Except Exc State := do
  let productId ← PyDict.item tx (.str "product_id")
  let product ← getProduct py state productId
  let status ← product.item (.str "status")
  raiseIf (!status.eq (.str "quarantined"))
    (.valueError ("Product '" ++ productId.pyStr py ++ "' is not quarantined"))
  let product ← product.setItem (.str "status") (.str "at_customs")
  let product ← popField product "quarantine_reason"
  putProduct state productId product

/-- The table after the supply-chain handlers are registered. -/
def registerSupplyChainHandlers (handlers : Handlers) : Handlers :=
  let handlers := registerHandler handlers "ship" (handleShip py)
  let handlers := registerHandler handlers "receive" (handleReceive py)
  let handlers := registerHandler handlers "inspect" (handleInspect py)
  let handlers := registerHandler handlers "quarantine" (handleQuarantine py)
  registerHandler handlers "release" (handleRelease py)

/-- Freshly manufactured products. -/
def makeInitialState (productIds : List String) : State :=
  [(.str "products", .dict (productIds.foldl (fun d pid => PyDict.set d (.str pid) (.dict
    [(.str "status", .str "manufactured"), (.str "location", .str "factory"),
      (.str "owner", .str "manufacturer"), (.str "checks", .list [])])) []))]

/-! ## The handlers keep the documented shape -/

theorem getProduct_item {state : State} {productId product : Value}
    (h : getProduct py state productId = .ok product) :
    ∃ products, PyDict.get? state (.str "products") = some products ∧
      products.item productId = .ok product := by
  simp only [getProduct, bind_eq_ok, raiseIf_eq_ok] at h
  obtain ⟨found, hfound, -, hneg, hitem⟩ := h
  cases hget : PyDict.get? state (.str "products") with
  | some products =>
    rw [hget] at hitem
    exact ⟨products, rfl, hitem⟩
  | none =>
    -- The default is empty, so no product is found in it.
    rw [hget] at hfound
    simp only [Option.getD_none, Value.contains, bind_eq_ok, pure_eq_ok] at hfound
    obtain ⟨k, -, rfl⟩ := hfound
    simp [PyDict.get?] at hneg

theorem stringKeyed_getProduct {state : State} (hs : WellShaped state) {productId product : Value}
    (h : getProduct py state productId = .ok product) : product.stringKeyed = true := by
  obtain ⟨products, hget, hitem⟩ := getProduct_item py h
  exact Value.stringKeyed_item (PyDict.stringKeyed_get? hs.stringKeyed hget) hitem

theorem wellShaped_putProduct {state new : State} (hs : WellShaped state)
    {productId old product : Value} (hold : getProduct py state productId = .ok old)
    (hp : product.stringKeyed = true) (h : putProduct state productId product = .ok new) :
    WellShaped new := by
  obtain ⟨products, hget, hitem⟩ := getProduct_item py hold
  simp only [putProduct, bind_eq_ok, pure_eq_ok, PyDict.item_eq_ok, hget] at h
  obtain ⟨_, ⟨⟩, products', hset, rfl⟩ := h
  exact hs.set_other (by decide)
    (Value.stringKeyed_setItem (PyDict.stringKeyed_get? hs.stringKeyed hget) hp hitem hset)

theorem keepsShape_handleShip : KeepsShape (handleShip py) := by
  intro state tx new hs ht h
  simp only [handleShip, bind_eq_ok, raiseIf_eq_ok] at h
  obtain ⟨productId, -, destination, hdest, shipper, hshipper, product, hproduct, -, -, -, -,
    p1, h1, p2, h2, p3, h3, hput⟩ := h
  have k0 := stringKeyed_getProduct py hs hproduct
  have k1 := (Value.stringKeyed_setItem_str k0 rfl h1).1
  have k2 := (Value.stringKeyed_setItem_str k1 (PyDict.stringKeyed_item ht.stringKeyed hdest) h2).1
  have k3 := (Value.stringKeyed_setItem_str k2
    (PyDict.stringKeyed_item ht.stringKeyed hshipper) h3).1
  exact wellShaped_putProduct py hs hproduct k3 hput

theorem keepsShape_handleReceive : KeepsShape (handleReceive py) := by
  intro state tx new hs ht h
  simp only [handleReceive, bind_eq_ok, raiseIf_eq_ok] at h
  obtain ⟨productId, -, receiver, hrecv, product, hproduct, -, -, -, -, p1, h1, p2, h2, hput⟩ := h
  have k0 := stringKeyed_getProduct py hs hproduct
  have k1 := (Value.stringKeyed_setItem_str k0 rfl h1).1
  have k2 := (Value.stringKeyed_setItem_str k1 (PyDict.stringKeyed_item ht.stringKeyed hrecv) h2).1
  exact wellShaped_putProduct py hs hproduct k2 hput

theorem stringKeyed_pySorted {lt : Value → Value → Except Exc Bool} {vs ws : List Value}
    (hvs : ∀ v ∈ vs, v.stringKeyed = true) (h : pySorted lt vs = .ok ws) :
    ∀ w ∈ ws, w.stringKeyed = true := by
  intro w hw
  exact hvs w ((pySorted_perm h).mem_iff.mp hw)

theorem stringKeyed_recordCheck {checks checkName checks' : Value}
    (hc : checks.stringKeyed = true) (hn : checkName.stringKeyed = true)
    (h : recordCheck checks checkName = .ok checks') : checks'.stringKeyed = true := by
  simp only [recordCheck, bind_eq_ok] at h
  obtain ⟨present, -, h⟩ := h
  split at h
  · rwa [← pure_eq_ok.mp h]
  · cases checks with
    | scalar s => cases h
    | dict es => cases h
    | list vs =>
      simp only [bind_eq_ok, pure_eq_ok] at h
      obtain ⟨ws, hws, rfl⟩ := h
      refine (Value.stringKeyedList_iff ws).mpr (stringKeyed_pySorted ?_ hws)
      intro v hv
      rcases List.mem_append.mp hv with hv | hv
      · exact (Value.stringKeyedList_iff vs).mp hc v hv
      · rwa [List.mem_singleton.mp hv]

theorem keepsShape_handleInspect : KeepsShape (handleInspect py) := by
  intro state tx new hs ht h
  simp only [handleInspect, bind_eq_ok] at h
  obtain ⟨productId, -, checkName, hname, product, hproduct, checks, hchecks, checks', hrec,
    product', hset, hput⟩ := h
  have k0 := stringKeyed_getProduct py hs hproduct
  have kc : checks.stringKeyed = true := by
    cases product with
    | scalar s => cases hchecks
    | list vs => cases hchecks
    | dict es =>
      simp only [Value.getOr, bind_eq_ok, pure_eq_ok] at hchecks
      obtain ⟨k, -, rfl⟩ := hchecks
      cases hget : PyDict.get? es k with
      | none => rfl
      | some c => exact PyDict.stringKeyed_get? k0 hget
  have kc' := stringKeyed_recordCheck kc (PyDict.stringKeyed_item ht.stringKeyed hname) hrec
  exact wellShaped_putProduct py hs hproduct (Value.stringKeyed_setItem_str k0 kc' hset).1 hput

theorem keepsShape_handleQuarantine : KeepsShape (handleQuarantine py) := by
  intro state tx new hs ht h
  simp only [handleQuarantine, bind_eq_ok, raiseIf_eq_ok] at h
  obtain ⟨productId, -, reason, hreason, product, hproduct, -, -, -, -, p1, h1, p2, h2, hput⟩ := h
  have k0 := stringKeyed_getProduct py hs hproduct
  have k1 := (Value.stringKeyed_setItem_str k0 rfl h1).1
  have k2 := (Value.stringKeyed_setItem_str k1
    (PyDict.stringKeyed_item ht.stringKeyed hreason) h2).1
  exact wellShaped_putProduct py hs hproduct k2 hput

theorem keepsShape_handleRelease : KeepsShape (handleRelease py) := by
  intro state tx new hs ht h
  simp only [handleRelease, bind_eq_ok, raiseIf_eq_ok] at h
  obtain ⟨productId, -, product, hproduct, -, -, -, -, p1, h1, p2, h2, hput⟩ := h
  have k0 := stringKeyed_getProduct py hs hproduct
  obtain ⟨k1, es, rfl⟩ := Value.stringKeyed_setItem_str k0 rfl h1
  cases h2
  exact wellShaped_putProduct py hs hproduct (PyDict.stringKeyed_pop k1) hput

/-- Every handler of the two tables keeps the shape. -/
theorem keepsShape_registered {t : String} {handler : Handler}
    (h : registerSupplyChainHandlers py (builtinHandlers py) t = some handler) :
    KeepsShape handler := by
  simp only [registerSupplyChainHandlers, registerHandler] at h
  split_ifs at h
  · cases h; exact keepsShape_handleRelease py
  · cases h; exact keepsShape_handleQuarantine py
  · cases h; exact keepsShape_handleInspect py
  · cases h; exact keepsShape_handleReceive py
  · cases h; exact keepsShape_handleShip py
  · exact keepsShape_builtin py h

/-! ## The handlers as a whole -/

def ledgerHandlers : List Handler := [handleTransfer py, handleMint py, handleBurn py]

def supplyChainHandlers : List Handler :=
  [handleShip py, handleReceive py, handleInspect py, handleQuarantine py, handleRelease py]

theorem mem_ledgerHandlers {t : String} {handler : Handler}
    (h : builtinHandlers py t = some handler) : handler ∈ ledgerHandlers py := by
  unfold builtinHandlers at h
  split at h <;> cases h <;> simp [ledgerHandlers]

theorem mem_handlers_of_registered {t : String} {handler : Handler}
    (h : registerSupplyChainHandlers py (builtinHandlers py) t = some handler) :
    handler ∈ ledgerHandlers py ∨ handler ∈ supplyChainHandlers py := by
  simp only [registerSupplyChainHandlers, registerHandler] at h
  split_ifs at h
  all_goals first
    | exact .inl (mem_ledgerHandlers py h)
    | exact .inr (by cases h; simp [supplyChainHandlers])

/-- All that a supply-chain transaction changes is the record of a product. -/
theorem exists_putProduct {handler : Handler} (hh : handler ∈ supplyChainHandlers py)
    {state new : State} {tx : Transaction} (h : handler state tx = .ok new) :
    ∃ productId product, putProduct state productId product = .ok new := by
  simp only [supplyChainHandlers, List.mem_cons, List.not_mem_nil, or_false] at hh
  rcases hh with rfl | rfl | rfl | rfl | rfl
  · simp only [handleShip, bind_eq_ok] at h
    obtain ⟨productId, -, _, -, _, -, _, -, _, -, -, -, _, -, _, -, product, -, hput⟩ := h
    exact ⟨productId, product, hput⟩
  · simp only [handleReceive, bind_eq_ok] at h
    obtain ⟨productId, -, _, -, _, -, _, -, -, -, _, -, product, -, hput⟩ := h
    exact ⟨productId, product, hput⟩
  · simp only [handleInspect, bind_eq_ok] at h
    obtain ⟨productId, -, _, -, _, -, _, -, _, -, product, -, hput⟩ := h
    exact ⟨productId, product, hput⟩
  · simp only [handleQuarantine, bind_eq_ok] at h
    obtain ⟨productId, -, _, -, _, -, _, -, -, -, _, -, product, -, hput⟩ := h
    exact ⟨productId, product, hput⟩
  · simp only [handleRelease, bind_eq_ok] at h
    obtain ⟨productId, -, _, -, _, -, -, -, _, -, product, -, hput⟩ := h
    exact ⟨productId, product, hput⟩

end ECN
