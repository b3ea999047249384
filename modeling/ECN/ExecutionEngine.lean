import ECN.PyValue

/-!
# Deterministic execution engine

`execute` dispatches on the `type` field of a transaction through the handler
table. A handler works on a copy of the state, so a raised exception leaves the
caller's state alone; here it is a function that returns the new state or the
exception.
-/
namespace ECN

abbrev State := PyDict
abbrev Transaction := PyDict
abbrev Handler := State → Transaction → Except Exc State

/-- The registry of transaction types. -/
abbrev Handlers := String → Option Handler

variable (py : Interp)

/-- Transfer `amount` from one account to another. -/
def handleTransfer (state : State) (tx : Transaction) : Except Exc State := do
  let sender ← PyDict.item tx (.str "from")
  let receiver ← PyDict.item tx (.str "to")
  let amount ← (← PyDict.item tx (.str "amount")).toInt py
  raiseIf (decide (amount ≤ 0))
    (.valueError ("Transfer amount must be positive, got " ++ toString amount))
  let balances ← PyDict.item state (.str "balances")
  raiseIf (!(← balances.contains sender))
    (.valueError ("Sender '" ++ sender.pyStr py ++ "' not found in state"))
  raiseIf (!(← balances.contains receiver))
    (.valueError ("Receiver '" ++ receiver.pyStr py ++ "' not found in state"))
  let held ← balances.item sender
  raiseIf (← held.ltInt amount)
    (.valueError ("Insufficient funds: '" ++ sender.pyStr py ++ "' has " ++ held.pyStr py ++
      ", needs " ++ toString amount))
  let debited ← balances.setItem sender (← held.addInt (-amount))
  let credited ← debited.setItem receiver (← (← debited.item receiver).addInt amount)
  return PyDict.set state (.str "balances") credited

/-- Create new tokens and credit them to `to`. -/
def handleMint (state : State) (tx : Transaction) : Except Exc State := do
  let receiver ← PyDict.item tx (.str "to")
  let amount ← (← PyDict.item tx (.str "amount")).toInt py
  raiseIf (decide (amount ≤ 0))
    (.valueError ("Mint amount must be positive, got " ++ toString amount))
  let balances ← PyDict.item state (.str "balances")
  let held ← balances.getOr receiver (.int 0)
  let credited ← balances.setItem receiver (← held.addInt amount)
  return PyDict.set state (.str "balances") credited

/-- Destroy tokens from `from`'s balance. -/
def handleBurn (state : State) (tx : Transaction) : Except Exc State := do
  let sender ← PyDict.item tx (.str "from")
  let amount ← (← PyDict.item tx (.str "amount")).toInt py
  raiseIf (decide (amount ≤ 0))
    (.valueError ("Burn amount must be positive, got " ++ toString amount))
  let balances ← PyDict.item state (.str "balances")
  raiseIf (!(← balances.contains sender))
    (.valueError ("Account '" ++ sender.pyStr py ++ "' not found in state"))
  let held ← balances.item sender
  raiseIf (← held.ltInt amount)
    (.valueError ("Insufficient funds to burn: '" ++ sender.pyStr py ++ "' has " ++
      held.pyStr py ++ ", needs " ++ toString amount))
  let debited ← balances.setItem sender (← held.addInt (-amount))
  return PyDict.set state (.str "balances") debited

/-- The built-in table. -/
def builtinHandlers : Handlers
  | "transfer" => some (handleTransfer py)
  | "mint" => some (handleMint py)
  | "burn" => some (handleBurn py)
  | _ => none

/-- Register a custom transaction handler. -/
def registerHandler (handlers : Handlers) (txType : String) (handler : Handler) : Handlers :=
  fun t => if t = txType then some handler else handlers t

/-- Apply `tx` to `state` and return the resulting new state. -/
def execute (handlers : Handlers) (state : State) (tx : Transaction) : Except Exc State := do
  let txType := (PyDict.get? tx (.str "type")).getD Value.none
  let unknown := Exc.valueError ("Unknown transaction type: '" ++ txType.pyStr py ++ "'")
  match txType with
  | .scalar (.str t) =>
    match handlers t with
    | some handler => handler state tx
    | none => .error unknown
  | .scalar _ => .error unknown
  | .list _ | .dict _ => .error .typeError

/-! ## States of the documented shape -/

/-- String keys throughout, and balances, when present, form a dictionary. -/
structure WellShaped (state : State) : Prop where
  stringKeyed : (Value.dict state).stringKeyed = true
  balances : ∀ v, PyDict.get? state (.str "balances") = some v → ∃ es, v = .dict es

/-- JSON transactions whose account fields are strings. -/
structure WellTyped (tx : Transaction) : Prop where
  stringKeyed : (Value.dict tx).stringKeyed = true
  sender : ∀ v, PyDict.get? tx (.str "from") = some v → ∃ s, v = .str s
  receiver : ∀ v, PyDict.get? tx (.str "to") = some v → ∃ s, v = .str s

/-- A handler that keeps the documented shape. -/
def KeepsShape (handler : Handler) : Prop :=
  ∀ state tx new, WellShaped state → WellTyped tx → handler state tx = .ok new → WellShaped new

theorem addInt_stringKeyed {v w : Value} {n : ℤ} (h : v.addInt n = .ok w) :
    w.stringKeyed = true := by
  cases v with
  | scalar s =>
    obtain ⟨t, -, ht⟩ := bind_eq_ok.mp h
    rw [← pure_eq_ok.mp ht]
    rfl
  | list vs => cases h
  | dict es => cases h

/-- Replacing the balances by a string-keyed dictionary keeps the shape. -/
theorem WellShaped.set_balances {state : State} (hs : WellShaped state) {b : Value}
    (hb : b.stringKeyed = true ∧ ∃ es, b = .dict es) :
    WellShaped (PyDict.set state (.str "balances") b) where
  stringKeyed := PyDict.stringKeyed_set hs.stringKeyed hb.1
  balances v hv := by
    rw [PyDict.get?_set_str, if_pos rfl] at hv
    cases hv
    exact hb.2

/-- Any other top-level field can be replaced freely. -/
theorem WellShaped.set_other {state : State} (hs : WellShaped state) {field : String} {v : Value}
    (hne : field ≠ "balances") (hv : v.stringKeyed = true) :
    WellShaped (PyDict.set state (.str field) v) where
  stringKeyed := PyDict.stringKeyed_set hs.stringKeyed hv
  balances w hw := by
    rw [PyDict.get?_set_str, if_neg (Ne.symm hne)] at hw
    exact hs.balances w hw

theorem keepsShape_handleTransfer : KeepsShape (handleTransfer py) := by
  intro state tx new hs ht h
  simp only [handleTransfer, bind_eq_ok, pure_eq_ok, raiseIf_eq_ok] at h
  obtain ⟨sender, hfrom, receiver, hto, -, -, amount, -, -, -, balances, hbal, -, -, -, -,
    -, -, -, -, held, hheld, -, -, -, -, less, hless, debited, hdeb, now, -, more, hmore,
    credited, hcred, rfl⟩ := h
  obtain ⟨s, rfl⟩ := ht.sender _ (PyDict.item_eq_ok.mp hfrom)
  obtain ⟨r, rfl⟩ := ht.receiver _ (PyDict.item_eq_ok.mp hto)
  have hb := PyDict.stringKeyed_item hs.stringKeyed hbal
  have hd := Value.stringKeyed_setItem_str hb (addInt_stringKeyed hless) hdeb
  exact hs.set_balances (Value.stringKeyed_setItem_str hd.1 (addInt_stringKeyed hmore) hcred)

theorem keepsShape_handleMint : KeepsShape (handleMint py) := by
  intro state tx new hs ht h
  simp only [handleMint, bind_eq_ok, pure_eq_ok, raiseIf_eq_ok] at h
  obtain ⟨receiver, hto, -, -, amount, -, -, -, balances, hbal, held, -, more, hmore,
    credited, hcred, rfl⟩ := h
  obtain ⟨r, rfl⟩ := ht.receiver _ (PyDict.item_eq_ok.mp hto)
  have hb := PyDict.stringKeyed_item hs.stringKeyed hbal
  exact hs.set_balances (Value.stringKeyed_setItem_str hb (addInt_stringKeyed hmore) hcred)

theorem keepsShape_handleBurn : KeepsShape (handleBurn py) := by
  intro state tx new hs ht h
  simp only [handleBurn, bind_eq_ok, pure_eq_ok, raiseIf_eq_ok] at h
  obtain ⟨sender, hfrom, -, -, amount, -, -, -, balances, hbal, -, -, -, -, held, -, -, -, -, -,
    less, hless, debited, hdeb, rfl⟩ := h
  obtain ⟨s, rfl⟩ := ht.sender _ (PyDict.item_eq_ok.mp hfrom)
  have hb := PyDict.stringKeyed_item hs.stringKeyed hbal
  exact hs.set_balances (Value.stringKeyed_setItem_str hb (addInt_stringKeyed hless) hdeb)

theorem keepsShape_builtin {t : String} {handler : Handler}
    (h : builtinHandlers py t = some handler) : KeepsShape handler := by
  unfold builtinHandlers at h
  split at h
  · cases h; exact keepsShape_handleTransfer py
  · cases h; exact keepsShape_handleMint py
  · cases h; exact keepsShape_handleBurn py
  · cases h

/-- The engine accepts what the registered handler accepts. -/
theorem execute_eq_ok {handlers : Handlers} {state new : State} {tx : Transaction} :
    execute py handlers state tx = .ok new ↔
      ∃ t handler, PyDict.get? tx (.str "type") = some (.str t) ∧ handlers t = some handler ∧
        handler state tx = .ok new := by
  constructor
  · intro h
    dsimp only [execute] at h
    split at h
    · next t htype =>
      have hget : PyDict.get? tx (.str "type") = some (.str t) := by
        cases hv : PyDict.get? tx (.str "type") <;> simp_all
      split at h
      · next handler hhandler => exact ⟨t, handler, hget, hhandler, h⟩
      · cases h
    · cases h
    · cases h
    · cases h
  · rintro ⟨t, handler, hget, hhandler, h⟩
    simpa [execute, hget, hhandler] using h

/-- One run of the engine keeps the shape when every registered handler does. -/
theorem execute_wellShaped {handlers : Handlers}
    (hh : ∀ t handler, handlers t = some handler → KeepsShape handler)
    {state new : State} {tx : Transaction} (hs : WellShaped state) (ht : WellTyped tx)
    (h : execute py handlers state tx = .ok new) : WellShaped new := by
  obtain ⟨t, handler, -, hget, hrun⟩ := (execute_eq_ok py).mp h
  exact hh t handler hget state tx new hs ht hrun

end ECN
