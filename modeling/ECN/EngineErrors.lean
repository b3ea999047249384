import ECN.ReferenceRuntime
import ECN.SupplyChain

/-!
# What the engine raises

The engine promises `ValueError` for a transaction that it rejects. The handlers read the
fields of a transaction and look its values up in dictionaries before they check them, so a
missing field, a value that has no hash or cannot be cast, or a state without balances ends
in another exception. For states of the documented shape the transactions without such an
exception are described exactly.
-/
namespace ECN

/-! ## Computations that raise nothing but `ValueError` -/

section OnlyValueError

variable {α β : Type}

def OnlyValueError (x : Except Exc α) : Prop := ∀ e, x = .error e → ∃ msg, e = .valueError msg

@[simp] theorem onlyValueError_ok (a : α) : OnlyValueError (.ok a) := by
  intro e h
  cases h

@[simp] theorem onlyValueError_pure (a : α) : OnlyValueError (pure a : Except Exc α) :=
  onlyValueError_ok a

@[simp] theorem onlyValueError_error (e : Exc) :
    OnlyValueError (.error e : Except Exc α) ↔ ∃ msg, e = .valueError msg := by
  simp [OnlyValueError]

/-- A sequence raises nothing else when its first part does not, nor the rest after it. -/
theorem onlyValueError_bind {x : Except Exc α} {f : α → Except Exc β} :
    OnlyValueError (x >>= f) ↔ OnlyValueError x ∧ ∀ a, x = .ok a → OnlyValueError (f a) := by
  cases x with
  | error e =>
    have hbind : (Except.error e >>= f) = .error e := rfl
    simp [hbind]
  | ok a =>
    have hbind : (Except.ok a >>= f) = f a := rfl
    simp [hbind]

@[simp] theorem onlyValueError_map {x : Except Exc α} {f : α → β} :
    OnlyValueError (f <$> x) ↔ OnlyValueError x := by
  cases x <;> simp [Functor.map, Except.map]

@[simp] theorem onlyValueError_raiseIf (condition : Bool) (msg : String) :
    OnlyValueError (raiseIf condition (.valueError msg)) := by
  cases condition <;> simp [raiseIf]

end OnlyValueError

namespace Value

/-- `int(v)` succeeds or raises `ValueError`. -/
def castable : Value → Bool
  | .scalar .none | .scalar (.float (.inf _)) => false
  | .scalar _ => true
  | .list _ | .dict _ => false

def hashable (v : Value) : Bool := v.asKey.isOk

def isStr : Value → Bool
  | .str _ => true
  | _ => false

theorem onlyValueError_toInt (py : Interp) (v : Value) :
    OnlyValueError (v.toInt py) ↔ v.castable = true := by
  cases v with
  | list vs => simp [toInt, castable]
  | dict es => simp [toInt, castable]
  | scalar s =>
    cases s with
    | none => simp [toInt, castable]
    | bool b => simp [toInt, castable]
    | int n => simp [toInt, castable]
    | float x => cases x <;> simp [toInt, PyFloat.toInt, castable]
    | str s => cases hparse : py.parseInt s <;> simp [toInt, castable, hparse]

theorem hashable_scalar (s : Scalar) : (Value.scalar s).hashable = true := rfl

theorem eq_scalar_of_hashable {v : Value} (h : v.hashable = true) : ∃ s, v = .scalar s := by
  cases v with
  | scalar s => exact ⟨s, rfl⟩
  | list vs => cases h
  | dict es => cases h

theorem asKey_of_not_hashable {v : Value} (h : v.hashable = false) :
    v.asKey = .error .typeError := by
  cases v with
  | scalar s => cases h
  | list vs => rfl
  | dict es => rfl

theorem contains_dict_scalar (es : PyDict) (s : Scalar) :
    (Value.dict es).contains (.scalar s) = .ok (es.get? s).isSome := rfl

/-- A value without a hash cannot be looked up. -/
theorem contains_dict_of_not_hashable (es : PyDict) {v : Value} (h : v.hashable = false) :
    (Value.dict es).contains v = .error .typeError := by
  have hcontains : (Value.dict es).contains v =
      v.asKey >>= fun k => pure (es.get? k).isSome := by
    cases v <;> rfl
  rw [hcontains, asKey_of_not_hashable h]
  rfl

end Value

theorem onlyValueError_item (d : PyDict) (k : Scalar) :
    OnlyValueError (PyDict.item d k) ↔ (d.get? k).isSome = true := by
  unfold PyDict.item
  cases d.get? k <;> simp

/-- A field that is read has to be there, and the rest may use its value. -/
theorem onlyValueError_item_bind {β : Type} {d : PyDict} {k : Scalar}
    {f : Value → Except Exc β} : OnlyValueError (PyDict.item d k >>= f) ↔
      ∃ v, d.get? k = some v ∧ OnlyValueError (f v) := by
  rw [onlyValueError_bind, onlyValueError_item]
  cases hget : d.get? k with
  | none => simp
  | some v => simp [PyDict.item_eq_ok, hget]

/-! ## States of the documented shapes -/

/-- A product has a status, and its checks, when there are any, are names. -/
def IsProduct (v : Value) : Prop :=
  ∃ p : PyDict, v = .dict p ∧ (p.get? (.str "status")).isSome = true ∧
    ∀ checks, p.get? (.str "checks") = some checks →
      ∃ names : List String, checks = .list (names.map Value.str)

def IsBalance (v : Value) : Prop := ∃ n, v = .int n

/-- The keys are strings and the values have a property. -/
def PyDict.Named (P : Value → Prop) (es : PyDict) : Prop := ∀ e ∈ es, (∃ s, e.1 = .str s) ∧ P e.2

/-- Balances map account names to integers, and products their ids to records. -/
structure DocumentedState (state : State) : Prop where
  balances : ∀ v, state.get? (.str "balances") = some v →
    ∃ es : PyDict, v = .dict es ∧ es.Named IsBalance
  products : ∀ v, state.get? (.str "products") = some v →
    ∃ es : PyDict, v = .dict es ∧ es.Named IsProduct

theorem PyDict.Named.entry {P : Value → Prop} {es : PyDict} (h : es.Named P) {k : Scalar}
    {v : Value} (hget : es.get? k = some v) : (∃ s, k = .str s) ∧ P v := by
  unfold PyDict.get? at hget
  obtain ⟨e, hfind, rfl⟩ := Option.map_eq_some_iff.mp hget
  obtain ⟨⟨s, hs⟩, hP⟩ := h e (List.mem_of_find?_eq_some hfind)
  have heq := List.find?_some hfind
  rw [hs, Scalar.str_eq] at heq
  exact ⟨⟨s, (of_decide_eq_true heq).symm⟩, hP⟩

/-! ## Ledger transactions -/

/-- The accounts are looked up one after the other, each when the ones before it exist. -/
def AccountsHashable (balances : Value) : List Value → Prop
  | [] => True
  | account :: accounts => account.hashable = true ∧
      (balances.contains account = .ok true → AccountsHashable balances accounts)

variable (py : Interp)

/-- The amount can be cast, and for a positive amount there are balances and the accounts can
be looked up in them. -/
def ReadsAmount (state : State) (amount : Value) (accounts : List Value) : Prop :=
  amount.castable = true ∧ ∀ n, amount.toInt py = .ok n → 0 < n →
    ∃ balances, state.get? (.str "balances") = some balances ∧ AccountsHashable balances accounts

/-- The part of a ledger handler after the fields are read. -/
theorem onlyValueError_amount {state : State} {amount : Value} {accounts : List Value}
    {msg : ℤ → String} {rest : ℤ → Except Exc State}
    (hrest : ∀ n, 0 < n → (OnlyValueError (rest n) ↔ ∃ balances,
      state.get? (.str "balances") = some balances ∧ AccountsHashable balances accounts)) :
    OnlyValueError (do
      let n ← amount.toInt py
      raiseIf (decide (n ≤ 0)) (.valueError (msg n))
      rest n) ↔ ReadsAmount py state amount accounts := by
  unfold ReadsAmount
  simp only [onlyValueError_bind, Value.onlyValueError_toInt, onlyValueError_raiseIf, true_and,
    raiseIf_eq_ok, decide_eq_false_iff_not, not_le, forall_const]
  refine and_congr_right fun _ => forall_congr' fun n => forall_congr' fun _ => ?_
  exact forall_congr' fun hpos => hrest n hpos

/-- A lookup in balances: a value without a hash raises, an unknown account is rejected, and
a known one has a name and an integer balance. -/
theorem onlyValueError_account {es : PyDict} (hes : es.Named IsBalance) {account : Value}
    {accounts : List Value} {msg : String} {rest : Except Exc State}
    (hrest : ∀ s n, account = .str s → es.get? (.str s) = some (.int n) →
      (OnlyValueError rest ↔ AccountsHashable (.dict es) accounts)) :
    OnlyValueError (do
      raiseIf (!(← (Value.dict es).contains account)) (.valueError msg)
      rest) ↔ AccountsHashable (.dict es) (account :: accounts) := by
  unfold AccountsHashable
  cases hkey : account.hashable with
  | false => simp [Value.contains_dict_of_not_hashable es hkey, onlyValueError_bind]
  | true =>
    obtain ⟨s, rfl⟩ := Value.eq_scalar_of_hashable hkey
    simp only [onlyValueError_bind, Value.contains_dict_scalar, true_and]
    cases hget : es.get? s with
    | none => simp
    | some v =>
      obtain ⟨⟨t, rfl⟩, n, rfl⟩ := hes.entry hget
      simpa using hrest t n rfl hget

/-- The fields are there, and their values meet a condition. -/
def ReadsFields (tx : Transaction) : List String → (List Value → Prop) → Prop
  | [], P => P []
  | name :: names, P => ∃ v, tx.get? (.str name) = some v ∧
      ReadsFields tx names fun vs => P (v :: vs)

/-- What a ledger handler needs: its account fields, the amount, and what it does with them. -/
def ReadsLedger (accountFields : List String) (state : State) (tx : Transaction) : Prop :=
  ReadsFields tx accountFields fun accounts => ∃ amount,
    tx.get? (.str "amount") = some amount ∧ ReadsAmount py state amount accounts

section Ledger

variable {py} {state : State} {tx : Transaction} (hs : DocumentedState state)
include hs

/-- Reading the balances of a documented state and going on with them. -/
theorem onlyValueError_balances {accounts : List Value} {rest : Value → Except Exc State}
    (hrest : ∀ es : PyDict, es.Named IsBalance →
      (OnlyValueError (rest (.dict es)) ↔ AccountsHashable (.dict es) accounts)) :
    OnlyValueError (PyDict.item state (.str "balances") >>= rest) ↔ ∃ balances,
      state.get? (.str "balances") = some balances ∧ AccountsHashable balances accounts := by
  rw [onlyValueError_item_bind]
  refine exists_congr fun balances => and_congr_right fun hget => ?_
  obtain ⟨es, rfl, hes⟩ := hs.balances balances hget
  exact hrest es hes

theorem onlyValueError_handleTransfer :
    OnlyValueError (handleTransfer py state tx) ↔ ReadsLedger py ["from", "to"] state tx := by
  unfold ReadsLedger
  simp only [ReadsFields]
  unfold handleTransfer
  simp only [onlyValueError_item_bind]
  refine exists_congr fun sender => and_congr_right fun _ => exists_congr fun receiver =>
    and_congr_right fun _ => exists_congr fun v => and_congr_right fun _ => ?_
  refine onlyValueError_amount py fun n hpos => ?_
  refine onlyValueError_balances hs fun es hes => ?_
  refine onlyValueError_account hes fun a m ha hheld => ?_
  refine onlyValueError_account hes fun b k hb hhas => ?_
  subst ha hb
  have hitem : (Value.dict es).item (.str a) = .ok (.int m) := PyDict.item_eq_ok.mpr hheld
  have hafter : ∀ v, ((Value.dict (es.set (.str a) (.int v))).item (.str b)) =
      .ok (.int (if b = a then v else k)) := by
    intro v
    refine PyDict.item_eq_ok.mpr ?_
    rw [PyDict.get?_set_str]
    split_ifs <;> simp [hhas]
  simp [onlyValueError_bind, hitem, Value.ltInt_int, Value.addInt_int, Value.setItem_dict_str,
    hafter, AccountsHashable]

theorem onlyValueError_handleMint :
    OnlyValueError (handleMint py state tx) ↔ ReadsLedger py ["to"] state tx := by
  unfold handleMint ReadsLedger
  simp only [ReadsFields, onlyValueError_item_bind]
  refine exists_congr fun receiver => and_congr_right fun _ => exists_congr fun v =>
    and_congr_right fun _ => ?_
  refine onlyValueError_amount py fun n hpos => ?_
  refine onlyValueError_balances hs fun es hes => ?_
  unfold AccountsHashable
  cases hkey : receiver.hashable with
  | false => simp [Value.getOr, Value.asKey_of_not_hashable hkey, onlyValueError_bind]
  | true =>
    obtain ⟨s, rfl⟩ := Value.eq_scalar_of_hashable hkey
    have hheld : ∃ m : ℤ, (Value.dict es).getOr (.scalar s) (.int 0) = .ok (.int m) := by
      cases hget : es.get? s with
      | none => exact ⟨0, by simp [Value.getOr, Value.asKey, hget, bind, Except.bind, pure,
          Except.pure]⟩
      | some w =>
        obtain ⟨-, m, rfl⟩ := hes.entry hget
        exact ⟨m, by simp [Value.getOr, Value.asKey, hget, bind, Except.bind, pure, Except.pure]⟩
    obtain ⟨m, hheld⟩ := hheld
    have hset : ∀ w, (Value.dict es).setItem (.scalar s) w = .ok (.dict (es.set s w)) :=
      fun w => rfl
    simp [onlyValueError_bind, hheld, Value.addInt_int, hset, AccountsHashable]

theorem onlyValueError_handleBurn :
    OnlyValueError (handleBurn py state tx) ↔ ReadsLedger py ["from"] state tx := by
  unfold handleBurn ReadsLedger
  simp only [ReadsFields, onlyValueError_item_bind]
  refine exists_congr fun sender => and_congr_right fun _ => exists_congr fun v =>
    and_congr_right fun _ => ?_
  refine onlyValueError_amount py fun n hpos => ?_
  refine onlyValueError_balances hs fun es hes => ?_
  refine onlyValueError_account hes fun a m ha hheld => ?_
  subst ha
  have hitem : (Value.dict es).item (.str a) = .ok (.int m) := PyDict.item_eq_ok.mpr hheld
  simp [onlyValueError_bind, hitem, Value.ltInt_int, Value.addInt_int, Value.setItem_dict_str,
    AccountsHashable]

end Ledger

/-! ## Supply-chain transactions -/

/-- What a supply-chain handler needs: a product id that can be looked up, and its fields. -/
def ReadsProduct (fields : List String) (tx : Transaction) : Prop :=
  ReadsFields tx ("product_id" :: fields) fun values => ∀ id ∈ values.head?, id.hashable = true

/-- The checks that are recorded for a product; none for an unknown one. -/
def recordedChecks (state : State) (productId : Value) : List Value :=
  match getProduct py state productId with
  | .ok product =>
    match product.getOr (.str "checks") (.list []) with
    | .ok (.list checks) => checks
    | _ => []
  | .error _ => []

section SupplyChain

variable {py} {state : State} {tx : Transaction} (hs : DocumentedState state)
include hs

/-- A product that is found has a string as its id, and its record is in the state. -/
theorem exists_product {productId product : Value}
    (h : getProduct py state productId = .ok product) :
    ∃ id, ∃ ps p : PyDict, productId = .str id ∧ product = .dict p ∧
      state.get? (.str "products") = some (.dict ps) ∧ IsProduct (.dict p) := by
  obtain ⟨products, hget, hitem⟩ := getProduct_item py h
  obtain ⟨ps, rfl, hps⟩ := hs.products products hget
  obtain ⟨k, hk, hlookup⟩ := bind_eq_ok.mp hitem
  obtain ⟨⟨id, rfl⟩, hproduct⟩ := hps.entry (PyDict.item_eq_ok.mp hlookup)
  have hid : productId = .str id := by
    cases productId with
    | scalar s => rw [Except.ok.inj hk]
    | list vs => cases hk
    | dict es => cases hk
  obtain ⟨p, rfl, hrecord⟩ := hproduct
  exact ⟨id, ps, p, hid, rfl, hget, p, rfl, hrecord⟩

/-- Looking a product up raises something else for an id without a hash only. -/
theorem onlyValueError_getProduct (productId : Value) :
    OnlyValueError (getProduct py state productId) ↔ productId.hashable = true := by
  have hproducts : ∃ ps, (state.get? (.str "products")).getD (.dict []) = .dict ps := by
    cases hget : state.get? (.str "products") with
    | none => exact ⟨[], rfl⟩
    | some v =>
      obtain ⟨ps, rfl, -⟩ := hs.products v hget
      exact ⟨ps, rfl⟩
  obtain ⟨ps, hps⟩ := hproducts
  unfold getProduct
  rw [hps]
  cases hkey : productId.hashable with
  | false => simp [Value.contains_dict_of_not_hashable ps hkey, onlyValueError_bind]
  | true =>
    obtain ⟨s, rfl⟩ := Value.eq_scalar_of_hashable hkey
    simp only [onlyValueError_bind, Value.contains_dict_scalar, iff_true]
    cases hget : PyDict.get? ps s with
    | none => simp
    | some v =>
      have hitem : (Value.dict ps).item (.scalar s) = .ok v := PyDict.item_eq_ok.mpr hget
      simp [hitem]

/-- What follows a lookup matters for products that are found. -/
theorem onlyValueError_product {productId : Value} {rest : Value → Except Exc State}
    {found : Prop} (hrest : ∀ id (p : PyDict), productId = .str id →
      getProduct py state productId = .ok (.dict p) → IsProduct (.dict p) →
      (∀ product, OnlyValueError (putProduct state (.str id) product)) →
      (OnlyValueError (rest (.dict p)) ↔ found)) :
    OnlyValueError (getProduct py state productId >>= rest) ↔ productId.hashable = true ∧
      ((∃ product, getProduct py state productId = .ok product) → found) := by
  rw [onlyValueError_bind, onlyValueError_getProduct hs]
  refine and_congr_right fun _ => ?_
  rw [forall_exists_index]
  refine forall_congr' fun product => forall_congr' fun hproduct => ?_
  obtain ⟨id, ps, p, rfl, rfl, hget, hrecord⟩ := exists_product hs hproduct
  refine hrest id p rfl hproduct hrecord fun product => ?_
  have hitem : PyDict.item state (.str "products") = .ok (.dict ps) := PyDict.item_eq_ok.mpr hget
  simp [putProduct, onlyValueError_bind, hitem, Value.setItem_dict_str]

theorem onlyValueError_known {productId : Value} {rest : Value → Except Exc State}
    (hrest : ∀ id (p : PyDict), (p.get? (.str "status")).isSome = true →
      (∀ product, OnlyValueError (putProduct state (.str id) product)) →
      productId = .str id → OnlyValueError (rest (.dict p))) :
    OnlyValueError (getProduct py state productId >>= rest) ↔ productId.hashable = true := by
  have hiff : ∀ id (p : PyDict), productId = .str id →
      getProduct py state productId = .ok (.dict p) → IsProduct (.dict p) →
      (∀ product, OnlyValueError (putProduct state (.str id) product)) →
      (OnlyValueError (rest (.dict p)) ↔ True) := by
    intro id p hid _ hrecord hput
    obtain ⟨p', hp, hstatus, -⟩ := hrecord
    obtain rfl := Value.dict.inj hp
    exact iff_true_intro (hrest id p hstatus hput hid)
  rw [onlyValueError_product hs hiff]
  simp

theorem onlyValueError_handleShip : OnlyValueError (handleShip py state tx) ↔
    ReadsProduct ["destination", "shipper"] tx := by
  unfold handleShip ReadsProduct
  simp only [ReadsFields, onlyValueError_item_bind]
  refine exists_congr fun id => and_congr_right fun _ => exists_congr fun destination =>
    and_congr_right fun _ => exists_congr fun shipper => and_congr_right fun _ => ?_
  rw [onlyValueError_known hs]
  · simp
  · rintro id p hstatus hput rfl
    simp [onlyValueError_bind, Value.item, Value.asKey, onlyValueError_item, hstatus,
      Value.setItem_dict_str, hput]

theorem onlyValueError_handleReceive : OnlyValueError (handleReceive py state tx) ↔
    ReadsProduct ["receiver"] tx := by
  unfold handleReceive ReadsProduct
  simp only [ReadsFields, onlyValueError_item_bind]
  refine exists_congr fun id => and_congr_right fun _ => exists_congr fun receiver =>
    and_congr_right fun _ => ?_
  rw [onlyValueError_known hs]
  · simp
  · rintro id p hstatus hput rfl
    simp [onlyValueError_bind, Value.item, Value.asKey, onlyValueError_item, hstatus,
      Value.setItem_dict_str, hput]

theorem onlyValueError_handleQuarantine : OnlyValueError (handleQuarantine py state tx) ↔
    ReadsProduct ["reason"] tx := by
  unfold handleQuarantine ReadsProduct
  simp only [ReadsFields, onlyValueError_item_bind]
  refine exists_congr fun id => and_congr_right fun _ => exists_congr fun reason =>
    and_congr_right fun _ => ?_
  rw [onlyValueError_known hs]
  · simp
  · rintro id p hstatus hput rfl
    simp [onlyValueError_bind, Value.item, Value.asKey, onlyValueError_item, hstatus,
      Value.setItem_dict_str, hput]

theorem onlyValueError_handleRelease : OnlyValueError (handleRelease py state tx) ↔
    ReadsProduct [] tx := by
  unfold handleRelease ReadsProduct
  simp only [ReadsFields, onlyValueError_item_bind]
  refine exists_congr fun id => and_congr_right fun _ => ?_
  rw [onlyValueError_known hs]
  · simp
  · rintro id p hstatus hput rfl
    simp [onlyValueError_bind, Value.item, Value.asKey, onlyValueError_item, hstatus,
      Value.setItem_dict_str, popField, hput]

end SupplyChain

/-! ### Inspections -/

section Inspections

theorem onlyValueError_lt_name (checkName : Value) {name : Value} (hname : ∃ s, name = .str s) :
    OnlyValueError (checkName.lt name) ↔ checkName.isStr = true := by
  obtain ⟨s, rfl⟩ := hname
  cases checkName with
  | list vs => simp [Value.lt, Value.isStr]
  | dict es => simp [Value.lt, Value.isStr]
  | scalar t => cases t <;> simp [Value.lt, Value.isStr, Scalar.lt, Scalar.num]

variable {names : List Value} (hnames : ∀ w ∈ names, ∃ s, w = .str s) (checkName : Value)
include hnames

/-- Only a name can be sorted among others. -/
theorem onlyValueError_insertSorted : OnlyValueError (insertSorted Value.lt checkName names) ↔
    checkName.isStr = true ∨ names = [] := by
  induction names with
  | nil => simp [insertSorted]
  | cons name names ih =>
    have hlt := onlyValueError_lt_name checkName (hnames name List.mem_cons_self)
    have hrest := ih fun w hw => hnames w (List.mem_cons_of_mem name hw)
    simp only [insertSorted, onlyValueError_bind, hlt, reduceCtorEq, or_false]
    constructor
    · intro h
      exact h.1
    · intro hstr
      refine ⟨hstr, fun less _ => ?_⟩
      cases less with
      | true => simp
      | false => simpa [onlyValueError_bind] using hrest.mpr (.inl hstr)

theorem exists_pySorted_names : ∃ sorted, pySorted Value.lt names = .ok sorted ∧
    sorted.Perm names := by
  have hlt : ∀ v w : Value, (∃ s, v = .str s) → (∃ t, w = .str t) →
      ∃ less, v.lt w = .ok less := by
    rintro v w ⟨s, rfl⟩ ⟨t, rfl⟩
    exact ⟨decide (s < t), by simp [Value.lt]⟩
  obtain ⟨sorted, hsorted⟩ := pySorted_ok Value.lt (fun v => ∃ s, v = .str s) hlt hnames
  exact ⟨sorted, hsorted, pySorted_perm hsorted⟩

theorem onlyValueError_recordCheck : OnlyValueError (recordCheck (.list names) checkName) ↔
    checkName.isStr = true ∨ names = [] := by
  unfold recordCheck
  obtain ⟨sorted, hsorted, hperm⟩ := exists_pySorted_names hnames
  have hsort : pySorted Value.lt (names ++ [checkName]) =
      insertSorted Value.lt checkName sorted := by
    have hfold : names.foldlM (fun sorted x => insertSorted Value.lt x sorted) [] =
        .ok sorted := hsorted
    unfold pySorted
    rw [List.foldlM_append, hfold]
    exact bind_pure (insertSorted Value.lt checkName sorted)
  have hinsert := onlyValueError_insertSorted (fun w hw => hnames w (hperm.mem_iff.mp hw)) checkName
  have hnil : sorted = [] ↔ names = [] := by
    rw [← List.length_eq_zero_iff, hperm.length_eq, List.length_eq_zero_iff]
  cases hpresent : names.any fun v => v.eq checkName with
  | false =>
    simpa [Value.contains, onlyValueError_bind, hpresent, hsort, hnil] using hinsert
  | true =>
    -- A check that is there already is one of the names.
    obtain ⟨name, hmem, heq⟩ := List.any_eq_true.mp hpresent
    obtain ⟨s, rfl⟩ := hnames name hmem
    have hstr : checkName.isStr = true := by
      cases checkName with
      | list vs => simp [Value.eq] at heq
      | dict es => simp [Value.eq] at heq
      | scalar t =>
        simp only [Value.eq, Scalar.str_eq, decide_eq_true_eq] at heq
        rw [← heq]
        rfl
    simp [Value.contains, onlyValueError_bind, hpresent, hstr]

end Inspections

/-- What an inspection needs besides: a name, unless no check is recorded yet. -/
def ReadsInspection (state : State) (tx : Transaction) : Prop :=
  ∃ productId, tx.get? (.str "product_id") = some productId ∧ ∃ checkName,
    tx.get? (.str "check_name") = some checkName ∧ productId.hashable = true ∧
      (checkName.isStr = true ∨ recordedChecks py state productId = [])

theorem recordedChecks_of_not_found {state : State} {productId : Value}
    (h : ¬ ∃ product, getProduct py state productId = .ok product) :
    recordedChecks py state productId = [] := by
  unfold recordedChecks
  cases hproduct : getProduct py state productId with
  | error e => rfl
  | ok product => exact absurd ⟨product, hproduct⟩ h

/-- The record that was found takes the check as its names do. -/
theorem onlyValueError_addCheck {state : State} {productId checkName : Value} {p : PyDict}
    (hfound : getProduct py state productId = .ok (.dict p)) (hp : IsProduct (.dict p))
    (hput : ∀ product, OnlyValueError (putProduct state productId product)) :
    OnlyValueError (do
      let checks ← (Value.dict p).getOr (.str "checks") (.list [])
      let checks ← recordCheck checks checkName
      putProduct state productId (← (Value.dict p).setItem (.str "checks") checks)) ↔
        checkName.isStr = true ∨ recordedChecks py state productId = [] := by
  obtain ⟨p', heq, -, hchecks⟩ := hp
  obtain rfl := Value.dict.inj heq
  have hnames : ∃ names : List String, (Value.dict p).getOr (.str "checks") (.list []) =
      .ok (.list (names.map Value.str)) := by
    cases hget : p.get? (.str "checks") with
    | none =>
      refine ⟨[], ?_⟩
      simp [Value.getOr, Value.asKey, hget, bind, Except.bind, pure, Except.pure]
    | some checks =>
      obtain ⟨names, rfl⟩ := hchecks checks hget
      refine ⟨names, ?_⟩
      simp [Value.getOr, Value.asKey, hget, bind, Except.bind, pure, Except.pure]
  obtain ⟨names, hor⟩ := hnames
  have hrecorded : recordedChecks py state productId = names.map Value.str := by
    simp [recordedChecks, hfound, hor]
  have hstr : ∀ w ∈ names.map Value.str, ∃ s, w = .str s := by
    intro w hw
    obtain ⟨s, -, rfl⟩ := List.mem_map.mp hw
    exact ⟨s, rfl⟩
  simp [onlyValueError_bind, hor, onlyValueError_recordCheck hstr, hrecorded,
    Value.setItem_dict_str, hput]

section Execution

variable {py} {state : State} {tx : Transaction} (hs : DocumentedState state)
include hs

theorem onlyValueError_handleInspect :
    OnlyValueError (handleInspect py state tx) ↔ ReadsInspection py state tx := by
  unfold handleInspect ReadsInspection
  simp only [onlyValueError_item_bind]
  refine exists_congr fun productId => and_congr_right fun _ => exists_congr fun checkName =>
    and_congr_right fun _ => ?_
  refine Iff.trans (onlyValueError_product hs fun id p hid hfound hp hput =>
    onlyValueError_addCheck py hfound hp (hid ▸ hput)) (and_congr_right fun _ => ?_)
  constructor
  · intro h
    by_cases hfound : ∃ product, getProduct py state productId = .ok product
    · exact h hfound
    · exact .inr (recordedChecks_of_not_found py hfound)
  · intro h _
    exact h

end Execution

/-! ## The engine -/

/-- What the handler of a type needs to read; nothing for an unknown type. -/
def ReadsHandled (state : State) (tx : Transaction) : String → Prop
  | "transfer" => ReadsLedger py ["from", "to"] state tx
  | "mint" => ReadsLedger py ["to"] state tx
  | "burn" => ReadsLedger py ["from"] state tx
  | "ship" => ReadsProduct ["destination", "shipper"] tx
  | "receive" => ReadsProduct ["receiver"] tx
  | "inspect" => ReadsInspection py state tx
  | "quarantine" => ReadsProduct ["reason"] tx
  | "release" => ReadsProduct [] tx
  | _ => True

/-- The type can be looked up in the table, and its handler can read the transaction. -/
def Readable (state : State) (tx : Transaction) : Prop :=
  ∀ txType, tx.get? (.str "type") = some txType →
    txType.hashable = true ∧ ∀ t, txType = .str t → ReadsHandled py state tx t

theorem onlyValueError_handler {state : State} {tx : Transaction} (hs : DocumentedState state)
    (t : String) : (∀ handler, registerSupplyChainHandlers py (builtinHandlers py) t =
      some handler → OnlyValueError (handler state tx)) ↔ ReadsHandled py state tx t := by
  unfold ReadsHandled
  split
  · simp [registerSupplyChainHandlers, registerHandler, builtinHandlers,
      onlyValueError_handleTransfer hs]
  · simp [registerSupplyChainHandlers, registerHandler, builtinHandlers,
      onlyValueError_handleMint hs]
  · simp [registerSupplyChainHandlers, registerHandler, builtinHandlers,
      onlyValueError_handleBurn hs]
  · simp [registerSupplyChainHandlers, registerHandler, onlyValueError_handleShip hs]
  · simp [registerSupplyChainHandlers, registerHandler, onlyValueError_handleReceive hs]
  · simp [registerSupplyChainHandlers, registerHandler, onlyValueError_handleInspect hs]
  · simp [registerSupplyChainHandlers, registerHandler, onlyValueError_handleQuarantine hs]
  · simp [registerSupplyChainHandlers, registerHandler, onlyValueError_handleRelease hs]
  next htransfer hmint hburn hship hreceive hinspect hquarantine hrelease =>
    have hnone : registerSupplyChainHandlers py (builtinHandlers py) t = none := by
      simp [registerSupplyChainHandlers, registerHandler, builtinHandlers, if_neg hship,
        if_neg hreceive, if_neg hinspect, if_neg hquarantine, if_neg hrelease]
    simp [hnone]

/-- On a documented state the engine returns a state or raises `ValueError` for exactly the
transactions that its handlers can read. -/
theorem execute_onlyValueError_iff {state : State} (hs : DocumentedState state)
    (tx : Transaction) : OnlyValueError (execute py
      (registerSupplyChainHandlers py (builtinHandlers py)) state tx) ↔
        Readable py state tx := by
  unfold Readable execute
  cases htype : tx.get? (.str "type") with
  | none => simp [Value.none]
  | some txType =>
    simp only [Option.getD_some, Option.some.injEq, forall_eq']
    cases txType with
    | list vs => simp [Value.hashable, Value.asKey, Except.isOk, Except.toBool]
    | dict es => simp [Value.hashable, Value.asKey, Except.isOk, Except.toBool]
    | scalar s =>
      cases s with
      | none => simp [Value.hashable_scalar]
      | bool b => simp [Value.hashable_scalar]
      | int n => simp [Value.hashable_scalar]
      | float x => simp [Value.hashable_scalar]
      | str t =>
        have hhandler : _ ↔ ReadsHandled py state tx t := onlyValueError_handler py hs t
        have htypes : ∀ u, Value.str t = .str u ↔ u = t := by
          intro u
          simp [Value.str, eq_comm]
        simp only [Value.hashable_scalar, htypes, forall_eq, true_and, ← hhandler]
        cases registerSupplyChainHandlers py (builtinHandlers py) t with
        | none => simp
        | some handler => simp

def aliceState : State := [(.str "balances", .dict [(.str "alice", .int 10)])]

theorem documented_aliceState : DocumentedState aliceState where
  balances v hv := by
    obtain rfl : .dict [(.str "alice", .int 10)] = v := Option.some.inj hv
    refine ⟨_, rfl, fun e he => ?_⟩
    rw [List.mem_singleton.mp he]
    exact ⟨⟨"alice", rfl⟩, 10, rfl⟩
  products v hv := by
    have hnone : aliceState.get? (.str "products") = none := by decide
    rw [hnone] at hv
    cases hv

/-- A mint that says nothing of an amount. -/
def unmeasuredMint : Transaction := [(.str "type", .str "mint"), (.str "to", .str "alice")]

theorem execute_onlyValueError_aliceState : DocumentedState aliceState ∧
    (OnlyValueError (execute referenceInterp
      (registerSupplyChainHandlers referenceInterp (builtinHandlers referenceInterp))
      aliceState unmeasuredMint) ↔ Readable referenceInterp aliceState unmeasuredMint) :=
  ⟨documented_aliceState,
    execute_onlyValueError_iff referenceInterp documented_aliceState unmeasuredMint⟩

/-- The missing amount ends in a `KeyError`. -/
theorem unmeasuredMint_keyError : DocumentedState aliceState ∧
    ¬ OnlyValueError (execute referenceInterp
      (registerSupplyChainHandlers referenceInterp (builtinHandlers referenceInterp))
      aliceState unmeasuredMint) := by
  refine ⟨documented_aliceState, ?_⟩
  have hexecute : execute referenceInterp
      (registerSupplyChainHandlers referenceInterp (builtinHandlers referenceInterp))
      aliceState unmeasuredMint = .error (.keyError (.str "amount")) := by
    decide
  simp [hexecute]

end ECN
