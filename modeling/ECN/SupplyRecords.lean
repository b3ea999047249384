import ECN.Custody
import ECN.Supply

/-!
# The products of a state as a chain

A state that starts with freshly manufactured products holds a chain of product records. A
supply-chain transaction that succeeds is a movement of one of them, and one that fails changes
nothing, so a run of the state manager is a history of movements.
-/
namespace ECN

variable {rt : Runtime}

/-! ## Records in states -/

def Status.text : Status → String
  | .manufactured => "manufactured"
  | .inTransit => "in_transit"
  | .atCustoms => "at_customs"
  | .quarantined => "quarantined"
  | .delivered => "delivered"

theorem Status.text_injective : Function.Injective Status.text := by
  intro s t h
  cases s <;> cases t <;> first | rfl | exact absurd h (by decide)

/-- A product as the handlers keep it: the reason is the last field while it is there. -/
def recordFields (status location owner : String) (checks : List String)
    (reason : Option String) : PyDict :=
  [(.str "status", .str status), (.str "location", .str location), (.str "owner", .str owner),
    (.str "checks", .list (checks.map .str))] ++
    reason.toList.map fun reason => (.str "quarantine_reason", .str reason)

def Product.fields (p : Product) : PyDict :=
  recordFields p.status.text p.location p.owner p.checks p.reason

section RecordFields

variable (status location owner : String) (checks : List String) (reason : Option String)

@[simp] theorem get?_status : PyDict.get? (recordFields status location owner checks reason)
    (.str "status") = some (.str status) := rfl

@[simp] theorem get?_location : PyDict.get? (recordFields status location owner checks reason)
    (.str "location") = some (.str location) := rfl

@[simp] theorem get?_owner : PyDict.get? (recordFields status location owner checks reason)
    (.str "owner") = some (.str owner) := rfl

@[simp] theorem get?_checks : PyDict.get? (recordFields status location owner checks reason)
    (.str "checks") = some (.list (checks.map .str)) := rfl

@[simp] theorem get?_reason : PyDict.get? (recordFields status location owner checks reason)
    (.str "quarantine_reason") = reason.map .str := by
  cases reason <;> rfl

@[simp] theorem set_status (v : String) :
    PyDict.set (recordFields status location owner checks reason) (.str "status") (.str v) =
      recordFields v location owner checks reason := rfl

@[simp] theorem set_location (v : String) :
    PyDict.set (recordFields status location owner checks reason) (.str "location") (.str v) =
      recordFields status v owner checks reason := rfl

@[simp] theorem set_owner (v : String) :
    PyDict.set (recordFields status location owner checks reason) (.str "owner") (.str v) =
      recordFields status location v checks reason := rfl

@[simp] theorem set_checks (vs : List String) :
    PyDict.set (recordFields status location owner checks reason) (.str "checks")
      (.list (vs.map .str)) = recordFields status location owner vs reason := rfl

@[simp] theorem set_reason (v : String) :
    PyDict.set (recordFields status location owner checks none) (.str "quarantine_reason")
      (.str v) = recordFields status location owner checks (some v) := rfl

@[simp] theorem pop_reason : PyDict.pop (recordFields status location owner checks reason)
    (.str "quarantine_reason") = recordFields status location owner checks none := by
  cases reason <;> rfl

end RecordFields

def Chain.toState (chain : Chain) : State :=
  [(.str "products", .dict (itemsOf (fun p : Product => .dict p.fields) chain))]

theorem makeInitialState_eq (productIds : List String) :
    makeInitialState productIds = (Chain.initial productIds).toState := by
  have hfold : ∀ chain : Chain, productIds.foldl (fun d pid => PyDict.set d (.str pid) (.dict
      [(.str "status", .str "manufactured"), (.str "location", .str "factory"),
        (.str "owner", .str "manufacturer"), (.str "checks", .list [])]))
      (itemsOf (fun p : Product => .dict p.fields) chain) =
      itemsOf (fun p : Product => .dict p.fields)
        ((productIds.map fun productId => (productId, Product.initial)).foldl
          (fun d e => d.set e.1 e.2) chain) := by
    induction productIds with
    | nil => exact fun chain => rfl
    | cons productId productIds ih =>
      intro chain
      rw [List.foldl_cons, List.map_cons, List.foldl_cons, ← ih, ← set_itemsOf]
      rfl
  rw [makeInitialState, Chain.toState, Chain.initial, OrderedDict.ofList, ← hfold]
  rfl

/-! ## Reading transactions -/

/-- A string field. -/
def stringField (tx : Transaction) (field : String) : Option String :=
  match PyDict.get? tx (.str field) with
  | some (.str s) => some s
  | _ => none

/-- The product and the movement that a complete transaction names. -/
def readMovement (tx : Transaction) : Option (String × Movement) := do
  let productId ← stringField tx "product_id"
  match ← stringField tx "type" with
  | "ship" => return (productId, .ship (← stringField tx "destination") (← stringField tx "shipper"))
  | "receive" => return (productId, .receive (← stringField tx "receiver")
      ((PyDict.get? tx (.str "at_customs")).getD (.bool false)).truthy)
  | "inspect" => return (productId, .inspect (← stringField tx "check_name"))
  | "quarantine" => return (productId, .quarantine (← stringField tx "reason"))
  | "release" => return (productId, .release)
  | _ => none

/-- One of the five transactions; the fields that it has are strings. -/
structure SupplyTx (tx : Transaction) : Prop where
  type : ∃ t ∈ ["ship", "receive", "inspect", "quarantine", "release"],
    PyDict.get? tx (.str "type") = some (.str t)
  fields : ∀ field ∈ ["product_id", "destination", "shipper", "receiver", "check_name", "reason"],
    ∀ v, PyDict.get? tx (.str field) = some v → ∃ s, v = .str s

theorem SupplyTx.item {tx : Transaction} (ht : SupplyTx tx) {field : String} {v : Value}
    (hfield : field ∈ ["product_id", "destination", "shipper", "receiver", "check_name", "reason"])
    (h : PyDict.item tx (.str field) = .ok v) :
    ∃ s, v = .str s ∧ stringField tx field = some s := by
  have hget := PyDict.item_eq_ok.mp h
  obtain ⟨s, rfl⟩ := ht.fields field hfield v hget
  exact ⟨s, rfl, by rw [stringField, hget]⟩

/-! ## Handlers as movements -/

variable {py : Interp} {chain : Chain} {tx : Transaction} {new : State} {productId : String}

theorem getProduct_toState {v : Value}
    (h : getProduct py chain.toState (.str productId) = .ok v) :
    ∃ p, chain.get? productId = some p ∧ v = .dict p.fields := by
  obtain ⟨products, hget, hitem⟩ := getProduct_item py h
  obtain rfl := Option.some_inj.mp hget
  have hfound : PyDict.get? (itemsOf (fun p : Product => .dict p.fields) chain)
      (.str productId) = some v := PyDict.item_eq_ok.mp hitem
  rw [get?_itemsOf, Option.map_eq_some_iff] at hfound
  obtain ⟨p, hp, rfl⟩ := hfound
  exact ⟨p, hp, rfl⟩

theorem putProduct_toState (chain : Chain) (productId : String) (q : Product) :
    putProduct chain.toState (.str productId) (.dict q.fields) =
      .ok (Chain.toState (chain.set productId q)) := by
  have hset := set_itemsOf (fun p : Product => .dict p.fields) chain productId q
  rw [Chain.toState, Chain.toState, ← hset]
  rfl

/-- What an accepted transaction does to the chain. -/
def Moves (chain : Chain) (tx : Transaction) (new : State) : Prop :=
  ∃ event chain', readMovement tx = some event ∧ chain.move event = some chain' ∧
    new = chain'.toState

theorem moves_of_put {p q : Product} {mv : Movement} {fields : PyDict}
    (hread : readMovement tx = some (productId, mv)) (hp : chain.get? productId = some p)
    (hq : p.move mv = some q) (hfields : fields = q.fields)
    (hput : putProduct chain.toState (.str productId) (.dict fields) = .ok new) :
    Moves chain tx new := by
  rw [hfields, putProduct_toState] at hput
  exact ⟨(productId, mv), _, hread, Chain.move_eq_some.mpr ⟨p, q, hp, hq, rfl⟩,
    (Except.ok.inj hput).symm⟩

attribute [simp] Value.setItem_dict_str

@[simp] theorem item_status (p : Product) :
    (Value.dict p.fields).item (.str "status") = .ok (.str p.status.text) := rfl

/-- A status is compared by its text. -/
theorem text_eq (p : Product) (s : Status) :
    (Value.str p.status.text).eq (.str s.text) = decide (p.status = s) := by
  change (Scalar.str p.status.text).eq (.str s.text) = _
  simp [Status.text_injective.eq_iff]

@[simp] theorem eq_in_transit (p : Product) :
    (Value.str p.status.text).eq (.str "in_transit") = decide (p.status = .inTransit) :=
  text_eq p .inTransit

@[simp] theorem eq_quarantined (p : Product) :
    (Value.str p.status.text).eq (.str "quarantined") = decide (p.status = .quarantined) :=
  text_eq p .quarantined

theorem moves_handleShip (ht : SupplyTx tx) (htype : stringField tx "type" = some "ship")
    (h : handleShip py chain.toState tx = .ok new) : Moves chain tx new := by
  simp only [handleShip, bind_eq_ok, raiseIf_eq_ok] at h
  obtain ⟨_, hid, _, hdest, _, hshipper, product, hproduct, status, hstatus, -, hallowed,
    _, h1, _, h2, _, h3, hput⟩ := h
  obtain ⟨productId, rfl, hidField⟩ := ht.item (by decide) hid
  obtain ⟨destination, rfl, hdestField⟩ := ht.item (by decide) hdest
  obtain ⟨shipper, rfl, hshipperField⟩ := ht.item (by decide) hshipper
  obtain ⟨p, hp, rfl⟩ := getProduct_toState hproduct
  rw [item_status] at hstatus
  obtain rfl := Except.ok.inj hstatus
  obtain rfl := Except.ok.inj h1
  obtain rfl := Except.ok.inj h2
  obtain rfl := Except.ok.inj h3
  have hread : readMovement tx = some (productId, .ship destination shipper) := by
    simp [readMovement, hidField, hdestField, hshipperField, htype]
  have hmove : ¬ (p.status = .inTransit ∨ p.status = .quarantined) := by simpa using hallowed
  obtain ⟨q, hq, hfields⟩ : ∃ q, p.move (.ship destination shipper) = some q ∧
      recordFields "in_transit" destination shipper p.checks p.reason = q.fields :=
    ⟨_, dif_neg hmove, rfl⟩
  exact moves_of_put hread hp hq (by simpa [Product.fields] using hfields) hput

theorem moves_handleReceive (ht : SupplyTx tx) (htype : stringField tx "type" = some "receive")
    (h : handleReceive py chain.toState tx = .ok new) : Moves chain tx new := by
  simp only [handleReceive, bind_eq_ok, raiseIf_eq_ok] at h
  obtain ⟨_, hid, _, hreceiver, product, hproduct, status, hstatus, -, hallowed,
    _, h1, _, h2, hput⟩ := h
  obtain ⟨productId, rfl, hidField⟩ := ht.item (by decide) hid
  obtain ⟨receiver, rfl, hreceiverField⟩ := ht.item (by decide) hreceiver
  obtain ⟨p, hp, rfl⟩ := getProduct_toState hproduct
  rw [item_status] at hstatus
  obtain rfl := Except.ok.inj hstatus
  obtain rfl := Except.ok.inj h1
  obtain rfl := Except.ok.inj h2
  let atCustoms := ((PyDict.get? tx (.str "at_customs")).getD (.bool false)).truthy
  have hread : readMovement tx = some (productId, .receive receiver atCustoms) := by
    simp [readMovement, hidField, hreceiverField, htype, atCustoms]
  have hmove : p.status = .inTransit := by simpa using hallowed
  obtain ⟨q, hq, hfields⟩ : ∃ q, p.move (.receive receiver atCustoms) = some q ∧
      recordFields (if atCustoms then "at_customs" else "delivered") p.location receiver p.checks
        p.reason = q.fields := by
    refine ⟨_, dif_pos hmove, ?_⟩
    cases atCustoms <;> rfl
  exact moves_of_put hread hp hq (by simpa [Product.fields] using hfields) hput

theorem moves_handleQuarantine (ht : SupplyTx tx)
    (htype : stringField tx "type" = some "quarantine")
    (h : handleQuarantine py chain.toState tx = .ok new) : Moves chain tx new := by
  simp only [handleQuarantine, bind_eq_ok, raiseIf_eq_ok] at h
  obtain ⟨_, hid, _, hreason, product, hproduct, status, hstatus, -, hallowed,
    _, h1, _, h2, hput⟩ := h
  obtain ⟨productId, rfl, hidField⟩ := ht.item (by decide) hid
  obtain ⟨reason, rfl, hreasonField⟩ := ht.item (by decide) hreason
  obtain ⟨p, hp, rfl⟩ := getProduct_toState hproduct
  rw [item_status] at hstatus
  obtain rfl := Except.ok.inj hstatus
  obtain rfl := Except.ok.inj h1
  obtain rfl := Except.ok.inj h2
  have hread : readMovement tx = some (productId, .quarantine reason) := by
    simp [readMovement, hidField, hreasonField, htype]
  have hmove : ¬ p.status = .quarantined := by simpa using hallowed
  obtain ⟨q, hq, hfields⟩ : ∃ q, p.move (.quarantine reason) = some q ∧
      recordFields "quarantined" p.location p.owner p.checks (some reason) = q.fields :=
    ⟨_, if_neg hmove, rfl⟩
  exact moves_of_put hread hp hq
    (by simpa [Product.fields, p.reason_eq_none hmove] using hfields) hput

theorem moves_handleRelease (ht : SupplyTx tx) (htype : stringField tx "type" = some "release")
    (h : handleRelease py chain.toState tx = .ok new) : Moves chain tx new := by
  simp only [handleRelease, bind_eq_ok, raiseIf_eq_ok] at h
  obtain ⟨_, hid, product, hproduct, status, hstatus, -, hallowed, _, h1, _, h2, hput⟩ := h
  obtain ⟨productId, rfl, hidField⟩ := ht.item (by decide) hid
  obtain ⟨p, hp, rfl⟩ := getProduct_toState hproduct
  rw [item_status] at hstatus
  obtain rfl := Except.ok.inj hstatus
  obtain rfl := Except.ok.inj h1
  obtain rfl := Except.ok.inj h2
  have hread : readMovement tx = some (productId, .release) := by
    simp [readMovement, hidField, htype]
  have hmove : p.status = .quarantined := by simpa using hallowed
  obtain ⟨q, hq, hfields⟩ : ∃ q, p.move .release = some q ∧
      recordFields "at_customs" p.location p.owner p.checks none = q.fields :=
    ⟨_, if_pos hmove, rfl⟩
  exact moves_of_put hread hp hq (by simpa [Product.fields] using hfields) hput

/-! ## Inspections -/

/-- Sorting after an append inserts. -/
theorem pySorted_concat {checks : List String} (h : checks.Pairwise (· < ·)) (checkName : String) :
    pySorted (fun a b : String => .ok (decide (a < b))) (checks ++ [checkName]) =
      .ok (checks.orderedInsert (· ≤ ·) checkName) := by
  have hlt : ∀ a b : String, True → True →
      ∃ less, (Except.ok (decide (a < b)) : Except Exc Bool) = .ok less ∧ (less = true ↔ a < b) :=
    fun a b _ _ => ⟨_, rfl, decide_eq_true_iff⟩
  obtain ⟨sorted, hsort⟩ := pySorted_ok (fun a b : String => .ok (decide (a < b)))
    (fun _ => True) (fun a b ha hb => (hlt a b ha hb).imp fun _ h => h.1)
    (fun x (_ : x ∈ checks ++ [checkName]) => trivial)
  have hperm : sorted.Perm (checks.orderedInsert (· ≤ ·) checkName) :=
    (pySorted_perm hsort).trans (List.perm_append_comm.trans
      (List.perm_orderedInsert _ checkName checks).symm)
  have hle : sorted.Pairwise (· ≤ ·) :=
    pySorted_pairwise hlt (fun x (_ : x ∈ checks ++ [checkName]) => trivial) hsort
  have hchecks : checks.Pairwise (· ≤ ·) := h.imp fun hab => le_of_lt hab
  have heq : sorted = checks.orderedInsert (· ≤ ·) checkName :=
    hperm.eq_of_pairwise (fun a b _ _ hab hba => le_antisymm hab hba) hle
      (hchecks.orderedInsert checkName)
  rw [hsort, heq]

theorem contains_checks (checks : List String) (checkName : String) :
    (Value.list (checks.map .str)).contains (.str checkName) =
      .ok (decide (checkName ∈ checks)) := by
  have heq : ∀ s : String, (Value.str s).eq (.str checkName) = decide (s = checkName) := by
    intro s
    change (Scalar.str s).eq (.str checkName) = _
    simp
  simp [Value.contains, heq, List.any_eq]

/-- Appending a check that is new and sorting puts it in its place. -/
theorem recordCheck_eq (checks : List String) (hsorted : checks.Pairwise (· < ·))
    (checkName : String) : recordCheck (.list (checks.map .str)) (.str checkName) =
      .ok (.list ((Product.withCheck checks checkName).map .str)) := by
  have hvalues : pySorted Value.lt ((checks ++ [checkName]).map Value.str) =
      (pySorted (fun a b : String => .ok (decide (a < b))) (checks ++ [checkName])).map
        (List.map Value.str) := pySorted_map Value.str (fun _ _ => rfl) _
  rw [pySorted_concat hsorted, List.map_append, List.map_singleton] at hvalues
  simp only [recordCheck, contains_checks, bind, Except.bind]
  unfold Product.withCheck
  by_cases hmem : checkName ∈ checks
  · simp [hmem, pure, Except.pure]
  · simp [hmem, hvalues, Except.map, pure, Except.pure]

theorem moves_handleInspect (ht : SupplyTx tx) (htype : stringField tx "type" = some "inspect")
    (h : handleInspect py chain.toState tx = .ok new) : Moves chain tx new := by
  simp only [handleInspect, bind_eq_ok] at h
  obtain ⟨_, hid, _, hname, product, hproduct, checks, hchecks, _, hrecord, _, hset, hput⟩ := h
  obtain ⟨productId, rfl, hidField⟩ := ht.item (by decide) hid
  obtain ⟨checkName, rfl, hnameField⟩ := ht.item (by decide) hname
  obtain ⟨p, hp, rfl⟩ := getProduct_toState hproduct
  have hfound : (Value.dict p.fields).getOr (.str "checks") (.list []) =
      .ok (.list (p.checks.map .str)) := rfl
  rw [hfound] at hchecks
  obtain rfl := Except.ok.inj hchecks
  rw [recordCheck_eq p.checks p.sorted] at hrecord
  obtain rfl := Except.ok.inj hrecord
  obtain rfl := Except.ok.inj hset
  have hread : readMovement tx = some (productId, .inspect checkName) := by
    simp [readMovement, hidField, hnameField, htype]
  obtain ⟨q, hq, hfields⟩ : ∃ q, p.move (.inspect checkName) = some q ∧
      recordFields p.status.text p.location p.owner (Product.withCheck p.checks checkName)
        p.reason = q.fields := ⟨_, rfl, rfl⟩
  exact moves_of_put hread hp hq (by simpa [Product.fields] using hfields) hput

/-! ## Runs -/

theorem stringKeyed_fields (p : Product) : (Value.dict p.fields).stringKeyed = true := by
  have hchecks : (Value.list (p.checks.map .str)).stringKeyed = true := by
    refine (Value.stringKeyedList_iff _).mpr fun v hv => ?_
    obtain ⟨c, -, rfl⟩ := List.mem_map.mp hv
    rfl
  rw [Value.stringKeyed_dict_iff]
  cases hreason : p.reason with
  | none => simp [Product.fields, recordFields, hreason, hchecks]
  | some reason => simp [Product.fields, recordFields, hreason, hchecks]

theorem wellShaped_toState (chain : Chain) : WellShaped chain.toState where
  stringKeyed := by
    have hitems : (Value.dict (itemsOf (fun p : Product => .dict p.fields) chain)).stringKeyed =
        true := by
      rw [Value.stringKeyed_dict_iff]
      intro e he
      obtain ⟨entry, -, rfl⟩ := List.mem_map.mp he
      exact ⟨⟨_, rfl⟩, stringKeyed_fields entry.2⟩
    rw [Value.stringKeyed_dict_iff]
    simp [Chain.toState, hitems]
  balances v hv := by cases hv

theorem moves_execute (hr : rt.Registered) (ht : SupplyTx tx)
    (h : rt.execute chain.toState tx = .ok new) : Moves chain tx new := by
  obtain ⟨t, handler, htype, hget, hrun⟩ := (execute_eq_ok rt.toInterp).mp h
  have hfield : stringField tx "type" = some t := by rw [stringField, htype]
  obtain ⟨t', hmem, htype'⟩ := ht.type
  obtain rfl : t = t' := by
    rw [htype] at htype'
    cases htype'
    rfl
  have hregistered : registerSupplyChainHandlers rt.toInterp (builtinHandlers rt.toInterp) t =
      some handler := by
    rcases hr with hr | hr
    · rw [hr] at hget
      simp only [List.mem_cons, List.not_mem_nil, or_false] at hmem
      rcases hmem with rfl | rfl | rfl | rfl | rfl <;> cases hget
    · rwa [hr] at hget
  simp only [List.mem_cons, List.not_mem_nil, or_false] at hmem
  rcases hmem with rfl | rfl | rfl | rfl | rfl <;> cases hregistered
  · exact moves_handleShip ht hfield hrun
  · exact moves_handleReceive ht hfield hrun
  · exact moves_handleInspect ht hfield hrun
  · exact moves_handleQuarantine ht hfield hrun
  · exact moves_handleRelease ht hfield hrun

namespace StateManager

/-- A call either changes nothing and raises, or it is a movement and returns. -/
theorem apply_chain (hr : rt.Registered) {m : StateManager} (hm : m.state = chain.toState)
    (ht : SupplyTx tx) :
    (∃ e, m.applyTransaction rt tx = (m, .error e)) ∨
    ∃ event chain', readMovement tx = some event ∧ chain.move event = some chain' ∧
      (m.apply rt tx).state = chain'.toState ∧ (m.applyTransaction rt tx).2.isOk = true := by
  have hmoves : ∀ new, rt.execute m.state tx = .ok new → Moves chain tx new := by
    intro new h
    rw [hm] at h
    exact moves_execute hr ht h
  have hshape : ∀ new, rt.execute m.state tx = .ok new → WellShaped new := by
    intro new h
    obtain ⟨_, chain', -, -, rfl⟩ := hmoves new h
    exact wellShaped_toState chain'
  have hwell : WellShaped m.state := hm ▸ wellShaped_toState chain
  rcases applyTransaction_wellShaped rt m hwell hshape with
    ⟨e, happ, -⟩ | ⟨new, trace, happ, hex⟩
  · exact .inl ⟨e, happ⟩
  · obtain ⟨event, chain', hread, hmove, rfl⟩ := hmoves new hex
    refine .inr ⟨event, chain', hread, hmove, ?_, ?_⟩
    · rw [apply, happ]
    · rw [happ]
      rfl

/-- A run is the history of movements of its successful calls. -/
theorem run_chain (hr : rt.Registered) {m : StateManager} (hm : m.state = chain.toState)
    {txs : List Transaction} (ht : ∀ tx ∈ txs, SupplyTx tx) :
    ∃ history chain', (succeeded rt m txs).map readMovement = history.map some ∧
      chain.moveAll history = some chain' ∧ (txs.foldl (apply rt) m).state = chain'.toState := by
  induction txs generalizing m chain with
  | nil => exact ⟨[], chain, rfl, rfl, hm⟩
  | cons tx txs ih =>
    rw [List.forall_mem_cons] at ht
    rcases apply_chain hr hm ht.1 with ⟨e, happ⟩ | ⟨event, mid, hread, hmove, hmid, hok⟩
    · have hstay : m.apply rt tx = m := by rw [apply, happ]
      obtain ⟨history, chain', hhistory, hall, hlast⟩ := ih hm ht.2
      refine ⟨history, chain', ?_, hall, ?_⟩
      · rw [succeeded, happ, hstay]
        exact hhistory
      · rw [List.foldl_cons, hstay]
        exact hlast
    · obtain ⟨history, chain', hhistory, hall, hlast⟩ := ih hmid ht.2
      refine ⟨event :: history, chain', ?_, Chain.moveAll_cons.mpr ⟨mid, hmove, hall⟩, hlast⟩
      rw [succeeded, if_pos hok, List.map_cons, hread, hhistory, List.map_cons]

end StateManager

/-! ## The records after a run -/

/-- `state["products"].items()`. -/
def productItems (state : State) : PyDict :=
  match PyDict.get? state (.str "products") with
  | some (.dict es) => es
  | _ => []

def recordOf (state : State) (productId : String) : Option Value :=
  PyDict.get? (productItems state) (.str productId)

theorem productItems_toState (chain : Chain) : productItems chain.toState =
    itemsOf (fun p : Product => .dict p.fields) chain := rfl

theorem recordOf_toState (chain : Chain) (productId : String) : recordOf chain.toState productId =
    (chain.get? productId).map fun p => .dict p.fields :=
  get?_itemsOf (fun p : Product => .dict p.fields) chain productId

/-- The transaction inspects the product and names the check. -/
structure Inspects (tx : Transaction) (productId checkName : String) : Prop where
  type : stringField tx "type" = some "inspect"
  product : stringField tx "product_id" = some productId
  check : stringField tx "check_name" = some checkName

theorem readMovement_inspect {checkName : String} :
    readMovement tx = some (productId, .inspect checkName) ↔ Inspects tx productId checkName := by
  constructor
  · intro h
    simp only [readMovement, Option.bind_eq_bind, Option.bind_eq_some_iff] at h
    obtain ⟨pid, hpid, t, ht, h⟩ := h
    split at h
    case h_3 =>
      simp only [Option.bind_eq_some_iff, Option.pure_def, Option.some.injEq, Prod.mk.injEq,
        Movement.inspect.injEq] at h
      obtain ⟨name, hname, rfl, rfl⟩ := h
      exact ⟨ht, hpid, hname⟩
    all_goals simp [Option.bind_eq_some_iff] at h
  · rintro ⟨htype, hproduct, hcheck⟩
    simp [readMovement, htype, hproduct, hcheck]

section History

variable {done : List Transaction} {history : List (String × Movement)}

theorem filterMap_readMovement (h : done.map readMovement = history.map some) :
    done.filterMap readMovement = history := by
  have hid := congrArg (List.filterMap id) h
  simpa [List.filterMap_map, Function.comp_def] using hid

theorem mem_history (h : done.map readMovement = history.map some) {event : String × Movement} :
    event ∈ history ↔ ∃ tx ∈ done, readMovement tx = some event := by
  have hmem : some event ∈ history.map some ↔ some event ∈ done.map readMovement := by rw [h]
  simpa using hmem

theorem mem_movesOf {mv : Movement} : mv ∈ Chain.movesOf productId history ↔
    (productId, mv) ∈ history := by
  simp [Chain.movesOf]

end History

/-! ## A run through customs -/

/-- P1 is shipped, received, inspected twice, quarantined, not shipped and released; P2 is not
received before it is shipped. -/
def harborRun : List Transaction :=
  [[(.str "type", .str "ship"), (.str "product_id", .str "P1"), (.str "destination", .str "port"),
    (.str "shipper", .str "S")],
   [(.str "type", .str "receive"), (.str "product_id", .str "P2"), (.str "receiver", .str "R")],
   [(.str "type", .str "receive"), (.str "product_id", .str "P1"), (.str "receiver", .str "R")],
   [(.str "type", .str "inspect"), (.str "product_id", .str "P1"), (.str "check_name", .str "seal")],
   [(.str "type", .str "inspect"), (.str "product_id", .str "P1"), (.str "check_name", .str "mass")],
   [(.str "type", .str "quarantine"), (.str "product_id", .str "P1"), (.str "reason", .str "rust")],
   [(.str "type", .str "ship"), (.str "product_id", .str "P1"), (.str "destination", .str "shop"),
    (.str "shipper", .str "T")]]

theorem supplyTx_harborRun : ∀ tx ∈ harborRun, SupplyTx tx := by
  intro tx htx
  simp only [harborRun, List.mem_cons, List.not_mem_nil, or_false] at htx
  rcases htx with rfl | rfl | rfl | rfl | rfl | rfl | rfl <;>
    refine ⟨⟨_, by decide, rfl⟩, fun field hfield v hv => ?_⟩ <;>
    simp only [List.mem_cons, List.not_mem_nil, or_false] at hfield <;>
    rcases hfield with rfl | rfl | rfl | rfl | rfl | rfl <;> cases hv <;> exact ⟨_, rfl⟩

theorem harborRun_record : recordOf (harborRun.foldl (StateManager.apply (referenceRuntime true))
      (.init (some (makeInitialState ["P1", "P2"])) false)).state "P1" =
    some (.dict (recordFields "quarantined" "port" "R" ["mass", "seal"] (some "rust"))) := by
  decide +kernel

namespace StateManager

/-- The invariant of the supply chain: over any run from freshly manufactured products the
products stay, every record has a documented status, a reason exactly while it is quarantined
and the passed checks in strict order, and a call that raises changes nothing. -/
theorem supplyChain_invariant (hr : rt.Registered) (useMerkle : Bool) (productIds : List String)
    {txs : List Transaction} (ht : ∀ tx ∈ txs, SupplyTx tx) :
    let m := StateManager.init (some (makeInitialState productIds)) useMerkle
    let last := txs.foldl (apply rt) m
    (productItems last.state).map Prod.fst = (productItems m.state).map Prod.fst ∧
      (∀ productId, (recordOf last.state productId).isSome ↔ productId ∈ productIds) ∧
      (∀ productId record, recordOf last.state productId = some record →
        ∃ fields, record = .dict fields ∧
          (∃ s : Status, PyDict.get? fields (.str "status") = some (.str s.text) ∧
            ((PyDict.get? fields (.str "quarantine_reason")).isSome ↔ s = .quarantined)) ∧
          ∃ checks : List String, PyDict.get? fields (.str "checks") =
              some (.list (checks.map .str)) ∧ checks.Pairwise (· < ·) ∧
            ∀ c, c ∈ checks ↔ ∃ tx ∈ succeeded rt m txs, Inspects tx productId c) ∧
      ∀ past tx rest e, txs = past ++ tx :: rest →
        ((past.foldl (apply rt) m).applyTransaction rt tx).2 = .error e →
          (past ++ [tx]).foldl (apply rt) m = past.foldl (apply rt) m := by
  intro m last
  have hm : m.state = (Chain.initial productIds).toState := makeInitialState_eq productIds
  obtain ⟨history, chain, hhistory, hall, hlast⟩ := run_chain hr hm ht
  have hkeys := Chain.keys_moveAll hall
  refine ⟨?_, fun productId => ?_, fun productId record hrecord => ?_, ?_⟩
  · rw [hlast, hm, productItems_toState, productItems_toState, keys_itemsOf, keys_itemsOf, hkeys]
  · rw [hlast, recordOf_toState, Option.isSome_map, Option.isSome_iff_exists,
      ← OrderedDict.mem_keys_iff, hkeys, Chain.initial, OrderedDict.mem_keys_ofList]
    simp
  · rw [hlast, recordOf_toState, Option.map_eq_some_iff] at hrecord
    obtain ⟨p, hp, rfl⟩ := hrecord
    have hrecounts := Product.recounts_moveAll (Chain.moveAll_movesOf hall hp)
    refine ⟨_, rfl, ⟨p.status, get?_status _ _ _ _ _, ?_⟩, p.checks, get?_checks _ _ _ _ _,
      p.sorted, fun c => ?_⟩
    · rw [Product.fields, get?_reason, Option.isSome_map]
      exact p.reason_iff
    · rw [hrecounts.checks, mem_movesOf, mem_history hhistory]
      simp only [readMovement_inspect]
  · rintro past tx rest e rfl hfail
    obtain ⟨-, mid, -, -, hmid⟩ := run_chain hr hm fun t h => ht t (List.mem_append_left _ h)
    rcases apply_chain hr hmid (ht tx (by simp)) with ⟨e', happ⟩ | ⟨-, -, -, -, -, hok⟩
    · simp [apply, happ]
    · rw [hfail] at hok
      cases hok

/-- The checks that are listed were passed, and no others. -/
theorem harborRun_checks :
    let done := succeeded (referenceRuntime true)
      (.init (some (makeInitialState ["P1", "P2"])) false) harborRun
    (∃ tx ∈ done, Inspects tx "P1" "seal") ∧ ¬ ∃ tx ∈ done, Inspects tx "P1" "colour" := by
  have hr : (referenceRuntime true).Registered := .inr rfl
  obtain ⟨-, -, hrecords, -⟩ := supplyChain_invariant hr false ["P1", "P2"] supplyTx_harborRun
  obtain ⟨fields, hfields, -, checks, hchecks, -, hiff⟩ := hrecords "P1" _ harborRun_record
  obtain rfl := Value.dict.inj hfields
  rw [get?_checks, Option.some.injEq, Value.list.injEq] at hchecks
  have hinj : Function.Injective Value.str := fun s t h => Scalar.str.inj (Value.scalar.inj h)
  obtain rfl := List.map_injective_iff.mpr hinj hchecks
  exact ⟨(hiff "seal").mp (by decide), mt (hiff "colour").mpr (by decide)⟩

/-- Custody: the record of a product says what the accepted transactions on it said last. -/
theorem custody_history (hr : rt.Registered) (useMerkle : Bool) (productIds : List String)
    {txs : List Transaction} (ht : ∀ tx ∈ txs, SupplyTx tx) :
    let m := StateManager.init (some (makeInitialState productIds)) useMerkle
    let done := succeeded rt m txs
    (∀ tx ∈ done, ∃ event, readMovement tx = some event) ∧
      ∀ productId record,
        recordOf (txs.foldl (apply rt) m).state productId = some record →
        let moves := Chain.movesOf productId (done.filterMap readMovement)
        ∃ fields, record = .dict fields ∧
          PyDict.get? fields (.str "location") =
            some (.str ((moves.filterMap Movement.destination).getLast?.getD "factory")) ∧
          PyDict.get? fields (.str "owner") =
            some (.str ((moves.filterMap Movement.custodian).getLast?.getD "manufacturer")) ∧
          (PyDict.get? fields (.str "status") = some (.str "quarantined") →
            ∃ reason, (moves.filterMap Movement.quarantineReason).getLast? = some reason ∧
              PyDict.get? fields (.str "quarantine_reason") = some (.str reason)) ∧
          (∀ past reason between mv rest,
            moves = past ++ .quarantine reason :: between ++ mv :: rest →
              mv.custodian ≠ none → .release ∈ between) ∧
          (PyDict.get? fields (.str "status") = some (.str "delivered") →
            ∃ past destination shipper receiver, moves.filter Movement.changesStatus =
              past ++ [.ship destination shipper, .receive receiver false]) := by
  intro m done
  have hm : m.state = (Chain.initial productIds).toState := makeInitialState_eq productIds
  obtain ⟨history, chain, hhistory, hall, hlast⟩ := run_chain hr hm ht
  refine ⟨fun tx htx => ?_, fun productId record hrecord => ?_⟩
  · have hread := List.mem_map_of_mem (f := readMovement) htx
    rw [hhistory] at hread
    obtain ⟨event, -, hevent⟩ := List.mem_map.mp hread
    exact ⟨event, hevent.symm⟩
  · rw [hlast, recordOf_toState, Option.map_eq_some_iff] at hrecord
    obtain ⟨p, hp, rfl⟩ := hrecord
    have hmoves := Chain.moveAll_movesOf hall hp
    have hrecounts := Product.recounts_moveAll hmoves
    rw [filterMap_readMovement hhistory]
    have hstatus : ∀ s : Status, PyDict.get? p.fields (.str "status") = some (.str s.text) →
        p.status = s := by
      intro s hs
      rw [Product.fields, get?_status] at hs
      cases hp : p.status <;> cases s <;> simp_all [Status.text]
    refine ⟨p.fields, rfl, ?_, ?_, fun hq => ?_, ?_, fun hd => ?_⟩
    · rw [Product.fields, get?_location, hrecounts.location]
    · rw [Product.fields, get?_owner, hrecounts.owner]
    · have hs := hstatus .quarantined hq
      obtain ⟨reason, hreason⟩ := Option.isSome_iff_exists.mp (p.reason_iff.mpr hs)
      rw [Product.fields, get?_reason, hreason, ← hrecounts.reason hs]
      exact ⟨reason, hreason, rfl⟩
    · intro past reason between mv rest heq hmv
      rw [heq] at hmoves
      exact Product.release_mem_of_moveAll hmoves hmv
    · exact hrecounts.delivered (hstatus .delivered hd)

/-- The last shipment that succeeded went to the port. -/
theorem harborRun_location :
    let done := succeeded (referenceRuntime true)
      (.init (some (makeInitialState ["P1", "P2"])) false) harborRun
    ((Chain.movesOf "P1" (done.filterMap readMovement)).filterMap
      Movement.destination).getLast?.getD "factory" = "port" := by
  have hr : (referenceRuntime true).Registered := .inr rfl
  have hcustody := custody_history hr false ["P1", "P2"] supplyTx_harborRun
  obtain ⟨fields, hfields, hlocation, -⟩ := hcustody.2 "P1" _ harborRun_record
  obtain rfl := Value.dict.inj hfields
  rw [get?_location] at hlocation
  exact (Scalar.str.inj (Value.scalar.inj (Option.some_inj.mp hlocation))).symm

end StateManager
end ECN
