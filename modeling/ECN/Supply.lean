import ECN.Ledger
import ECN.ReferenceRuntime
import Mathlib.Data.List.Forall2

/-!
# The balances as a ledger

A state with string account names and non-negative integer balances holds a ledger. A
transfer, mint or burn that succeeds is a posting to it, and one that fails changes
nothing.
-/
namespace ECN

variable {rt : Runtime}

/-! ## Ledgers in states -/

/-- The dictionary of balances. -/
def Ledger.toDict (ledger : Ledger String) : PyDict :=
  ledger.entries.map fun e => (.str e.1, .int e.2)

/-- `state.get("balances", {})`. -/
def balancesField (state : State) : Value := (PyDict.get? state (.str "balances")).getD (.dict [])

def Holds (state : State) (ledger : Ledger String) : Prop :=
  balancesField state = .dict ledger.toDict

section Entries

variable {ν : Type} (f : ν → Value) (d : OrderedDict String ν) (k : String)

/-- The items of a typed dictionary. -/
def itemsOf : PyDict := d.entries.map fun e => (.str e.1, f e.2)

theorem get?_itemsOf : PyDict.get? (itemsOf f d) (.str k) = (d.get? k).map f := by
  unfold PyDict.get? itemsOf OrderedDict.get?
  induction d.entries with
  | nil => rfl
  | cons e es ih =>
    rw [lookup_cons_ite, List.map_cons, List.find?_cons]
    by_cases he : k = e.1
    · simp [he]
    · have hne : e.1 ≠ k := fun h => he h.symm
      simp only [Scalar.eq_str, Scalar.str.injEq, hne, decide_false, if_neg he]
      simpa using ih

theorem set_itemsOf (v : ν) :
    PyDict.set (itemsOf f d) (.str k) (f v) = itemsOf f (d.set k v) := by
  have h : ∀ es : List (String × ν),
      PyDict.set (es.map fun e => (Scalar.str e.1, f e.2)) (.str k) (f v) =
        (upsert k v es).map fun e => (Scalar.str e.1, f e.2) := by
    intro es
    induction es with
    | nil => rfl
    | cons e es ih =>
      by_cases he : e.1 = k
      · simp [PyDict.set, upsert, he]
      · simpa [PyDict.set, upsert, he] using ih
  exact h d.entries

theorem keys_itemsOf : (itemsOf f d).map Prod.fst = d.keys.map Scalar.str := by
  simp [itemsOf, OrderedDict.keys]

end Entries

theorem get?_toDict (ledger : Ledger String) (account : String) :
    PyDict.get? ledger.toDict (.str account) =
      (ledger.get? account).map fun held => .int held :=
  get?_itemsOf (fun held : ℕ => .int held) ledger account

theorem set_toDict (ledger : Ledger String) (account : String) (held : ℕ) :
    PyDict.set ledger.toDict (.str account) (.int held) =
      Ledger.toDict (ledger.set account held) :=
  set_itemsOf (fun held : ℕ => .int held) ledger account held

/-! ## Operations on a ledger's dictionary -/

section Operations

variable (ledger : Ledger String) (account : String)

theorem contains_toDict : (Value.dict ledger.toDict).contains (.str account) =
    .ok (ledger.get? account).isSome := by
  change Except.ok (PyDict.get? ledger.toDict (.str account)).isSome = _
  rw [get?_toDict, Option.isSome_map]

theorem item_toDict {v : Value} : (Value.dict ledger.toDict).item (.str account) = .ok v ↔
    ∃ held : ℕ, ledger.get? account = some held ∧ v = .int held := by
  change PyDict.item ledger.toDict (.str account) = .ok v ↔ _
  rw [PyDict.item_eq_ok, get?_toDict, Option.map_eq_some_iff]
  exact exists_congr fun held => and_congr_right fun _ => eq_comm

theorem getOr_toDict : (Value.dict ledger.toDict).getOr (.str account) (.int 0) =
    .ok (.int (ledger.getD account 0 : ℕ)) := by
  change Except.ok ((PyDict.get? ledger.toDict (.str account)).getD (.int 0)) = _
  rw [get?_toDict, OrderedDict.getD]
  cases ledger.get? account <;> rfl

theorem setItem_toDict (held : ℕ) : (Value.dict ledger.toDict).setItem (.str account) (.int held) =
    .ok (.dict (Ledger.toDict (ledger.set account held))) := by
  rw [← set_toDict]
  rfl

end Operations

theorem ltInt_eq_false {k n : ℤ} : (Value.int k).ltInt n = .ok false ↔ n ≤ k := by
  change Except.ok (decide ((k : ℚ) < n)) = Except.ok false ↔ _
  rw [Except.ok.injEq, decide_eq_false_iff_not, not_lt]
  exact_mod_cast Iff.rfl

/-! ## Transactions as postings -/

/-- The account fields, when present, are strings. -/
structure StringNames (tx : Transaction) : Prop where
  sender : ∀ v, PyDict.get? tx (.str "from") = some v → ∃ s, v = .str s
  receiver : ∀ v, PyDict.get? tx (.str "to") = some v → ∃ s, v = .str s

/-- A transfer, a mint or a burn between named accounts. -/
structure LedgerTx (tx : Transaction) : Prop extends StringNames tx where
  type : ∃ t ∈ ["transfer", "mint", "burn"], PyDict.get? tx (.str "type") = some (.str t)

/-- `int(tx["amount"])`, and zero where this raises. -/
def amountOf (rt : Runtime) (tx : Transaction) : ℤ :=
  match PyDict.item tx (.str "amount") with
  | .ok v => match v.toInt rt.toInterp with
    | .ok amount => amount
    | .error _ => 0
  | .error _ => 0

def hasType (t : String) (tx : Transaction) : Bool :=
  decide (PyDict.get? tx (.str "type") = some (.str t))

def minted (rt : Runtime) (tx : Transaction) : ℤ := if hasType "mint" tx then amountOf rt tx else 0

def burned (rt : Runtime) (tx : Transaction) : ℤ := if hasType "burn" tx then amountOf rt tx else 0

/-- The accounts that a transaction names, by the fields of its type. -/
def namedAccounts (tx : Transaction) : List String :=
  let fields := if hasType "transfer" tx then ["from", "to"]
    else if hasType "mint" tx then ["to"] else ["from"]
  fields.filterMap fun field =>
    match PyDict.get? tx (.str field) with
    | some (.str account) => some account
    | _ => none

/-- The transaction asks for the posting. -/
structure Asks (rt : Runtime) (tx : Transaction) (p : Posting String) : Prop where
  accounts : namedAccounts tx = p.accounts
  minted : minted rt tx = p.minted
  burned : burned rt tx = p.burned

theorem amountOf_eq {tx : Transaction} {v : Value} {amount : ℤ}
    (hitem : PyDict.item tx (.str "amount") = .ok v) (hint : v.toInt rt.toInterp = .ok amount) :
    amountOf rt tx = amount := by
  simp [amountOf, hitem, hint]

/-- The dictionary that a handler finds under `balances`. -/
theorem Holds.item {state : State} {ledger : Ledger String} (h : Holds state ledger) {v : Value}
    (hitem : PyDict.item state (.str "balances") = .ok v) : v = .dict ledger.toDict := by
  unfold Holds balancesField at h
  rw [PyDict.item_eq_ok.mp hitem] at h
  exact h

theorem holds_set (state : State) (ledger : Ledger String) :
    Holds (PyDict.set state (.str "balances") (.dict ledger.toDict)) ledger := by
  simp [Holds, balancesField, PyDict.get?_set_str]

/-- What a handler does to the ledger of a state. -/
def Posts (rt : Runtime) (state : State) (ledger : Ledger String) (tx : Transaction) (new : State) :
    Prop :=
  ∃ p ledger', Asks rt tx p ∧ ledger.post p = some ledger' ∧
    PyDict.get? state (.str "balances") = some (.dict ledger.toDict) ∧
    new = PyDict.set state (.str "balances") (.dict ledger'.toDict)

variable {state new : State} {ledger : Ledger String} {tx : Transaction}

/-- Taking a positive amount that the account holds is a debit. -/
theorem debit_toDict {account : String} {amount : ℤ} {held less debited : Value}
    (hpos : 0 < amount) (hheld : (Value.dict ledger.toDict).item (.str account) = .ok held)
    (hfunds : held.ltInt amount = .ok false) (hless : held.addInt (-amount) = .ok less)
    (hdeb : (Value.dict ledger.toDict).setItem (.str account) less = .ok debited) :
    ∃ ledger', ledger.debit account amount.toNat = some ledger' ∧
      debited = .dict ledger'.toDict := by
  obtain ⟨n, hget, rfl⟩ := (item_toDict ledger account).mp hheld
  have hle := ltInt_eq_false.mp hfunds
  rw [Value.addInt_int] at hless
  obtain rfl := Except.ok.inj hless
  have hleft : (n : ℤ) + -amount = ((n - amount.toNat : ℕ) : ℤ) := by omega
  rw [hleft, setItem_toDict] at hdeb
  exact ⟨_, Ledger.debit_eq_some.mpr ⟨n, hget, by omega, rfl⟩, (Except.ok.inj hdeb).symm⟩

/-- Adding a positive amount to the balance that is read is a credit. -/
theorem credit_toDict {account : String} {amount : ℤ} {held : ℕ} {more credited : Value}
    (hpos : 0 < amount) (hheld : ledger.getD account 0 = held)
    (hmore : (Value.int held).addInt amount = .ok more)
    (hcred : (Value.dict ledger.toDict).setItem (.str account) more = .ok credited) :
    credited = .dict (ledger.credit account amount.toNat).toDict := by
  rw [Value.addInt_int] at hmore
  obtain rfl := Except.ok.inj hmore
  have hsum : (held : ℤ) + amount = ((held + amount.toNat : ℕ) : ℤ) := by omega
  rw [hsum, setItem_toDict] at hcred
  rw [← Except.ok.inj hcred, Ledger.credit, hheld]

/-- An account that can be read has the balance that is read. -/
theorem getD_of_item {account : String} {held : Value}
    (h : (Value.dict ledger.toDict).item (.str account) = .ok held) :
    held = .int (ledger.getD account 0 : ℕ) ∧ account ∈ ledger.keys := by
  obtain ⟨n, hget, rfl⟩ := (item_toDict ledger account).mp h
  refine ⟨?_, (OrderedDict.mem_keys_iff _ _).mpr ⟨n, hget⟩⟩
  rw [OrderedDict.getD, hget]
  rfl

theorem posts_handleTransfer (hs : Holds state ledger) (ht : LedgerTx tx)
    (htype : PyDict.get? tx (.str "type") = some (.str "transfer"))
    (h : handleTransfer rt.toInterp state tx = .ok new) : Posts rt state ledger tx new := by
  simp only [handleTransfer, bind_eq_ok, pure_eq_ok, raiseIf_eq_ok, decide_eq_false_iff_not,
    not_le, Bool.not_eq_false'] at h
  obtain ⟨sender, hfrom, receiver, hto, v, hv, amount, hamount, -, hpos, balances, hbal, -, -, -, -,
    present, hpresent, -, hreceiver, held, hheld, short, hshort, -, hfunds, less, hless, debited,
    hdeb, now, hnow, more, hmore, credited, hcred, rfl⟩ := h
  obtain ⟨s, rfl⟩ := ht.sender _ (PyDict.item_eq_ok.mp hfrom)
  obtain ⟨r, rfl⟩ := ht.receiver _ (PyDict.item_eq_ok.mp hto)
  obtain rfl := hs.item hbal
  subst hfunds hreceiver
  obtain ⟨middle, hmiddle, rfl⟩ := debit_toDict hpos hheld hshort hless hdeb
  obtain ⟨rfl, -⟩ := getD_of_item hnow
  have hcredited := credit_toDict hpos rfl hmore hcred
  have hmem : r ∈ ledger.keys := by
    rw [contains_toDict] at hpresent
    obtain ⟨n, hn⟩ := Option.isSome_iff_exists.mp (Except.ok.inj hpresent)
    exact (OrderedDict.mem_keys_iff _ _).mpr ⟨n, hn⟩
  have hpost : ledger.post (.transfer s r amount.toNat) =
      some (middle.credit r amount.toNat) := by
    simp only [Ledger.post, if_pos hmem, hmiddle, Option.map_some]
  refine ⟨_, _, ⟨?_, ?_, ?_⟩, hpost, PyDict.item_eq_ok.mp hbal, by rw [hcredited]⟩
  · simp [namedAccounts, hasType, htype, PyDict.item_eq_ok.mp hfrom, PyDict.item_eq_ok.mp hto,
      Posting.accounts]
  · simp [minted, hasType, htype, Posting.minted]
  · simp [burned, hasType, htype, Posting.burned]

theorem posts_handleMint (hs : Holds state ledger) (ht : LedgerTx tx)
    (htype : PyDict.get? tx (.str "type") = some (.str "mint"))
    (h : handleMint rt.toInterp state tx = .ok new) : Posts rt state ledger tx new := by
  simp only [handleMint, bind_eq_ok, pure_eq_ok, raiseIf_eq_ok, decide_eq_false_iff_not,
    not_le] at h
  obtain ⟨receiver, hto, v, hv, amount, hamount, -, hpos, balances, hbal, held, hheld, more, hmore,
    credited, hcred, rfl⟩ := h
  obtain ⟨r, rfl⟩ := ht.receiver _ (PyDict.item_eq_ok.mp hto)
  obtain rfl := hs.item hbal
  rw [getOr_toDict] at hheld
  obtain rfl := Except.ok.inj hheld
  have hcredited := credit_toDict hpos rfl hmore hcred
  refine ⟨.mint r amount.toNat, _, ⟨?_, ?_, ?_⟩, rfl, PyDict.item_eq_ok.mp hbal,
    by rw [hcredited]⟩
  · simp [namedAccounts, hasType, htype, PyDict.item_eq_ok.mp hto, Posting.accounts]
  · have hamountOf := amountOf_eq hv hamount
    simp only [minted, hasType, htype, decide_true, if_true, Posting.minted]
    omega
  · simp [burned, hasType, htype, Posting.burned]

theorem posts_handleBurn (hs : Holds state ledger) (ht : LedgerTx tx)
    (htype : PyDict.get? tx (.str "type") = some (.str "burn"))
    (h : handleBurn rt.toInterp state tx = .ok new) : Posts rt state ledger tx new := by
  simp only [handleBurn, bind_eq_ok, pure_eq_ok, raiseIf_eq_ok, decide_eq_false_iff_not,
    not_le] at h
  obtain ⟨sender, hfrom, v, hv, amount, hamount, -, hpos, balances, hbal, -, -, -, -, held, hheld,
    short, hshort, -, hfunds, less, hless, debited, hdeb, rfl⟩ := h
  obtain ⟨s, rfl⟩ := ht.sender _ (PyDict.item_eq_ok.mp hfrom)
  obtain rfl := hs.item hbal
  subst hfunds
  obtain ⟨ledger', hpost, rfl⟩ := debit_toDict hpos hheld hshort hless hdeb
  refine ⟨.burn s amount.toNat, ledger', ⟨?_, ?_, ?_⟩, hpost, PyDict.item_eq_ok.mp hbal, rfl⟩
  · simp [namedAccounts, hasType, htype, PyDict.item_eq_ok.mp hfrom, Posting.accounts]
  · simp [minted, hasType, htype, Posting.minted]
  · have hamountOf := amountOf_eq hv hamount
    simp only [burned, hasType, htype, decide_true, if_true, Posting.burned]
    omega

/-- A transaction that the engine accepts is a posting to the ledger of the state. -/
theorem posts_execute (hr : rt.Registered) (hs : Holds state ledger) (ht : LedgerTx tx)
    (h : rt.execute state tx = .ok new) : Posts rt state ledger tx new := by
  obtain ⟨t, hmem, htype⟩ := ht.type
  have hhandlers : rt.handlers t = builtinHandlers rt.toInterp t := by
    rcases hr with hr | hr
    · rw [hr]
    · rw [hr]
      simp only [List.mem_cons, List.not_mem_nil, or_false] at hmem
      rcases hmem with rfl | rfl | rfl <;> rfl
  simp only [Runtime.execute, execute, htype, Option.getD_some, hhandlers] at h
  simp only [List.mem_cons, List.not_mem_nil, or_false] at hmem
  rcases hmem with rfl | rfl | rfl
  · exact posts_handleTransfer hs ht htype h
  · exact posts_handleMint hs ht htype h
  · exact posts_handleBurn hs ht htype h

/-! ## Hashing and comparing states that hold a ledger -/

theorem stringKeyed_toDict (ledger : Ledger String) :
    (Value.dict ledger.toDict).stringKeyed = true := by
  rw [Value.stringKeyed_dict_iff]
  intro e he
  obtain ⟨entry, -, rfl⟩ := List.mem_map.mp he
  exact ⟨⟨_, rfl⟩, rfl⟩

theorem str_of_mem_toDict {ledger : Ledger String} {e : Scalar × Value} (h : e ∈ ledger.toDict) :
    ∃ s, e.1 = .str s := by
  obtain ⟨entry, -, rfl⟩ := List.mem_map.mp h
  exact ⟨_, rfl⟩

/-- A state that can be hashed can still be hashed with another ledger. -/
theorem stateHash_set_ledger {useMerkle : Bool} {v : Value}
    (hold : ∃ h, stateHash rt useMerkle state = .ok h)
    (hget : PyDict.get? state (.str "balances") = some v) (ledger' : Ledger String) :
    ∃ h, stateHash rt useMerkle
      (PyDict.set state (.str "balances") (.dict ledger'.toDict)) = .ok h := by
  cases useMerkle with
  | true =>
    exact merkleHash_ok rt (holds_set state ledger') fun _ => str_of_mem_toDict
  | false =>
    obtain ⟨h, hh⟩ := hold
    simp only [stateHash, Bool.false_eq_true, if_false, bind_eq_ok, pure_eq_ok] at hh ⊢
    obtain ⟨text, htext, -⟩ := hh
    obtain ⟨hvalues, keys, hkeys⟩ := (Value.dumps_dict_ok_iff rt.toInterp state).mp ⟨text, htext⟩
    have hledger := Value.dumps_ok rt.toInterp _ (stringKeyed_toDict ledger')
    obtain ⟨text', htext'⟩ := (Value.dumps_dict_ok_iff rt.toInterp _).mpr
      ⟨PyDict.forall_set hvalues hledger fun _ _ _ => hledger,
        keys, by rw [PyDict.keys_set hget]; exact hkeys⟩
    exact ⟨_, text', htext', rfl⟩

theorem computeDiff_ledger (hs : Holds state ledger) {ledger' : Ledger String}
    (hn : Holds new ledger') : ∃ diff, computeDiff state new = .ok diff := by
  obtain ⟨accounts, -, hdiff⟩ := computeDiff_of_dict hs hn (fun _ => str_of_mem_toDict)
    fun _ => str_of_mem_toDict
  exact ⟨_, hdiff⟩

/-! ## The state manager -/

namespace StateManager

/-- The manager after a call. -/
def apply (rt : Runtime) (m : StateManager) (tx : Transaction) : StateManager :=
  (m.applyTransaction rt tx).1

/-- The transactions of a run whose calls return. -/
def succeeded (rt : Runtime) : StateManager → List Transaction → List Transaction
  | _, [] => []
  | m, tx :: txs =>
    if (m.applyTransaction rt tx).2.isOk then tx :: succeeded rt (m.apply rt tx) txs
    else succeeded rt (m.apply rt tx) txs

/-- A call either changes nothing and raises, or it is a posting and returns. -/
theorem apply_ledger (hr : rt.Registered) {m : StateManager} (hm : Holds m.state ledger)
    (ht : LedgerTx tx) :
    (∃ e, m.applyTransaction rt tx = (m, .error e)) ∨
    ∃ p ledger', Asks rt tx p ∧ ledger.post p = some ledger' ∧
      Holds (m.apply rt tx).state ledger' ∧ (m.applyTransaction rt tx).2.isOk = true := by
  rcases applyTransaction_cases rt m tx with
    ⟨e, happ, -⟩ | ⟨new, e, h₀, happ, hold, hex, hsum⟩ | ⟨new, h₀, h, diff, happ, hold, hex, -⟩
  · exact .inl ⟨e, happ⟩
  · -- The new state can be hashed and compared, so nothing is raised after the engine.
    exfalso
    obtain ⟨p, ledger', -, -, hget, rfl⟩ := posts_execute hr hm ht hex
    obtain ⟨h, hh⟩ := stateHash_set_ledger ⟨h₀, hold⟩ hget ledger'
    obtain ⟨diff, hd⟩ := computeDiff_ledger hm (holds_set m.state ledger')
    simp only [summarize, hh, hd, bind, Except.bind] at hsum
    cases hsum
  · obtain ⟨p, ledger', hasks, hpost, -, rfl⟩ := posts_execute hr hm ht hex
    refine .inr ⟨p, ledger', hasks, hpost, ?_, ?_⟩
    · rw [apply, happ]
      exact holds_set m.state ledger'
    · rw [happ]
      rfl

end StateManager

/-! ## Supply -/

/-- The items of a state's balances. -/
def balanceItems (state : State) : PyDict :=
  match balancesField state with
  | .dict es => es
  | .scalar _ | .list _ => []

def balanceOf (state : State) (account : String) : Option Value :=
  PyDict.get? (balanceItems state) (.str account)

/-- The sum of the integer balances. -/
def totalSupply (state : State) : ℤ :=
  ((balanceItems state).map fun e => match e.2 with
    | .int n => n
    | _ => 0).sum

theorem Holds.balanceItems (h : Holds state ledger) : balanceItems state = ledger.toDict := by
  unfold ECN.balanceItems
  rw [show balancesField state = .dict ledger.toDict from h]

theorem Holds.balanceOf (h : Holds state ledger) (account : String) :
    balanceOf state account = (ledger.get? account).map fun held => .int held := by
  rw [ECN.balanceOf, h.balanceItems, get?_toDict]

theorem Holds.totalSupply (h : Holds state ledger) : totalSupply state = ledger.total := by
  rw [ECN.totalSupply, h.balanceItems, Ledger.toDict, Ledger.total, OrderedDict.values,
    List.map_map]
  induction ledger.entries with
  | nil => rfl
  | cons e es ih => simpa using ih

theorem Holds.nonneg (h : Holds state ledger) {e : Scalar × Value}
    (he : e ∈ ECN.balanceItems state) : ∃ account n, e = (.str account, .int n) ∧ 0 ≤ n := by
  rw [h.balanceItems] at he
  obtain ⟨entry, -, rfl⟩ := List.mem_map.mp he
  exact ⟨entry.1, entry.2, rfl, Int.natCast_nonneg _⟩

section Asked

variable {done : List Transaction} {ps : List (Posting String)}

/-- What the transactions ask for adds up to what is posted. -/
theorem sum_asked {f : Transaction → ℤ} {g : Posting String → ℕ}
    (hfg : ∀ {tx p}, Asks rt tx p → f tx = g p) (h : List.Forall₂ (Asks rt) done ps) :
    (done.map f).sum = ((ps.map g).sum : ℕ) := by
  induction h with
  | nil => rfl
  | cons hask _ ih =>
    simp only [List.map_cons, List.sum_cons, ih, hfg hask]
    omega

theorem not_mem_accounts {account : String} (h : List.Forall₂ (Asks rt) done ps)
    (hout : ∀ tx ∈ done, account ∉ namedAccounts tx) : ∀ p ∈ ps, account ∉ p.accounts := by
  induction h with
  | nil => simp
  | cons hask _ ih =>
    rw [List.forall_mem_cons] at hout ⊢
    exact ⟨hask.accounts ▸ hout.1, ih hout.2⟩

end Asked

/-! ## A run with every kind of step -/

/-- Two accounts, the second one empty. -/
def pairManager : StateManager :=
  .init (some [(.str "balances", .dict [(.str "A", .int 10), (.str "B", .int 0)])]) false

/-- A mint to a new account, a self-transfer, a transfer, an overdraft and a burn. -/
def pairRun : List Transaction :=
  [[(.str "type", .str "mint"), (.str "to", .str "C"), (.str "amount", .int 5)],
   [(.str "type", .str "transfer"), (.str "from", .str "A"), (.str "to", .str "A"),
    (.str "amount", .int 3)],
   [(.str "type", .str "transfer"), (.str "from", .str "A"), (.str "to", .str "B"),
    (.str "amount", .int 4)],
   [(.str "type", .str "burn"), (.str "from", .str "B"), (.str "amount", .int 100)],
   [(.str "type", .str "burn"), (.str "from", .str "B"), (.str "amount", .int 1)]]

theorem ledgerTx_pairRun : ∀ tx ∈ pairRun, LedgerTx tx := by
  intro tx htx
  simp only [pairRun, List.mem_cons, List.not_mem_nil, or_false] at htx
  rcases htx with rfl | rfl | rfl | rfl | rfl <;>
    refine ⟨⟨fun v hv => ?_, fun v hv => ?_⟩, _, by decide, rfl⟩ <;> cases hv <;> exact ⟨_, rfl⟩

end ECN
