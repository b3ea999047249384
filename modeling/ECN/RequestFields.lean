import ECN.FloatRepr
import ECN.Tenant

/-!
# Transactions as request bodies

A client posts a transaction as a JSON object; the request model is filled from the body by
field name, and `toEcnTx` builds the transaction again. The model names its sender field
`from_`, and no alias maps the key `from` to it, so the sender of a transfer or a burn is
dropped; every other documented field comes back.
-/
namespace ECN

/-! ## Filling a model from a body -/

/-- How the validation library reads a value for a field. Only values of the field's own type
are fixed. -/
structure FieldReader where
  str : Value → Option String
  bool : Value → Option Bool
  int : Value → Option ℤ
  str_str : ∀ s, str (.str s) = some s
  bool_bool : ∀ b, bool (.bool b) = some b
  int_int : ∀ n, int (.int n) = some n

/-- An optional field: absent or null, or a value that is read. -/
def optionalOf {α : Type} (body : PyDict) (key : String) (read : Value → Option α) :
    Option (Option α) :=
  match body.get? (.str key) with
  | none => some none
  | some v => if v = .none then some none else (read v).map some

variable (reader : FieldReader)

/-- Validation of a body: fields are filled by name, other keys are ignored. -/
def TransactionRequest.ofBody (body : PyDict) : Option TransactionRequest := do
  let type ← (body.get? (.str "type")).bind reader.str
  let productId ← optionalOf body "product_id" reader.str
  let destination ← optionalOf body "destination" reader.str
  let shipper ← optionalOf body "shipper" reader.str
  let receiver ← optionalOf body "receiver" reader.str
  let atCustoms ← optionalOf body "at_customs" reader.bool
  let checkName ← optionalOf body "check_name" reader.str
  let inspector ← optionalOf body "inspector" reader.str
  let reason ← optionalOf body "reason" reader.str
  let releasedBy ← optionalOf body "released_by" reader.str
  let from_ ← optionalOf body "from_" reader.str
  let to_ ← optionalOf body "to" reader.str
  let amount ← optionalOf body "amount" reader.int
  return ⟨type, productId, destination, shipper, receiver, atCustoms, checkName, inspector,
    reason, releasedBy, from_, to_, amount⟩

def TenantTransactionRequest.ofBody (body : PyDict) : Option TenantTransactionRequest := do
  let type ← (body.get? (.str "type")).bind reader.str
  let productId ← optionalOf body "product_id" reader.str
  let destination ← optionalOf body "destination" reader.str
  let shipper ← optionalOf body "shipper" reader.str
  let receiver ← optionalOf body "receiver" reader.str
  let atCustoms ← optionalOf body "at_customs" reader.bool
  let checkName ← optionalOf body "check_name" reader.str
  let inspector ← optionalOf body "inspector" reader.str
  let reason ← optionalOf body "reason" reader.str
  let releasedBy ← optionalOf body "released_by" reader.str
  return ⟨type, productId, destination, shipper, receiver, atCustoms, checkName, inspector,
    reason, releasedBy⟩

/-- The body that the server sees when a transaction is posted as JSON. -/
def posted (tx : Transaction) : Option PyDict :=
  match jsonLoads ((Value.dict tx).jsonText printingInterp) with
  | some (.dict body) => some body
  | _ => none

/-! ## Documented transactions -/

/-- The types of field values. -/
inductive FieldType where
  | text
  | number
  | flag

def FieldType.Holds : FieldType → Value → Prop
  | .text, v => ∃ s, v = .str s
  | .number, v => ∃ n, v = .int n
  | .flag, v => ∃ b, v = .bool b

def fieldType (name : String) : FieldType :=
  if name = "amount" then .number else if name = "at_customs" then .flag else .text

/-- The ledger's transaction types with their fields. -/
def ledgerTypes : List (String × List String) :=
  [("transfer", ["from", "to", "amount"]), ("mint", ["to", "amount"]), ("burn", ["from", "amount"])]

/-- The transaction types of the supply chain with their fields. -/
def supplyChainTypes : List (String × List String) :=
  [("ship", ["product_id", "destination", "shipper"]),
    ("receive", ["product_id", "receiver", "at_customs"]),
    ("inspect", ["product_id", "check_name", "inspector"]),
    ("quarantine", ["product_id", "reason"]), ("release", ["product_id", "released_by"])]

def documentedTypes : List (String × List String) := ledgerTypes ++ supplyChainTypes

/-- A transaction of one of the types: its type, and any of the documented fields with values
of their types. -/
structure Documented (types : List (String × List String)) (tx : Transaction) : Prop where
  nodup : (tx.map Prod.fst).Nodup
  fields : ∃ entry ∈ types, (.str "type", .str entry.1) ∈ tx ∧ ∀ e ∈ tx,
    e = (.str "type", .str entry.1) ∨
      ∃ name ∈ entry.2, e.1 = .str name ∧ (fieldType name).Holds e.2

/-! ## The fields that come back -/

/-- The entries of a dictionary under the given names, in the order of the names. -/
def select (names : List String) (tx : Transaction) : Transaction :=
  names.flatMap fun name => optionalField name (tx.get? (.str name))

theorem mem_select {names : List String} {tx : Transaction} {e : Scalar × Value} :
    e ∈ select names tx ↔ ∃ name ∈ names, e.1 = .str name ∧ tx.get? (.str name) = some e.2 := by
  unfold select
  rw [List.mem_flatMap]
  refine exists_congr fun name => and_congr_right fun _ => ?_
  cases hget : tx.get? (.str name) with
  | none => simp [optionalField]
  | some v => simp [optionalField, Prod.ext_iff, eq_comm]

theorem nodup_optionalField (key : String) (value : Option Value) :
    (optionalField key value).Nodup := by
  cases value <;> simp [optionalField]

theorem key_of_mem_optionalField {key : String} {value : Option Value} {e : Scalar × Value}
    (h : e ∈ optionalField key value) : e.1 = .str key := by
  cases value with
  | none => cases h
  | some v => rw [List.mem_singleton.mp h]

theorem nodup_select {names : List String} (h : names.Nodup) (tx : Transaction) :
    (select names tx).Nodup := by
  unfold select
  refine List.nodup_flatMap.mpr ⟨fun name _ => nodup_optionalField _ _, ?_⟩
  refine h.imp fun hne e he he' => hne ?_
  have hkey := (key_of_mem_optionalField he).symm.trans (key_of_mem_optionalField he')
  exact Scalar.str.inj hkey

/-- A dictionary whose keys are all among the names is selected as it is. -/
theorem select_perm {names : List String} {tx : Transaction} (hnames : names.Nodup)
    (htx : (tx.map Prod.fst).Nodup) (hkeys : ∀ e ∈ tx, ∃ name ∈ names, e.1 = .str name) :
    (select names tx).Perm tx := by
  refine (List.perm_ext_iff_of_nodup (nodup_select hnames tx) htx.of_map).mpr fun e => ?_
  rw [mem_select]
  constructor
  · rintro ⟨name, -, hkey, hget⟩
    rw [PyDict.get?_str_eq_some_iff htx, ← hkey] at hget
    exact hget
  · intro he
    obtain ⟨name, hname, hkey⟩ := hkeys e he
    refine ⟨name, hname, hkey, ?_⟩
    rw [PyDict.get?_str_eq_some_iff htx, ← hkey]
    exact he

/-- The fields that both request models send on. -/
def tenantFields : List String :=
  ["type", "product_id", "destination", "shipper", "receiver", "at_customs", "check_name",
    "inspector", "reason", "released_by"]

/-- The fields that come back from the generic model; the sender is not among them. -/
def returnedFields : List String := tenantFields ++ ["to", "amount"]

section Filling

/-- A field that is absent or of its own type is read as it is. -/
theorem optionalOf_eq {α : Type} {read : Value → Option α} {value : α → Value} {body : PyDict}
    {key : String} (hread : ∀ a, read (value a) = some a) (hnone : ∀ a, value a ≠ .none)
    (hval : ∀ v, body.get? (.str key) = some v → ∃ a, v = value a) :
    ∃ x, optionalOf body key read = some x ∧ x.map value = body.get? (.str key) := by
  unfold optionalOf
  cases hget : body.get? (.str key) with
  | none => exact ⟨none, rfl, rfl⟩
  | some v =>
    obtain ⟨a, rfl⟩ := hval v hget
    exact ⟨some a, by simp [hnone, hread], rfl⟩

variable {types : List (String × List String)} {tx : Transaction}

/-- Every field but the type has a value of its own type. -/
theorem Documented.holds (h : Documented types tx) {name : String} (hname : name ≠ "type")
    {v : Value} (hget : tx.get? (.str name) = some v) : (fieldType name).Holds v := by
  obtain ⟨entry, -, -, hall⟩ := h.fields
  rw [PyDict.get?_str_eq_some_iff h.nodup] at hget
  rcases hall _ hget with htype | ⟨field, -, hkey, hholds⟩
  · exact absurd (Scalar.str.inj (Prod.ext_iff.mp htype).1) hname
  · rw [Scalar.str.inj hkey]
    exact hholds

theorem Documented.optionalOf_str (h : Documented types tx) (name : String)
    (hname : name ≠ "type") (hfield : fieldType name = .text) :
    ∃ x, optionalOf tx name reader.str = some x ∧ x.map Value.str = tx.get? (.str name) := by
  refine optionalOf_eq reader.str_str (by simp) fun v hget => ?_
  have hholds := h.holds hname hget
  rwa [hfield] at hholds

theorem Documented.optionalOf_flag (h : Documented types tx) :
    ∃ x, optionalOf tx "at_customs" reader.bool = some x ∧
      x.map Value.bool = tx.get? (.str "at_customs") :=
  optionalOf_eq reader.bool_bool (by simp) fun _ hget => h.holds (by decide) hget

theorem Documented.optionalOf_amount (h : Documented types tx) :
    ∃ x, optionalOf tx "amount" reader.int = some x ∧
      x.map Value.int = tx.get? (.str "amount") :=
  optionalOf_eq reader.int_int (by simp) fun _ hget => h.holds (by decide) hget

/-- The tenant's model of a documented transaction sends its fields back. -/
theorem Documented.tenantRequest (h : Documented types tx) :
    ∃ req, TenantTransactionRequest.ofBody reader tx = some req ∧
      req.toEcnTx = select tenantFields tx := by
  obtain ⟨entry, -, htype, -⟩ := h.fields
  rw [← PyDict.get?_str_eq_some_iff h.nodup] at htype
  obtain ⟨productId, hproductId, h₁⟩ := h.optionalOf_str reader "product_id" (by decide) rfl
  obtain ⟨destination, hdestination, h₂⟩ := h.optionalOf_str reader "destination" (by decide) rfl
  obtain ⟨shipper, hshipper, h₃⟩ := h.optionalOf_str reader "shipper" (by decide) rfl
  obtain ⟨receiver, hreceiver, h₄⟩ := h.optionalOf_str reader "receiver" (by decide) rfl
  obtain ⟨atCustoms, hatCustoms, h₅⟩ := h.optionalOf_flag reader
  obtain ⟨checkName, hcheckName, h₆⟩ := h.optionalOf_str reader "check_name" (by decide) rfl
  obtain ⟨inspector, hinspector, h₇⟩ := h.optionalOf_str reader "inspector" (by decide) rfl
  obtain ⟨reason, hreason, h₈⟩ := h.optionalOf_str reader "reason" (by decide) rfl
  obtain ⟨releasedBy, hreleasedBy, h₉⟩ := h.optionalOf_str reader "released_by" (by decide) rfl
  refine ⟨⟨entry.1, productId, destination, shipper, receiver, atCustoms, checkName, inspector,
    reason, releasedBy⟩, ?_, ?_⟩
  · simp [TenantTransactionRequest.ofBody, htype, reader.str_str, hproductId, hdestination,
      hshipper, hreceiver, hatCustoms, hcheckName, hinspector, hreason, hreleasedBy]
  · simp [TenantTransactionRequest.toEcnTx, select, tenantFields, htype, ← h₁, ← h₂, ← h₃, ← h₄,
      ← h₅, ← h₆, ← h₇, ← h₈, ← h₉, optionalField]

/-- The generic model has the tenant's fields and three more. -/
theorem TransactionRequest.ofBody_eq (body : PyDict) : TransactionRequest.ofBody reader body = do
    let tenant ← TenantTransactionRequest.ofBody reader body
    let from_ ← optionalOf body "from_" reader.str
    let to_ ← optionalOf body "to" reader.str
    let amount ← optionalOf body "amount" reader.int
    return ⟨tenant.type, tenant.productId, tenant.destination, tenant.shipper, tenant.receiver,
      tenant.atCustoms, tenant.checkName, tenant.inspector, tenant.reason, tenant.releasedBy,
      from_, to_, amount⟩ := by
  unfold TransactionRequest.ofBody TenantTransactionRequest.ofBody
  simp only [bind_assoc, pure_bind]

theorem select_append (names names' : List String) (tx : Transaction) :
    select (names ++ names') tx = select names tx ++ select names' tx :=
  List.flatMap_append

theorem Documented.key (h : Documented types tx) {e : Scalar × Value} (he : e ∈ tx) :
    ∃ name ∈ "type" :: types.flatMap Prod.snd, e.1 = .str name := by
  obtain ⟨entry, hentry, -, hall⟩ := h.fields
  rcases hall e he with rfl | ⟨name, hname, hkey, -⟩
  · exact ⟨"type", List.mem_cons_self, rfl⟩
  · exact ⟨name, List.mem_cons_of_mem _ (List.mem_flatMap.mpr ⟨entry, hentry, hname⟩), hkey⟩

/-- Documented keys are returned fields or the sender. -/
theorem Documented.key_returned (h : Documented documentedTypes tx) {e : Scalar × Value}
    (he : e ∈ tx) : ∃ name ∈ "from" :: returnedFields, e.1 = .str name := by
  obtain ⟨name, hname, hkey⟩ := h.key he
  have hsub : "type" :: documentedTypes.flatMap Prod.snd ⊆ "from" :: returnedFields := by decide
  exact ⟨name, hsub hname, hkey⟩

/-- The generic model of a documented transaction sends everything back but the sender. -/
theorem Documented.request (h : Documented documentedTypes tx) :
    ∃ req, TransactionRequest.ofBody reader tx = some req ∧
      req.toEcnTx = select returnedFields tx := by
  obtain ⟨tenant, htenant, hfields⟩ := h.tenantRequest reader
  have hfrom : tx.get? (.str "from_") = none := by
    rw [Option.eq_none_iff_forall_ne_some]
    intro v hget
    rw [PyDict.get?_str_eq_some_iff h.nodup] at hget
    obtain ⟨name, hname, hkey⟩ := h.key_returned hget
    rw [← Scalar.str.inj hkey] at hname
    exact absurd hname (by decide)
  obtain ⟨to_, hto, h₁⟩ := h.optionalOf_str reader "to" (by decide) rfl
  obtain ⟨amount, hamount, h₂⟩ := h.optionalOf_amount reader
  refine ⟨⟨tenant.type, tenant.productId, tenant.destination, tenant.shipper, tenant.receiver,
    tenant.atCustoms, tenant.checkName, tenant.inspector, tenant.reason, tenant.releasedBy,
    none, to_, amount⟩, ?_, ?_⟩
  · have hsender : optionalOf tx "from_" reader.str = some none := by simp [optionalOf, hfrom]
    simp [TransactionRequest.ofBody_eq, htenant, hsender, hto, hamount]
  · have hlast : select ["to", "amount"] tx =
        optionalField "to" (to_.map Value.str) ++
          optionalField "amount" (amount.map Value.int) := by
      simp [select, h₁, h₂]
    rw [returnedFields, select_append, hlast, ← hfields]
    simp [TransactionRequest.toEcnTx, TenantTransactionRequest.toEcnTx, optionalField]

end Filling

/-! ## What the boundary keeps -/

theorem FieldType.Holds.isJsonDoc {t : FieldType} {v : Value} (h : t.Holds v) : IsJsonDoc v := by
  cases t <;> obtain ⟨a, rfl⟩ := h <;> exact .scalar rfl

theorem Documented.isJsonDoc {types : List (String × List String)} {tx : Transaction}
    (h : Documented types tx) : IsJsonDoc (.dict tx) := by
  refine .dict h.nodup (fun e he => ?_) fun e he => ?_
  · obtain ⟨name, -, hkey⟩ := h.key he
    exact ⟨name, hkey⟩
  · obtain ⟨entry, -, -, hall⟩ := h.fields
    rcases hall e he with rfl | ⟨name, -, -, hholds⟩
    · exact .scalar rfl
    · exact hholds.isJsonDoc

theorem Documented.posted {types : List (String × List String)} {tx : Transaction}
    (h : Documented types tx) : posted tx = some tx := by
  rw [ECN.posted, jsonLoads_jsonText reprReads_printingInterp h.isJsonDoc]

/-- Posting the transaction and converting the request gives the same dictionary back, for a
tenant too when it is one of the supply chain. -/
def KeepsFields (reader : FieldReader) (tx : Transaction) : Prop :=
  ∃ body, posted tx = some body ∧
    (∃ req, TransactionRequest.ofBody reader body = some req ∧ req.toEcnTx.Perm tx) ∧
    (Documented supplyChainTypes tx →
      ∃ req, TenantTransactionRequest.ofBody reader body = some req ∧ req.toEcnTx.Perm tx)

/-- The boundary keeps a documented transaction if and only if it has no sender field, which
transfers and burns need. -/
theorem keepsFields_iff (reader : FieldReader) {tx : Transaction}
    (h : Documented documentedTypes tx) :
    KeepsFields reader tx ↔ tx.get? (.str "from") = none := by
  obtain ⟨req, hreq, hfields⟩ := h.request reader
  constructor
  · rintro ⟨body, hbody, ⟨req', hreq', hperm⟩, -⟩
    obtain rfl := Option.some.inj (h.posted.symm.trans hbody)
    obtain rfl := Option.some.inj (hreq.symm.trans hreq')
    rw [Option.eq_none_iff_forall_ne_some]
    intro v hget
    rw [PyDict.get?_str_eq_some_iff h.nodup, ← hperm.mem_iff, hfields, mem_select] at hget
    obtain ⟨name, hname, hkey, -⟩ := hget
    rw [← Scalar.str.inj hkey] at hname
    exact absurd hname (by decide)
  · intro hfrom
    refine ⟨tx, h.posted, ⟨req, hreq, ?_⟩, fun hsupply => ?_⟩
    · rw [hfields]
      refine select_perm (by decide) h.nodup fun e he => ?_
      obtain ⟨name, hname, hkey⟩ := h.key_returned he
      rcases List.mem_cons.mp hname with rfl | hname
      · have hmem : (.str "from", e.2) ∈ tx := hkey ▸ he
        rw [← PyDict.get?_str_eq_some_iff h.nodup, hfrom] at hmem
        cases hmem
      · exact ⟨name, hname, hkey⟩
    · obtain ⟨tenant, htenant, hsent⟩ := hsupply.tenantRequest reader
      refine ⟨tenant, htenant, ?_⟩
      rw [hsent]
      refine select_perm (by decide) h.nodup fun e he => ?_
      obtain ⟨name, hname, hkey⟩ := hsupply.key he
      have hsub : "type" :: supplyChainTypes.flatMap Prod.snd ⊆ tenantFields := by decide
      exact ⟨name, hsub hname, hkey⟩

/-- A reader that takes values of the field's type only. -/
def strictReader : FieldReader where
  str v := match v with | .str s => some s | _ => none
  bool v := match v with | .bool b => some b | _ => none
  int v := match v with | .int n => some n | _ => none
  str_str _ := rfl
  bool_bool _ := rfl
  int_int _ := rfl

/-- A delivery that is not at customs. -/
def deliveryTx : Transaction :=
  [(.str "type", .str "receive"), (.str "product_id", .str "ITEM-001"),
    (.str "receiver", .str "Bob"), (.str "at_customs", .bool false)]

theorem documented_deliveryTx : Documented documentedTypes deliveryTx where
  nodup := by decide
  fields := by
    refine ⟨("receive", ["product_id", "receiver", "at_customs"]), by decide, by decide, ?_⟩
    simp [deliveryTx, fieldType, FieldType.Holds]

theorem keepsFields_deliveryTx :
    KeepsFields strictReader deliveryTx ↔ deliveryTx.get? (.str "from") = none :=
  keepsFields_iff strictReader documented_deliveryTx

/-- A transfer loses its sender. -/
def transferTx : Transaction :=
  [(.str "type", .str "transfer"), (.str "from", .str "A"), (.str "to", .str "B"),
    (.str "amount", .int 100)]

theorem documented_transferTx : Documented documentedTypes transferTx where
  nodup := by decide
  fields := by
    refine ⟨("transfer", ["from", "to", "amount"]), by decide, by decide, ?_⟩
    simp [transferTx, fieldType, FieldType.Holds]

theorem transfer_loses_sender :
    Documented documentedTypes transferTx ∧ ¬ KeepsFields strictReader transferTx := by
  refine ⟨documented_transferTx, ?_⟩
  rintro ⟨body, hbody, ⟨req, hreq, hperm⟩, -⟩
  obtain rfl := Option.some.inj (documented_transferTx.posted.symm.trans hbody)
  have hmissing : (TransactionRequest.ofBody strictReader transferTx).map
      TransactionRequest.toEcnTx = some
        [(.str "type", .str "transfer"), (.str "to", .str "B"), (.str "amount", .int 100)] := by
    decide
  rw [hreq, Option.map_some, Option.some.injEq] at hmissing
  rw [hmissing] at hperm
  simpa [transferTx] using hperm.length_eq

end ECN
