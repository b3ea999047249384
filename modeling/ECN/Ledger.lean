import ECN.OrderedDict

/-!
# Ledgers

Accounts with natural-number balances. A posting moves an amount between two accounts,
creates it in one or destroys it in one. What a posting does to the total, to the accounts
it does not name and to the set of accounts carries over to sequences of postings.
-/
namespace ECN

variable {κ : Type*} [DecidableEq κ]

/-- Balances by account. -/
abbrev Ledger (κ : Type*) [DecidableEq κ] := OrderedDict κ ℕ

inductive Posting (κ : Type*) where
  | transfer (sender receiver : κ) (amount : ℕ)
  | mint (receiver : κ) (amount : ℕ)
  | burn (sender : κ) (amount : ℕ)

namespace Posting

def accounts : Posting κ → List κ
  | .transfer sender receiver _ => [sender, receiver]
  | .mint receiver _ => [receiver]
  | .burn sender _ => [sender]

def minted : Posting κ → ℕ
  | .mint _ amount => amount
  | .transfer _ _ _ | .burn _ _ => 0

def burned : Posting κ → ℕ
  | .burn _ amount => amount
  | .transfer _ _ _ | .mint _ _ => 0

end Posting

namespace Ledger

def total (ledger : Ledger κ) : ℕ := ledger.values.sum

/-- Take an amount from an account that holds it. -/
def debit (ledger : Ledger κ) (account : κ) (amount : ℕ) : Option (Ledger κ) :=
  match ledger.get? account with
  | some held => if amount ≤ held then some (ledger.set account (held - amount)) else none
  | none => none

/-- Add an amount to an account, which is opened when it is missing. -/
def credit (ledger : Ledger κ) (account : κ) (amount : ℕ) : Ledger κ :=
  ledger.set account (ledger.getD account 0 + amount)

/-- Post to accounts that exist; only a mint opens one. -/
def post (ledger : Ledger κ) : Posting κ → Option (Ledger κ)
  | .transfer sender receiver amount =>
    if receiver ∈ ledger.keys then
      (ledger.debit sender amount).map fun debited => debited.credit receiver amount
    else none
  | .mint receiver amount => some (ledger.credit receiver amount)
  | .burn sender amount => ledger.debit sender amount

variable {ledger ledger' : Ledger κ} {account other : κ} {amount : ℕ} {p : Posting κ}

/-! ## One account -/

theorem total_set (ledger : Ledger κ) (account : κ) (held : ℕ) :
    total (ledger.set account held) + ledger.getD account 0 = ledger.total + held :=
  OrderedDict.sum_values_upsert account held ledger.entries

theorem debit_eq_some : ledger.debit account amount = some ledger' ↔
    ∃ held, ledger.get? account = some held ∧ amount ≤ held ∧
      ledger' = ledger.set account (held - amount) := by
  unfold debit
  cases ledger.get? account with
  | none => simp
  | some held => by_cases h : amount ≤ held <;> simp [h, eq_comm]

theorem total_credit (ledger : Ledger κ) (account : κ) (amount : ℕ) :
    (ledger.credit account amount).total = ledger.total + amount := by
  have h := ledger.total_set account (ledger.getD account 0 + amount)
  unfold credit
  omega

theorem total_debit (h : ledger.debit account amount = some ledger') :
    ledger'.total + amount = ledger.total := by
  obtain ⟨held, hget, hle, rfl⟩ := debit_eq_some.mp h
  have hset := ledger.total_set account (held - amount)
  rw [OrderedDict.getD, hget, Option.getD_some] at hset
  omega

theorem get?_credit_of_ne (hne : other ≠ account) (amount : ℕ) :
    (ledger.credit account amount).get? other = ledger.get? other := by
  simp [credit, hne]

theorem get?_debit_of_ne (h : ledger.debit account amount = some ledger') (hne : other ≠ account) :
    ledger'.get? other = ledger.get? other := by
  obtain ⟨held, -, -, rfl⟩ := debit_eq_some.mp h
  simp [hne]

theorem keys_credit (h : other ∈ ledger.keys) (account : κ) (amount : ℕ) :
    other ∈ (ledger.credit account amount).keys := by
  simp [credit, h]

theorem keys_debit (h : ledger.debit account amount = some ledger') (hmem : other ∈ ledger.keys) :
    other ∈ ledger'.keys := by
  obtain ⟨held, -, -, rfl⟩ := debit_eq_some.mp h
  simp [hmem]

/-! ## One posting -/

theorem post_transfer {sender receiver : κ}
    (h : ledger.post (.transfer sender receiver amount) = some ledger') :
    ∃ debited, ledger.debit sender amount = some debited ∧
      ledger' = debited.credit receiver amount := by
  simp only [post] at h
  split at h
  · obtain ⟨debited, hd, rfl⟩ := Option.map_eq_some_iff.mp h
    exact ⟨debited, hd, rfl⟩
  · cases h

/-- A posting changes the total by what it mints and burns. -/
theorem total_post (h : ledger.post p = some ledger') :
    ledger'.total + p.burned = ledger.total + p.minted := by
  cases p with
  | transfer sender receiver amount =>
    obtain ⟨debited, hd, rfl⟩ := post_transfer h
    have hdebit := total_debit hd
    rw [total_credit, Posting.burned, Posting.minted]
    omega
  | mint receiver amount =>
    obtain rfl := Option.some_inj.mp h
    rw [total_credit, Posting.burned, Posting.minted]
    omega
  | burn sender amount =>
    have hdebit := total_debit h
    rw [Posting.burned, Posting.minted]
    omega

/-- Accounts that a posting does not name keep their balance. -/
theorem get?_post (h : ledger.post p = some ledger') (hout : other ∉ p.accounts) :
    ledger'.get? other = ledger.get? other := by
  cases p with
  | transfer sender receiver amount =>
    simp only [Posting.accounts, List.mem_cons, List.not_mem_nil, or_false, not_or] at hout
    obtain ⟨debited, hd, rfl⟩ := post_transfer h
    rw [get?_credit_of_ne hout.2, get?_debit_of_ne hd hout.1]
  | mint receiver amount =>
    obtain rfl := Option.some_inj.mp h
    exact get?_credit_of_ne (by simpa [Posting.accounts] using hout) amount
  | burn sender amount => exact get?_debit_of_ne h (by simpa [Posting.accounts] using hout)

/-- No posting closes an account. -/
theorem keys_post (h : ledger.post p = some ledger') (hmem : other ∈ ledger.keys) :
    other ∈ ledger'.keys := by
  cases p with
  | transfer sender receiver amount =>
    obtain ⟨debited, hd, rfl⟩ := post_transfer h
    exact keys_credit (keys_debit hd hmem) receiver amount
  | mint receiver amount =>
    obtain rfl := Option.some_inj.mp h
    exact keys_credit hmem receiver amount
  | burn sender amount => exact keys_debit h hmem

/-! ## Sequences of postings -/

/-- Post one after the other. -/
def postAll (ledger : Ledger κ) (ps : List (Posting κ)) : Option (Ledger κ) :=
  ps.foldlM post ledger

variable {ps : List (Posting κ)}

theorem postAll_cons : ledger.postAll (p :: ps) = some ledger' ↔
    ∃ mid, ledger.post p = some mid ∧ mid.postAll ps = some ledger' := by
  simp [postAll, List.foldlM_cons, Option.bind_eq_some_iff]

theorem total_postAll (h : ledger.postAll ps = some ledger') :
    ledger'.total + (ps.map Posting.burned).sum = ledger.total + (ps.map Posting.minted).sum := by
  induction ps generalizing ledger with
  | nil =>
    obtain rfl := Option.some_inj.mp h
    rfl
  | cons p ps ih =>
    obtain ⟨mid, hmid, hrest⟩ := postAll_cons.mp h
    have hone := total_post hmid
    have hall := ih hrest
    simp only [List.map_cons, List.sum_cons]
    omega

theorem get?_postAll (h : ledger.postAll ps = some ledger') (hout : ∀ p ∈ ps, other ∉ p.accounts) :
    ledger'.get? other = ledger.get? other := by
  induction ps generalizing ledger with
  | nil =>
    obtain rfl := Option.some_inj.mp h
    rfl
  | cons p ps ih =>
    obtain ⟨mid, hmid, hrest⟩ := postAll_cons.mp h
    rw [ih hrest fun q hq => hout q (List.mem_cons_of_mem p hq),
      get?_post hmid (hout p List.mem_cons_self)]

theorem keys_postAll (h : ledger.postAll ps = some ledger') (hmem : other ∈ ledger.keys) :
    other ∈ ledger'.keys := by
  induction ps generalizing ledger with
  | nil =>
    obtain rfl := Option.some_inj.mp h
    exact hmem
  | cons p ps ih =>
    obtain ⟨mid, hmid, hrest⟩ := postAll_cons.mp h
    exact ih hrest (keys_post hmid hmem)

end Ledger
end ECN
