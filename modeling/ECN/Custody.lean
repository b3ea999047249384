import ECN.OrderedDict
import Mathlib.Data.String.Basic

/-!
# Custody of products

What the record of a product says and how it moves through a supply chain: it is shipped,
received, inspected, quarantined and released. A record is explained by the history of its own
movements, whatever happens to other products in between.
-/
namespace ECN

inductive Status where
  | manufactured
  | inTransit
  | atCustoms
  | quarantined
  | delivered
  deriving DecidableEq

/-- The current record of a product. -/
structure Product where
  status : Status
  location : String
  owner : String
  checks : List String
  reason : Option String
  sorted : checks.Pairwise (· < ·)
  reason_iff : reason.isSome = true ↔ status = .quarantined

inductive Movement where
  | ship (destination shipper : String)
  | receive (receiver : String) (atCustoms : Bool)
  | inspect (checkName : String)
  | quarantine (reason : String)
  | release

namespace Movement

@[simp] def destination : Movement → Option String
  | .ship destination _ => some destination
  | .receive _ _ | .inspect _ | .quarantine _ | .release => none

/-- The shipper or the receiver. -/
@[simp] def custodian : Movement → Option String
  | .ship _ shipper => some shipper
  | .receive receiver _ => some receiver
  | .inspect _ | .quarantine _ | .release => none

@[simp] def quarantineReason : Movement → Option String
  | .quarantine reason => some reason
  | .ship _ _ | .receive _ _ | .inspect _ | .release => none

@[simp] def changesStatus : Movement → Bool
  | .inspect _ => false
  | .ship _ _ | .receive _ _ | .quarantine _ | .release => true

end Movement

/-! ## One product -/

namespace Product

def initial : Product where
  status := .manufactured
  location := "factory"
  owner := "manufacturer"
  checks := []
  reason := none
  sorted := .nil
  reason_iff := by simp

theorem reason_eq_none (p : Product) (h : p.status ≠ .quarantined) : p.reason = none := by
  have hreason := mt p.reason_iff.mp h
  simpa using hreason

/-- The strictly sorted list with one more element. -/
def withCheck (checks : List String) (checkName : String) : List String :=
  if checkName ∈ checks then checks else checks.orderedInsert (· ≤ ·) checkName

theorem mem_withCheck {checks : List String} {checkName c : String} :
    c ∈ withCheck checks checkName ↔ c ∈ checks ∨ c = checkName := by
  unfold withCheck
  split
  · next h =>
    refine ⟨.inl, fun hc => hc.elim id ?_⟩
    rintro rfl
    exact h
  · rw [List.mem_orderedInsert, or_comm]

theorem pairwise_withCheck {checks : List String} (h : checks.Pairwise (· < ·))
    (checkName : String) : (withCheck checks checkName).Pairwise (· < ·) := by
  unfold withCheck
  split
  · exact h
  · next hnew =>
    have hsorted : checks.Pairwise (· ≤ ·) := h.imp fun hab => le_of_lt hab
    have hle := hsorted.orderedInsert checkName
    have hne : (checks.orderedInsert (· ≤ ·) checkName).Nodup := by
      rw [(List.perm_orderedInsert _ checkName checks).nodup_iff, List.nodup_cons]
      exact ⟨hnew, h.imp fun hab => ne_of_lt hab⟩
    exact hle.imp₂ (fun a b hab hne => lt_of_le_of_ne hab hne) hne

/-- A movement of the product, when its status allows it. -/
def move (p : Product) : Movement → Option Product
  | .ship destination shipper =>
    if h : p.status = .inTransit ∨ p.status = .quarantined then none
    else some { p with
      status := .inTransit
      location := destination
      owner := shipper
      reason_iff := by simp [p.reason_eq_none fun hq => h (.inr hq)] }
  | .receive receiver atCustoms =>
    if h : p.status = .inTransit then some { p with
      status := if atCustoms then .atCustoms else .delivered
      owner := receiver
      reason_iff := by
        have hreason : p.reason = none := p.reason_eq_none (by simp [h])
        cases atCustoms <;> simp [hreason] }
    else none
  | .inspect checkName => some { p with
      checks := withCheck p.checks checkName
      sorted := pairwise_withCheck p.sorted checkName }
  | .quarantine reason =>
    if p.status = .quarantined then none
    else some { p with
      status := .quarantined
      reason := some reason
      reason_iff := by simp }
  | .release =>
    if p.status = .quarantined then some { p with
      status := .atCustoms
      reason := none
      reason_iff := by simp }
    else none

/-- One movement after the other. -/
def moveAll (p : Product) (moves : List Movement) : Option Product := moves.foldlM move p

variable {p q : Product} {mv : Movement} {moves : List Movement}

theorem moveAll_append {rest : List Movement} : p.moveAll (moves ++ rest) = some q ↔
    ∃ mid, p.moveAll moves = some mid ∧ mid.moveAll rest = some q := by
  simp [moveAll, List.foldlM_append, Option.bind_eq_some_iff]

theorem moveAll_cons : p.moveAll (mv :: moves) = some q ↔
    ∃ mid, p.move mv = some mid ∧ mid.moveAll moves = some q := by
  simp [moveAll, List.foldlM_cons, Option.bind_eq_some_iff]

/-- What the record says in terms of the movements since the product was made. -/
structure Recounts (p : Product) (moves : List Movement) : Prop where
  location : p.location = (moves.filterMap Movement.destination).getLast?.getD "factory"
  owner : p.owner = (moves.filterMap Movement.custodian).getLast?.getD "manufacturer"
  reason : p.status = .quarantined →
    p.reason = (moves.filterMap Movement.quarantineReason).getLast?
  checks : ∀ c, c ∈ p.checks ↔ .inspect c ∈ moves
  shipped : p.status = .inTransit → ∃ past destination shipper,
    moves.filter Movement.changesStatus = past ++ [.ship destination shipper]
  delivered : p.status = .delivered → ∃ past destination shipper receiver,
    moves.filter Movement.changesStatus =
      past ++ [.ship destination shipper, .receive receiver false]

theorem recounts_initial : initial.Recounts [] where
  location := rfl
  owner := rfl
  reason h := by cases h
  checks c := by simp [initial]
  shipped h := by cases h
  delivered h := by cases h

/-- A movement and the record after it are recounted together. -/
theorem Recounts.move (h : p.Recounts moves) (hq : p.move mv = some q) :
    q.Recounts (moves ++ [mv]) := by
  cases mv with
  | ship destination shipper =>
    simp only [Product.move] at hq
    split at hq
    · cases hq
    · obtain rfl := Option.some_inj.mp hq
      exact
        { location := by simp
          owner := by simp
          reason := fun hs => by cases hs
          checks := by simpa using h.checks
          shipped := fun _ => ⟨_, destination, shipper, by simp [List.filter_append]; rfl⟩
          delivered := fun hs => by cases hs }
  | receive receiver atCustoms =>
    simp only [Product.move] at hq
    split at hq
    · next hstatus =>
      obtain rfl := Option.some_inj.mp hq
      exact
        { location := by simpa using h.location
          owner := by simp
          reason := fun hs => by cases atCustoms <;> cases hs
          checks := by simpa using h.checks
          shipped := fun hs => by cases atCustoms <;> cases hs
          delivered := fun hs => by
            obtain ⟨past, destination, shipper, hpast⟩ := h.shipped hstatus
            cases atCustoms with
            | true => cases hs
            | false => exact ⟨past, destination, shipper, receiver, by simp [hpast]⟩ }
    · cases hq
  | inspect checkName =>
    obtain rfl := Option.some_inj.mp hq
    exact
      { location := by simpa using h.location
        owner := by simpa using h.owner
        reason := by simpa using h.reason
        checks := fun c => by simp [mem_withCheck, h.checks]
        shipped := by simpa using h.shipped
        delivered := by simpa using h.delivered }
  | quarantine reason =>
    simp only [Product.move] at hq
    split at hq
    · cases hq
    · obtain rfl := Option.some_inj.mp hq
      exact
        { location := by simpa using h.location
          owner := by simpa using h.owner
          reason := fun _ => by simp
          checks := by simpa using h.checks
          shipped := fun hs => by cases hs
          delivered := fun hs => by cases hs }
  | release =>
    simp only [Product.move] at hq
    split at hq
    · obtain rfl := Option.some_inj.mp hq
      exact
        { location := by simpa using h.location
          owner := by simpa using h.owner
          reason := fun hs => by cases hs
          checks := by simpa using h.checks
          shipped := fun hs => by cases hs
          delivered := fun hs => by cases hs }
    · cases hq

/-- The record after a history recounts it. -/
theorem recounts_moveAll (h : initial.moveAll moves = some p) : p.Recounts moves := by
  induction moves using List.reverseRecOn generalizing p with
  | nil =>
    obtain rfl := Option.some_inj.mp h
    exact recounts_initial
  | append_singleton moves mv ih =>
    obtain ⟨mid, hmid, hlast⟩ := moveAll_append.mp h
    obtain ⟨q, hq, hp⟩ := moveAll_cons.mp hlast
    obtain rfl := Option.some_inj.mp hp
    exact (ih hmid).move hq

/-- Only a release ends a quarantine. -/
theorem quarantined_of_moveAll (hp : p.status = .quarantined) (h : p.moveAll moves = some q)
    (hmoves : .release ∉ moves) : q.status = .quarantined := by
  induction moves generalizing p with
  | nil =>
    obtain rfl := Option.some_inj.mp h
    exact hp
  | cons mv moves ih =>
    obtain ⟨mid, hmid, hrest⟩ := moveAll_cons.mp h
    rw [List.mem_cons, not_or] at hmoves
    refine ih ?_ hrest hmoves.2
    cases mv with
    | ship destination shipper => simp [move, hp] at hmid
    | receive receiver atCustoms => simp [move, hp] at hmid
    | inspect checkName =>
      obtain rfl := Option.some_inj.mp hmid
      exact hp
    | quarantine reason => simp [move, hp] at hmid
    | release => exact absurd rfl hmoves.1

/-- Between a quarantine and the next release a product changes no hands. -/
theorem release_mem_of_moveAll {past between rest : List Movement} {reason : String}
    (h : p.moveAll (past ++ .quarantine reason :: between ++ mv :: rest) = some q)
    (hmv : mv.custodian ≠ none) : .release ∈ between := by
  by_contra hnone
  rw [List.append_assoc, List.cons_append, moveAll_append] at h
  obtain ⟨before, -, h⟩ := h
  obtain ⟨flagged, hflagged, h⟩ := moveAll_cons.mp h
  obtain ⟨held, hheld, h⟩ := moveAll_append.mp h
  obtain ⟨moved, hmoved, -⟩ := moveAll_cons.mp h
  have hstatus : flagged.status = .quarantined := by
    simp only [move] at hflagged
    split at hflagged
    · cases hflagged
    · rw [← Option.some_inj.mp hflagged]
  have hstill := quarantined_of_moveAll hstatus hheld hnone
  cases mv with
  | ship destination shipper => simp [move, hstill] at hmoved
  | receive receiver atCustoms => simp [move, hstill] at hmoved
  | inspect checkName => exact hmv rfl
  | quarantine reason => exact hmv rfl
  | release => exact hmv rfl

end Product

/-! ## Many products -/

/-- Products by name. -/
abbrev Chain := OrderedDict String Product

namespace Chain

/-- New products. -/
def initial (productIds : List String) : Chain :=
  OrderedDict.ofList (productIds.map fun productId => (productId, Product.initial))

/-- Move one product. -/
def move (chain : Chain) (event : String × Movement) : Option Chain :=
  (chain.get? event.1).bind fun p => (p.move event.2).map fun q => chain.set event.1 q

def moveAll (chain : Chain) (history : List (String × Movement)) : Option Chain :=
  history.foldlM move chain

/-- The movements of one product. -/
def movesOf (productId : String) (history : List (String × Movement)) : List Movement :=
  (history.filter fun event => event.1 = productId).map Prod.snd

variable {chain chain' : Chain} {event : String × Movement} {history : List (String × Movement)}

theorem move_eq_some : chain.move event = some chain' ↔ ∃ p q, chain.get? event.1 = some p ∧
    p.move event.2 = some q ∧ chain' = chain.set event.1 q := by
  simp only [move, Option.bind_eq_some_iff, Option.map_eq_some_iff]
  constructor
  · rintro ⟨p, hp, q, hq, rfl⟩
    exact ⟨p, q, hp, hq, rfl⟩
  · rintro ⟨p, q, hp, hq, rfl⟩
    exact ⟨p, hp, q, hq, rfl⟩

theorem keys_move (h : chain.move event = some chain') : chain'.keys = chain.keys := by
  obtain ⟨p, q, hp, -, rfl⟩ := move_eq_some.mp h
  exact chain.keys_set hp q

theorem moveAll_concat : chain.moveAll (history ++ [event]) = some chain' ↔
    ∃ mid, chain.moveAll history = some mid ∧ mid.move event = some chain' := by
  simp [moveAll, List.foldlM_append, Option.bind_eq_some_iff]

theorem moveAll_cons : chain.moveAll (event :: history) = some chain' ↔
    ∃ mid, chain.move event = some mid ∧ mid.moveAll history = some chain' := by
  simp [moveAll, List.foldlM_cons, Option.bind_eq_some_iff]

theorem keys_moveAll (h : chain.moveAll history = some chain') : chain'.keys = chain.keys := by
  induction history generalizing chain with
  | nil =>
    obtain rfl := Option.some_inj.mp h
    rfl
  | cons event history ih =>
    obtain ⟨mid, hmid, hrest⟩ := moveAll_cons.mp h
    rw [ih hrest, keys_move hmid]

theorem get?_initial {productIds : List String} {productId : String} {p : Product}
    (h : (initial productIds).get? productId = some p) : p = Product.initial := by
  obtain ⟨e, he, -, rfl⟩ := OrderedDict.mem_of_get?_ofList h
  obtain ⟨_, -, rfl⟩ := List.mem_map.mp he
  rfl

/-- The record of a product is what its own movements make of a new one. -/
theorem moveAll_movesOf {productIds : List String}
    (h : (initial productIds).moveAll history = some chain) {productId : String} {p : Product}
    (hp : chain.get? productId = some p) :
    Product.initial.moveAll (movesOf productId history) = some p := by
  induction history using List.reverseRecOn generalizing chain p with
  | nil =>
    obtain rfl := Option.some_inj.mp h
    rw [get?_initial hp]
    rfl
  | append_singleton history event ih =>
    obtain ⟨mid, hmid, hlast⟩ := moveAll_concat.mp h
    obtain ⟨q, r, hq, hr, rfl⟩ := move_eq_some.mp hlast
    rw [OrderedDict.get?_set] at hp
    by_cases hsame : productId = event.1
    · subst hsame
      rw [if_pos rfl] at hp
      obtain rfl := Option.some_inj.mp hp
      rw [movesOf, List.filter_append, List.map_append, Product.moveAll_append]
      refine ⟨q, ih hmid hq, ?_⟩
      simp [Product.moveAll, hr]
    · rw [if_neg hsame] at hp
      simpa [movesOf, List.filter_append, Ne.symm hsame] using ih hmid hp

end Chain
end ECN
