import ECN.KeyStore

/-!
# A key store that fails

`issue` and `revoke` change the two maps in memory and ask the store last. When the store
raises, the maps keep the change: a key that was never stored is accepted, and a key that
is still stored is forgotten, so that revoking it again finds nothing. The stored key is
accepted again after the next restart.
-/
namespace ECN

/-- What the caller of the registry is told instead of an answer. -/
inductive KeyFailure where
  | unknownRole (role : String)
  | storeRaised
  deriving DecidableEq

/-- The key that a request issues, unless its role does not exist. -/
def issuedKey (request : IssueRequest) (generatedId generatedSecret : String) : Option ApiKey :=
  (Role.parse request.role).map fun role =>
    { keyId := orGenerate request.keyId generatedId
      key := orGenerate request.secret generatedSecret
      role
      description := request.description
      tenantId := request.tenantId }

/-- An event with whether the store raises when it is asked. -/
structure StoreCall where
  event : StoredRegistry.StoreEvent
  raises : Bool

namespace StoredRegistry

variable (py : Interp) (registry : StoredRegistry)

/-! ## The operations over a store that may raise -/

def issueOver (request : IssueRequest) (generatedId generatedSecret : String) (raises : Bool) :
    StoredRegistry × Except KeyFailure ApiKey :=
  match issuedKey request generatedId generatedSecret with
  | none => (registry, .error (.unknownRole request.role))
  | some apiKey =>
    let registry := { registry with
      keys := registry.keys.set apiKey.keyId apiKey
      lookups := registry.lookups.set apiKey.key apiKey }
    if raises then (registry, .error .storeRaised)
    else
      ({ registry with store := registry.store.saveKey py apiKey.keyId apiKey.toDict }, .ok apiKey)

def revokeOver (keyId : String) (raises : Bool) : StoredRegistry × Except KeyFailure Bool :=
  match registry.keys.get? keyId with
  | none => (registry, .ok false)
  | some apiKey =>
    let registry := { registry with
      keys := registry.keys.erase keyId
      lookups := registry.lookups.erase apiKey.key }
    if raises then (registry, .error .storeRaised)
    else ({ registry with store := registry.store.deleteKey keyId }, .ok true)

/-- One call. A registry that cannot be loaded is not replaced. -/
def call (c : StoreCall) : StoredRegistry :=
  match c.event with
  | .issue request generatedId generatedSecret =>
    (registry.issueOver py request generatedId generatedSecret c.raises).1
  | .revoke keyId => (registry.revokeOver keyId c.raises).1
  | .restart order =>
    if c.raises then registry
    else
      match loadFromStore registry.store order with
      | .ok registry => registry
      | .error _ => registry

/-- A store that does not raise is the store of the plain operations. -/
theorem issueOver_eq (request : IssueRequest) (generatedId generatedSecret : String) :
    (registry.issueOver py request generatedId generatedSecret false).1 =
      (registry.issue py request generatedId generatedSecret).1 := by
  unfold issueOver issue issuedKey
  cases Role.parse request.role <;> rfl

theorem revokeOver_eq (keyId : String) :
    (registry.revokeOver keyId false).1 = (registry.revoke keyId).1 ∧
      (registry.revokeOver keyId false).2 = .ok (registry.revoke keyId).2 := by
  unfold revokeOver revoke
  cases registry.keys.get? keyId <;> exact ⟨rfl, rfl⟩

/-! ## What a failure must not do -/

/-- Lookups and listings have the same answers. -/
structure SameAnswers (a b : StoredRegistry) : Prop where
  lookup : ∀ secret, a.lookup secret = b.lookup secret
  listKeys : a.listKeys = b.listKeys

/-- When the store raises, the registry answers as before. -/
def AtomicCall (c : StoreCall) : Prop := c.raises = true → SameAnswers (registry.call py c) registry

/-- When the store raises, revoking the key again works. -/
def Retriable (c : StoreCall) : Prop :=
  ∀ keyId, c.event = .revoke keyId →
    (registry.revokeOver keyId c.raises).2 = .error .storeRaised →
    ((registry.call py c).revokeOver keyId false).2 = .ok true

/-- The key is known in memory: under its secret, and under its id up to the secret. -/
def Remembers (apiKey : ApiKey) : Prop :=
  registry.lookup apiKey.key = some apiKey ∧
    (registry.keys.get? apiKey.keyId).map ApiKey.redacted = some apiKey.redacted

/-- The store does not raise, or is not asked, or the issued key is known already. -/
def Spared (c : StoreCall) : Prop :=
  c.raises = true →
    match c.event with
    | .issue request generatedId generatedSecret =>
      ∀ apiKey, issuedKey request generatedId generatedSecret = some apiKey →
        registry.Remembers apiKey
    | .revoke keyId => registry.keys.get? keyId = none
    | .restart _ => True

variable {py registry}

theorem SameAnswers.refl : SameAnswers registry registry := ⟨fun _ => rfl, rfl⟩

/-- Taking a key into memory changes no answer exactly when it is known. -/
theorem sameAnswers_set_iff (apiKey : ApiKey) :
    SameAnswers { registry with
      keys := registry.keys.set apiKey.keyId apiKey
      lookups := registry.lookups.set apiKey.key apiKey } registry ↔
        registry.Remembers apiKey := by
  have hlist : (registry.keys.set apiKey.keyId apiKey).values.map ApiKey.redacted =
      registry.keys.values.map ApiKey.redacted ↔
        (registry.keys.get? apiKey.keyId).map ApiKey.redacted = some apiKey.redacted := by
    rw [← OrderedDict.values_map, ← OrderedDict.values_map, ← OrderedDict.set_map,
      OrderedDict.values_set_iff, OrderedDict.get?_map]
  constructor
  · intro h
    refine ⟨?_, hlist.mp h.listKeys⟩
    have hlookup := h.lookup apiKey.key
    simpa [lookup] using hlookup.symm
  · intro hknown
    obtain ⟨hlookup, hkeys⟩ := hknown
    refine ⟨fun secret => ?_, hlist.mpr hkeys⟩
    by_cases hsecret : secret = apiKey.key
    · rw [hsecret, hlookup]
      simp [lookup]
    · simp [lookup, hsecret]

theorem atomicCall_issue_iff {request : IssueRequest} {generatedId generatedSecret : String}
    {raises : Bool} : registry.AtomicCall py ⟨.issue request generatedId generatedSecret, raises⟩ ↔
      registry.Spared ⟨.issue request generatedId generatedSecret, raises⟩ := by
  refine imp_congr_right fun hraises => ?_
  cases hraises
  dsimp only [call, issueOver]
  cases issuedKey request generatedId generatedSecret with
  | none => simp [SameAnswers.refl]
  | some apiKey => simpa using sameAnswers_set_iff apiKey

theorem revokeOver_registered {keyId : String} {apiKey : ApiKey}
    (h : registry.keys.get? keyId = some apiKey) (raises : Bool) :
    (registry.revokeOver keyId raises).1.keys = registry.keys.erase keyId ∧
      (registry.revokeOver keyId raises).2 = if raises then .error .storeRaised else .ok true := by
  unfold revokeOver
  rw [h]
  cases raises <;> exact ⟨rfl, rfl⟩

theorem revokeOver_unknown {keyId : String} (h : registry.keys.get? keyId = none)
    (raises : Bool) : registry.revokeOver keyId raises = (registry, .ok false) := by
  unfold revokeOver
  rw [h]

theorem atomicCall_revoke_iff {keyId : String} {raises : Bool} :
    registry.AtomicCall py ⟨.revoke keyId, raises⟩ ↔
      registry.Spared ⟨.revoke keyId, raises⟩ := by
  refine imp_congr_right fun _ => ?_
  dsimp only [call]
  cases hkey : registry.keys.get? keyId with
  | none =>
    rw [revokeOver_unknown hkey]
    exact iff_of_true .refl rfl
  | some apiKey =>
    refine iff_of_false (fun h => ?_) (by simp)
    -- One key fewer is listed.
    have hlist := congrArg List.length h.listKeys
    have hmem := (OrderedDict.mem_keys_iff _ _).mpr ⟨apiKey, hkey⟩
    have hlt := registry.keys.length_values_erase hmem
    rw [listKeys, listKeys, List.length_map, List.length_map,
      (revokeOver_registered hkey raises).1] at hlist
    omega

/-- Revoking again after a failure finds nothing. -/
theorem retriable_revoke_iff {keyId : String} {raises : Bool} :
    registry.Retriable py ⟨.revoke keyId, raises⟩ ↔
      registry.Spared ⟨.revoke keyId, raises⟩ := by
  cases hkey : registry.keys.get? keyId with
  | none =>
    refine iff_of_true (fun id hid hfail => ?_) fun _ => hkey
    cases hid
    rw [revokeOver_unknown hkey] at hfail
    cases hfail
  | some apiKey =>
    obtain ⟨hkeys, hanswer⟩ := revokeOver_registered hkey raises
    cases raises with
    | false =>
      refine iff_of_true (fun id hid hfail => ?_) nofun
      cases hid
      rw [hanswer] at hfail
      cases hfail
    | true =>
      refine iff_of_false (fun h => ?_) fun h => ?_
      · have hretry := h keyId rfl hanswer
        have hgone : (registry.call py ⟨.revoke keyId, true⟩).keys.get? keyId = none := by
          change (registry.revokeOver keyId true).1.keys.get? keyId = none
          rw [hkeys]
          simp
        rw [revokeOver_unknown hgone] at hretry
        cases hretry
      · have hnone : registry.keys.get? keyId = none := h rfl
        rw [hkey] at hnone
        cases hnone

/-- A call whose store raises is atomic, and a failed revoke can be tried again, exactly
when the call is spared. -/
theorem atomicCall_and_retriable_iff (registry : StoredRegistry) (c : StoreCall) :
    registry.AtomicCall py c ∧ registry.Retriable py c ↔ registry.Spared c := by
  obtain ⟨event, raises⟩ := c
  cases event with
  | issue request generatedId generatedSecret =>
    rw [atomicCall_issue_iff]
    exact and_iff_left nofun
  | revoke keyId => rw [atomicCall_revoke_iff, retriable_revoke_iff, and_self]
  | restart order =>
    refine iff_of_true ⟨fun hraises => ?_, nofun⟩ fun _ => trivial
    cases hraises
    exact .refl

/-! ## Runs -/

/-- The registry after some calls on an empty store. -/
def run (py : Interp) (calls : List StoreCall) : StoredRegistry := calls.foldl (call py) start

theorem run_append (earlier later : List StoreCall) :
    run py (earlier ++ later) = later.foldl (call py) (run py earlier) :=
  List.foldl_append

/-- The stored rows are the texts of keys, each under its id. -/
def Keyed (py : Interp) (registry : StoredRegistry) : Prop :=
  ∃ mirror : OrderedDict String ApiKey, registry.store.table = mirror.map (row py) ∧
    ∀ keyId apiKey, mirror.get? keyId = some apiKey → apiKey.keyId = keyId

/-- No row under the id is stored. -/
def Unstored (keyId : String) (registry : StoredRegistry) : Prop :=
  registry.store.table.get? keyId = none

/-- No secret is accepted for a key with this id. -/
def Unaccepted (keyId : String) (registry : StoredRegistry) : Prop :=
  ∀ secret apiKey, registry.lookup secret = some apiKey → apiKey.keyId ≠ keyId

/-- The call issues no key under the id. -/
def Spares (keyId : String) (c : StoreCall) : Prop := c.event.issuedId ≠ some keyId

theorem lookup_loadRows (rows : List ApiKey) (registry : ApiKeyRegistry) {secret : String}
    {apiKey : ApiKey}
    (h : (rows.foldl ApiKeyRegistry.loadRow registry).lookup secret = some apiKey) :
    apiKey ∈ rows ∨ registry.lookup secret = some apiKey := by
  induction rows generalizing registry with
  | nil => exact .inr h
  | cons row rows ih =>
    rcases ih (registry.loadRow row) h with hmem | hrow
    · exact .inl (List.mem_cons_of_mem row hmem)
    · rw [ApiKeyRegistry.lookup, ApiKeyRegistry.loadRow, OrderedDict.get?_set] at hrow
      split at hrow
      · rw [← Option.some_inj.mp hrow]
        exact .inl List.mem_cons_self
      · exact .inr hrow

/-- A restart loads the stored keys and accepts no other. -/
theorem Keyed.loadFromStore (h : Keyed py registry) (order : RowOrder) :
    ∃ reloaded, StoredRegistry.loadFromStore registry.store order = .ok reloaded ∧
      Keyed py reloaded ∧ reloaded.store.table = registry.store.table ∧
      ∀ keyId, Unstored keyId registry → Unaccepted keyId reloaded := by
  obtain ⟨mirror, htable, hids⟩ := h
  have hrefines : Refines py registry ⟨some mirror, registry.keys, registry.lookups⟩ :=
    ⟨rfl, rfl, mirror, rfl, htable⟩
  obtain ⟨rows, reloaded, hrows, hload, hkeys, hlookups, mirror', hmirror', htable'⟩ :=
    hrefines.loadFromStore order
  have hstore := (ApiKeyRegistry.foldl_loadRow rows ⟨some mirror, .empty, .empty⟩).1
  cases hstore.symm.trans hmirror'
  refine ⟨reloaded, hload, ⟨mirror, htable', hids⟩, htable'.trans htable.symm, ?_⟩
  intro keyId hunstored secret apiKey haccepted hid
  rw [lookup, hlookups] at haccepted
  rcases lookup_loadRows rows ⟨some mirror, .empty, .empty⟩ haccepted with hmem | hnone
  · obtain ⟨id, hget⟩ := (OrderedDict.mem_values_iff _ _).mp (hrows.mem_iff.mp hmem)
    rw [Unstored, htable, OrderedDict.get?_map, ← hid, hids id apiKey hget, hget] at hunstored
    cases hunstored
  · cases hnone

theorem call_restart {order : RowOrder} {reloaded : StoredRegistry}
    (h : loadFromStore registry.store order = .ok reloaded) :
    registry.call py ⟨.restart order, false⟩ = reloaded := by
  simp [call, h]

/-- What a call does: nothing, or it takes a key in, takes one out, or loads the registry. -/
inductive CallEffect (py : Interp) (registry : StoredRegistry) (c : StoreCall) :
    StoredRegistry → Prop
  | nothing : CallEffect py registry c registry
  | issued (apiKey : ApiKey) (hid : c.event.issuedId = some apiKey.keyId) :
      CallEffect py registry c
        { keys := registry.keys.set apiKey.keyId apiKey
          lookups := registry.lookups.set apiKey.key apiKey
          store := if c.raises then registry.store
            else registry.store.saveKey py apiKey.keyId apiKey.toDict }
  | revoked (keyId : String) (apiKey : ApiKey) :
      CallEffect py registry c
        { keys := registry.keys.erase keyId
          lookups := registry.lookups.erase apiKey.key
          store := if c.raises then registry.store else registry.store.deleteKey keyId }
  | reloaded {after : StoredRegistry} (order : RowOrder)
      (hload : loadFromStore registry.store order = .ok after) : CallEffect py registry c after

theorem callEffect (py : Interp) (registry : StoredRegistry) (c : StoreCall) :
    CallEffect py registry c (registry.call py c) := by
  obtain ⟨event, raises⟩ := c
  cases event with
  | issue request generatedId generatedSecret =>
    cases hkey : issuedKey request generatedId generatedSecret with
    | none =>
      have hcall : registry.call py ⟨.issue request generatedId generatedSecret, raises⟩ =
          registry := by simp only [call, issueOver, hkey]
      rw [hcall]
      exact .nothing
    | some apiKey =>
      have hcall : registry.call py ⟨.issue request generatedId generatedSecret, raises⟩ =
          { keys := registry.keys.set apiKey.keyId apiKey
            lookups := registry.lookups.set apiKey.key apiKey
            store := if raises then registry.store
              else registry.store.saveKey py apiKey.keyId apiKey.toDict } := by
        simp only [call, issueOver, hkey]
        cases raises <;> rfl
      rw [hcall]
      refine .issued apiKey ?_
      obtain ⟨role, hrole, rfl⟩ := Option.map_eq_some_iff.mp hkey
      simp [StoreEvent.issuedId, hrole]
  | revoke keyId =>
    cases hkey : registry.keys.get? keyId with
    | none =>
      have hcall : registry.call py ⟨.revoke keyId, raises⟩ = registry := by
        simp only [call, revokeOver, hkey]
      rw [hcall]
      exact .nothing
    | some apiKey =>
      have hcall : registry.call py ⟨.revoke keyId, raises⟩ =
          { keys := registry.keys.erase keyId
            lookups := registry.lookups.erase apiKey.key
            store := if raises then registry.store else registry.store.deleteKey keyId } := by
        simp only [call, revokeOver, hkey]
        cases raises <;> rfl
      rw [hcall]
      exact .revoked keyId apiKey
  | restart order =>
    simp only [call]
    split
    · exact .nothing
    · split
      · next hload => exact .reloaded order hload
      · exact .nothing

/-- The id of an issued key is the one that the event brings in. -/
theorem Spares.keyId_ne {keyId : String} {c : StoreCall} (h : Spares keyId c) {apiKey : ApiKey}
    (hid : c.event.issuedId = some apiKey.keyId) : apiKey.keyId ≠ keyId := by
  intro heq
  exact h (by rw [hid, heq])

theorem Keyed.call (h : Keyed py registry) (c : StoreCall) : Keyed py (registry.call py c) := by
  have heffect := callEffect py registry c
  generalize registry.call py c = after at heffect ⊢
  cases heffect with
  | nothing => exact h
  | issued apiKey hid =>
    obtain ⟨mirror, htable, hids⟩ := h
    cases c.raises with
    | true => exact ⟨mirror, htable, hids⟩
    | false =>
      refine ⟨mirror.set apiKey.keyId apiKey, ?_, fun keyId stored hget => ?_⟩
      · rw [← OrderedDict.set_map, ← htable]
        rfl
      · rw [OrderedDict.get?_set] at hget
        split at hget
        · next hid => rw [hid, Option.some_inj.mp hget]
        · exact hids keyId stored hget
  | revoked keyId apiKey =>
    obtain ⟨mirror, htable, hids⟩ := h
    cases c.raises with
    | true => exact ⟨mirror, htable, hids⟩
    | false =>
      refine ⟨mirror.erase keyId, ?_, fun id stored hget => ?_⟩
      · rw [← OrderedDict.erase_map, ← htable]
        rfl
      · rw [OrderedDict.get?_erase] at hget
        split at hget
        · cases hget
        · exact hids id stored hget
  | reloaded order hload =>
    obtain ⟨reloaded, hreload, hkeyed, -⟩ := h.loadFromStore order
    cases hload.symm.trans hreload
    exact hkeyed

theorem keyed_run (py : Interp) (calls : List StoreCall) : Keyed py (run py calls) := by
  induction calls using List.reverseRecOn with
  | nil => exact ⟨.empty, rfl, nofun⟩
  | append_singleton calls c ih =>
    rw [run_append]
    exact ih.call c

/-- A call that issues no key under the id stores none under it. -/
theorem Unstored.call {keyId : String} (h : Unstored keyId registry) (hkeyed : Keyed py registry)
    {c : StoreCall} (hc : Spares keyId c) : Unstored keyId (registry.call py c) := by
  have heffect := callEffect py registry c
  generalize registry.call py c = after at heffect ⊢
  cases heffect with
  | nothing => exact h
  | issued apiKey hid =>
    have hne := hc.keyId_ne hid
    cases c.raises with
    | true => exact h
    | false => simpa [Unstored, SQLiteKeyStore.saveKey, Ne.symm hne] using h
  | revoked id apiKey =>
    have hrow : registry.store.table.get? keyId = none := h
    cases c.raises with
    | true => exact h
    | false => simp [Unstored, SQLiteKeyStore.deleteKey, hrow]
  | reloaded order hload =>
    obtain ⟨reloaded, hreload, -, htable, -⟩ := hkeyed.loadFromStore order
    cases hload.symm.trans hreload
    rw [Unstored, htable]
    exact h

/-- Nor does it make the registry accept one. -/
theorem Unaccepted.call {keyId : String} (h : Unaccepted keyId registry)
    (hstored : Unstored keyId registry) (hkeyed : Keyed py registry) {c : StoreCall}
    (hc : Spares keyId c) : Unaccepted keyId (registry.call py c) := by
  have heffect := callEffect py registry c
  generalize registry.call py c = after at heffect ⊢
  cases heffect with
  | nothing => exact h
  | issued apiKey hid =>
    intro secret accepted hlookup
    rw [lookup, OrderedDict.get?_set] at hlookup
    split at hlookup
    · rw [← Option.some_inj.mp hlookup]
      exact hc.keyId_ne hid
    · exact h secret accepted hlookup
  | revoked id apiKey =>
    intro secret accepted hlookup
    rw [lookup, OrderedDict.get?_erase] at hlookup
    split at hlookup
    · cases hlookup
    · exact h secret accepted hlookup
  | reloaded order hload =>
    obtain ⟨reloaded, hreload, -, -, hunaccepted⟩ := hkeyed.loadFromStore order
    cases hload.symm.trans hreload
    exact hunaccepted keyId hstored

/-- A key that was revoked with the answer true leaves no row. -/
theorem unstored_of_revoked (py : Interp) {keyId : String} {raises : Bool}
    (h : (registry.revokeOver keyId raises).2 = .ok true) :
    Unstored keyId (registry.call py ⟨.revoke keyId, raises⟩) := by
  cases hkey : registry.keys.get? keyId with
  | none =>
    rw [revokeOver_unknown hkey] at h
    cases h
  | some apiKey =>
    rw [(revokeOver_registered hkey raises).2] at h
    cases raises with
    | true => cases h
    | false =>
      simp only [Unstored, StoredRegistry.call, revokeOver, hkey]
      simp [SQLiteKeyStore.deleteKey]

theorem Unstored.run {keyId : String} {calls : List StoreCall} (h : Unstored keyId registry)
    (hkeyed : Keyed py registry) (hcalls : ∀ c ∈ calls, Spares keyId c) :
    Unstored keyId (calls.foldl (StoredRegistry.call py) registry) := by
  induction calls generalizing registry with
  | nil => exact h
  | cons c calls ih =>
    rw [List.forall_mem_cons] at hcalls
    exact ih (h.call hkeyed hcalls.1) (hkeyed.call c) hcalls.2

theorem Unaccepted.run {keyId : String} {calls : List StoreCall} (h : Unaccepted keyId registry)
    (hstored : Unstored keyId registry) (hkeyed : Keyed py registry)
    (hcalls : ∀ c ∈ calls, Spares keyId c) :
    Unaccepted keyId (calls.foldl (StoredRegistry.call py) registry) := by
  induction calls generalizing registry with
  | nil => exact h
  | cons c calls ih =>
    rw [List.forall_mem_cons] at hcalls
    exact ih (h.call hstored hkeyed hcalls.1) (hstored.call hkeyed hcalls.1) (hkeyed.call c)
      hcalls.2

/-- A key that was once revoked with the answer true is not accepted after a restart, as
long as no key is issued under its id. -/
def RevokedForGood (py : Interp) (calls : List StoreCall) : Prop :=
  ∀ earlier keyId raises middle order later,
    calls = earlier ++ ⟨.revoke keyId, raises⟩ :: (middle ++ ⟨.restart order, false⟩ :: later) →
    ((run py earlier).revokeOver keyId raises).2 = .ok true →
    (∀ c ∈ middle ++ later, Spares keyId c) → Unaccepted keyId (run py calls)

/-- This holds whatever failed. -/
theorem revokedForGood (calls : List StoreCall) : RevokedForGood py calls := by
  intro earlier keyId raises middle order later hcalls hrevoked hspares
  rw [List.forall_mem_append] at hspares
  have hkeyed : Keyed py ((run py earlier).call py ⟨.revoke keyId, raises⟩) :=
    (keyed_run py earlier).call _
  have hstored := (unstored_of_revoked py hrevoked).run hkeyed hspares.1
  have hkeyed' : Keyed py (middle.foldl (StoredRegistry.call py)
      ((run py earlier).call py ⟨.revoke keyId, raises⟩)) := by
    have hrun := keyed_run py (earlier ++ ⟨.revoke keyId, raises⟩ :: middle)
    rw [run_append] at hrun
    exact hrun
  obtain ⟨reloaded, hload, hreloaded, htable, hunaccepted⟩ := hkeyed'.loadFromStore order
  rw [hcalls, run_append, List.foldl_cons, List.foldl_append, List.foldl_cons]
  rw [call_restart hload]
  refine (hunaccepted keyId hstored).run ?_ hreloaded hspares.2
  rw [Unstored, htable]
  exact hstored

/-- What a caller may rely on in a run: a call whose store raises is atomic, a failed revoke can
be tried again until it works, and a revoked key stays out. -/
structure Dependable (py : Interp) (calls : List StoreCall) : Prop where
  atomic : StepsMeet (call py) (AtomicCall py) start calls
  retried : StepsMeet (call py) (Retriable py) start calls
  revoked : RevokedForGood py calls

theorem dependable_iff (calls : List StoreCall) :
    Dependable py calls ↔ StepsMeet (call py) Spared start calls := by
  have hcongr : StepsMeet (call py) (fun registry c => registry.AtomicCall py c ∧
      registry.Retriable py c) start calls ↔ StepsMeet (call py) Spared start calls :=
    stepsMeet_congr (fun _ _ _ => trivial) (fun registry c _ =>
      atomicCall_and_retriable_iff registry c) (I := fun _ => True) trivial
  rw [← hcongr]
  constructor
  · intro h
    exact h.atomic.and h.retried
  · intro h
    exact ⟨h.mono fun _ _ hc => hc.1, h.mono fun _ _ hc => hc.2, revokedForGood calls⟩

/-- Issue and revoke are atomic with respect to the store in exactly the spared calls, and a
run is dependable exactly when all its calls are spared. -/
theorem keys_atomic_iff (py : Interp) :
    (∀ (registry : StoredRegistry) c,
      registry.AtomicCall py c ∧ registry.Retriable py c ↔ registry.Spared c) ∧
    ∀ calls, Dependable py calls ↔ StepsMeet (call py) Spared start calls :=
  ⟨atomicCall_and_retriable_iff, dependable_iff⟩

/-- The store raises when the key is revoked, and not when that is tried again. -/
def failedRevoke : List StoreCall :=
  [⟨.issue ⟨"admin", "", none, some "id-1", some "secret-1"⟩ "" "", false⟩,
    ⟨.revoke "id-1", true⟩]

/-- Trying again finds no key, and after a restart it is accepted. -/
theorem revoked_key_returns :
    ¬ Dependable printingInterp failedRevoke ∧
    (run printingInterp failedRevoke).lookup "secret-1" = none ∧
    ((run printingInterp failedRevoke).revokeOver "id-1" false).2 = .ok false ∧
    ((run printingInterp (failedRevoke ++ [⟨.revoke "id-1", false⟩,
      ⟨.restart reverseOrder, false⟩])).lookup "secret-1").map ApiKey.keyId = some "id-1" := by
  refine ⟨fun h => ?_, by decide +kernel, by decide +kernel, by decide +kernel⟩
  have hspared := ((dependable_iff failedRevoke).mp h).2.1 rfl
  exact absurd hspared (by decide +kernel)

end StoredRegistry
end ECN
