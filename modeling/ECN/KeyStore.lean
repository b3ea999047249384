import ECN.FloatRepr
import ECN.JsonFields
import ECN.Revocation

/-!
# The stored key registry

A key store keeps the JSON text of every registered key under its id, and a query returns
the rows in any order. The registry over such a store refines the registry whose store
holds the keys themselves, so what is known of reloading there carries over to the texts.
-/
namespace ECN

/-! ## Keys as dictionaries -/

def ApiKey.toDict (apiKey : ApiKey) : PyDict :=
  [(.str "key_id", .str apiKey.keyId), (.str "key", .str apiKey.key),
    (.str "role", .str apiKey.role.value), (.str "description", .str apiKey.description),
    (.str "tenant_id", optionalText apiKey.tenantId)]

/-- One round of `_load_from_store`, with its defaults. -/
def ApiKey.ofDict (d : PyDict) : Except Exc ApiKey := do
  return {
    keyId := ← (← d.item (.str "key_id")).asStr
    key := ← (← d.item (.str "key")).asStr
    role := ← (← d.item (.str "role")).asMember Role.parse
    description := ← (d.getD "description" (.str "")).asStr
    tenantId := ← (d.getD "tenant_id" .none).asOptionalStr }

/-- A listed key, without its secret. -/
def ApiKey.redacted (apiKey : ApiKey) : PyDict :=
  [(.str "key_id", .str apiKey.keyId), (.str "role", .str apiKey.role.value),
    (.str "description", .str apiKey.description), (.str "tenant_id", optionalText apiKey.tenantId)]

/-! ## The store -/

/-- The order in which a query without `ORDER BY` returns the rows. -/
structure RowOrder where
  arrange : List String → List String
  perm : ∀ rows, (arrange rows).Perm rows

/-- The table `api_keys`: a text under each id. -/
structure SQLiteKeyStore where
  table : OrderedDict String String

namespace SQLiteKeyStore

variable (py : Interp)

def saveKey (store : SQLiteKeyStore) (keyId : String) (keyDict : PyDict) : SQLiteKeyStore :=
  ⟨store.table.set keyId ((Value.dict keyDict).jsonText py)⟩

def deleteKey (store : SQLiteKeyStore) (keyId : String) : SQLiteKeyStore :=
  ⟨store.table.erase keyId⟩

def loadAll (store : SQLiteKeyStore) (order : RowOrder) : Except Exc (List Value) :=
  (order.arrange store.table.values).mapM storedValue

end SQLiteKeyStore

/-! ## The registry -/

/-- An `ApiKeyRegistry` over a `SQLiteKeyStore`. -/
structure StoredRegistry where
  store : SQLiteKeyStore
  keys : OrderedDict String ApiKey
  lookups : OrderedDict String ApiKey

namespace StoredRegistry

variable (py : Interp)

def issue (registry : StoredRegistry) (request : IssueRequest)
    (generatedId generatedSecret : String) : StoredRegistry × Except UnknownRole ApiKey :=
  match Role.parse request.role with
  | none => (registry, .error ⟨request.role⟩)
  | some role =>
    let apiKey : ApiKey :=
      { keyId := orGenerate request.keyId generatedId
        key := orGenerate request.secret generatedSecret
        role
        description := request.description
        tenantId := request.tenantId }
    ({ store := registry.store.saveKey py apiKey.keyId apiKey.toDict
       keys := registry.keys.set apiKey.keyId apiKey
       lookups := registry.lookups.set apiKey.key apiKey }, .ok apiKey)

def revoke (registry : StoredRegistry) (keyId : String) : StoredRegistry × Bool :=
  match registry.keys.get? keyId with
  | none => (registry, false)
  | some apiKey =>
    ({ store := registry.store.deleteKey keyId
       keys := registry.keys.erase keyId
       lookups := registry.lookups.erase apiKey.key }, true)

def lookup (registry : StoredRegistry) (secret : String) : Option ApiKey :=
  registry.lookups.get? secret

def listKeys (registry : StoredRegistry) : List PyDict :=
  registry.keys.values.map ApiKey.redacted

/-- Take one stored key into memory. -/
def loadKey (registry : StoredRegistry) (apiKey : ApiKey) : StoredRegistry :=
  { registry with
    keys := registry.keys.set apiKey.keyId apiKey
    lookups := registry.lookups.set apiKey.key apiKey }

/-- `_load_from_store`, of a new registry. -/
def loadFromStore (store : SQLiteKeyStore) (order : RowOrder) : Except Exc StoredRegistry := do
  let rows ← (← store.loadAll order).mapM fun v => do ApiKey.ofDict (← v.asDict)
  return rows.foldl loadKey ⟨store, .empty, .empty⟩

/-! ## Round trip of a key -/

theorem ofDict_toDict (apiKey : ApiKey) : ApiKey.ofDict apiKey.toDict = .ok apiKey := by
  have hrole := asMember_str apiKey.role.parse_value
  simp [ApiKey.ofDict, ApiKey.toDict, PyDict.getD, PyDict.item, PyDict.get?, Value.asStr, bind,
    Except.bind, pure, Except.pure, hrole]

theorem isJsonDoc_apiKey (apiKey : ApiKey) : IsJsonDoc (.dict apiKey.toDict) := by
  refine .dict (by simp [ApiKey.toDict]) (by simp [ApiKey.toDict]) ?_
  simp only [ApiKey.toDict, List.mem_cons, List.not_mem_nil, or_false, forall_eq_or_imp,
    forall_eq]
  exact ⟨isJsonDoc_str _, isJsonDoc_str _, isJsonDoc_str _, isJsonDoc_str _,
    isJsonDoc_optionalText _⟩

/-- The stored text of a key. -/
def row (apiKey : ApiKey) : String := (Value.dict apiKey.toDict).jsonText py

/-- A key holds no float, so its text is the same for every interpreter. -/
theorem row_eq (apiKey : ApiKey) : row py apiKey = row printingInterp apiKey := by
  obtain ⟨keyId, key, role, description, tenantId⟩ := apiKey
  cases tenantId <;> rfl

theorem storedValue_row (apiKey : ApiKey) :
    storedValue (row py apiKey) = .ok (.dict apiKey.toDict) := by
  rw [row_eq]
  exact storedValue_eq_ok (jsonLoads_jsonText reprReads_printingInterp (isJsonDoc_apiKey apiKey))

/-! ## Refinement -/

/-- The same maps, and a table with the texts of the keys in the abstract store. -/
structure Refines (concrete : StoredRegistry) (registry : ApiKeyRegistry) : Prop where
  keys : concrete.keys = registry.keys
  lookups : concrete.lookups = registry.lookups
  store : ∃ mirror, registry.store = some mirror ∧ concrete.store.table = mirror.map (row py)

variable {py} {concrete : StoredRegistry} {registry : ApiKeyRegistry}

theorem Refines.issue (h : Refines py concrete registry) (request : IssueRequest)
    (generatedId generatedSecret : String) :
    Refines py (concrete.issue py request generatedId generatedSecret).1
      (registry.issue request generatedId generatedSecret).1 := by
  obtain ⟨hkeys, hlookups, mirror, hmirror, htable⟩ := h
  unfold StoredRegistry.issue ApiKeyRegistry.issue
  cases Role.parse request.role with
  | none => exact ⟨hkeys, hlookups, mirror, hmirror, htable⟩
  | some role =>
    dsimp only
    refine ⟨by rw [hkeys], by rw [hlookups], _, by rw [hmirror, Option.map_some], ?_⟩
    rw [SQLiteKeyStore.saveKey, htable]
    exact OrderedDict.set_map (row py) mirror _ _

theorem Refines.revoke (h : Refines py concrete registry) (keyId : String) :
    Refines py (concrete.revoke keyId).1 (registry.revoke keyId).1 := by
  obtain ⟨hkeys, hlookups, mirror, hmirror, htable⟩ := h
  unfold StoredRegistry.revoke ApiKeyRegistry.revoke
  rw [hkeys]
  cases registry.keys.get? keyId with
  | none => exact ⟨hkeys, hlookups, mirror, hmirror, htable⟩
  | some apiKey =>
    refine ⟨rfl, by rw [hlookups], _, by rw [hmirror, Option.map_some], ?_⟩
    rw [SQLiteKeyStore.deleteKey, htable]
    exact OrderedDict.erase_map (row py) mirror keyId

theorem Refines.loadKeys (h : Refines py concrete registry) (rows : List ApiKey) :
    Refines py (rows.foldl loadKey concrete) (rows.foldl ApiKeyRegistry.loadRow registry) := by
  induction rows generalizing concrete registry with
  | nil => exact h
  | cons apiKey rows ih =>
    refine ih ⟨?_, ?_, h.store⟩
    · rw [loadKey, ApiKeyRegistry.loadRow, h.keys]
    · rw [loadKey, ApiKeyRegistry.loadRow, h.lookups]

/-- A permutation of mapped values is a mapped permutation. -/
theorem exists_map_of_perm {α β : Type*} {f : α → β} {xs : List β} {ys : List α}
    (h : xs.Perm (ys.map f)) : ∃ zs : List α, xs = zs.map f ∧ zs.Perm ys := by
  have hcomp := congrFun₂ (List.eq_map_comp_perm f) xs ys
  exact hcomp.mpr h

/-- Whatever the order of the rows, loading succeeds, and the registry over the keys
themselves loads the same keys in some order. -/
theorem Refines.loadFromStore (h : Refines py concrete registry) (order : RowOrder) :
    ∃ rows reloaded, rows.Perm registry.storedRows ∧
      StoredRegistry.loadFromStore concrete.store order = .ok reloaded ∧
      Refines py reloaded (ApiKeyRegistry.init registry.store rows) := by
  obtain ⟨-, -, mirror, hmirror, htable⟩ := h
  have hperm := order.perm concrete.store.table.values
  rw [htable, OrderedDict.values_map] at hperm
  obtain ⟨rows, harranged, hrows⟩ := exists_map_of_perm hperm
  have hvalues : concrete.store.loadAll order = .ok (rows.map fun row => .dict row.toDict) := by
    rw [SQLiteKeyStore.loadAll, htable, OrderedDict.values_map, harranged]
    exact mapM_eq_ok _ _ _ rows fun apiKey _ => storedValue_row py apiKey
  have hdecoded := mapM_eq_ok (fun apiKey : ApiKey => Value.dict apiKey.toDict)
    (fun v => do ApiKey.ofDict (← v.asDict)) id rows fun apiKey _ => ofDict_toDict apiKey
  rw [List.map_id] at hdecoded
  have hempty : Refines py ⟨concrete.store, .empty, .empty⟩ ⟨registry.store, .empty, .empty⟩ :=
    ⟨rfl, rfl, mirror, hmirror, htable⟩
  refine ⟨rows, rows.foldl loadKey ⟨concrete.store, .empty, .empty⟩, ?_, ?_, ?_⟩
  · rw [ApiKeyRegistry.storedRows, hmirror]
    exact hrows
  · rw [StoredRegistry.loadFromStore, hvalues]
    exact congrArg (Except.map fun rows : List ApiKey =>
      rows.foldl loadKey ⟨concrete.store, .empty, .empty⟩) hdecoded
  · have hinit : ApiKeyRegistry.init registry.store rows =
        rows.foldl ApiKeyRegistry.loadRow ⟨registry.store, .empty, .empty⟩ := by
      rw [hmirror]
      rfl
    rw [hinit]
    exact hempty.loadKeys rows

/-! ## Runs -/

/-- A key is issued or revoked, or the registry is built again from its store. -/
inductive StoreEvent where
  | issue (request : IssueRequest) (generatedId generatedSecret : String)
  | revoke (keyId : String)
  | restart (order : RowOrder)

namespace StoreEvent

/-- The id of a key that is issued; an unknown role issues none. -/
def issuedId : StoreEvent → Option String
  | .issue request generatedId _ =>
    (Role.parse request.role).map fun _ => orGenerate request.keyId generatedId
  | .revoke _ | .restart _ => none

def issuedSecret : StoreEvent → Option String
  | .issue request _ generatedSecret =>
    (Role.parse request.role).map fun _ => orGenerate request.secret generatedSecret
  | .revoke _ | .restart _ => none

end StoreEvent

/-- A registry over an empty table. -/
def start : StoredRegistry := ⟨⟨.empty⟩, .empty, .empty⟩

def step (py : Interp) (registry : StoredRegistry) : StoreEvent → Except Exc StoredRegistry
  | .issue request generatedId generatedSecret =>
    .ok (registry.issue py request generatedId generatedSecret).1
  | .revoke keyId => .ok (registry.revoke keyId).1
  | .restart order => loadFromStore registry.store order

/-- The registry after some events: it mirrors a coherent registry whose ids and secrets
were all issued by these events. -/
structure Tracks (py : Interp) (past : List StoreEvent) (concrete : StoredRegistry)
    (registry : ApiKeyRegistry) : Prop where
  refines : Refines py concrete registry
  synced : registry.Synced
  coherent : registry.Coherent
  ids : registry.keys.keys ⊆ past.filterMap StoreEvent.issuedId
  secrets : registry.lookups.keys ⊆ past.filterMap StoreEvent.issuedSecret

variable {past : List StoreEvent}

theorem tracks_start : Tracks py [] start (ApiKeyRegistry.start true) where
  refines := ⟨rfl, rfl, .empty, rfl, rfl⟩
  synced := ApiKeyRegistry.synced_start true
  coherent := ApiKeyRegistry.coherent_start true
  ids := List.nil_subset _
  secrets := List.nil_subset _

/-- Reloading agrees with the live registry and keeps what is tracked. -/
theorem Tracks.loadFromStore (h : Tracks py past concrete registry) (order : RowOrder) :
    ∃ reloaded registry', StoredRegistry.loadFromStore concrete.store order = .ok reloaded ∧
      Tracks py past reloaded registry' ∧
      (∀ keyId, reloaded.keys.get? keyId = concrete.keys.get? keyId) ∧
      ∀ secret, reloaded.lookup secret = concrete.lookup secret := by
  obtain ⟨rows, reloaded, hrows, hload, hrefines⟩ := h.refines.loadFromStore order
  obtain ⟨mirror, hmirror, -⟩ := h.refines.store
  obtain ⟨hsynced, hcoherent, hkeys, hlookups⟩ :=
    ApiKeyRegistry.init_some h.synced h.coherent hmirror hrows
  have hids := OrderedDict.keys_perm hkeys
  have hsecrets := OrderedDict.keys_perm hlookups
  refine ⟨reloaded, _, hload, ⟨hrefines, hsynced, hcoherent,
    List.Subset.trans hids.subset h.ids, List.Subset.trans hsecrets.subset h.secrets⟩,
    fun keyId => ?_, fun secret => ?_⟩
  · rw [hrefines.keys, hkeys, h.refines.keys]
  · rw [lookup, hrefines.lookups, lookup, h.refines.lookups]
    exact hlookups secret

theorem Tracks.issue (h : Tracks py past concrete registry) (request : IssueRequest)
    (generatedId generatedSecret : String)
    (hid : ∀ keyId ∈ (StoreEvent.issue request generatedId generatedSecret).issuedId,
      keyId ∉ past.filterMap StoreEvent.issuedId)
    (hsecret : ∀ secret ∈ (StoreEvent.issue request generatedId generatedSecret).issuedSecret,
      secret ∉ past.filterMap StoreEvent.issuedSecret) :
    Tracks py (past ++ [.issue request generatedId generatedSecret])
      (concrete.issue py request generatedId generatedSecret).1
      (registry.issue request generatedId generatedSecret).1 := by
  have hrefines := h.refines.issue request generatedId generatedSecret
  have hsynced := h.synced.issue request generatedId generatedSecret
  have hcoherent := ApiKeyRegistry.coherent_issue_iff h.synced h.coherent request generatedId
    generatedSecret
  cases hrole : Role.parse request.role with
  | none =>
    refine ⟨hrefines, hsynced, hcoherent.mpr (.inl hrole), ?_, ?_⟩
    all_goals rw [ApiKeyRegistry.issue_unknown hrole, List.filterMap_append]
    · exact List.subset_append_of_subset_left _ h.ids
    · exact List.subset_append_of_subset_left _ h.secrets
  | some role =>
    have hnewId : (StoreEvent.issue request generatedId generatedSecret).issuedId =
        some (orGenerate request.keyId generatedId) := by
      simp [StoreEvent.issuedId, hrole]
    have hnewSecret : (StoreEvent.issue request generatedId generatedSecret).issuedSecret =
        some (orGenerate request.secret generatedSecret) := by
      simp [StoreEvent.issuedSecret, hrole]
    rw [hnewId] at hid
    rw [hnewSecret] at hsecret
    have hunclaimed : registry.Unclaimed (orGenerate request.keyId generatedId)
        (orGenerate request.secret generatedSecret) := by
      refine ⟨fun apiKey hkey => ?_, fun apiKey hkey => ?_⟩
      · have hmem := (OrderedDict.mem_keys_iff _ _).mpr ⟨apiKey, hkey⟩
        exact absurd (h.ids hmem) (hid _ rfl)
      · have hmem := (OrderedDict.mem_keys_iff _ _).mpr ⟨apiKey, hkey⟩
        exact absurd (h.secrets hmem) (hsecret _ rfl)
    obtain ⟨apiKey, hkeyId, hkey, heq⟩ :=
      @ApiKeyRegistry.index_issue registry request role hrole generatedId generatedSecret
    refine ⟨hrefines, hsynced, hcoherent.mpr (.inr hunclaimed), fun keyId hmem => ?_,
      fun secret hmem => ?_⟩
    · rw [heq] at hmem
      rcases (OrderedDict.mem_keys_set _ _ _ _).mp hmem with rfl | hold
      · simp [hnewId, hkeyId]
      · rw [List.filterMap_append]
        exact List.mem_append_left _ (h.ids hold)
    · rw [heq] at hmem
      rcases (OrderedDict.mem_keys_set _ _ _ _).mp hmem with rfl | hold
      · simp [hnewSecret, hkey]
      · rw [List.filterMap_append]
        exact List.mem_append_left _ (h.secrets hold)

theorem Tracks.revoke (h : Tracks py past concrete registry) (keyId : String) :
    Tracks py (past ++ [.revoke keyId]) (concrete.revoke keyId).1 (registry.revoke keyId).1 := by
  have hkeys : (registry.revoke keyId).1.keys.keys ⊆ registry.keys.keys ∧
      (registry.revoke keyId).1.lookups.keys ⊆ registry.lookups.keys := by
    unfold ApiKeyRegistry.revoke
    split
    · exact ⟨List.Subset.refl _, List.Subset.refl _⟩
    · exact ⟨OrderedDict.keys_erase _ _, OrderedDict.keys_erase _ _⟩
  refine ⟨h.refines.revoke keyId, h.synced.revoke keyId,
    ApiKeyRegistry.coherent_revoke h.synced h.coherent keyId, ?_, ?_⟩
  all_goals rw [List.filterMap_append]
  · exact List.subset_append_of_subset_left _ (List.Subset.trans hkeys.1 h.ids)
  · exact List.subset_append_of_subset_left _ (List.Subset.trans hkeys.2 h.secrets)

/-- One event whose key, if it issues one, has a new id and a new secret. -/
theorem Tracks.step (h : Tracks py past concrete registry) (event : StoreEvent)
    (hid : ∀ keyId ∈ event.issuedId, keyId ∉ past.filterMap StoreEvent.issuedId)
    (hsecret : ∀ secret ∈ event.issuedSecret, secret ∉ past.filterMap StoreEvent.issuedSecret) :
    ∃ next registry', concrete.step py event = .ok next ∧
      Tracks py (past ++ [event]) next registry' := by
  cases event with
  | issue request generatedId generatedSecret =>
    exact ⟨_, _, rfl, h.issue request generatedId generatedSecret hid hsecret⟩
  | revoke keyId => exact ⟨_, _, rfl, h.revoke keyId⟩
  | restart order =>
    obtain ⟨reloaded, registry', hload, htracks, -, -⟩ := h.loadFromStore order
    refine ⟨reloaded, registry', hload, { htracks with ids := ?_, secrets := ?_ }⟩
    all_goals rw [List.filterMap_append]
    · exact List.subset_append_of_subset_left _ htracks.ids
    · exact List.subset_append_of_subset_left _ htracks.secrets

/-- The issued ids are pairwise different, and so are the issued secrets. -/
structure Fresh (events : List StoreEvent) : Prop where
  ids : (events.filterMap StoreEvent.issuedId).Nodup
  secrets : (events.filterMap StoreEvent.issuedSecret).Nodup

theorem tracks_run (py : Interp) {events : List StoreEvent} (hfresh : Fresh events) :
    ∃ concrete registry, events.foldlM (StoredRegistry.step py) start = .ok concrete ∧
      Tracks py events concrete registry := by
  induction events using List.reverseRecOn with
  | nil => exact ⟨start, _, rfl, tracks_start⟩
  | append_singleton past event ih =>
    obtain ⟨hids, hsecrets⟩ := hfresh
    rw [List.filterMap_append, List.nodup_append] at hids hsecrets
    obtain ⟨concrete, registry, hrun, htracks⟩ := ih ⟨hids.1, hsecrets.1⟩
    have hid : ∀ keyId ∈ event.issuedId, keyId ∉ past.filterMap StoreEvent.issuedId :=
      fun keyId hnew hold => hids.2.2 keyId hold keyId (by simpa using hnew) rfl
    have hsecret : ∀ secret ∈ event.issuedSecret,
        secret ∉ past.filterMap StoreEvent.issuedSecret :=
      fun secret hnew hold => hsecrets.2.2 secret hold secret (by simpa using hnew) rfl
    obtain ⟨next, registry', hstep, hnext⟩ := htracks.step event hid hsecret
    refine ⟨next, registry', ?_, hnext⟩
    have hlast : [event].foldlM (StoredRegistry.step py) concrete = .ok next := by
      rw [List.foldlM_cons, hstep]
      rfl
    rw [List.foldlM_append, hrun]
    exact hlast

/-- After any fresh issues, any revokes and any restarts, a registry that is built again
from the store, whatever the order of its rows, looks up and lists what the live one does. -/
theorem reloaded_registry (py : Interp) (events : List StoreEvent) (hfresh : Fresh events) :
    ∃ registry, events.foldlM (StoredRegistry.step py) start = .ok registry ∧
      ∀ order, ∃ reloaded, loadFromStore registry.store order = .ok reloaded ∧
        (∀ secret, reloaded.lookup secret = registry.lookup secret) ∧
        reloaded.listKeys.Perm registry.listKeys := by
  obtain ⟨concrete, registry, hrun, htracks⟩ := tracks_run py hfresh
  refine ⟨concrete, hrun, fun order => ?_⟩
  obtain ⟨reloaded, -, hload, -, hkeys, hlookups⟩ := htracks.loadFromStore order
  have hvalues := (OrderedDict.entries_perm hkeys).map Prod.snd
  exact ⟨reloaded, hload, hlookups, hvalues.map ApiKey.redacted⟩

def reverseOrder : RowOrder := ⟨List.reverse, List.reverse_perm⟩

def auditorKey : ApiKey := ⟨"id-2", "secret-2", .auditor, "logs", some "acme"⟩

/-- A key of every kind: kept over a restart, revoked after it, refused and issued after it. -/
def keyEvents : List StoreEvent :=
  [.issue ⟨"admin", "", none, none, none⟩ "id-1" "secret-1",
    .issue ⟨"auditor", "logs", some "acme", none, none⟩ "id-2" "secret-2", .revoke "id-9",
    .restart reverseOrder, .revoke "id-1", .issue ⟨"owner", "", none, none, none⟩ "id-2" "",
    .issue ⟨"submitter", "", none, some "id-3", some "secret-3"⟩ "" ""]

theorem reloaded_keys : ∃ registry, keyEvents.foldlM (StoredRegistry.step printingInterp) start =
    .ok registry ∧ ∃ reloaded, loadFromStore registry.store reverseOrder = .ok reloaded ∧
      reloaded.lookup "secret-1" = none ∧ reloaded.lookup "secret-2" = some auditorKey := by
  have hlive : (keyEvents.foldlM (StoredRegistry.step printingInterp) start).map
      (fun registry => (registry.lookup "secret-1", registry.lookup "secret-2")) =
        .ok (none, some auditorKey) := by
    decide +kernel
  obtain ⟨registry, hrun, hreload⟩ :=
    reloaded_registry printingInterp keyEvents ⟨by decide, by decide⟩
  obtain ⟨reloaded, hload, hlookup, -⟩ := hreload reverseOrder
  rw [hrun] at hlive
  have hpair := Except.ok.inj hlive
  rw [Prod.mk.injEq] at hpair
  refine ⟨registry, hrun, reloaded, hload, ?_, ?_⟩
  · rw [hlookup, hpair.1]
  · rw [hlookup, hpair.2]

end StoredRegistry
end ECN
