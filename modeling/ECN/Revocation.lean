import ECN.ApiKeys
import ECN.Runs

/-!
# Coherence of the two key maps

A secret should be accepted exactly while its key is registered. The registry keeps
this over issuing, revoking and restarting as long as no key is issued under an id that
stands for another secret, or with a secret that stands under another id. The bootstrap
key is the one place where the program itself reuses an id.
-/
namespace ECN
namespace ApiKeyRegistry

/-- What happens to the registry of one store: a key is issued or revoked, or the process
restarts and reads the rows of the store in some order. -/
inductive KeyEvent where
  | issue (request : IssueRequest) (generatedId generatedSecret : String)
  | revoke (keyId : String)
  | restart (env : AuthEnv) (rows : List ApiKey) (generatedSecret : String)

/-- The rows that the store holds. -/
def storedRows (registry : ApiKeyRegistry) : List ApiKey :=
  (registry.store.map OrderedDict.values).getD []

/-- One event; a restart reads just the rows that are stored. -/
def step (registry : ApiKeyRegistry) : KeyEvent → ApiKeyRegistry
  | .issue request generatedId generatedSecret =>
    (registry.issue request generatedId generatedSecret).1
  | .revoke keyId => (registry.revoke keyId).1
  | .restart env rows generatedSecret =>
    if rows.Perm registry.storedRows then initRegistry env registry.store rows generatedSecret
    else registry

/-- A registry over a new store, or without one. -/
def start (persistent : Bool) : ApiKeyRegistry :=
  init (if persistent then some .empty else none) []

/-- A secret is accepted for a key exactly when the key is registered with it. Equal keys
in the two maps are one object: whatever wrote the key under its id wrote both maps. -/
def Coherent (registry : ApiKeyRegistry) : Prop :=
  ∀ secret apiKey, registry.lookup secret = some apiKey ↔
    registry.keys.get? apiKey.keyId = some apiKey ∧ apiKey.key = secret

/-- No other key stands under the id or the secret. -/
def Unclaimed (registry : ApiKeyRegistry) (keyId secret : String) : Prop :=
  (∀ apiKey ∈ registry.keys.get? keyId, apiKey.key = secret) ∧
    ∀ apiKey ∈ registry.lookup secret, apiKey.keyId = keyId

/-- The event issues no key over another. -/
def ReusesNothing (registry : ApiKeyRegistry) : KeyEvent → Prop
  | .issue request generatedId generatedSecret =>
    Role.parse request.role = none ∨ registry.Unclaimed (orGenerate request.keyId generatedId)
      (orGenerate request.secret generatedSecret)
  | .revoke _ => True
  | .restart env rows generatedSecret =>
    ¬ rows.Perm registry.storedRows ∨ env.isAuthEnabled = false ∨ registry.store = none ∨
      registry.lookup (adminSecret env generatedSecret) ≠ none ∨
      registry.keys.get? bootstrapId = none

/-! ## The two maps as indexes -/

/-- The maps in memory. -/
def index (registry : ApiKeyRegistry) : DoubleIndex String String ApiKey :=
  ⟨registry.keys, registry.lookups⟩

/-- Keys stand under their ids, and the store, when there is one, holds the same keys. -/
structure Synced (registry : ApiKeyRegistry) : Prop where
  keyed : registry.index.Keyed ApiKey.keyId
  stored : ∀ store, registry.store = some store →
    ∀ keyId, store.get? keyId = registry.keys.get? keyId

theorem coherent_iff_index (registry : ApiKeyRegistry) :
    registry.Coherent ↔ registry.index.Coherent ApiKey.keyId ApiKey.key := Iff.rfl

theorem unclaimed_iff_admits (registry : ApiKeyRegistry) (apiKey : ApiKey) :
    registry.Unclaimed apiKey.keyId apiKey.key ↔
      registry.index.Admits ApiKey.keyId ApiKey.key apiKey := Iff.rfl

theorem index_issue {registry : ApiKeyRegistry} {request : IssueRequest} {role : Role}
    (hrole : Role.parse request.role = some role) (generatedId generatedSecret : String) :
    ∃ apiKey : ApiKey, apiKey.keyId = orGenerate request.keyId generatedId ∧
      apiKey.key = orGenerate request.secret generatedSecret ∧
      (registry.issue request generatedId generatedSecret).1 =
        { store := registry.store.map fun store => store.set apiKey.keyId apiKey
          keys := registry.keys.set apiKey.keyId apiKey
          lookups := registry.lookups.set apiKey.key apiKey } := by
  unfold issue
  rw [hrole]
  exact ⟨_, rfl, rfl, rfl⟩

theorem issue_unknown {registry : ApiKeyRegistry} {request : IssueRequest}
    (hrole : Role.parse request.role = none) (generatedId generatedSecret : String) :
    (registry.issue request generatedId generatedSecret).1 = registry := by
  unfold issue
  rw [hrole]

theorem index_revoke (registry : ApiKeyRegistry) (keyId : String) :
    (registry.revoke keyId).1.index = registry.index.remove ApiKey.key keyId := by
  unfold revoke DoubleIndex.remove index
  cases registry.keys.get? keyId <;> rfl

theorem foldl_loadRow (rows : List ApiKey) (registry : ApiKeyRegistry) :
    (rows.foldl loadRow registry).store = registry.store ∧
      (rows.foldl loadRow registry).index =
        rows.foldl (DoubleIndex.insert ApiKey.keyId ApiKey.key) registry.index := by
  induction rows generalizing registry with
  | nil => exact ⟨rfl, rfl⟩
  | cons row rows ih =>
    obtain ⟨hstore, hindex⟩ := ih (registry.loadRow row)
    exact ⟨hstore, hindex⟩

/-! ## Issue and revoke -/

theorem Synced.issue {registry : ApiKeyRegistry} (h : registry.Synced) (request : IssueRequest)
    (generatedId generatedSecret : String) :
    (registry.issue request generatedId generatedSecret).1.Synced := by
  cases hrole : Role.parse request.role with
  | none =>
    rw [issue_unknown hrole]
    exact h
  | some role =>
    obtain ⟨apiKey, -, -, heq⟩ := index_issue hrole generatedId generatedSecret
    rw [heq]
    refine ⟨h.keyed.insert apiKey, fun store hstore keyId => ?_⟩
    obtain ⟨old, hold, rfl⟩ := Option.map_eq_some_iff.mp hstore
    dsimp only
    rw [OrderedDict.get?_set, OrderedDict.get?_set, h.stored old hold keyId]

theorem Synced.revoke {registry : ApiKeyRegistry} (h : registry.Synced) (keyId : String) :
    (registry.revoke keyId).1.Synced := by
  refine ⟨?_, fun store hstore id => ?_⟩
  · rw [index_revoke]
    exact h.keyed.remove keyId
  · unfold ApiKeyRegistry.revoke at hstore ⊢
    split at hstore
    · exact h.stored store hstore id
    · obtain ⟨old, hold, rfl⟩ := Option.map_eq_some_iff.mp hstore
      dsimp only
      rw [OrderedDict.get?_erase, OrderedDict.get?_erase, h.stored old hold id]

theorem coherent_issue_iff {registry : ApiKeyRegistry} (h : registry.Synced)
    (hc : registry.Coherent) (request : IssueRequest) (generatedId generatedSecret : String) :
    (registry.issue request generatedId generatedSecret).1.Coherent ↔
      registry.ReusesNothing (.issue request generatedId generatedSecret) := by
  unfold ReusesNothing
  dsimp only
  cases hrole : Role.parse request.role with
  | none =>
    rw [issue_unknown hrole]
    exact iff_of_true hc (.inl rfl)
  | some role =>
    obtain ⟨apiKey, hid, hsecret, heq⟩ := index_issue hrole generatedId generatedSecret
    rw [heq, or_iff_right (by simp), ← hid, ← hsecret, unclaimed_iff_admits]
    exact DoubleIndex.coherent_insert_iff ((coherent_iff_index registry).mp hc) h.keyed apiKey

theorem coherent_revoke {registry : ApiKeyRegistry} (h : registry.Synced)
    (hc : registry.Coherent) (keyId : String) : (registry.revoke keyId).1.Coherent := by
  rw [coherent_iff_index, index_revoke]
  exact ((coherent_iff_index registry).mp hc).remove h.keyed keyId

/-! ## Restart -/

/-- The rows of a store that mirrors coherent maps have distinct ids and secrets. -/
theorem nodup_rows {registry : ApiKeyRegistry} (h : registry.Synced) (hc : registry.Coherent)
    {rows : List ApiKey} (hrows : rows.Perm registry.storedRows) :
    (rows.map ApiKey.keyId).Nodup ∧ (rows.map ApiKey.key).Nodup := by
  cases hstore : registry.store with
  | none =>
    have hnil : rows = [] := by simpa [storedRows, hstore] using hrows
    simp [hnil]
  | some store =>
    have hperm : rows.Perm store.values := by simpa [storedRows, hstore] using hrows
    have hown : ∀ e ∈ store.entries, e.2.keyId = e.1 := fun e he =>
      h.keyed e.1 e.2 ((h.stored store hstore e.1).symm.trans
        ((store.get?_eq_some_iff e.1 e.2).mpr he))
    have hids : store.values.map ApiKey.keyId = store.keys := by
      rw [OrderedDict.values, OrderedDict.keys, List.map_map]
      exact List.map_congr_left hown
    have hnodup : (rows.map ApiKey.keyId).Nodup := by
      rw [(hperm.map ApiKey.keyId).nodup_iff, hids]
      exact store.nodup
    refine ⟨hnodup, ((coherent_iff_index registry).mp hc).nodup_secondary hnodup
      fun row hrow => ?_⟩
    obtain ⟨e, he, rfl⟩ := List.mem_map.mp (hperm.mem_iff.mp hrow)
    rw [hown e he]
    exact (h.stored store hstore e.1).symm.trans ((store.get?_eq_some_iff e.1 e.2).mpr he)

/-- Loading the rows of a store restores the keys that it mirrors. -/
theorem init_some {registry : ApiKeyRegistry} (h : registry.Synced) (hc : registry.Coherent)
    {store : OrderedDict String ApiKey} (hstore : registry.store = some store)
    {rows : List ApiKey} (hrows : rows.Perm registry.storedRows) :
    (init registry.store rows).Synced ∧ (init registry.store rows).Coherent ∧
      (∀ keyId, (init registry.store rows).keys.get? keyId = registry.keys.get? keyId) ∧
      ∀ secret, (init registry.store rows).lookup secret = registry.lookup secret := by
  obtain ⟨hids, hsecrets⟩ := nodup_rows h hc hrows
  obtain ⟨hmirror, hindex⟩ := foldl_loadRow rows ⟨registry.store, .empty, .empty⟩
  have hinit : init registry.store rows = rows.foldl loadRow ⟨registry.store, .empty, .empty⟩ := by
    rw [hstore]
    rfl
  rw [← hinit] at hmirror hindex
  change (init registry.store rows).index = DoubleIndex.load ApiKey.keyId ApiKey.key rows at hindex
  have hcoherent : (init registry.store rows).Coherent := by
    rw [coherent_iff_index, hindex]
    exact DoubleIndex.coherent_load hids hsecrets
  have hperm : rows.Perm store.values := by simpa [storedRows, hstore] using hrows
  have hkeys (keyId : String) :
      (init registry.store rows).keys.get? keyId = registry.keys.get? keyId := by
    refine Option.ext fun apiKey => ?_
    have hload := DoubleIndex.get?_primary_load (g := ApiKey.key) hids keyId apiKey
    rw [← hindex] at hload
    refine hload.trans ?_
    rw [hperm.mem_iff, ← h.stored store hstore keyId, OrderedDict.get?_eq_some_iff]
    constructor
    · rintro ⟨hmem, rfl⟩
      obtain ⟨e, he, rfl⟩ := List.mem_map.mp hmem
      have hown : e.2.keyId = e.1 := h.keyed e.1 e.2 ((h.stored store hstore e.1).symm.trans
        ((store.get?_eq_some_iff e.1 e.2).mpr he))
      rw [hown]
      exact he
    · intro he
      exact ⟨List.mem_map.mpr ⟨_, he, rfl⟩, h.keyed keyId apiKey
        ((h.stored store hstore keyId).symm.trans ((store.get?_eq_some_iff _ _).mpr he))⟩
  refine ⟨⟨?_, fun store' hstore' keyId => ?_⟩, hcoherent, hkeys, fun secret => ?_⟩
  · rw [hindex]
    exact DoubleIndex.keyed_load hids
  · rw [hkeys]
    exact h.stored store' (hmirror.symm.trans hstore') keyId
  · refine Option.ext fun apiKey => ?_
    exact (hcoherent secret apiKey).trans (by rw [hkeys]; exact (hc secret apiKey).symm)

/-- The bootstrap key is issued under a free id exactly when coherence survives. -/
theorem coherent_bootstrap_iff {registry : ApiKeyRegistry} (h : registry.Synced)
    (hc : registry.Coherent) {secret : String} (hnone : registry.lookup secret = none) :
    registry.Unclaimed bootstrapId secret ↔ registry.keys.get? bootstrapId = none := by
  constructor
  · rintro ⟨hid, -⟩
    rw [Option.eq_none_iff_forall_ne_some]
    intro apiKey hkey
    have hfound := (hc secret apiKey).mpr ⟨by rw [h.keyed _ _ hkey]; exact hkey, hid apiKey hkey⟩
    rw [hnone] at hfound
    cases hfound
  · intro hfree
    rw [Unclaimed, hfree, hnone]
    exact ⟨nofun, nofun⟩

theorem synced_start (persistent : Bool) : (start persistent).Synced := by
  cases persistent with
  | false => exact ⟨nofun, nofun⟩
  | true =>
    refine ⟨nofun, fun store hstore keyId => ?_⟩
    obtain rfl := Option.some_inj.mp hstore
    rfl

theorem coherent_start (persistent : Bool) : (start persistent).Coherent := by
  cases persistent <;> exact DoubleIndex.coherent_empty

theorem orGenerate_self (secret : String) : orGenerate (some secret) secret = secret := by
  simp [orGenerate]

/-- Issuing the bootstrap key on coherent maps. -/
theorem coherent_initRegistry_iff {registry loaded : ApiKeyRegistry} (h : loaded.Synced)
    (hc : loaded.Coherent) (env : AuthEnv) {rows : List ApiKey} (generatedSecret : String)
    (hload : init registry.store rows = loaded) :
    (initRegistry env registry.store rows generatedSecret).Synced ∧
      ((initRegistry env registry.store rows generatedSecret).Coherent ↔
        env.isAuthEnabled = false ∨ loaded.lookup (adminSecret env generatedSecret) ≠ none ∨
          loaded.keys.get? bootstrapId = none) := by
  unfold initRegistry
  rw [hload]
  cases henabled : env.isAuthEnabled with
  | false => exact ⟨h, iff_of_true hc (.inl rfl)⟩
  | true =>
    rw [if_pos rfl, or_iff_right (by simp)]
    dsimp only
    cases hlookup : loaded.lookup (adminSecret env generatedSecret) with
    | some apiKey => exact ⟨h, iff_of_true hc (.inl (by simp))⟩
    | none =>
      refine ⟨h.issue _ _ _, ?_⟩
      rw [or_iff_right (by simp), coherent_issue_iff h hc, ← coherent_bootstrap_iff h hc hlookup]
      unfold ReusesNothing
      dsimp only
      rw [Role.parse_value, or_iff_right (by simp), orGenerate_self, orGenerate_self]

theorem restart_iff {registry : ApiKeyRegistry} (h : registry.Synced) (hc : registry.Coherent)
    (env : AuthEnv) (rows : List ApiKey) (generatedSecret : String) :
    (registry.step (.restart env rows generatedSecret)).Synced ∧
      ((registry.step (.restart env rows generatedSecret)).Coherent ↔
        registry.ReusesNothing (.restart env rows generatedSecret)) := by
  unfold step ReusesNothing
  dsimp only
  by_cases hrows : rows.Perm registry.storedRows
  · rw [if_pos hrows, or_iff_right (not_not.mpr hrows)]
    cases hstore : registry.store with
    | none =>
      have hload : init registry.store rows = start false := by
        rw [hstore]
        rfl
      obtain ⟨hsynced, hiff⟩ := coherent_initRegistry_iff (synced_start false)
        (coherent_start false) env generatedSecret hload
      rw [hstore] at hsynced hiff
      refine ⟨hsynced, hiff.trans (iff_of_true (.inr (.inr rfl)) (.inr (.inl rfl)))⟩
    | some store =>
      obtain ⟨hsynced, hcoherent, hkeys, hlookup⟩ := init_some h hc hstore hrows
      have hiff := coherent_initRegistry_iff hsynced hcoherent env generatedSecret rfl
      rw [hkeys, hlookup, hstore] at hiff
      rw [or_iff_right (a := some store = none) (by simp)]
      exact hiff
  · rw [if_neg hrows]
    exact ⟨h, iff_of_true hc (.inl hrows)⟩

/-! ## Runs -/

theorem Synced.step {registry : ApiKeyRegistry} (h : registry.Synced) (hc : registry.Coherent)
    (event : KeyEvent) : (registry.step event).Synced ∧
      ((registry.step event).Coherent ↔ registry.ReusesNothing event) := by
  cases event with
  | issue request generatedId generatedSecret =>
    exact ⟨h.issue request generatedId generatedSecret,
      coherent_issue_iff h hc request generatedId generatedSecret⟩
  | revoke keyId => exact ⟨h.revoke keyId, iff_of_true (coherent_revoke h hc keyId) trivial⟩
  | restart env rows generatedSecret => exact restart_iff h hc env rows generatedSecret

/-- In a run from a new registry the maps are coherent throughout exactly when no event
issues a key over another. -/
theorem coherent_iff (persistent : Bool) (events : List KeyEvent) :
    Throughout step Coherent (start persistent) events ↔
      StepsMeet step ReusesNothing (start persistent) events :=
  throughout_iff_stepsMeet (fun _ event hs hc => (hs.step hc event).1)
    (fun _ event hs hc => (hs.step hc event).2) (synced_start persistent)
    (coherent_start persistent)

instance (registry : ApiKeyRegistry) : DecidablePred registry.ReusesNothing := fun event =>
  match event with
  | .issue _ _ _ => inferInstanceAs (Decidable (_ ∨ (∀ _ ∈ (_ : Option ApiKey), _) ∧
      ∀ _ ∈ (_ : Option ApiKey), _))
  | .revoke _ => inferInstanceAs (Decidable True)
  | .restart _ _ _ => inferInstanceAs (Decidable (¬ _ ∨ _ ∨ _ ∨ _ ≠ _ ∨ _))

/-! ### Rotating the administrator's key -/

def rotationEnv (adminKey : String) : AuthEnv := ⟨"1", adminKey, "", "", ""⟩

def oldAdminKey : ApiKey := ⟨"admin-bootstrap", "old", .admin, "bootstrap admin", none⟩

/-- The process starts with one administrator's key and restarts with another. -/
def rotation : List KeyEvent :=
  [.restart (rotationEnv "old") [] "", .restart (rotationEnv "new") [oldAdminKey] ""]

theorem rotated_key_accepted :
    ¬ Throughout step Coherent (start true) rotation ∧
    (rotation.foldl step (start true)).lookup "old" = some oldAdminKey ∧
    (rotation.foldl step (start true)).keys.values = [{ oldAdminKey with key := "new" }] := by
  refine ⟨?_, by decide +kernel, by decide +kernel⟩
  rw [coherent_iff]
  decide +kernel

end ApiKeyRegistry
end ECN
