import ECN.DoubleIndex
import Mathlib.Data.String.Basic

/-!
# API keys

The registry holds every issued key under its id and under its secret, and mirrors
the first map in a store when there is one. A restart builds a registry from the
rows of the store, which come in any order, and issues the bootstrap key when
authentication is on and the administrator's secret is unknown.
-/
namespace ECN

inductive Role where
  | admin
  | submitter
  | auditor
  | readonly
  deriving DecidableEq, Repr

namespace Role

def value : Role → String
  | .admin => "admin"
  | .submitter => "submitter"
  | .auditor => "auditor"
  | .readonly => "readonly"

/-- `ALL_ROLES`, in alphabetical order. -/
def all : List Role := [.admin, .auditor, .readonly, .submitter]

/-- The role that a text names. -/
def parse (s : String) : Option Role := all.find? fun role => role.value = s

theorem parse_value (role : Role) : parse role.value = some role := by
  cases role <;> decide

end Role

/-- An issued API key bound to a role. -/
structure ApiKey where
  keyId : String
  key : String
  role : Role
  description : String
  tenantId : Option String
  deriving DecidableEq

/-- Raised for a role that does not exist. -/
structure UnknownRole where
  role : String

/-! ## Settings -/

/-- White space that `str.strip` removes. -/
def isPySpace (c : Char) : Bool :=
  let n := c.toNat
  (9 ≤ n && n ≤ 13) || (28 ≤ n && n ≤ 32) || n = 0x85 || n = 0xa0 || n = 0x1680 ||
    (0x2000 ≤ n && n ≤ 0x200a) || n = 0x2028 || n = 0x2029 || n = 0x202f || n = 0x205f ||
    n = 0x3000

/-- `s.strip()`. -/
def pyStrip (s : String) : String :=
  String.ofList ((s.toList.dropWhile isPySpace).reverse.dropWhile isPySpace).reverse

/-- The environment variables of authentication; an unset one is empty. -/
structure AuthEnv where
  authEnabled : String
  adminKey : String
  jwtSecret : String
  jwtIssuer : String
  jwtAudience : String

def AuthEnv.isAuthEnabled (env : AuthEnv) : Bool :=
  ["1", "true", "yes", "on"].contains
    (String.ofList ((pyStrip env.authEnabled).toList.map Char.toLower))

/-! ## The registry -/

structure ApiKeyRegistry where
  store : Option (OrderedDict String ApiKey)
  keys : OrderedDict String ApiKey
  lookups : OrderedDict String ApiKey

/-- The arguments of `issue`. -/
structure IssueRequest where
  role : String
  description : String
  tenantId : Option String
  keyId : Option String
  secret : Option String

/-- A given text, or a generated one when it is absent or empty. -/
def orGenerate (given : Option String) (generated : String) : String :=
  match given with
  | some s => if s = "" then generated else s
  | none => generated

namespace ApiKeyRegistry

/-- Issue a new API key; the last two arguments are the generated id and secret. -/
def issue (registry : ApiKeyRegistry) (request : IssueRequest)
    (generatedId generatedSecret : String) : ApiKeyRegistry × Except UnknownRole ApiKey :=
  match Role.parse request.role with
  | none => (registry, .error ⟨request.role⟩)
  | some role =>
    let apiKey : ApiKey :=
      { keyId := orGenerate request.keyId generatedId
        key := orGenerate request.secret generatedSecret
        role
        description := request.description
        tenantId := request.tenantId }
    ({ store := registry.store.map fun store => store.set apiKey.keyId apiKey
       keys := registry.keys.set apiKey.keyId apiKey
       lookups := registry.lookups.set apiKey.key apiKey }, .ok apiKey)

/-- Revoke a key by its id; `false` when there is none. -/
def revoke (registry : ApiKeyRegistry) (keyId : String) : ApiKeyRegistry × Bool :=
  match registry.keys.get? keyId with
  | none => (registry, false)
  | some apiKey =>
    ({ store := registry.store.map fun store => store.erase keyId
       keys := registry.keys.erase keyId
       lookups := registry.lookups.erase apiKey.key }, true)

/-- The key for a secret. -/
def lookup (registry : ApiKeyRegistry) (secret : String) : Option ApiKey :=
  registry.lookups.get? secret

/-- Take one stored row into memory. -/
def loadRow (registry : ApiKeyRegistry) (row : ApiKey) : ApiKeyRegistry :=
  { registry with
    keys := registry.keys.set row.keyId row
    lookups := registry.lookups.set row.key row }

/-- A registry over a store whose rows are read in the given order. -/
def init (store : Option (OrderedDict String ApiKey)) (rows : List ApiKey) : ApiKeyRegistry :=
  match store with
  | none => ⟨none, .empty, .empty⟩
  | some _ => rows.foldl loadRow ⟨store, .empty, .empty⟩

/-- The administrator's secret: the configured one, or a generated one. -/
def adminSecret (env : AuthEnv) (generatedSecret : String) : String :=
  if pyStrip env.adminKey = "" then generatedSecret else pyStrip env.adminKey

def bootstrapId : String := "admin-bootstrap"

/-- `init_registry`: load the store and bootstrap the administrator's key. -/
def initRegistry (env : AuthEnv) (store : Option (OrderedDict String ApiKey))
    (rows : List ApiKey) (generatedSecret : String) : ApiKeyRegistry :=
  let registry := init store rows
  if env.isAuthEnabled then
    let secret := adminSecret env generatedSecret
    match registry.lookup secret with
    | none => (registry.issue ⟨Role.admin.value, "bootstrap admin", none, some bootstrapId,
        some secret⟩ bootstrapId secret).1
    | some _ => registry
  else registry

end ApiKeyRegistry
end ECN
