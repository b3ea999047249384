import ECN.ApiKeys
import ECN.Base64
import ECN.Crypto
import ECN.PyValue

/-!
# Role checks

`requireRole` lets a request pass when authentication is off, or when it carries a
bearer token or an API key with one of the allowed roles. A token is checked for its
signature, its times, its issuer and its audience before its role is read. The JSON
parser is a parameter; it sees the bytes of a payload that the shared secret signs.
-/
namespace ECN

/-- A response that is an error. -/
structure HttpError where
  statusCode : ℕ
  detail : String

/-- An exception that no route handles. -/
def internalServerError : HttpError := ⟨500, "Internal Server Error"⟩

/-- Let an exception of the interpreter become an internal error. -/
def orInternal {α : Type} (x : Except Exc α) : Except HttpError α :=
  x.mapError fun _ => internalServerError

/-! ## Bearer tokens -/

/-- HMAC with SHA-256. -/
def hmacSha256 (crypto : Crypto) (key msg : List UInt8) : List UInt8 :=
  let short := if 64 < key.length then (crypto.sha256 key).val else key
  let block := short ++ List.replicate (64 - short.length) 0
  let inner := (crypto.sha256 (block.map (· ^^^ 0x36) ++ msg)).val
  (crypto.sha256 (block.map (· ^^^ 0x5c) ++ inner)).val

/-- Decode after filling up the padding. -/
def decodePadded (s : String) : Option (List UInt8) :=
  Base64.urlsafeDecode (s ++ String.ofList (List.replicate ((4 - s.length % 4) % 4) '='))

/-- `json.loads` on bytes, with `none` for the error. -/
abbrev JsonLoads := List UInt8 → Option Value

/-- `repr` of a list of plain texts. -/
def reprTexts (texts : List String) : String :=
  "[" ++ String.intercalate ", " (texts.map fun s => "'" ++ s ++ "'") ++ "]"

/-- The checks of the standard claims. -/
def checkClaims (env : AuthEnv) (now : PyFloat) (claims : Value) : Except HttpError Unit := do
  if ← orInternal (claims.contains (.str "exp")) then
    let expires ← orInternal (claims.item (.str "exp"))
    if ← orInternal (expires.lt (.scalar (.float now))) then
      throw ⟨401, "Bearer token has expired"⟩
  if ← orInternal (claims.contains (.str "nbf")) then
    let notBefore ← orInternal (claims.item (.str "nbf"))
    if ← orInternal ((Value.scalar (.float now)).lt notBefore) then
      throw ⟨401, "Bearer token not yet valid"⟩
  let expectedIss := pyStrip env.jwtIssuer
  if expectedIss ≠ "" then
    let issuer ← orInternal (claims.getOr (.str "iss") .none)
    if !issuer.eq (.str expectedIss) then
      throw ⟨401, "Bearer token issuer mismatch"⟩
  let expectedAud := pyStrip env.jwtAudience
  if expectedAud ≠ "" then
    let audience ← orInternal (claims.getOr (.str "aud") (.str ""))
    let audList := match audience with
      | .list vs => vs
      | v => [v]
    if !audList.any fun v => v.eq (.str expectedAud) then
      throw ⟨401, "Bearer token audience mismatch"⟩

/-- The role that the claims name. -/
def roleOfClaims (claims : Value) : Except HttpError Role := do
  let invalid : HttpError := ⟨403, "Bearer token missing valid 'role' claim. Valid roles: " ++
    reprTexts (Role.all.map Role.value)⟩
  let first ← orInternal (claims.getOr (.str "role") .none)
  let role ← if first.truthy then pure first else orInternal (claims.getOr (.str "ecn_role") .none)
  if !role.truthy then throw invalid
  match ← orInternal role.asKey with
  | .str s =>
    match Role.parse s with
    | some role => return role
    | none => throw invalid
  | _ => throw invalid

/-- Validate an HS256 token and return the role from its `role` claim. -/
def verifyJwtAndGetRole (crypto : Crypto) (jsonLoads : JsonLoads) (env : AuthEnv) (now : PyFloat)
    (token : String) : Except HttpError Role :=
  let jwtSecret := pyStrip env.jwtSecret
  if jwtSecret = "" then
    .error ⟨401, "Bearer token authentication is not configured (ECN_JWT_SECRET not set)"⟩
  else
    match token.splitOn "." with
    | [header, payload, signature] =>
      match decodePadded signature with
      | none => .error ⟨401, "Invalid Bearer token signature encoding"⟩
      | some actual =>
        if hmacSha256 crypto (utf8 jwtSecret) (utf8 (header ++ "." ++ payload)) ≠ actual then
          .error ⟨401, "Invalid Bearer token signature"⟩
        else
          match (decodePadded payload).bind jsonLoads with
          | none => .error ⟨401, "Invalid Bearer token payload"⟩
          | some claims =>
            match checkClaims env now claims with
            | .error e => .error e
            | .ok () => roleOfClaims claims
    | _ => .error ⟨401, "Malformed Bearer token"⟩

/-! ## The dependency of a route -/

/-- The two headers that carry credentials. -/
structure Credentials where
  xApiKey : Option String
  authorization : Option String

/-- The token of an `Authorization: Bearer` header. -/
def bearerToken (credentials : Credentials) : Option String :=
  match credentials.authorization with
  | none => none
  | some authorization =>
    if (authorization.toList.take 7).map Char.toLower = "bearer ".toList then
      some (pyStrip (String.ofList (authorization.toList.drop 7)))
    else none

/-- `require_role(*allowed)` for one request. -/
def requireRole (crypto : Crypto) (jsonLoads : JsonLoads) (env : AuthEnv)
    (registry : Option ApiKeyRegistry) (allowed : List Role) (now : PyFloat)
    (credentials : Credentials) : Except HttpError Unit :=
  if env.isAuthEnabled = false then .ok ()
  else
    match registry with
    | none => .error ⟨503, "Auth registry not initialised"⟩
    | some registry =>
      match bearerToken credentials with
      | some token =>
        match verifyJwtAndGetRole crypto jsonLoads env now token with
        | .error e => .error e
        | .ok role =>
          if role ∈ allowed then .ok ()
          else .error ⟨403, "JWT role '" ++ role.value ++ "' is not authorised. Required: " ++
            reprTexts (allowed.map Role.value)⟩
      | none =>
        match credentials.xApiKey with
        | none | some "" => .error
            ⟨401, "Missing authentication: provide X-API-Key or Authorization: Bearer <jwt>"⟩
        | some secret =>
          match registry.lookup secret with
          | none => .error ⟨403, "Invalid or revoked API key"⟩
          | some apiKey =>
            if apiKey.role ∈ allowed then .ok ()
            else .error ⟨403, "Role '" ++ apiKey.role.value ++
              "' is not authorised for this operation. Required: " ++
              reprTexts (allowed.map Role.value)⟩

end ECN
