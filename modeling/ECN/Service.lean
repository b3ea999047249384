import ECN.Tenant

/-!
# The routes of the service

The two routers and the key registry as one state machine over requests. The routes
for API keys depend on `require_admin`; the routes that submit transactions and manage
tenants declare no dependency, so their handlers run for every caller.
-/
namespace ECN

variable {rt : Runtime}

/-- Everything that the process holds between requests. -/
structure Service (rt : Runtime) where
  app : App rt
  tenants : TenantRegistry rt
  registry : Option ApiKeyRegistry

/-- Settings of the process: the environment of authentication and the JSON parser. -/
structure AuthSettings where
  env : AuthEnv
  jsonLoads : JsonLoads

/-- A fresh id and the billing settings of a tenant's round. -/
structure TenantSubmitContext where
  txId : String
  billing : BillingContext

inductive Route (rt : Runtime) where
  | submitTransaction (ctx : SubmitContext) (body : TransactionRequest)
      (channel : NodeServer rt → Channel)
  | createTenant (body : CreateTenantRequest) (start : TenantStart rt)
  | deleteTenant (tenantId : String)
  | tenantSubmitTransaction (tenantId : String) (ctx : TenantSubmitContext)
      (body : TenantTransactionRequest) (channel : NodeServer rt → Channel)
  | issueApiKey (role description : String) (tenantId : Option String)
      (generatedId generatedSecret : String)
  | revokeApiKey (keyId : String)

/-- One HTTP request at a time. -/
structure HttpRequest (rt : Runtime) where
  route : Route rt
  credentials : Credentials
  now : PyFloat

namespace Service

variable (R : Rounding)

/-- `POST /tenants`. -/
def createTenant (service : Service rt) (body : CreateTenantRequest) (start : TenantStart rt) :
    Service rt × Except HttpError (Tenant rt) :=
  let nodeCount := (max 1 (min body.nodeCount 10)).toNat
  let nodeIds := (List.range nodeCount).map fun i => "Node-" ++ toString (i + 1)
  let products := if body.products.isEmpty then defaultTenantProducts else body.products
  match service.tenants.createTenant R body.name nodeIds products start with
  | (tenants, .error text) =>
    ({ service with tenants }, .error ⟨500, "Failed to create tenant: " ++ text⟩)
  | (tenants, .ok tenant) => ({ service with tenants }, .ok tenant)

def tenantNotFound (tenantId : String) : HttpError :=
  ⟨404, "Tenant " ++ reprText tenantId ++ " not found"⟩

/-- `DELETE /tenants/{tenant_id}`. -/
def deleteTenant (service : Service rt) (tenantId : String) : Service rt × Except HttpError Unit :=
  match service.tenants.deleteTenant tenantId with
  | (_, false) => (service, .error (tenantNotFound tenantId))
  | (tenants, true) => ({ service with tenants }, .ok ())

/-- What follows the broadcast of a tenant's transaction. -/
def finishTenantTransaction (service : Service rt) (tenantId : String) (network : P2PNetwork rt)
    (ctx : TenantSubmitContext) (results : List NodeResult) (cr : ConsensusResult) :
    Service rt × Except HttpError AuditEvent :=
  if results.isEmpty then
    (service, .error ⟨422, "All nodes rejected the transaction — check type and fields"⟩)
  else
    match network.auditLog.bind fun log => log.getEvent log.events.length with
    | none => (service, .error ⟨500, "Audit event not recorded"⟩)
    | some event =>
      ({ service with app.tracker := service.app.tracker.map fun tracker =>
          (tracker.recordRound R ctx.billing tenantId ctx.txId network.servers.length
            cr.consensusReached).1 }, .ok event)

/-- `POST /tenants/{tenant_id}/transactions`. -/
def tenantSubmitTransaction (service : Service rt) (tenantId : String) (ctx : TenantSubmitContext)
    (body : TenantTransactionRequest) (channel : NodeServer rt → Channel) :
    Service rt × Except HttpError AuditEvent :=
  match service.tenants.get? tenantId with
  | none => (service, .error (tenantNotFound tenantId))
  | some tenant =>
    match tenant.network.broadcast R ctx.billing.now body.toEcnTx channel with
    | (network, .error e) =>
      ({ service with tenants := service.tenants.set tenantId { tenant with network } },
        .error ⟨422, e.message⟩)
    | (network, .ok (results, cr)) =>
      finishTenantTransaction R
        { service with tenants := service.tenants.set tenantId { tenant with network } }
        tenantId network ctx results cr

/-- `POST /admin/api-keys`, behind `require_admin`. The text for an unknown role goes on
with the set of the valid ones, whose order is not fixed. -/
def issueApiKey (service : Service rt) (role description : String) (tenantId : Option String)
    (generatedId generatedSecret : String) : Service rt × Except HttpError ApiKey :=
  match service.registry with
  | none => (service, .error ⟨503, "ApiKeyRegistry not initialised"⟩)
  | some registry =>
    match registry.issue ⟨role, description, tenantId, none, none⟩ generatedId generatedSecret with
    | (registry, .error e) =>
      ({ service with registry := some registry }, .error ⟨422, "Unknown role: " ++ reprText e.role⟩)
    | (registry, .ok apiKey) => ({ service with registry := some registry }, .ok apiKey)

/-- `DELETE /admin/api-keys/{key_id}`, behind `require_admin`. -/
def revokeApiKey (service : Service rt) (keyId : String) : Service rt × Except HttpError Unit :=
  match service.registry with
  | none => (service, .error ⟨503, "ApiKeyRegistry not initialised"⟩)
  | some registry =>
    match registry.revoke keyId with
    | (_, false) => (service, .error ⟨404, "Key " ++ reprText keyId ++ " not found"⟩)
    | (registry, true) => ({ service with registry := some registry }, .ok ())

/-- The check of a request against the allowed roles. -/
def check (settings : AuthSettings) (service : Service rt) (allowed : List Role)
    (request : HttpRequest rt) : Except HttpError Unit :=
  requireRole rt.toCrypto settings.jsonLoads settings.env service.registry allowed request.now
    request.credentials

/-- Serve one request; the response body is dropped. -/
def handle (settings : AuthSettings) (service : Service rt) (request : HttpRequest rt) :
    Service rt × Except HttpError Unit :=
  let dropBody {α : Type} (out : Service rt × Except HttpError α) := (out.1, out.2.map fun _ => ())
  match request.route with
  | .submitTransaction ctx body channel =>
    ({ service with app := (service.app.submitTransaction R ctx body channel).1 },
      (service.app.submitTransaction R ctx body channel).2.map fun _ => ())
  | .createTenant body start => dropBody (service.createTenant R body start)
  | .deleteTenant tenantId => service.deleteTenant tenantId
  | .tenantSubmitTransaction tenantId ctx body channel =>
    dropBody (service.tenantSubmitTransaction R tenantId ctx body channel)
  | .issueApiKey role description tenantId generatedId generatedSecret =>
    match service.check settings [.admin] request with
    | .error e => (service, .error e)
    | .ok () =>
      dropBody (service.issueApiKey role description tenantId generatedId generatedSecret)
  | .revokeApiKey keyId =>
    match service.check settings [.admin] request with
    | .error e => (service, .error e)
    | .ok () => service.revokeApiKey keyId

end Service
end ECN
