import ECN.AuditStream
import ECN.Delivery
import ECN.Service
import ECN.TenantBilling
import Mathlib.Data.Finset.SDiff

/-!
# The tenant endpoints

The handlers of all tenants run interleaved in one process. They share the registry of
tenants and the billing tracker; the network, the audit log and the webhooks belong to a
tenant object, which a handler goes on using even after the tenant was removed from the
registry. A handler is suspended while nodes start or stop and while a broadcast waits for
its replies. What the machine makes up for a request, such as ids, keys, ports and times,
comes with the request.
-/
namespace ECN

variable {rt : Runtime}

/-! ## Webhooks -/

structure WebhookSubscription where
  webhookId : String
  url : String
  events : List String

/-- Subscriptions by id. -/
abbrev WebhookRegistry := OrderedDict String WebhookSubscription

namespace WebhookRegistry

def subscribe (registry : WebhookRegistry) (webhookId url : String) (events : List String) :
    WebhookRegistry × WebhookSubscription :=
  (registry.set webhookId ⟨webhookId, url, events⟩, ⟨webhookId, url, events⟩)

def unsubscribe (registry : WebhookRegistry) (webhookId : String) : WebhookRegistry × Bool :=
  if (registry.get? webhookId).isSome then (registry.erase webhookId, true) else (registry, false)

def listSubscriptions (registry : WebhookRegistry) : List WebhookSubscription := registry.values

end WebhookRegistry

/-- The event filters that a subscription may name. -/
def webhookEvents : Finset String := {"transaction", "fault"}

/-! ## What an audit log reports -/

structure AuditSummary where
  totalRounds : ℕ
  faultRounds : ℕ
  consensusFailureRounds : ℕ
  faultRate : ℚ
  topFaultyNodes : List (String × ℕ)

namespace AuditLog

/-- A page of the events. -/
def getEvents (log : AuditLog) (limit offset : ℕ) : List AuditEvent :=
  (log.events.drop offset).take limit

/-- Aggregate statistics; nodes with most faults come first. -/
def summary (R : Rounding) (log : AuditLog) : AuditSummary :=
  let faultRounds := (log.events.filter Submissions.hasFault).length
  let faultCounts := OrderedDict.counter (log.events.flatMap AuditEvent.faultyNodes)
  { totalRounds := log.events.length
    faultRounds
    consensusFailureRounds := (log.events.filter fun e => !e.consensusReached).length
    faultRate := if 0 < log.events.length then
      roundFour R (R ((faultRounds : ℚ) / log.events.length)) else 0
    topFaultyNodes := faultCounts.entries.mergeSort fun a b => decide (b.2 ≤ a.2) }

end AuditLog

/-- The fields of an event that a tenant is shown. -/
structure EventDict where
  roundId : ℕ
  timestamp : String
  transaction : Transaction
  consensusReached : Bool
  agreedHash : Option String
  honestNodes : List String
  faultyNodes : List String
  votes : List NodeVote

def eventToDict (event : AuditEvent) : EventDict where
  roundId := event.roundId
  timestamp := event.timestamp
  transaction := event.transaction
  consensusReached := event.consensusReached
  agreedHash := event.agreedHash
  honestNodes := event.honestNodes
  faultyNodes := event.faultyNodes
  votes := event.votes

/-! ## Tenant objects -/

/-- The runtime representation of an active tenant. -/
structure ActiveTenant (rt : Runtime) extends Tenant rt where
  webhookRegistry : WebhookRegistry

/-- What the machine contributes to the nodes of a new tenant: the host and the threshold
in the environment, and each node's key and port, or the text of an exception at their
start. -/
structure NodesStart (rt : Runtime) where
  host : String
  quorumEnv : Option ℚ
  nodes : Except String (ℕ → rt.PrivateKey × ℕ)

/-- The response to a request that the server has answered with `reply`, if it has read it. -/
def responseTo (reply : Option Reply) : Channel → Response
  | .requestLost => none
  | .replyLost => none
  | .answered latencyMs => reply.bind (receive latencyMs)
  | .byzantine forged latencyMs => receive latencyMs forged

namespace ActiveTenant

variable (R : Rounding)

/-- The tenant over the nodes that were started. -/
def create (tenantId name : String) (nodeIds productIds : List String) (start : NodesStart rt) :
    Except String (ActiveTenant rt) :=
  start.nodes.map fun node =>
    let servers := nodeIds.mapIdx fun i nodeId =>
      .init rt (tenantId ++ "-" ++ nodeId) (makeInitialState productIds) start.host (node i).2
        (node i).1 false
    { tenantId, name
      network := .init R start.quorumEnv servers (some .empty) none none none
      webhookRegistry := .empty }

/-- The log that the network writes to. -/
def auditLog (tenant : ActiveTenant rt) : AuditLog := tenant.network.auditLog.getD .empty

/-- The server at a place reads a transaction. -/
def serve (tenant : ActiveTenant rt) (tx : Transaction) (place : ℕ) :
    Option (ActiveTenant rt × Reply) :=
  (tenant.network.servers[place]?).map fun server =>
    ({ tenant with
        network := { tenant.network with
          servers := tenant.network.servers.set place (server.handleClient tx).1 } },
      (server.handleClient tx).2)

/-- The responses of the servers that were asked, in order. -/
def gather (tenant : ActiveTenant rt) (asked : List ℕ) (replies : OrderedDict ℕ Reply)
    (channel : ℕ → Channel) : List (NodeServer rt × Response) :=
  asked.filterMap fun place => (tenant.network.servers[place]?).map fun server =>
    (server, responseTo (replies.get? place) (channel place))

/-- The rest of a broadcast once every request has ended, up to the event of its round and
whether it reached consensus. -/
def finishRound (tenant : ActiveTenant rt) (now : ℕ) (tx : Transaction)
    (responses : List (NodeServer rt × Response)) :
    ActiveTenant rt × Except HttpError (AuditEvent × Bool) :=
  match tenant.network.collect R now tx responses with
  | (network, .error e) => ({ tenant with network }, .error ⟨422, e.message⟩)
  | (network, .ok (results, cr)) =>
    let tenant := { tenant with network }
    if results.isEmpty then
      (tenant, .error ⟨422, "All nodes rejected the transaction — check type and fields"⟩)
    else
      match tenant.auditLog.getEvent tenant.auditLog.events.length with
      | none => (tenant, .error ⟨500, "Audit event not recorded"⟩)
      | some event => (tenant, .ok (event, cr.consensusReached))

end ActiveTenant

/-! ## Requests and answers -/

/-- A call, by the tenant that it is addressed to and its number among the calls of this
tenant. A new tenant is addressed by the id that is generated for it. -/
abbrev CallId := String × ℕ

/-- A request that is answered without suspension and changes nothing. -/
inductive TenantQuery where
  | networkState
  | auditEvents (offset limit : ℕ)
  | auditSummary
  | usage (period : String)
  | billingLedger
  | sla (tier : PricingTier)
  | listWebhooks

/-- A request arrives, or a suspended call goes on. -/
inductive TenantMove (rt : Runtime) where
  | createTenant (call : ℕ) (body : CreateTenantRequest)
  | nodesStarted (call : ℕ) (start : NodesStart rt)
  | deleteTenant (call : ℕ)
  | nodesStopped (call : ℕ)
  | submitTransaction (call : ℕ) (body : TenantTransactionRequest)
  | serve (call place : ℕ)
  | gathered (call : ℕ) (ctx : TenantSubmitContext) (channel : ℕ → Channel)
  | subscribeWebhook (url : String) (events : List String) (webhookId : String)
  | unsubscribeWebhook (webhookId : String)
  | query (q : TenantQuery)

/-- A move of one tenant. -/
structure TenantEvent (rt : Runtime) where
  tenantId : String
  move : TenantMove rt

structure NodeEntry (rt : Runtime) where
  nodeId : String
  port : ℕ
  publicKey : rt.PublicKey
  malicious : Bool

structure NetworkStateResponse (rt : Runtime) where
  tenantId : String
  nodeCount : ℕ
  nodes : List (NodeEntry rt)
  totalRounds : ℕ
  faultRounds : ℕ
  faultRate : ℚ

structure BillingLedgerResponse where
  tenantId : String
  entries : List LedgerEntry
  totalEntries : ℕ
  totalBilled : ℚ

/-- The body of an answer. -/
inductive TenantBody (rt : Runtime) where
  | created (tenantId name : String) (nodeCount : ℕ)
  | deleted
  | transaction (event : EventDict)
  | networkState (response : NetworkStateResponse rt)
  | auditEvents (tenantId : String) (total offset : ℕ) (events : List EventDict)
  | auditSummary (tenantId : String) (summary : AuditSummary)
  | usage (response : UsageResponse)
  | billingLedger (response : BillingLedgerResponse)
  | sla (response : SlaResponse)
  | subscribed (subscription : WebhookSubscription)
  | webhooks (subscriptions : List WebhookSubscription)
  | unsubscribed

/-- The answer of a move, if it is the last one of its call. -/
abbrev TenantAnswer (rt : Runtime) := Option (Except HttpError (TenantBody rt))

/-- What the interpreter decides: how it adds up amounts and how it prints a set. -/
structure Builtins where
  sum : List ℚ → ℚ
  reprSet : Finset String → String

/-! ## The service -/

/-- A call from its first suspension on. A broadcast holds its tenant object, the servers
that it has asked and the replies of those that have read the request; a server may read
the request even after the call has returned. -/
inductive TenantCall (rt : Runtime) where
  | creating (name : String) (nodeIds productIds : List String)
  | deleting
  | broadcasting (tenant : CallId) (tx : Transaction) (asked : List ℕ)
      (replies : OrderedDict ℕ Reply) (returned : Bool)
  | returned

/-- Tenant objects are known by the calls that made them. -/
structure TenantService (rt : Runtime) where
  registry : OrderedDict String CallId
  tenants : OrderedDict CallId (ActiveTenant rt)
  calls : OrderedDict CallId (TenantCall rt)
  tracker : Option SharedTracker

namespace TenantService

variable (R : Rounding) (py : Builtins)

/-- The service before the first request. -/
def start (rt : Runtime) (tracker : Option SharedTracker) : TenantService rt :=
  ⟨.empty, .empty, .empty, tracker⟩

/-- The registered tenant of an id. -/
def getTenant (s : TenantService rt) (tenantId : String) : Option (CallId × ActiveTenant rt) :=
  (s.registry.get? tenantId).bind fun ref => (s.tenants.get? ref).map fun tenant => (ref, tenant)

def setCall (s : TenantService rt) (id : CallId) (call : TenantCall rt) : TenantService rt :=
  { s with calls := s.calls.set id call }

def setTenant (s : TenantService rt) (ref : CallId) (tenant : ActiveTenant rt) :
    TenantService rt :=
  { s with tenants := s.tenants.set ref tenant }

def register (s : TenantService rt) (tenantId : String) (ref : CallId) : TenantService rt :=
  { s with registry := s.registry.set tenantId ref }

def unregister (s : TenantService rt) (tenantId : String) : TenantService rt :=
  { s with registry := s.registry.erase tenantId }

/-- Charge a round; without a tracker nothing is recorded. -/
def recordRound (s : TenantService rt) (ctx : BillingContext) (tenantId txId : String)
    (nodeCount : ℕ) (consensusReached : Bool) : TenantService rt :=
  { s with tracker := s.tracker.map fun tracker =>
      tracker.recordRound R ctx tenantId txId nodeCount consensusReached }

/-- The answer of every route to an id that is not registered. -/
def notFound (tenantId : String) : TenantAnswer rt :=
  some (.error (Service.tenantNotFound tenantId))

/-- `POST /tenants`, up to the start of the nodes. -/
def createTenant (s : TenantService rt) (id : CallId) (body : CreateTenantRequest) :
    TenantService rt × TenantAnswer rt :=
  let nodeCount := (max 1 (min body.nodeCount 10)).toNat
  let nodeIds := (List.range nodeCount).map fun i => "Node-" ++ toString (i + 1)
  let products := if body.products.isEmpty then defaultTenantProducts else body.products
  if (s.registry.get? id.1).isSome then
    (s.setCall id .returned, some (.error
      ⟨500, "Failed to create tenant: Tenant " ++ reprText id.1 ++ " already exists"⟩))
  else (s.setCall id (.creating body.name nodeIds products), none)

/-- The nodes of a new tenant have started, or one of them has failed. -/
def nodesStarted (s : TenantService rt) (id : CallId) (nodes : NodesStart rt) :
    TenantService rt × TenantAnswer rt :=
  match s.calls.get? id with
  | some (.creating name nodeIds productIds) =>
    match ActiveTenant.create R id.1 name nodeIds productIds nodes with
    | .error text =>
      (s.setCall id .returned, some (.error ⟨500, "Failed to create tenant: " ++ text⟩))
    | .ok tenant =>
      (((s.setTenant id tenant).register id.1 id).setCall id .returned,
        some (.ok (.created id.1 name tenant.network.servers.length)))
  | _ => (s, none)

/-- `DELETE /tenants/{tenant_id}`, up to the end of the nodes. -/
def deleteTenant (s : TenantService rt) (id : CallId) : TenantService rt × TenantAnswer rt :=
  match s.registry.get? id.1 with
  | none => (s.setCall id .returned, notFound id.1)
  | some _ => ((s.unregister id.1).setCall id .deleting, none)

def nodesStopped (s : TenantService rt) (id : CallId) : TenantService rt × TenantAnswer rt :=
  match s.calls.get? id with
  | some .deleting => (s.setCall id .returned, some (.ok .deleted))
  | _ => (s, none)

/-- `POST /tenants/{tenant_id}/transactions`, up to the requests to the servers. -/
def submitTransaction (s : TenantService rt) (id : CallId) (body : TenantTransactionRequest) :
    TenantService rt × TenantAnswer rt :=
  match s.getTenant id.1 with
  | none => (s.setCall id .returned, notFound id.1)
  | some (ref, tenant) =>
    (s.setCall id (.broadcasting ref body.toEcnTx (Concurrent.places tenant.network) .empty false),
      none)

/-- A server that was asked reads the request, once. -/
def serve (s : TenantService rt) (id : CallId) (place : ℕ) :
    TenantService rt × TenantAnswer rt :=
  match s.calls.get? id with
  | some (.broadcasting ref tx asked replies returned) =>
    match (s.tenants.get? ref).bind fun tenant => tenant.serve tx place with
    | none => (s, none)
    | some (tenant, reply) =>
      if place ∈ asked ∧ (replies.get? place).isNone then
        ((s.setTenant ref tenant).setCall id
          (.broadcasting ref tx asked (replies.set place reply) returned), none)
      else (s, none)
  | _ => (s, none)

/-- Every request of a broadcast has ended, and the handler goes on to its answer. -/
def gathered (s : TenantService rt) (id : CallId) (ctx : TenantSubmitContext)
    (channel : ℕ → Channel) : TenantService rt × TenantAnswer rt :=
  match s.calls.get? id with
  | some (.broadcasting ref tx asked replies false) =>
    match s.tenants.get? ref with
    | none => (s, none)
    | some tenant =>
      let round := tenant.finishRound R ctx.billing.now tx (tenant.gather asked replies channel)
      let s := (s.setTenant ref round.1).setCall id (.broadcasting ref tx asked replies true)
      match round.2 with
      | .error e => (s, some (.error e))
      | .ok (event, consensusReached) =>
        (s.recordRound R ctx.billing id.1 ctx.txId round.1.network.servers.length consensusReached,
          some (.ok (.transaction (eventToDict event))))
  | _ => (s, none)

/-- `POST /tenants/{tenant_id}/webhooks`. -/
def subscribeWebhook (s : TenantService rt) (tenantId url : String) (events : List String)
    (webhookId : String) : TenantService rt × TenantAnswer rt :=
  match s.getTenant tenantId with
  | none => (s, notFound tenantId)
  | some (ref, tenant) =>
    let invalid := events.toFinset \ webhookEvents
    if invalid ≠ ∅ then
      (s, some (.error ⟨422, "Unknown event types: " ++ py.reprSet invalid⟩))
    else
      let out := tenant.webhookRegistry.subscribe webhookId url events
      (s.setTenant ref { tenant with webhookRegistry := out.1 }, some (.ok (.subscribed out.2)))

/-- `DELETE /tenants/{tenant_id}/webhooks/{webhook_id}`. -/
def unsubscribeWebhook (s : TenantService rt) (tenantId webhookId : String) :
    TenantService rt × TenantAnswer rt :=
  match s.getTenant tenantId with
  | none => (s, notFound tenantId)
  | some (ref, tenant) =>
    match tenant.webhookRegistry.unsubscribe webhookId with
    | (_, false) =>
      (s, some (.error ⟨404, "Webhook " ++ reprText webhookId ++ " not found"⟩))
    | (registry, true) =>
      (s.setTenant ref { tenant with webhookRegistry := registry }, some (.ok .unsubscribed))

/-- A report of the shared tracker. -/
def report (tracker : Option SharedTracker) (body : SharedTracker → TenantBody rt) :
    Except HttpError (TenantBody rt) :=
  match tracker with
  | none => .error ⟨503, "BillingTracker not initialised"⟩
  | some tracker => .ok (body tracker)

/-- The billing ledger of a tenant with its total. -/
def billingLedgerResponse (tenantId : String) (entries : List LedgerEntry) :
    BillingLedgerResponse where
  tenantId
  entries
  totalEntries := entries.length
  totalBilled := roundSix R (py.sum (entries.map LedgerEntry.billedAmount))

/-- The answer to a query of a registered tenant. -/
def answerQuery (tenantId : String) (tenant : ActiveTenant rt) (tracker : Option SharedTracker) :
    TenantQuery → Except HttpError (TenantBody rt)
  | .networkState =>
    let summary := tenant.auditLog.summary R
    .ok (.networkState
      { tenantId
        nodeCount := tenant.network.servers.length
        nodes := tenant.network.servers.map fun s =>
          ⟨s.nodeId, s.port, s.publicKey, s.node.malicious⟩
        totalRounds := summary.totalRounds
        faultRounds := summary.faultRounds
        faultRate := summary.faultRate })
  | .auditEvents offset limit =>
    .ok (.auditEvents tenantId tenant.auditLog.events.length offset
      ((tenant.auditLog.getEvents limit offset).map eventToDict))
  | .auditSummary => .ok (.auditSummary tenantId (tenant.auditLog.summary R))
  | .usage period => report tracker fun tracker => .usage (tracker.getUsage tenantId period)
  | .billingLedger => report tracker fun tracker =>
    .billingLedger (billingLedgerResponse R py tenantId (tracker.getBillingLedger tenantId))
  | .sla tier => report tracker fun tracker => .sla (tracker.getSla R tier tenantId)
  | .listWebhooks => .ok (.webhooks tenant.webhookRegistry.listSubscriptions)

/-- The `GET` routes of one tenant. -/
def query (s : TenantService rt) (tenantId : String) (q : TenantQuery) :
    TenantService rt × TenantAnswer rt :=
  match s.getTenant tenantId with
  | none => (s, notFound tenantId)
  | some (_, tenant) => (s, some (answerQuery R py tenantId tenant s.tracker q))

/-- A new call has a number of its own. -/
def newCall (s : TenantService rt) (id : CallId) (called : TenantService rt × TenantAnswer rt) :
    TenantService rt × TenantAnswer rt :=
  if (s.calls.get? id).isSome then (s, none) else called

/-- One move of one tenant. -/
def step (s : TenantService rt) (e : TenantEvent rt) : TenantService rt × TenantAnswer rt :=
  match e.move with
  | .createTenant call body =>
    s.newCall (e.tenantId, call) (s.createTenant (e.tenantId, call) body)
  | .nodesStarted call nodes => s.nodesStarted R (e.tenantId, call) nodes
  | .deleteTenant call => s.newCall (e.tenantId, call) (s.deleteTenant (e.tenantId, call))
  | .nodesStopped call => s.nodesStopped (e.tenantId, call)
  | .submitTransaction call body =>
    s.newCall (e.tenantId, call) (s.submitTransaction (e.tenantId, call) body)
  | .serve call place => s.serve (e.tenantId, call) place
  | .gathered call ctx channel => s.gathered R (e.tenantId, call) ctx channel
  | .subscribeWebhook url events webhookId =>
    s.subscribeWebhook py e.tenantId url events webhookId
  | .unsubscribeWebhook webhookId => s.unsubscribeWebhook e.tenantId webhookId
  | .query q => s.query R py e.tenantId q

end TenantService
end ECN
