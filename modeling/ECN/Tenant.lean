import ECN.Api

/-!
# Tenants

A tenant has a network of its own, with fresh supply-chain state, its own audit log
and the default thresholds. Creating one depends on what the machine does: the id and
the nodes' keys are generated, the ports are assigned, and a node may fail to start.
Billing goes to the tracker that all tenants and the global network share.
-/
namespace ECN

variable {rt : Runtime}

structure Tenant (rt : Runtime) where
  tenantId : String
  name : String
  network : P2PNetwork rt

/-- Active tenants by id. -/
abbrev TenantRegistry (rt : Runtime) := OrderedDict String (Tenant rt)

structure CreateTenantRequest where
  name : String
  nodeCount : ℤ
  products : List String

structure TenantTransactionRequest where
  type : String
  productId : Option String
  destination : Option String
  shipper : Option String
  receiver : Option String
  atCustoms : Option Bool
  checkName : Option String
  inspector : Option String
  reason : Option String
  releasedBy : Option String

def TenantTransactionRequest.toEcnTx (body : TenantTransactionRequest) : Transaction :=
  (.str "type", .str body.type) ::
    (optionalField "product_id" (body.productId.map Value.str) ++
      optionalField "destination" (body.destination.map Value.str) ++
      optionalField "shipper" (body.shipper.map Value.str) ++
      optionalField "receiver" (body.receiver.map Value.str) ++
      optionalField "at_customs" (body.atCustoms.map Value.bool) ++
      optionalField "check_name" (body.checkName.map Value.str) ++
      optionalField "inspector" (body.inspector.map Value.str) ++
      optionalField "reason" (body.reason.map Value.str) ++
      optionalField "released_by" (body.releasedBy.map Value.str))

/-- What the machine contributes to a new tenant: its id, the host, the threshold in the
environment, and each node's key and port, or the text of an exception at their start. -/
structure TenantStart (rt : Runtime) where
  generatedId : String
  host : String
  quorumEnv : Option ℚ
  nodes : Except String (ℕ → rt.PrivateKey × ℕ)

def defaultTenantProducts : List String := ["ITEM-001", "ITEM-002"]

namespace TenantRegistry

variable (R : Rounding)

/-- Create a new tenant and start its node network. -/
def createTenant (tenants : TenantRegistry rt) (name : String) (nodeIds productIds : List String)
    (start : TenantStart rt) : TenantRegistry rt × Except String (Tenant rt) :=
  let tid := start.generatedId
  if (tenants.get? tid).isSome then (tenants, .error ("Tenant " ++ reprText tid ++ " already exists"))
  else
    match start.nodes with
    | .error text => (tenants, .error text)
    | .ok node =>
      let servers := nodeIds.mapIdx fun i nodeId =>
        .init rt (tid ++ "-" ++ nodeId) (makeInitialState productIds) start.host (node i).2
          (node i).1 false
      let tenant : Tenant rt :=
        ⟨tid, name, .init R start.quorumEnv servers (some .empty) none none none⟩
      (tenants.set tid tenant, .ok tenant)

/-- Remove a tenant; its servers stop. -/
def deleteTenant (tenants : TenantRegistry rt) (tenantId : String) : TenantRegistry rt × Bool :=
  match tenants.get? tenantId with
  | none => (tenants, false)
  | some _ => (tenants.erase tenantId, true)

end TenantRegistry
end ECN
