import ECN.Lifecycle
import ECN.Service

/-!
# Who may change the service

A request should change node states, audit logs, transaction records, the ledger or the
tenants only with a key or token of a submitter or an administrator. No route of these
checks, so an unauthorised request is harmless exactly when its handler has nothing to
change: there is no audit log, no such tenant, no tenant is started, or no node of the
tenant accepts the transaction.
-/
namespace ECN

variable {rt : Runtime}

/-- The runtime of the service, with the supply-chain handlers registered. -/
def serviceRuntime (py : Interp) (crypto : Crypto) : Runtime where
  toInterp := py
  toCrypto := crypto
  handlers := registerSupplyChainHandlers py (builtinHandlers py)

/-- A reply that carries a result. -/
def Reply.isResult : Reply → Bool
  | .result _ _ _ => true
  | .error _ => false

/-- The request has no effect on the server and brings no result. -/
def Channel.Idle (tx : Transaction) (server : NodeServer rt) : Channel → Prop
  | .requestLost => True
  | .replyLost => ∃ e, rt.execute server.state tx = .error e
  | .answered _ => ∃ e, rt.execute server.state tx = .error e
  | .byzantine reply _ => reply.isResult = false

namespace Service

/-- What only submitters and administrators may change. -/
structure ProtectedData (rt : Runtime) where
  servers : List (NodeServer rt)
  auditLog : Option AuditLog
  saves : List TransactionRecord
  tracker : Option BillingTracker
  tenants : String → Option (String × List (NodeServer rt) × Option AuditLog)

def protectedData (service : Service rt) : ProtectedData rt where
  servers := service.app.network.servers
  auditLog := service.app.network.auditLog
  saves := service.app.saves
  tracker := service.app.tracker
  tenants id := (service.tenants.get? id).map fun tenant =>
    (tenant.name, tenant.network.servers, tenant.network.auditLog)

variable (R : Rounding) (settings : AuthSettings)

def step (service : Service rt) (request : HttpRequest rt) : Service rt :=
  (service.handle R settings request).1

/-- The request carries a valid credential of a submitter or an administrator. -/
def Authorised (service : Service rt) (request : HttpRequest rt) : Prop :=
  (service.check settings [.submitter, .admin] request).isOk = true

instance (service : Service rt) (request : HttpRequest rt) :
    Decidable (service.Authorised settings request) :=
  inferInstanceAs (Decidable (_ = true))

/-- Protected data changes only for authorised requests. -/
def Enforced (service : Service rt) (request : HttpRequest rt) : Prop :=
  (service.step R settings request).protectedData ≠ service.protectedData →
    service.Authorised settings request

/-- The handler of the request has nothing to change. -/
def Idle (service : Service rt) (request : HttpRequest rt) : Prop :=
  match request.route with
  | .submitTransaction _ _ _ => service.app.network.auditLog = none
  | .createTenant _ start =>
    (service.tenants.get? start.generatedId).isSome = true ∨ start.nodes.isOk = false
  | .deleteTenant tenantId => service.tenants.get? tenantId = none
  | .tenantSubmitTransaction tenantId _ body channel =>
    ∀ tenant ∈ service.tenants.get? tenantId, ∀ server ∈ tenant.network.participating,
      (channel server).Idle body.toEcnTx server
  | .issueApiKey _ _ _ _ _ => True
  | .revokeApiKey _ => True

/-- The request is authorised, or idle. -/
def Guarded (service : Service rt) (request : HttpRequest rt) : Prop :=
  service.Authorised settings request ∨ service.Idle request

/-! ## Tenant networks -/

/-- The network of a tenant, in every reachable state. -/
structure TenantNetwork (net : P2PNetwork rt) : Prop where
  audited : net.auditLog.isSome = true
  single : net.minResponses = 1
  shape : ∀ server ∈ net.servers, WellShaped server.state

theorem mem_optionalField {α : Type} {key : String} {f : α → Value} {value : Option α}
    {e : Scalar × Value} (h : e ∈ optionalField key (value.map f)) :
    e.1 = .str key ∧ ∃ a, e.2 = f a := by
  cases value with
  | none => cases h
  | some a =>
    obtain rfl := List.mem_singleton.mp h
    exact ⟨rfl, a, rfl⟩

/-- The fields of a tenant's transaction are texts and flags under fixed names. -/
theorem mem_toEcnTx {body : TenantTransactionRequest} {e : Scalar × Value}
    (h : e ∈ body.toEcnTx) : e.2.stringKeyed = true ∧ ∃ key, e.1 = .str key ∧
      key ≠ "from" ∧ key ≠ "to" := by
  simp only [TenantTransactionRequest.toEcnTx, List.mem_cons, List.mem_append] at h
  rcases h with rfl | (((((((h | h) | h) | h) | h) | h) | h) | h) | h
  · exact ⟨rfl, "type", rfl, by decide, by decide⟩
  all_goals
    obtain ⟨hkey, a, hvalue⟩ := mem_optionalField h
    exact ⟨by rw [hvalue]; rfl, _, hkey, by decide, by decide⟩

theorem get?_toEcnTx {body : TenantTransactionRequest} {key : String}
    (hkey : key = "from" ∨ key = "to") : PyDict.get? body.toEcnTx (.str key) = none := by
  rw [PyDict.get?, Option.map_eq_none_iff, List.find?_eq_none]
  intro e he
  obtain ⟨-, name, hname, hfrom, hto⟩ := mem_toEcnTx he
  rw [hname]
  have hne : name ≠ key := by
    rcases hkey with rfl | rfl
    · exact hfrom
    · exact hto
  simpa [Scalar.eq, Scalar.num] using hne

theorem wellTyped_toEcnTx (body : TenantTransactionRequest) : WellTyped body.toEcnTx where
  stringKeyed := by
    rw [Value.stringKeyed_dict_iff]
    intro e he
    obtain ⟨hvalue, key, hkey, -⟩ := mem_toEcnTx he
    exact ⟨⟨key, hkey⟩, hvalue⟩
  sender v hv := by
    rw [get?_toEcnTx (.inl rfl)] at hv
    cases hv
  receiver v hv := by
    rw [get?_toEcnTx (.inr rfl)] at hv
    cases hv

theorem stringKeyed_foldl_set {v : Value} (hv : v.stringKeyed = true) (ids : List String)
    {d : PyDict} (hd : (Value.dict d).stringKeyed = true) :
    (Value.dict (ids.foldl (fun d id => PyDict.set d (.str id) v) d)).stringKeyed = true := by
  induction ids generalizing d with
  | nil => exact hd
  | cons id ids ih => exact ih (PyDict.stringKeyed_set hd hv)

/-- Fresh products have the documented shape. -/
theorem wellShaped_makeInitialState (productIds : List String) :
    WellShaped (makeInitialState productIds) where
  stringKeyed := by
    rw [makeInitialState, Value.stringKeyed_dict_iff]
    intro e he
    obtain rfl := List.mem_singleton.mp he
    exact ⟨⟨_, rfl⟩, stringKeyed_foldl_set (by decide) productIds rfl⟩
  balances v hv := by cases hv

/-! ### A round of a tenant -/

variable {net : P2PNetwork rt} {tx : Transaction} {channel : NodeServer rt → Channel}

/-- A server that accepts has a longer trace. -/
theorem handleClient_ne (hr : rt.Registered) {server : NodeServer rt}
    (hs : WellShaped server.state) (ht : WellTyped tx) {new : State}
    (hex : rt.execute server.state tx = .ok new) : (server.handleClient tx).1 ≠ server := by
  intro heq
  obtain ⟨h, he⟩ := Node.evaluate_of_execute hs (hr.execute_wellShaped hs ht hex) hex
  obtain ⟨trace, hnode⟩ := server.node.executeTransaction_of_ok he
  have hafter : (server.node.executeTransaction tx).1 = server.node :=
    congrArg NodeServer.node heq
  rw [hnode] at hafter
  have htrace := congrArg (fun node => node.manager.trace.length) hafter
  simp at htrace

theorem handleClient_of_execute_error {server : NodeServer rt}
    (hex : ∃ e, rt.execute server.state tx = .error e) :
    ∃ e, server.handleClient tx = (server, .error e) := by
  obtain ⟨e, hex⟩ := hex
  refine server.handleClient_of_rejected fun ⟨_, new, hnew⟩ => ?_
  rw [hex] at hnew
  cases hnew

/-- An idle request leaves the server alone and brings no result. -/
theorem sendToServer_of_idle {server : NodeServer rt}
    (h : (channel server).Idle tx server) :
    sendToServer server tx (channel server) = (server, none) := by
  cases hc : channel server with
  | requestLost => rfl
  | replyLost =>
    rw [hc] at h
    obtain ⟨e, hreject⟩ := handleClient_of_execute_error h
    rw [sendToServer, hreject]
  | answered latencyMs =>
    rw [hc] at h
    obtain ⟨e, hreject⟩ := handleClient_of_execute_error h
    rw [sendToServer, hreject]
    rfl
  | byzantine reply latencyMs =>
    rw [hc] at h
    cases reply with
    | result nodeId stateHash signature => cases h
    | error e => rfl

/-- Any other request changes the server or brings a result. -/
theorem sendToServer_of_not_idle (hr : rt.Registered) {server : NodeServer rt}
    (hs : WellShaped server.state) (ht : WellTyped tx)
    (h : ¬ (channel server).Idle tx server) :
    (sendToServer server tx (channel server)).1 ≠ server ∨
      (sendToServer server tx (channel server)).2 ≠ none := by
  have haccepts (hno : ¬ ∃ e, rt.execute server.state tx = .error e) :
      (server.handleClient tx).1 ≠ server := by
    cases hex : rt.execute server.state tx with
    | error e => exact absurd ⟨e, hex⟩ hno
    | ok new => exact handleClient_ne hr hs ht hex
  cases hc : channel server with
  | requestLost => exact absurd (by rw [hc]; trivial) h
  | replyLost =>
    rw [hc] at h
    exact .inl (haccepts h)
  | answered latencyMs =>
    rw [hc] at h
    exact .inl (haccepts h)
  | byzantine reply latencyMs =>
    rw [hc] at h
    cases reply with
    | result nodeId stateHash signature => exact .inr nofun
    | error e => exact absurd rfl h

theorem eq_of_map_eq_self {α : Type*} {f : α → α} {xs : List α} (h : xs.map f = xs) :
    ∀ x ∈ xs, f x = x := by
  induction xs with
  | nil => nofun
  | cons y ys ih =>
    obtain ⟨hy, hys⟩ := List.cons.inj h
    intro x hx
    rcases List.mem_cons.mp hx with rfl | hx
    · exact hy
    · exact ih hys x hx

/-- A recorded round changes the audit log. -/
theorem auditLog_ne (net : P2PNetwork rt) {now : ℕ} {responses : List (NodeServer rt × Response)}
    (hn : net.auditLog.isSome = true)
    (hmin : net.minResponses ≤ (P2PNetwork.resultsOf responses).length) :
    (net.collect R now tx responses).1.auditLog ≠ net.auditLog := by
  obtain ⟨log, hlog⟩ := Option.isSome_iff_exists.mp hn
  rw [P2PNetwork.collect_of_le R hmin, hlog]
  intro heq
  have hlength := congrArg (fun log => log.events.length) (Option.some_inj.mp heq)
  simp [AuditLog.record] at hlength

/-- A round changes neither the servers nor the audit log exactly when every request
of it is idle. -/
theorem broadcast_unchanged_iff (hr : rt.Registered) (hn : TenantNetwork net)
    (ht : WellTyped tx) (now : ℕ) (channel : NodeServer rt → Channel) :
    ((net.broadcast R now tx channel).1.servers = net.servers ∧
        (net.broadcast R now tx channel).1.auditLog = net.auditLog) ↔
      ∀ server ∈ net.participating, (channel server).Idle tx server := by
  constructor
  · rintro ⟨hservers, haudit⟩ server hserver
    by_contra hidle
    obtain ⟨hmem, hpart⟩ := List.mem_filter.mp hserver
    rcases sendToServer_of_not_idle hr (hn.shape server hmem) ht hidle with hchange | hresult
    · rw [P2PNetwork.broadcast, P2PNetwork.collect_servers] at hservers
      have hsame := eq_of_map_eq_self hservers server hmem
      rw [if_pos hpart] at hsame
      exact hchange hsame
    · obtain ⟨⟨r, latencyMs⟩, hsome⟩ := Option.ne_none_iff_exists'.mp hresult
      have hr' : r ∈ P2PNetwork.resultsOf (net.gather tx channel) := by
        refine List.mem_filterMap.mpr ⟨_, List.mem_map_of_mem hserver, ?_⟩
        rw [hsome]
        rfl
      refine auditLog_ne R { net with servers := net.serve tx channel } hn.audited ?_ haudit
      have hpos := List.length_pos_of_mem hr'
      change net.minResponses ≤ _
      rw [hn.single]
      omega
  · intro hidle
    have hserve : net.serve tx channel = net.servers := by
      refine (List.map_congr_left fun server hmem => ?_).trans (List.map_id net.servers)
      split
      · next hpart =>
        rw [sendToServer_of_idle (hidle server (List.mem_filter.mpr ⟨hmem, hpart⟩))]
        rfl
      · rfl
    have hnone : P2PNetwork.resultsOf (net.gather tx channel) = [] := by
      rw [P2PNetwork.resultsOf, List.filterMap_eq_nil_iff]
      intro p hp
      obtain ⟨server, hserver, rfl⟩ := List.mem_map.mp hp
      rw [sendToServer_of_idle (hidle server hserver)]
      rfl
    have hfew : ((P2PNetwork.resultsOf (net.gather tx channel)).length : ℤ) <
        net.minResponses := by
      rw [hnone, hn.single]
      decide
    obtain ⟨e, hcollect⟩ := P2PNetwork.collect_of_lt R hfew now tx
    rw [P2PNetwork.broadcast, hserve, hcollect]
    exact ⟨rfl, rfl⟩

theorem TenantNetwork.broadcast (hr : rt.Registered) (hn : TenantNetwork net)
    (ht : WellTyped tx) (now : ℕ) (channel : NodeServer rt → Channel) :
    TenantNetwork (net.broadcast R now tx channel).1 where
  audited := by
    unfold P2PNetwork.broadcast P2PNetwork.collect
    dsimp only
    split
    · exact hn.audited
    · rw [Option.isSome_map]
      exact hn.audited
  single := by
    unfold P2PNetwork.broadcast P2PNetwork.collect
    dsimp only
    split <;> exact hn.single
  shape := by
    have hserved (server : NodeServer rt) (hs : WellShaped server.state) :
        WellShaped (server.handleClient tx).1.state := by
      rw [NodeServer.handleClient_state, NodeServer.nextState]
      split
      · next hex => exact hr.execute_wellShaped hs ht hex
      · exact hs
    rw [P2PNetwork.broadcast, P2PNetwork.collect_servers]
    intro server hserver
    obtain ⟨before, hbefore, rfl⟩ := List.mem_map.mp hserver
    have hs := hn.shape before hbefore
    split
    · cases hc : channel before with
      | requestLost => exact hs
      | byzantine reply latencyMs => exact hs
      | replyLost => exact hserved before hs
      | answered latencyMs => exact hserved before hs
    · exact hs

/-! ## One request -/

/-- The tenants of a reachable state. -/
def Fit (service : Service rt) : Prop :=
  ∀ tenantId tenant, service.tenants.get? tenantId = some tenant → TenantNetwork tenant.network

/-- A submission to the global network saves a record unless there is no audit log. -/
theorem submitTransaction_saves (app : App rt) (ctx : SubmitContext) (body : TransactionRequest)
    (channel : NodeServer rt → Channel) (hlog : app.network.auditLog ≠ none) :
    ∃ saved, saved ≠ [] ∧
      (app.submitTransaction R ctx body channel).1.saves = app.saves ++ saved := by
  obtain ⟨log, hlog⟩ := Option.ne_none_iff_exists'.mp hlog
  obtain ⟨saved, record, hbegin, hne, hpending, -, -⟩ :=
    app.submitBegin_eq R ctx (by rw [hlog]; rfl)
  let served : App rt := { app with
    network := { app.network with servers := app.network.serve body.toEcnTx channel }
    saves := app.saves ++ saved }
  let responses := app.network.gather body.toEcnTx channel
  have hsubmit : app.submitTransaction R ctx body channel =
      served.submitEnd R ctx body.toEcnTx record responses := by
    rw [App.submitTransaction, hbegin]
  rw [hsubmit]
  by_cases hfail : served.network.auditLog = none ∨
      ((P2PNetwork.resultsOf responses).length : ℤ) < served.network.minResponses ∨
      P2PNetwork.resultsOf responses = []
  · obtain ⟨network, e, hend⟩ :=
      App.submitEnd_fails R served ctx body.toEcnTx record responses hfail
    exact ⟨saved, hne, by rw [hend]⟩
  · push Not at hfail
    obtain ⟨-, hmin, hresults⟩ := hfail
    obtain ⟨after, response, finalized, billed, replicated, hend, hsaves, -⟩ :=
      App.submitEnd_succeeds R served ctx body.toEcnTx hpending responses hlog hmin hresults
    refine ⟨saved ++ [finalized, billed, replicated], by simp, ?_⟩
    rw [hend, hsaves]
    exact List.append_assoc _ _ _

theorem submitTransaction_unaudited (app : App rt) (ctx : SubmitContext)
    (body : TransactionRequest) (channel : NodeServer rt → Channel)
    (hlog : app.network.auditLog = none) :
    (app.submitTransaction R ctx body channel).1 = app := by
  simp [App.submitTransaction, App.submitBegin, hlog]

/-- A tenant's round replaces its network, and bills only a round that was recorded. -/
theorem tenantSubmitTransaction_eq {service : Service rt} {tenantId : String} {tenant : Tenant rt}
    (hget : service.tenants.get? tenantId = some tenant) (hn : TenantNetwork tenant.network)
    (ctx : TenantSubmitContext) (body : TenantTransactionRequest)
    (channel : NodeServer rt → Channel) :
    let network := (tenant.network.broadcast R ctx.billing.now body.toEcnTx channel).1
    ∃ tracker, (service.tenantSubmitTransaction R tenantId ctx body channel).1 =
        { service with
          app.tracker := tracker
          tenants := service.tenants.set tenantId { tenant with network } } ∧
      (network.auditLog = tenant.network.auditLog → tracker = service.app.tracker) := by
  intro network
  unfold tenantSubmitTransaction
  rw [hget]
  dsimp only
  cases hround : tenant.network.broadcast R ctx.billing.now body.toEcnTx channel with
  | mk after out =>
    have hafter : network = after := congrArg Prod.fst hround
    rw [hafter]
    cases out with
    | error e => exact ⟨service.app.tracker, rfl, fun _ => rfl⟩
    | ok round =>
      obtain ⟨results, cr⟩ := round
      have hchanged : after.auditLog ≠ tenant.network.auditLog := by
        obtain ⟨hresults, hmin, -⟩ := P2PNetwork.collect_eq_ok R (congrArg Prod.snd hround)
        rw [hresults] at hmin
        rw [← hafter]
        exact auditLog_ne R { tenant.network with
          servers := tenant.network.serve body.toEcnTx channel } hn.audited hmin
      dsimp only [finishTenantTransaction]
      split
      · exact ⟨service.app.tracker, rfl, fun _ => rfl⟩
      · split
        · exact ⟨service.app.tracker, rfl, fun _ => rfl⟩
        · exact ⟨_, rfl, fun h => absurd h hchanged⟩

/-- A tenant's submission changes no protected data exactly when its round is idle. -/
theorem tenantSubmitTransaction_unchanged_iff (hr : rt.Registered) {service : Service rt}
    {tenantId : String} {tenant : Tenant rt} (hget : service.tenants.get? tenantId = some tenant)
    (hn : TenantNetwork tenant.network) (ctx : TenantSubmitContext)
    (body : TenantTransactionRequest) (channel : NodeServer rt → Channel) :
    (service.tenantSubmitTransaction R tenantId ctx body channel).1.protectedData =
        service.protectedData ↔
      ∀ server ∈ tenant.network.participating, (channel server).Idle body.toEcnTx server := by
  obtain ⟨tracker, heq, htracker⟩ := tenantSubmitTransaction_eq R hget hn ctx body channel
  rw [heq, ← broadcast_unchanged_iff R hr hn (wellTyped_toEcnTx body) ctx.billing.now channel]
  constructor
  · intro h
    have hsame := congrFun (congrArg ProtectedData.tenants h) tenantId
    simpa only [protectedData, OrderedDict.get?_set, if_pos, hget, Option.map_some,
      Option.some_inj, Prod.mk.injEq, true_and] using hsame
  · rintro ⟨hservers, haudit⟩
    unfold protectedData
    rw [htracker haudit]
    congr 1
    funext id
    rw [OrderedDict.get?_set]
    split
    · next hid =>
      rw [hid, hget]
      simp only [Option.map_some, hservers, haudit]
    · rfl

variable {service : Service rt}

/-- A tenant is created under a fresh id when its nodes start. -/
theorem registry_createTenant_cases (tenants : TenantRegistry rt) (name : String)
    (nodeIds productIds : List String) (start : TenantStart rt) :
    (((tenants.get? start.generatedId).isSome = true ∨ start.nodes.isOk = false) ∧
      ∃ text, tenants.createTenant R name nodeIds productIds start = (tenants, .error text)) ∨
    (tenants.get? start.generatedId = none ∧ start.nodes.isOk = true ∧
      ∃ tenant, TenantNetwork tenant.network ∧
        tenants.createTenant R name nodeIds productIds start =
          (tenants.set start.generatedId tenant, .ok tenant)) := by
  unfold TenantRegistry.createTenant
  dsimp only
  cases hget : tenants.get? start.generatedId with
  | some tenant => exact .inl ⟨.inl rfl, _, if_pos rfl⟩
  | none =>
    rw [if_neg (by simp)]
    cases hnodes : start.nodes with
    | error text => exact .inl ⟨.inr rfl, text, rfl⟩
    | ok node =>
      refine .inr ⟨rfl, rfl, _, ⟨rfl, rfl, fun server hserver => ?_⟩, rfl⟩
      obtain ⟨i, hi, rfl⟩ := List.mem_mapIdx.mp hserver
      exact wellShaped_makeInitialState productIds

theorem createTenant_cases (body : CreateTenantRequest) (start : TenantStart rt) :
    (((service.tenants.get? start.generatedId).isSome = true ∨ start.nodes.isOk = false) ∧
      (service.createTenant R body start).1 = service) ∨
    (service.tenants.get? start.generatedId = none ∧ start.nodes.isOk = true ∧
      ∃ tenant, TenantNetwork tenant.network ∧ (service.createTenant R body start).1 =
        { service with tenants := service.tenants.set start.generatedId tenant }) := by
  unfold createTenant
  dsimp only
  rcases registry_createTenant_cases R service.tenants body.name
    ((List.range (max 1 (min body.nodeCount 10)).toNat).map fun i => "Node-" ++ toString (i + 1))
    (if body.products.isEmpty then defaultTenantProducts else body.products) start with
    ⟨hidle, text, heq⟩ | ⟨hget, hok, tenant, hn, heq⟩
  · rw [heq]
    exact .inl ⟨hidle, rfl⟩
  · rw [heq]
    exact .inr ⟨hget, hok, tenant, hn, rfl⟩

/-- The routes for keys change the registry alone. -/
theorem issueApiKey_frame (service : Service rt) (role description : String)
    (tenantId : Option String) (generatedId generatedSecret : String) :
    ∃ registry, (service.issueApiKey role description tenantId generatedId generatedSecret).1 =
      { service with registry } := by
  unfold issueApiKey
  split
  · exact ⟨service.registry, rfl⟩
  · split <;> exact ⟨_, rfl⟩

theorem revokeApiKey_frame (service : Service rt) (keyId : String) :
    ∃ registry, (service.revokeApiKey keyId).1 = { service with registry } := by
  unfold revokeApiKey
  split
  · exact ⟨service.registry, rfl⟩
  · split
    · exact ⟨service.registry, rfl⟩
    · exact ⟨_, rfl⟩

/-- Over fit tenants a request changes no protected data exactly when it is idle. -/
theorem unchanged_iff_idle (hr : rt.Registered) (hf : service.Fit) (request : HttpRequest rt) :
    (service.step R settings request).protectedData = service.protectedData ↔
      service.Idle request := by
  unfold step handle Idle
  cases request.route with
  | submitTransaction ctx body channel =>
    dsimp only
    by_cases hlog : service.app.network.auditLog = none
    · rw [submitTransaction_unaudited R service.app ctx body channel hlog]
      exact iff_of_true rfl hlog
    · obtain ⟨saved, hne, hsaves⟩ := submitTransaction_saves R service.app ctx body channel hlog
      refine iff_of_false (fun h => hne ?_) hlog
      have hsame := congrArg ProtectedData.saves h
      exact List.append_right_eq_self.mp (hsaves.symm.trans hsame)
  | createTenant body start =>
    dsimp only
    rcases service.createTenant_cases R body start with ⟨hidle, heq⟩ | ⟨hget, hok, tenant, -, heq⟩
    · rw [heq]
      exact iff_of_true rfl hidle
    · rw [heq]
      refine iff_of_false (fun h => ?_) (by simp [hget, hok])
      have hsame := congrFun (congrArg ProtectedData.tenants h) start.generatedId
      simp [protectedData, hget] at hsame
  | deleteTenant tenantId =>
    dsimp only [deleteTenant, TenantRegistry.deleteTenant]
    cases hget : service.tenants.get? tenantId with
    | none => exact iff_of_true rfl rfl
    | some tenant =>
      refine iff_of_false (fun h => ?_) nofun
      have hsame := congrFun (congrArg ProtectedData.tenants h) tenantId
      simp [protectedData, hget] at hsame
  | tenantSubmitTransaction tenantId ctx body channel =>
    dsimp only
    cases hget : service.tenants.get? tenantId with
    | none =>
      refine iff_of_true ?_ nofun
      rw [tenantSubmitTransaction, hget]
    | some tenant =>
      have hunchanged := tenantSubmitTransaction_unchanged_iff R hr hget
        (hf tenantId tenant hget) ctx body channel
      rw [hunchanged]
      exact ⟨fun h _ ht => Option.some_inj.mp ht ▸ h, fun h => h tenant rfl⟩
  | issueApiKey role description tenantId generatedId generatedSecret =>
    obtain ⟨registry, heq⟩ :=
      service.issueApiKey_frame role description tenantId generatedId generatedSecret
    refine iff_of_true ?_ trivial
    dsimp only
    rw [heq]
    split <;> rfl
  | revokeApiKey keyId =>
    obtain ⟨registry, heq⟩ := service.revokeApiKey_frame keyId
    refine iff_of_true ?_ trivial
    dsimp only
    split
    · rfl
    · rw [heq]
      rfl

theorem Fit.set (hf : service.Fit) {tenants : TenantRegistry rt} {tenantId : String}
    {tenant : Tenant rt} (hn : TenantNetwork tenant.network)
    (heq : tenants = service.tenants.set tenantId tenant) {id : String} {other : Tenant rt}
    (hget : tenants.get? id = some other) : TenantNetwork other.network := by
  rw [heq, OrderedDict.get?_set] at hget
  split at hget
  · obtain rfl := Option.some_inj.mp hget
    exact hn
  · exact hf id other hget

theorem Fit.step (hr : rt.Registered) (hf : service.Fit) (request : HttpRequest rt) :
    (service.step R settings request).Fit := by
  unfold Service.step handle
  cases request.route with
  | submitTransaction ctx body channel => exact hf
  | createTenant body start =>
    dsimp only
    rcases service.createTenant_cases R body start with ⟨-, heq⟩ | ⟨-, -, tenant, hn, heq⟩
    · rw [heq]
      exact hf
    · rw [heq]
      exact fun id other => hf.set hn rfl
  | deleteTenant tenantId =>
    dsimp only [deleteTenant, TenantRegistry.deleteTenant]
    cases service.tenants.get? tenantId with
    | none => exact hf
    | some tenant =>
      intro id other hget
      dsimp only at hget
      rw [OrderedDict.get?_erase] at hget
      split at hget
      · cases hget
      · exact hf id other hget
  | tenantSubmitTransaction tenantId ctx body channel =>
    dsimp only
    cases hget : service.tenants.get? tenantId with
    | none =>
      rw [tenantSubmitTransaction, hget]
      exact hf
    | some tenant =>
      have hn := hf tenantId tenant hget
      obtain ⟨tracker, heq, -⟩ := tenantSubmitTransaction_eq R hget hn ctx body channel
      rw [heq]
      exact fun id other =>
        hf.set (hn.broadcast R hr (wellTyped_toEcnTx body) ctx.billing.now channel) rfl
  | issueApiKey role description tenantId generatedId generatedSecret =>
    obtain ⟨registry, heq⟩ :=
      service.issueApiKey_frame role description tenantId generatedId generatedSecret
    dsimp only
    rw [heq]
    split <;> exact hf
  | revokeApiKey keyId =>
    obtain ⟨registry, heq⟩ := service.revokeApiKey_frame keyId
    dsimp only
    split
    · exact hf
    · rw [heq]
      exact hf

/-! ## Runs -/

/-- The service after its start: any global network and keys, and no tenants. -/
def start (app : App rt) (registry : Option ApiKeyRegistry) : Service rt := ⟨app, .empty, registry⟩

/-- In every run of the service, protected data changes only for authorised requests
exactly when each request is authorised or idle. -/
theorem enforced_iff (py : Interp) (crypto : Crypto) (app : App (serviceRuntime py crypto))
    (registry : Option ApiKeyRegistry) (requests : List (HttpRequest (serviceRuntime py crypto))) :
    StepsMeet (step R settings) (Enforced R settings) (start app registry) requests ↔
      StepsMeet (step R settings) (Guarded settings) (start app registry) requests := by
  have hr : (serviceRuntime py crypto).Registered := .inr rfl
  refine stepsMeet_congr (fun service request hf => Fit.step R settings hr hf request)
    (fun service request hf => ?_) (I := Fit) nofun
  unfold Enforced Guarded
  rw [ne_eq, unchanged_iff_idle R settings hr hf request, or_comm]
  exact or_iff_not_imp_left.symm

/-! ### Anonymous and read-only callers -/

def guardedSettings : AuthSettings := ⟨⟨"1", "root", "", "", ""⟩, fun _ => none⟩

def readonlyKey : ApiKey := ⟨"viewer", "peek", .readonly, "", none⟩

/-- A registry with the bootstrap key and one read-only key. -/
def guardedRegistry : ApiKeyRegistry :=
  .initRegistry guardedSettings.env (some (.ofList [("viewer", readonlyKey)])) [readonlyKey] ""

def quietApp : App (serviceRuntime referenceInterp referenceCrypto) where
  network := .init .binary64 none
    [.init _ "Warehouse" (makeInitialState ["PROD-001"]) "127.0.0.1" 18000 [1] false]
    (some .empty) none none none
  saves := []
  tracker := some .empty
  published := []
  dispatched := []

def anonymous : Credentials := ⟨none, none⟩

def shipRequest : TransactionRequest :=
  ⟨"ship", some "PROD-001", some "port", some "S", none, none, none, none, none, none, none, none,
    none⟩

/-- A submission without a credential, and the creation of a tenant with a read-only key,
change protected data while authentication is on. -/
theorem unauthorised_writes :
    guardedSettings.env.isAuthEnabled = true ∧
    ¬ StepsMeet (step .binary64 guardedSettings) (Enforced .binary64 guardedSettings)
      (start quietApp (some guardedRegistry))
      [⟨.submitTransaction ⟨"tx-1", 0, ⟨.standard, "2024-01", 0⟩⟩ shipRequest fun _ => .answered 0,
        anonymous, .ofRat 0⟩] ∧
    ¬ StepsMeet (step .binary64 guardedSettings) (Enforced .binary64 guardedSettings)
      (start quietApp (some guardedRegistry))
      [⟨.createTenant ⟨"acme", 1, []⟩ ⟨"t1", "127.0.0.1", none, .ok fun i => ([2], 20000 + i)⟩,
        ⟨some "peek", none⟩, .ofRat 0⟩] := by
  refine ⟨by decide +kernel, ?_, ?_⟩
  · rw [enforced_iff]
    rintro ⟨hauth | hidle, -⟩
    · exact absurd hauth (by decide +kernel)
    · cases hidle
  · rw [enforced_iff]
    rintro ⟨hauth | hidle | hidle, -⟩
    · exact absurd hauth (by decide +kernel)
    · cases hidle
    · cases hidle

end Service
end ECN
