import ECN.Noninterference
import ECN.TenantApi

/-!
# Tenants do not interfere

A tenant's view of the service is its entry in the registry, its objects and calls, and
what is filed under its id in the shared tracker, ledger numbers aside. The registry leads a
tenant to objects of its own, and its calls hold no others. So a move changes the view of its
own tenant only and is answered from this view, and what a tenant is told is what it would be
told alone. The moves of a tenant carry the times, ids, ports and keys that the machine makes
up for them, the billing periods and the delivery of its messages, so these are the same in
the two runs that are compared.
-/
namespace ECN

variable {rt : Runtime}

/-! ## Views -/

/-- What the service holds for one tenant. -/
@[ext] structure TenantView (rt : Runtime) where
  registered : Option CallId
  tenants : ℕ → Option (ActiveTenant rt)
  calls : ℕ → Option (TenantCall rt)
  bills : Option TenantBills

/-- A body without the numbers of ledger entries. -/
def TenantBody.unnumbered : TenantBody rt → TenantBody rt
  | .billingLedger response =>
    .billingLedger { response with entries := response.entries.map LedgerEntry.unnumbered }
  | body => body

namespace TenantService

/-- An answer without the numbers of ledger entries. -/
def unnumbered (answer : TenantAnswer rt) : TenantAnswer rt :=
  answer.map (Except.map TenantBody.unnumbered)

def view (tenantId : String) (s : TenantService rt) : TenantView rt where
  registered := s.registry.get? tenantId
  tenants n := s.tenants.get? (tenantId, n)
  calls n := s.calls.get? (tenantId, n)
  bills := s.tracker.map fun tracker => tracker.billsOf tenantId

/-- The registry and the broadcasts lead to objects of the tenant itself. -/
structure Owned (s : TenantService rt) : Prop where
  registered : ∀ tenantId ref, s.registry.get? tenantId = some ref → ref.1 = tenantId
  broadcasting : ∀ id ref tx asked replies returned,
    s.calls.get? id = some (.broadcasting ref tx asked replies returned) → ref.1 = id.1

theorem owned_start (tracker : Option SharedTracker) : (start rt tracker).Owned := by
  refine ⟨?_, ?_⟩
  · intro tenantId ref h
    cases h
  · intro id ref tx asked replies returned h
    cases h

/-! ## What is written -/

/-- A write of tenant `tenantId`. -/
abbrev Writes (tenantId : String) (write : TenantService rt → TenantService rt) : Prop :=
  PrivateWrite view Owned tenantId write

/-- A move of tenant `tenantId`. -/
abbrev Answers (tenantId : String)
    (op : TenantService rt → TenantService rt × TenantAnswer rt) : Prop :=
  PrivateOp view Owned unnumbered tenantId op

theorem writes_setCall (id : CallId) (call : TenantCall rt)
    (hcall : ∀ ref tx asked replies returned,
      call = .broadcasting ref tx asked replies returned → ref.1 = id.1) :
    Writes id.1 fun s : TenantService rt => s.setCall id call := by
  refine .of_update (fun s hs => ⟨hs.registered, ?_⟩)
    (fun v => { v with calls := fun n => if n = id.2 then some call else v.calls n }) ?_
  · intro id' ref tx asked replies returned h
    rw [setCall, OrderedDict.get?_set] at h
    by_cases hid : id' = id
    · rw [if_pos hid] at h
      rw [hid]
      exact hcall ref tx asked replies returned (Option.some.inj h)
    · rw [if_neg hid] at h
      exact hs.broadcasting id' ref tx asked replies returned h
  · intro s t
    by_cases ht : t = id.1
    · subst ht
      simp [view, setCall, Prod.ext_iff]
    · simp [view, setCall, Prod.ext_iff, ht]

theorem writes_broadcasting {id ref : CallId} (href : ref.1 = id.1) (tx : Transaction)
    (asked : List ℕ) (replies : OrderedDict ℕ Reply) (returned : Bool) :
    Writes id.1 fun s : TenantService rt =>
      s.setCall id (.broadcasting ref tx asked replies returned) := by
  refine writes_setCall id _ ?_
  intro ref' tx' asked' replies' returned' h
  cases h
  exact href

theorem writes_setTenant (ref : CallId) (tenant : ActiveTenant rt) :
    Writes ref.1 fun s : TenantService rt => s.setTenant ref tenant := by
  refine .of_update (fun s hs => ⟨hs.registered, hs.broadcasting⟩)
    (fun v => { v with tenants := fun n => if n = ref.2 then some tenant else v.tenants n }) ?_
  intro s t
  by_cases ht : t = ref.1
  · subst ht
    simp [view, setTenant, Prod.ext_iff]
  · simp [view, setTenant, Prod.ext_iff, ht]

theorem writes_register (ref : CallId) :
    Writes ref.1 fun s : TenantService rt => s.register ref.1 ref := by
  refine .of_update (fun s hs => ⟨?_, hs.broadcasting⟩)
    (fun v => { v with registered := some ref }) ?_
  · intro t ref' h
    rw [register, OrderedDict.get?_set] at h
    by_cases ht : t = ref.1
    · rw [if_pos ht] at h
      rw [ht, ← Option.some.inj h]
    · rw [if_neg ht] at h
      exact hs.registered t ref' h
  · intro s t
    by_cases ht : t = ref.1
    · subst ht
      simp [view, register]
    · simp [view, register, ht]

theorem writes_unregister (tenantId : String) :
    Writes tenantId fun s : TenantService rt => s.unregister tenantId := by
  refine .of_update (fun s hs => ⟨?_, hs.broadcasting⟩)
    (fun v => { v with registered := none }) ?_
  · intro t ref h
    rw [unregister, OrderedDict.get?_erase] at h
    by_cases ht : t = tenantId
    · rw [if_pos ht] at h
      cases h
    · rw [if_neg ht] at h
      exact hs.registered t ref h
  · intro s t
    by_cases ht : t = tenantId
    · subst ht
      simp [view, unregister]
    · simp [view, unregister, ht]

variable (R : Rounding) (py : Builtins)

theorem writes_recordRound (ctx : BillingContext) (tenantId txId : String) (nodeCount : ℕ)
    (consensusReached : Bool) :
    Writes tenantId fun s : TenantService rt =>
      s.recordRound R ctx tenantId txId nodeCount consensusReached := by
  refine .of_update (fun s hs => ⟨hs.registered, hs.broadcasting⟩)
    (fun v => { v with bills := v.bills.map fun bills =>
      bills.recordRound R ctx tenantId txId nodeCount consensusReached }) ?_
  intro s t
  by_cases ht : t = tenantId
  · subst ht
    simp [view, recordRound, Function.comp_def, SharedTracker.billsOf_recordRound]
  · simp [view, recordRound, Function.comp_def, SharedTracker.billsOf_recordRound, ht, Ne.symm ht]

/-! ## What is read -/

section Reads

variable {tenantId : String} {op : TenantService rt → TenantService rt × TenantAnswer rt}

theorem owned_getTenant {s : TenantService rt} (hs : s.Owned) {ref : CallId}
    {tenant : ActiveTenant rt} (h : s.getTenant tenantId = some (ref, tenant)) :
    ref.1 = tenantId := by
  simp only [getTenant, Option.bind_eq_some_iff, Option.map_eq_some_iff, Prod.mk.injEq] at h
  obtain ⟨ref', href, -, -, rfl, -⟩ := h
  exact hs.registered tenantId ref' href

/-- The registered tenant can be read off the view. -/
theorem getTenant_eq {s : TenantService rt} (hs : s.Owned) :
    s.getTenant tenantId = (view tenantId s).registered.bind fun ref =>
      ((view tenantId s).tenants ref.2).map fun tenant => (ref, tenant) := by
  unfold getTenant
  refine Option.bind_congr fun ref href => ?_
  have howner : ref.1 = tenantId := hs.registered tenantId ref href
  rw [show ref = (tenantId, ref.2) from Prod.ext howner rfl]
  rfl

/-- A route that looks its tenant up. -/
theorem answers_of_getTenant
    (hnone : ∃ next, Answers tenantId next ∧
      ∀ s, s.getTenant tenantId = none → op s = next s)
    (hsome : ∀ ref tenant, ref.1 = tenantId → ∃ next, Answers tenantId next ∧
      ∀ s, s.getTenant tenantId = some (ref, tenant) → op s = next s) :
    Answers tenantId op := by
  refine .of_read (fun v => v.registered.bind fun ref =>
    (v.tenants ref.2).map fun tenant => (ref, tenant)) fun s hs => ?_
  cases h : s.getTenant tenantId with
  | none =>
    obtain ⟨next, hnext, hop⟩ := hnone
    refine ⟨next, hnext, fun t ht hread => hop t ?_⟩
    rw [getTenant_eq ht, hread, ← getTenant_eq hs, h]
  | some found =>
    obtain ⟨ref, tenant⟩ := found
    obtain ⟨next, hnext, hop⟩ := hsome ref tenant (owned_getTenant hs h)
    refine ⟨next, hnext, fun t ht hread => hop t ?_⟩
    rw [getTenant_eq ht, hread, ← getTenant_eq hs, h]

/-- A call that goes on where it was suspended. -/
theorem answers_of_call {id : CallId}
    (h : ∀ call, (∀ ref tx asked replies returned,
        call = some (.broadcasting ref tx asked replies returned) → ref.1 = id.1) →
      ∃ next, Answers id.1 next ∧ ∀ s, s.calls.get? id = call → op s = next s) :
    Answers id.1 op := by
  refine .of_read (fun v => v.calls id.2) fun s hs => ?_
  obtain ⟨next, hnext, hop⟩ := h (s.calls.get? id) (hs.broadcasting id)
  exact ⟨next, hnext, fun t _ hread => hop t hread⟩

/-- A move that cannot happen. -/
theorem answers_nothing (tenantId : String) :
    Answers tenantId fun s : TenantService rt => (s, none) :=
  .reply .unchanged none

/-- A call that goes on only as a broadcast, with the tenant object that it holds. -/
theorem answers_of_broadcast {id : CallId}
    (hidle : ∀ s, (∀ ref tx asked replies returned,
      s.calls.get? id ≠ some (.broadcasting ref tx asked replies returned)) → op s = (s, none))
    (hbroadcast : ∀ ref tx asked replies returned found, ref.1 = id.1 →
      ∃ next, Answers id.1 next ∧ ∀ s,
        s.calls.get? id = some (.broadcasting ref tx asked replies returned) →
        s.tenants.get? ref = found → op s = next s) :
    Answers id.1 op := by
  refine .of_read (fun v => (v.calls id.2, v.tenants)) fun s hs => ?_
  by_cases hb : ∃ ref tx asked replies returned,
      s.calls.get? id = some (.broadcasting ref tx asked replies returned)
  · obtain ⟨ref, tx, asked, replies, returned, hcall⟩ := hb
    have href : ref.1 = id.1 := hs.broadcasting id ref tx asked replies returned hcall
    obtain ⟨next, hnext, hop⟩ :=
      hbroadcast ref tx asked replies returned (s.tenants.get? ref) href
    refine ⟨next, hnext, fun t ht hread => hop t ?_ ?_⟩
    · rw [← hcall]
      exact congrArg Prod.fst hread
    · have htenants := congrFun (congrArg Prod.snd hread) ref.2
      rwa [← href] at htenants
  · refine ⟨_, answers_nothing id.1, fun t ht hread => hidle t ?_⟩
    intro ref tx asked replies returned hcall
    have hcalls : t.calls.get? id = s.calls.get? id := congrArg Prod.fst hread
    exact hb ⟨ref, tx, asked, replies, returned, hcalls ▸ hcall⟩

end Reads

/-! ## The moves -/

/-- A call that has ended. -/
theorem answers_returned (id : CallId) (answer : TenantAnswer rt) :
    Answers id.1 fun s : TenantService rt => (s.setCall id .returned, answer) :=
  .reply (writes_setCall id .returned (by simp)) answer

/-- A call that is suspended with no object in its hands. -/
theorem answers_suspended (id : CallId) {call : TenantCall rt}
    (hcall : ∀ ref tx asked replies returned,
      call ≠ .broadcasting ref tx asked replies returned) :
    Answers id.1 fun s : TenantService rt => (s.setCall id call, none) :=
  .reply (writes_setCall id call fun ref tx asked replies returned h =>
    absurd h (hcall ref tx asked replies returned)) none

theorem answers_createTenant (id : CallId) (body : CreateTenantRequest) :
    Answers id.1 fun s : TenantService rt => s.createTenant id body := by
  refine .of_read TenantView.registered fun s hs => ?_
  by_cases h : (s.registry.get? id.1).isSome
  · exact ⟨_, answers_returned id _, fun t ht hread =>
      if_pos ((congrArg Option.isSome hread).trans h)⟩
  · exact ⟨_, answers_suspended id (by simp), fun t ht hread =>
      if_neg fun ht' => h ((congrArg Option.isSome hread).symm.trans ht')⟩

theorem answers_nodesStarted (id : CallId) (nodes : NodesStart rt) :
    Answers id.1 fun s : TenantService rt => s.nodesStarted R id nodes := by
  refine answers_of_call fun call _ => ?_
  cases call with
  | none => exact ⟨_, answers_nothing id.1, fun s h => by rw [nodesStarted, h]⟩
  | some call =>
    cases call with
    | creating name nodeIds productIds =>
      cases hstart : ActiveTenant.create R id.1 name nodeIds productIds nodes with
      | error text =>
        exact ⟨_, answers_returned id _, fun s h => by
          rw [nodesStarted, h]; simp only [hstart]; rfl⟩
      | ok tenant =>
        have hwrite := ((writes_setTenant id tenant).andThen (writes_register id)).andThen
          (writes_setCall id .returned (by simp))
        exact ⟨_, .reply hwrite _, fun s h => by rw [nodesStarted, h]; simp only [hstart]; rfl⟩
    | deleting => exact ⟨_, answers_nothing id.1, fun s h => by rw [nodesStarted, h]⟩
    | broadcasting ref tx asked replies returned =>
      exact ⟨_, answers_nothing id.1, fun s h => by rw [nodesStarted, h]⟩
    | returned => exact ⟨_, answers_nothing id.1, fun s h => by rw [nodesStarted, h]⟩

theorem answers_deleteTenant (id : CallId) :
    Answers id.1 fun s : TenantService rt => s.deleteTenant id := by
  refine .of_read TenantView.registered fun s hs => ?_
  cases h : s.registry.get? id.1 with
  | none =>
    refine ⟨_, answers_returned id (notFound id.1), fun t ht hread => ?_⟩
    rw [deleteTenant, show t.registry.get? id.1 = none from hread.trans h]
  | some ref =>
    have hwrite : Writes id.1 fun s : TenantService rt =>
        (s.unregister id.1).setCall id .deleting :=
      (writes_unregister id.1).andThen (writes_setCall id .deleting (by simp))
    refine ⟨_, .reply hwrite none, fun t ht hread => ?_⟩
    rw [deleteTenant, show t.registry.get? id.1 = some ref from hread.trans h]

theorem answers_nodesStopped (id : CallId) :
    Answers id.1 fun s : TenantService rt => s.nodesStopped id := by
  refine answers_of_call fun call _ => ?_
  cases call with
  | none => exact ⟨_, answers_nothing id.1, fun s h => by rw [nodesStopped, h]⟩
  | some call =>
    cases call with
    | creating name nodeIds productIds =>
      exact ⟨_, answers_nothing id.1, fun s h => by rw [nodesStopped, h]⟩
    | deleting =>
      exact ⟨_, answers_returned id (some (.ok .deleted)), fun s h => by rw [nodesStopped, h]⟩
    | broadcasting ref tx asked replies returned =>
      exact ⟨_, answers_nothing id.1, fun s h => by rw [nodesStopped, h]⟩
    | returned => exact ⟨_, answers_nothing id.1, fun s h => by rw [nodesStopped, h]⟩

theorem answers_submitTransaction (id : CallId) (body : TenantTransactionRequest) :
    Answers id.1 fun s : TenantService rt => s.submitTransaction id body := by
  refine answers_of_getTenant ?_ fun ref tenant href => ?_
  · exact ⟨_, answers_returned id (notFound id.1), fun s h => by rw [submitTransaction, h]⟩
  · exact ⟨_, .reply (writes_broadcasting href _ _ _ _) none,
      fun s h => by rw [submitTransaction, h]⟩

theorem answers_serve (id : CallId) (place : ℕ) :
    Answers id.1 fun s : TenantService rt => s.serve id place := by
  refine answers_of_broadcast ?_ fun ref tx asked replies returned found href => ?_
  · intro s hs
    unfold serve
    split
    · next hcall => exact absurd hcall (hs _ _ _ _ _)
    · rfl
  · cases hserve : found.bind fun tenant => tenant.serve tx place with
    | none =>
      refine ⟨_, answers_nothing id.1, fun s hcall hfound => ?_⟩
      rw [serve, hcall]
      simp only [hfound, hserve]
    | some served =>
      obtain ⟨tenant, reply⟩ := served
      by_cases hasked : place ∈ asked ∧ (replies.get? place).isNone
      · have hwrite := (href ▸ writes_setTenant ref tenant).andThen
          (writes_broadcasting href tx asked (replies.set place reply) returned)
        refine ⟨_, .reply hwrite none, fun s hcall hfound => ?_⟩
        rw [serve, hcall]
        simp only [hfound, hserve, if_pos hasked]
      · refine ⟨_, answers_nothing id.1, fun s hcall hfound => ?_⟩
        rw [serve, hcall]
        simp only [hfound, hserve, if_neg hasked]

theorem answers_gathered (id : CallId) (ctx : TenantSubmitContext) (channel : ℕ → Channel) :
    Answers id.1 fun s : TenantService rt => s.gathered R id ctx channel := by
  refine answers_of_broadcast ?_ fun ref tx asked replies returned found href => ?_
  · intro s hs
    unfold gathered
    split
    · next hcall => exact absurd hcall (hs _ _ _ _ _)
    · rfl
  · cases returned with
    | true => exact ⟨_, answers_nothing id.1, fun s hcall hfound => by rw [gathered, hcall]⟩
    | false =>
      cases found with
      | none =>
        refine ⟨_, answers_nothing id.1, fun s hcall hfound => ?_⟩
        rw [gathered, hcall]
        simp only [hfound]
      | some tenant =>
        cases hround : tenant.finishRound R ctx.billing.now tx
            (tenant.gather asked replies channel) with
        | mk after outcome =>
          have hwrite := (href ▸ writes_setTenant ref after).andThen
            (writes_broadcasting href tx asked replies true)
          cases outcome with
          | error e =>
            refine ⟨_, .reply hwrite (some (.error e)), fun s hcall hfound => ?_⟩
            rw [gathered, hcall]
            simp only [hfound, hround]
          | ok out =>
            obtain ⟨event, consensusReached⟩ := out
            have hbilled := hwrite.andThen (writes_recordRound R ctx.billing id.1 ctx.txId
              after.network.servers.length consensusReached)
            refine ⟨_, .reply hbilled (some (.ok (.transaction (eventToDict event)))),
              fun s hcall hfound => ?_⟩
            rw [gathered, hcall]
            simp only [hfound, hround]

theorem answers_subscribeWebhook (tenantId url : String) (events : List String)
    (webhookId : String) :
    Answers tenantId fun s : TenantService rt =>
      s.subscribeWebhook py tenantId url events webhookId := by
  refine answers_of_getTenant ?_ fun ref tenant href => ?_
  · exact ⟨_, .reply .unchanged (notFound tenantId), fun s h => by rw [subscribeWebhook, h]⟩
  · by_cases hinvalid : events.toFinset \ webhookEvents ≠ ∅
    · refine ⟨_, .reply .unchanged (some (.error ⟨422, "Unknown event types: " ++
        py.reprSet (events.toFinset \ webhookEvents)⟩)), fun s h => ?_⟩
      rw [subscribeWebhook, h]
      exact if_pos hinvalid
    · have hwrite : Writes tenantId fun s : TenantService rt => s.setTenant ref
          { tenant with
            webhookRegistry := (tenant.webhookRegistry.subscribe webhookId url events).1 } :=
        href ▸ writes_setTenant ref _
      refine ⟨_, .reply hwrite (some (.ok (.subscribed ⟨webhookId, url, events⟩))), fun s h => ?_⟩
      rw [subscribeWebhook, h]
      exact if_neg hinvalid

theorem answers_unsubscribeWebhook (tenantId webhookId : String) :
    Answers tenantId fun s : TenantService rt => s.unsubscribeWebhook tenantId webhookId := by
  refine answers_of_getTenant ?_ fun ref tenant href => ?_
  · exact ⟨_, .reply .unchanged (notFound tenantId), fun s h => by rw [unsubscribeWebhook, h]⟩
  · cases hout : tenant.webhookRegistry.unsubscribe webhookId with
    | mk registry removed =>
      cases removed with
      | false =>
        refine ⟨_, .reply .unchanged (some (.error
          ⟨404, "Webhook " ++ reprText webhookId ++ " not found"⟩)), fun s h => ?_⟩
        rw [unsubscribeWebhook, h]
        simp only [hout]
      | true =>
        refine ⟨_, .reply (href ▸ writes_setTenant ref { tenant with webhookRegistry := registry })
          (some (.ok .unsubscribed)), fun s h => ?_⟩
        rw [unsubscribeWebhook, h]
        simp only [hout]

theorem unnumbered_report {tenantId : String} {tracker tracker' : Option SharedTracker}
    (h : tracker.map (fun t => t.billsOf tenantId) = tracker'.map fun t => t.billsOf tenantId)
    {body : SharedTracker → TenantBody rt}
    (hbody : ∀ t t', t.billsOf tenantId = t'.billsOf tenantId →
      (body t).unnumbered = (body t').unnumbered) :
    (report tracker body).map TenantBody.unnumbered =
      (report tracker' body).map TenantBody.unnumbered := by
  cases tracker with
  | none =>
    cases tracker' with
    | none => rfl
    | some t' => cases h
  | some t =>
    cases tracker' with
    | none => cases h
    | some t' => exact congrArg Except.ok (hbody t t' (Option.some.inj h))

/-- Two trackers that hold the same bills of a tenant answer its queries alike. -/
theorem unnumbered_answerQuery {tenantId : String} {tracker tracker' : Option SharedTracker}
    (h : tracker.map (fun t => t.billsOf tenantId) = tracker'.map fun t => t.billsOf tenantId)
    (tenant : ActiveTenant rt) (q : TenantQuery) :
    (answerQuery R py tenantId tenant tracker q).map TenantBody.unnumbered =
      (answerQuery R py tenantId tenant tracker' q).map TenantBody.unnumbered := by
  cases q with
  | networkState => rfl
  | auditEvents offset limit => rfl
  | auditSummary => rfl
  | usage period =>
    refine unnumbered_report h fun t t' hbills => ?_
    rw [SharedTracker.getUsage_congr hbills]
  | billingLedger =>
    refine unnumbered_report h fun t t' hbills => ?_
    have hentries := SharedTracker.getBillingLedger_congr hbills
    have hlength := congrArg List.length hentries
    have hbilled := congrArg (List.map LedgerEntry.billedAmount) hentries
    rw [List.length_map, List.length_map] at hlength
    rw [List.map_map, List.map_map] at hbilled
    have hamount : LedgerEntry.billedAmount ∘ LedgerEntry.unnumbered = LedgerEntry.billedAmount :=
      rfl
    rw [hamount] at hbilled
    simp only [TenantBody.unnumbered, billingLedgerResponse, hentries, hlength, hbilled]
  | sla tier =>
    refine unnumbered_report h fun t t' hbills => ?_
    rw [SharedTracker.getSla_congr R hbills]
  | listWebhooks => rfl

theorem answers_query (tenantId : String) (q : TenantQuery) :
    Answers tenantId fun s : TenantService rt => s.query R py tenantId q := by
  refine answers_of_getTenant ?_ fun ref tenant href => ?_
  · exact ⟨_, .reply .unchanged (notFound tenantId), fun s h => by rw [query, h]⟩
  · refine ⟨fun s => (s, some (answerQuery R py tenantId tenant s.tracker q)),
      ⟨.unchanged, fun s t _ _ hst => ?_⟩, fun s h => by rw [query, h]⟩
    exact congrArg some (unnumbered_answerQuery R py (congrArg TenantView.bills hst) tenant q)

theorem answers_newCall {id : CallId}
    {op : TenantService rt → TenantService rt × TenantAnswer rt} (h : Answers id.1 op) :
    Answers id.1 fun s => s.newCall id (op s) := by
  refine answers_of_call fun call _ => ?_
  cases call with
  | none =>
    refine ⟨op, h, fun s hcall => ?_⟩
    rw [newCall, hcall]
    exact if_neg Bool.false_ne_true
  | some call =>
    refine ⟨_, answers_nothing id.1, fun s hcall => ?_⟩
    rw [newCall, hcall]
    exact if_pos rfl

/-- Every move is a private operation of its tenant. -/
theorem answers_step (e : TenantEvent rt) :
    Answers e.tenantId fun s : TenantService rt => s.step R py e := by
  obtain ⟨tenantId, move⟩ := e
  cases move with
  | createTenant call body => exact answers_newCall (answers_createTenant (tenantId, call) body)
  | nodesStarted call nodes => exact answers_nodesStarted R (tenantId, call) nodes
  | deleteTenant call => exact answers_newCall (answers_deleteTenant (tenantId, call))
  | nodesStopped call => exact answers_nodesStopped (tenantId, call)
  | submitTransaction call body =>
    exact answers_newCall (answers_submitTransaction (tenantId, call) body)
  | serve call place => exact answers_serve (tenantId, call) place
  | gathered call ctx channel => exact answers_gathered R (tenantId, call) ctx channel
  | subscribeWebhook url events webhookId =>
    exact answers_subscribeWebhook py tenantId url events webhookId
  | unsubscribeWebhook webhookId => exact answers_unsubscribeWebhook tenantId webhookId
  | query q => exact answers_query R py tenantId q

/-! ## Runs -/

/-- What a tenant is told in any run is, up to the numbers of ledger entries, what it is
told in the run without the requests of all other tenants. -/
theorem noninterference (tracker : Option SharedTracker) (events : List (TenantEvent rt))
    (tenantId : String) :
    (answersTo (step R py) TenantEvent.tenantId tenantId (start rt tracker) events).map
        unnumbered =
      (answersTo (step R py) TenantEvent.tenantId tenantId (start rt tracker)
        (purge TenantEvent.tenantId tenantId events)).map unnumbered :=
  (PrivateOp.unwinding (answers_step R py) tenantId).answersTo_purge
    ⟨owned_start tracker, owned_start tracker, rfl⟩ events

end TenantService
end ECN
