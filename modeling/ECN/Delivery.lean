import ECN.ServerLimits
import ECN.Validity

/-!
# Lost and reordered messages

A server applies the transaction before anyone knows whether the round succeeds, so
a broadcast that raises has still changed every server that its request reached and
whose engine accepted. Concurrent broadcasts are not serialised either: each server
handles the requests in the order in which they reach it, and only a common order
makes the servers agree.
-/
namespace ECN

variable {rt : Runtime}

/-! ## Broadcasts that raise -/

/-- The server takes part, is reached, reads the line, and its node accepts. -/
def Applies (L : Limits) (net : P2PNetwork rt) (tx : Transaction)
    (channel : NodeServer rt → Channel) (server : NodeServer rt) : Prop :=
  net.isParticipating server = true ∧ (channel server).reaches = true ∧ server.Steps L tx

/-- Either the server is untouched, or its state is what the engine makes of its own. -/
def AppliedOnce (L : Limits) (net : P2PNetwork rt) (tx : Transaction)
    (channel : NodeServer rt → Channel) (before after : NodeServer rt) : Prop :=
  (¬ Applies L net tx channel before ∧ after = before) ∨
    (Applies L net tx channel before ∧ after.nodeId = before.nodeId ∧
      rt.execute before.state tx = .ok after.state)

/-- What a broadcast that raises leaves in the history and in the log: nothing when too few
servers answered, and the round when it could not be recorded or printed. -/
def KeepsRecords (net after : P2PNetwork rt) (now : ℕ) (tx : Transaction) : BroadcastError → Prop
  | .quorum _ => after.history = net.history ∧ after.auditLog = net.auditLog
  | .record => ∃ results cr, after.history = net.history ++ [(tx, results, cr)] ∧
      after.auditLog = net.auditLog.map fun log => log.record now tx results cr

theorem appliedOnce_serve (L : Limits) (net : P2PNetwork rt) (tx : Transaction)
    (channel : NodeServer rt → Channel) (server : NodeServer rt) :
    AppliedOnce L net tx channel server
      (if net.isParticipating server then (sendWithin L server tx (channel server)).1
        else server) := by
  have hserve (hpart : net.isParticipating server = true)
      (hreach : (channel server).reaches = true) :
      AppliedOnce L net tx channel server (server.handleClientWithin L tx).1 := by
    rcases server.handleClientWithin_cases L tx with
      ⟨hno, -, f, hrefused⟩ | ⟨hsteps, hid, -, hex, -⟩
    · rw [hrefused]
      exact .inl ⟨fun happ => hno happ.2.2, rfl⟩
    · exact .inr ⟨⟨hpart, hreach, hsteps⟩, hid, hex⟩
  split
  · next hpart =>
    cases hc : channel server with
    | requestLost => exact .inl ⟨fun happ => by simp [Applies, hc, Channel.reaches] at happ, rfl⟩
    | byzantine reply latencyMs =>
      exact .inl ⟨fun happ => by simp [Applies, hc, Channel.reaches] at happ, rfl⟩
    | replyLost => exact hserve hpart (by rw [hc]; rfl)
    | answered latencyMs => exact hserve hpart (by rw [hc]; rfl)
  · next hpart => exact .inl ⟨fun happ => hpart happ.1, rfl⟩

/-- A broadcast that raises has applied the transaction once at every server that it
reached, that read the line and whose node accepted, and touched no other. With too few
answers it records nothing. -/
theorem broadcast_raises (L : Limits) (R : Rounding) (net : P2PNetwork rt) (now : ℕ)
    (tx : Transaction) (channel : NodeServer rt → Channel) (recorded : Bool) {e : BroadcastError}
    (h : (net.broadcastWithin L R now tx channel recorded).2 = .error e) :
    KeepsRecords net (net.broadcastWithin L R now tx channel recorded).1 now tx e ∧
    List.Forall₂ (AppliedOnce L net tx channel) net.servers
      (net.broadcastWithin L R now tx channel recorded).1.servers := by
  rw [P2PNetwork.broadcastWithin_eq] at h ⊢
  constructor
  · rcases net.broadcast_cases R now tx (P2PNetwork.fates L tx channel) with
      ⟨e', hout, hhistory, hlog⟩ | ⟨results, cr, hout, hhistory, hlog⟩
    · rw [hout] at h
      obtain rfl := Except.error.inj h
      exact ⟨hhistory, hlog⟩
    · rw [hout] at h
      cases recorded with
      | true => cases h
      | false =>
        obtain rfl := Except.error.inj h
        exact ⟨results, cr, hhistory, hlog⟩
  · dsimp only [P2PNetwork.serveWithin]
    rw [List.forall₂_map_right_iff, List.forall₂_same]
    exact fun server _ => appliedOnce_serve L net tx channel server

/-- Three responses are required of the three servers. -/
def strictNetwork : P2PNetwork (referenceRuntime false) :=
  { overdraftNetwork with minResponses := 3 }

/-- The third request is lost. -/
def thirdLost (server : NodeServer (referenceRuntime false)) : Channel :=
  if thirdServer server then .requestLost else .answered 0

def balanceOfA (server : NodeServer (referenceRuntime false)) : Option Value :=
  match PyDict.get? server.state (.str "balances") with
  | some (.dict balances) => PyDict.get? balances (.str "A")
  | _ => none

/-- A broadcast of the withdrawal that reaches two of three servers. -/
def failedWithdrawal : P2PNetwork (referenceRuntime false) ×
    Except BroadcastError (List NodeResult × ConsensusResult) :=
  strictNetwork.broadcastWithin defaultLimits .binary64 0 withdrawal thirdLost true

/-- The failed broadcast of a withdrawal has changed two of three servers, and after a
retry they have paid twice. -/
theorem failed_withdrawal_applied :
    failedWithdrawal.2.isOk = false ∧
    failedWithdrawal.1.servers.map balanceOfA = [some (.int 6), some (.int 6), some (.int 10)] ∧
    (failedWithdrawal.1.broadcastWithin defaultLimits .binary64 1 withdrawal
        (fun _ => .answered 0) true).1.servers.map balanceOfA =
      [some (.int 2), some (.int 2), some (.int 6)] := by
  decide +kernel

/-- The lost request of a withdrawal leaves its server alone. -/
theorem failed_withdrawal_records_nothing :
    ∃ e, failedWithdrawal.2 = .error e ∧
      KeepsRecords strictNetwork failedWithdrawal.1 0 withdrawal e ∧
      List.Forall₂ (AppliedOnce defaultLimits strictNetwork withdrawal thirdLost)
        strictNetwork.servers failedWithdrawal.1.servers := by
  have hfails : failedWithdrawal.2.isOk = false := by decide +kernel
  have herror : ∃ e, failedWithdrawal.2 = .error e := by
    generalize failedWithdrawal.2 = out at hfails
    cases out with
    | error e => exact ⟨e, rfl⟩
    | ok out => cases hfails
  unfold failedWithdrawal at herror ⊢
  obtain ⟨e, h⟩ := herror
  exact ⟨e, h, broadcast_raises _ _ _ _ _ _ _ h⟩

/-! ## Concurrent broadcasts -/

/-- A request that a server has handled. -/
structure Served where
  server : ℕ
  broadcast : ℕ
  tx : Transaction
  reply : Reply

/-- A broadcast from its start on; it has an outcome once it has returned. -/
structure Pending where
  tx : Transaction
  participants : List ℕ
  outcome : Option (Except InsufficientQuorumError (List NodeResult × ConsensusResult))

/-- Servers are numbered by their place in the network, broadcasts by their start.
`served` lists the handled requests of all servers in the order of handling. -/
structure Concurrent (rt : Runtime) where
  net : P2PNetwork rt
  pending : List Pending
  served : List Served

/-- What can happen next: a broadcast starts, a server handles a request, or a broadcast
whose replies have all arrived ends. -/
inductive Event where
  | start (tx : Transaction)
  | deliver (broadcast server : ℕ)
  | finish (broadcast now : ℕ) (latencyMs : ℕ → ℚ)

namespace Concurrent

def init (net : P2PNetwork rt) : Concurrent rt := ⟨net, [], []⟩

/-- The request that a server has handled for a broadcast. -/
def handled (c : Concurrent rt) (broadcast server : ℕ) : Option Served :=
  c.served.find? fun e => e.server = server ∧ e.broadcast = broadcast

/-- The places of the servers that a new broadcast sends to. -/
def places (net : P2PNetwork rt) : List ℕ :=
  (List.range net.servers.length).filter fun j => (net.servers[j]?).any net.isParticipating

/-- The response of one participant, in the order in which they were asked. -/
def responseOf (c : Concurrent rt) (broadcast : ℕ) (latencyMs : ℕ → ℚ) (server : ℕ) :
    Option (NodeServer rt × Response) := do
  let s ← c.net.servers[server]?
  let e ← c.handled broadcast server
  return (s, receive (latencyMs server) e.reply)

variable (R : Rounding)

/-- One event, or `none` where it cannot happen. -/
def step (c : Concurrent rt) : Event → Option (Concurrent rt)
  | .start tx => some { c with pending := c.pending ++ [⟨tx, places c.net, none⟩] }
  | .deliver broadcast server => do
    let p ← c.pending[broadcast]?
    let s ← c.net.servers[server]?
    if server ∈ p.participants ∧ c.handled broadcast server = none then
      some { c with
        net := { c.net with servers := c.net.servers.set server (s.handleClient p.tx).1 }
        served := c.served ++ [⟨server, broadcast, p.tx, (s.handleClient p.tx).2⟩] }
    else none
  | .finish broadcast now latencyMs => do
    let p ← c.pending[broadcast]?
    let responses ← p.participants.mapM (c.responseOf broadcast latencyMs)
    if p.outcome.isNone then
      let (net, outcome) := c.net.collect R now p.tx responses
      some { c with net, pending := c.pending.set broadcast { p with outcome := some outcome } }
    else none

/-- A run of events. -/
def run (c : Concurrent rt) (events : List Event) : Option (Concurrent rt) :=
  events.foldlM (step R) c

/-- The order in which a server has handled the broadcasts. -/
def order (c : Concurrent rt) (server : ℕ) : List ℕ :=
  (c.served.filter fun e => e.server = server).map Served.broadcast

/-- The transactions that a server has handled. -/
def inputs (served : List Served) (server : ℕ) : List Transaction :=
  (served.filter fun e => e.server = server).map Served.tx

/-- The state after handling transactions one by one. -/
def replay (rt : Runtime) (state : State) (txs : List Transaction) : State :=
  txs.foldl (NodeServer.nextState rt) state

/-- Everything an event can do. -/
theorem step_cases {c c' : Concurrent rt} {event : Event} (h : step R c event = some c') :
    (∃ tx, c' = { c with pending := c.pending ++ [⟨tx, places c.net, none⟩] }) ∨
    (∃ (broadcast server : ℕ) (p : Pending) (s : NodeServer rt),
      c.pending[broadcast]? = some p ∧ c.net.servers[server]? = some s ∧
      c.handled broadcast server = none ∧
      c' = { c with
        net := { c.net with servers := c.net.servers.set server (s.handleClient p.tx).1 }
        served := c.served ++ [⟨server, broadcast, p.tx, (s.handleClient p.tx).2⟩] }) ∨
    (∃ (broadcast : ℕ) (p p' : Pending) (net : P2PNetwork rt),
      c.pending[broadcast]? = some p ∧ p'.tx = p.tx ∧ net.servers = c.net.servers ∧
      c' = { c with net, pending := c.pending.set broadcast p' }) := by
  cases event with
  | start tx => exact .inl ⟨tx, (Option.some_inj.mp h).symm⟩
  | deliver broadcast server =>
    simp only [step, Option.bind_eq_bind, Option.bind_eq_some_iff] at h
    obtain ⟨p, hp, s, hs, h⟩ := h
    split at h
    · next hcond => exact .inr (.inl ⟨broadcast, server, p, s, hp, hs, hcond.2,
        (Option.some_inj.mp h).symm⟩)
    · cases h
  | finish broadcast now latencyMs =>
    simp only [step, Option.bind_eq_bind, Option.bind_eq_some_iff] at h
    obtain ⟨p, hp, responses, -, h⟩ := h
    split at h
    · obtain rfl := Option.some_inj.mp h
      exact .inr (.inr ⟨broadcast, p, { p with outcome := some _ }, _, hp, rfl,
        P2PNetwork.collect_servers R c.net now p.tx responses, rfl⟩)
    · cases h

/-- Server states and replies are those of a replay of what each server has handled. -/
structure Replayed (state : State) (n : ℕ) (c : Concurrent rt) : Prop where
  count : c.net.servers.length = n
  place : ∀ e ∈ c.served, e.server < n
  honest : ∀ j s, c.net.servers[j]? = some s →
    s.node.malicious = false ∧ s.state = replay rt state (inputs c.served j)
  tx : ∀ e ∈ c.served, ∃ p, c.pending[e.broadcast]? = some p ∧ p.tx = e.tx
  once : ∀ j, (c.order j).Nodup
  reply : ∀ pre e post, c.served = pre ++ e :: post → ∀ nodeId h signature,
    e.reply = .result nodeId h signature →
      honestHash rt (replay rt state (inputs pre e.server)) e.tx = some h

theorem inputs_append (served : List Served) (e : Served) (j : ℕ) :
    inputs (served ++ [e]) j =
      if e.server = j then inputs served j ++ [e.tx] else inputs served j := by
  unfold inputs
  rw [List.filter_append, List.map_append]
  split_ifs with h <;> simp [h]

theorem order_append (c : Concurrent rt) (e : Served) (j : ℕ) :
    order { c with served := c.served ++ [e] } j =
      if e.server = j then c.order j ++ [e.broadcast] else c.order j := by
  unfold order
  dsimp only
  rw [List.filter_append, List.map_append]
  split_ifs with h <;> simp [h]

/-- What a server has not handled is not in its order. -/
theorem not_mem_order (c : Concurrent rt) {broadcast server : ℕ}
    (h : c.handled broadcast server = none) : broadcast ∉ c.order server := by
  intro hmem
  obtain ⟨e, he, hbroadcast⟩ := List.mem_map.mp hmem
  obtain ⟨he, hserver⟩ := List.mem_filter.mp he
  have hno := List.find?_eq_none.mp h e he
  simp only [decide_eq_true_eq, not_and] at hno
  exact hno (of_decide_eq_true hserver) hbroadcast

theorem replay_append (state : State) (txs : List Transaction) (tx : Transaction) :
    replay rt state (txs ++ [tx]) = NodeServer.nextState rt (replay rt state txs) tx := by
  simp [replay]

/-- What an honest server answers is the hash of its own evaluation. -/
theorem handleClient_result {s : NodeServer rt} (hm : s.node.malicious = false)
    {tx : Transaction} {nodeId h : String} {signature : Option String}
    (hr : (s.handleClient tx).2 = .result nodeId h signature) :
    honestHash rt s.state tx = some h := by
  cases hh : honestHash rt s.state tx with
  | none =>
    obtain ⟨e, he⟩ := s.handleClient_of_error (honestHash_eq_none hh)
    rw [he] at hr
    cases hr
  | some h' =>
    obtain ⟨new, hnew⟩ := honestHash_eq_some_iff.mp hh
    have hreply := (s.handleClient_of_ok hnew).2
    rw [hr] at hreply
    injection hreply with _ hhash _
    rw [hhash, Node.reportedHash, hm]
    rfl

theorem replayed_init {net : P2PNetwork rt} {state : State}
    (hs : ∀ s ∈ net.servers, s.node.malicious = false ∧ s.state = state) :
    Replayed state net.servers.length (init net) where
  count := rfl
  place e he := by cases he
  honest j s hj := hs s (List.mem_of_getElem? hj)
  tx e he := by cases he
  once j := List.nodup_nil
  reply pre e post h := by
    have := congrArg List.length h
    simp [init] at this

theorem Replayed.deliver {state : State} {n : ℕ} {c : Concurrent rt} (hc : Replayed state n c)
    {broadcast server : ℕ} {p : Pending} {s : NodeServer rt}
    (hp : c.pending[broadcast]? = some p) (hs : c.net.servers[server]? = some s)
    (hnew : c.handled broadcast server = none) :
    Replayed state n { c with
      net := { c.net with servers := c.net.servers.set server (s.handleClient p.tx).1 }
      served := c.served ++ [⟨server, broadcast, p.tx, (s.handleClient p.tx).2⟩] } where
  count := by
    rw [List.length_set]
    exact hc.count
  place := by
    intro e he
    rcases List.mem_append.mp he with he | he
    · exact hc.place e he
    · obtain rfl := List.mem_singleton.mp he
      rw [← hc.count]
      exact (List.getElem?_eq_some_iff.mp hs).1
  honest := by
    intro j t hj
    dsimp only at hj ⊢
    obtain ⟨hgood, hstate⟩ := hc.honest server s hs
    rw [inputs_append]
    by_cases hjs : server = j
    · subst hjs
      rw [List.getElem?_set_self (List.getElem?_eq_some_iff.mp hs).1] at hj
      obtain rfl := Option.some_inj.mp hj
      rw [if_pos rfl, replay_append, ← hstate]
      exact ⟨(s.handleClient_malicious p.tx).trans hgood, s.handleClient_state p.tx⟩
    · rw [List.getElem?_set_ne hjs] at hj
      rw [if_neg hjs]
      exact hc.honest j t hj
  tx := by
    intro e he
    rcases List.mem_append.mp he with he | he
    · exact hc.tx e he
    · obtain rfl := List.mem_singleton.mp he
      exact ⟨p, hp, rfl⟩
  once := by
    intro j
    have happ := order_append c ⟨server, broadcast, p.tx, (s.handleClient p.tx).2⟩ j
    change (order { c with served := _ } j).Nodup
    rw [happ]
    split_ifs with hj
    · refine (hc.once j).append (List.nodup_singleton broadcast) ?_
      rw [List.disjoint_singleton]
      exact hj ▸ c.not_mem_order hnew
    · exact hc.once j
  reply := by
    intro pre e post hsplit nodeId h signature hr
    dsimp only at hsplit
    rcases List.eq_nil_or_concat post with rfl | ⟨post', last, rfl⟩
    · obtain ⟨hpre, he⟩ := List.append_inj' hsplit rfl
      injection he with he _
      subst he
      subst hpre
      obtain ⟨hgood, hstate⟩ := hc.honest server s hs
      have hres := handleClient_result hgood hr
      rw [hstate] at hres
      exact hres
    · have hsplit' : c.served ++ [⟨server, broadcast, p.tx, (s.handleClient p.tx).2⟩] =
          (pre ++ e :: post') ++ [last] := by
        rw [hsplit, List.concat_eq_append]
        simp
      exact hc.reply pre e post' (List.append_inj' hsplit' rfl).1 nodeId h signature hr

theorem Replayed.step {state : State} {n : ℕ} {c c' : Concurrent rt} {event : Event}
    (hc : Replayed state n c) (h : step R c event = some c') : Replayed state n c' := by
  rcases step_cases R h with ⟨tx, rfl⟩ | ⟨broadcast, server, p, s, hp, hs, hnew, rfl⟩ |
    ⟨broadcast, p, p', net, hp, htx, hnet, rfl⟩
  · refine ⟨hc.count, hc.place, hc.honest, fun e he => ?_, hc.once, hc.reply⟩
    obtain ⟨p, hp, htx⟩ := hc.tx e he
    exact ⟨p, by rw [List.getElem?_append_left (List.getElem?_eq_some_iff.mp hp).1]; exact hp, htx⟩
  · exact hc.deliver hp hs hnew
  · refine ⟨hnet ▸ hc.count, hc.place, fun j s hj => hc.honest j s (by rw [← hnet]; exact hj),
      fun e he => ?_, hc.once, hc.reply⟩
    obtain ⟨q, hq, hqtx⟩ := hc.tx e he
    by_cases hb : broadcast = e.broadcast
    · subst hb
      refine ⟨p', List.getElem?_set_self (List.getElem?_eq_some_iff.mp hp).1, ?_⟩
      rw [htx, ← hqtx, Option.some_inj.mp (hp.symm.trans hq)]
    · exact ⟨q, by rw [List.getElem?_set_ne hb]; exact hq, hqtx⟩

theorem Replayed.run {state : State} {n : ℕ} {c c' : Concurrent rt} {events : List Event}
    (hc : Replayed state n c) (h : run R c events = some c') : Replayed state n c' := by
  induction events generalizing c with
  | nil =>
    obtain rfl := Option.some_inj.mp h
    exact hc
  | cons event events ih =>
    simp only [Concurrent.run, List.foldlM_cons, Option.bind_eq_bind,
      Option.bind_eq_some_iff] at h
    obtain ⟨c₁, hstep, hrest⟩ := h
    exact ih (hc.step R hstep) hrest

/-- The transaction of a broadcast. -/
def txOf (c : Concurrent rt) (broadcast : ℕ) : Transaction :=
  ((c.pending[broadcast]?).map Pending.tx).getD []

theorem Replayed.inputs_eq_map {state : State} {n : ℕ} {c : Concurrent rt}
    (hc : Replayed state n c) {served : List Served} (hsub : ∀ e ∈ served, e ∈ c.served) (j : ℕ) :
    inputs served j =
      ((served.filter fun e => e.server = j).map Served.broadcast).map c.txOf := by
  rw [inputs, List.map_map]
  refine List.map_congr_left fun e he => ?_
  obtain ⟨p, hp, htx⟩ := hc.tx e (hsub e (List.mem_of_mem_filter he))
  simp [txOf, hp, htx]

theorem order_split {c : Concurrent rt} {pre post : List Served} {e : Served}
    (h : c.served = pre ++ e :: post) : c.order e.server =
      (pre.filter fun x => x.server = e.server).map Served.broadcast ++ e.broadcast ::
        (post.filter fun x => x.server = e.server).map Served.broadcast := by
  rw [order, h]
  simp

/-- The place of a request in its server's order fixes what came before it. -/
theorem Replayed.inputs_before {state : State} {n : ℕ} {c : Concurrent rt}
    (hc : Replayed state n c) {pre post pre' post' : List Served} {e e' : Served}
    (hsplit : c.served = pre ++ e :: post) (hsplit' : c.served = pre' ++ e' :: post')
    (horder : c.order e.server = c.order e'.server) (hb : e.broadcast = e'.broadcast) :
    inputs pre e.server = inputs pre' e'.server := by
  have hnd := hc.once e'.server
  have hleft := order_split hsplit
  have hright := order_split hsplit'
  rw [horder, hright, ← hb] at hleft
  rw [hright, ← hb] at hnd
  obtain ⟨-, hcons, hdisj⟩ := List.nodup_append.mp hnd
  -- A broadcast occurs once in the common order, so the parts in front of it agree.
  have hsame := (List.append_cons_inj_of_notMem
    (fun hmem => hdisj _ hmem _ List.mem_cons_self rfl) (List.nodup_cons.mp hcons).1).mp hleft
  have hpre : ∀ x ∈ pre, x ∈ c.served := fun x hx => by
    rw [hsplit]
    exact List.mem_append_left _ hx
  have hpre' : ∀ x ∈ pre', x ∈ c.served := fun x hx => by
    rw [hsplit']
    exact List.mem_append_left _ hx
  rw [hc.inputs_eq_map hpre, hc.inputs_eq_map hpre', ← hsame.1]

/-- Honest servers that have handled the broadcasts in one common order hold the same
state, and the results of each broadcast carry the same hash. -/
theorem agreement_of_common_order {net : P2PNetwork rt} {state : State}
    (hs : ∀ s ∈ net.servers, s.node.malicious = false ∧ s.state = state)
    {events : List Event} {c : Concurrent rt} (hrun : run R (init net) events = some c)
    (horder : ∀ j < net.servers.length, ∀ k < net.servers.length, c.order j = c.order k) :
    (∀ s ∈ c.net.servers, ∀ s' ∈ c.net.servers, s.state = s'.state) ∧
    ∀ e ∈ c.served, ∀ e' ∈ c.served, e.broadcast = e'.broadcast →
      ∀ nodeId h signature nodeId' h' signature', e.reply = .result nodeId h signature →
        e'.reply = .result nodeId' h' signature' → h = h' := by
  have hc := (replayed_init hs).run R hrun
  refine ⟨fun s hmem s' hmem' => ?_, fun e he e' he' hb nodeId h signature nodeId' h' signature'
    hr hr' => ?_⟩
  · obtain ⟨j, hj⟩ := List.getElem?_of_mem hmem
    obtain ⟨k, hk⟩ := List.getElem?_of_mem hmem'
    have hlt := (List.getElem?_eq_some_iff.mp hj).1
    have hlt' := (List.getElem?_eq_some_iff.mp hk).1
    have hsame := horder j (hc.count ▸ hlt) k (hc.count ▸ hlt')
    have hinputs : inputs c.served j = inputs c.served k := by
      rw [hc.inputs_eq_map (fun _ h => h), hc.inputs_eq_map (fun _ h => h)]
      exact congrArg (List.map c.txOf) hsame
    rw [(hc.honest j s hj).2, (hc.honest k s' hk).2, hinputs]
  · obtain ⟨pre, post, hsplit⟩ := List.append_of_mem he
    obtain ⟨pre', post', hsplit'⟩ := List.append_of_mem he'
    have hsame := horder _ (hc.place e he) _ (hc.place e' he')
    have hhash := hc.reply pre e post hsplit nodeId h signature hr
    have hhash' := hc.reply pre' e' post' hsplit' nodeId' h' signature' hr'
    obtain ⟨p, hp, htx⟩ := hc.tx e he
    obtain ⟨p', hp', htx'⟩ := hc.tx e' he'
    rw [hc.inputs_before hsplit hsplit' hsame hb, ← htx] at hhash
    rw [← htx', Option.some_inj.mp (hp'.symm.trans (hb ▸ hp))] at hhash'
    exact Option.some_inj.mp (hhash.symm.trans hhash')

/-! ## Two withdrawals that the account cannot both pay -/

def largeWithdrawal : Transaction :=
  [(.str "type", .str "burn"), (.str "from", .str "A"), (.str "amount", .int 8)]

theorem honest_overdraftNetwork :
    ∀ s ∈ overdraftNetwork.servers, s.node.malicious = false ∧ s.state = overdraftState := by
  intro s hs
  simp only [overdraftNetwork, P2PNetwork.init, List.mem_cons, List.not_mem_nil, or_false] at hs
  rcases hs with rfl | rfl | rfl <;> exact ⟨rfl, rfl⟩

/-- The second server handles the two requests the other way round. -/
theorem reordered_withdrawals_diverge :
    (∀ s ∈ overdraftNetwork.servers, s.node.malicious = false ∧ s.state = overdraftState) ∧
    (run .binary64 (init overdraftNetwork) [.start withdrawal, .start largeWithdrawal,
        .deliver 0 0, .deliver 1 0, .deliver 1 1, .deliver 0 1, .deliver 0 2, .deliver 1 2,
        .finish 0 0 fun _ => 0, .finish 1 0 fun _ => 0]).map
      (fun c => (c.pending.all fun p => p.outcome.isSome, c.net.servers.map balanceOfA)) =
    some (true, [some (.int 6), some (.int 2), some (.int 6)]) :=
  ⟨honest_overdraftNetwork, by decide +kernel⟩

/-- Both requests in the same order everywhere, with the servers interleaved. -/
def alignedEvents : List Event :=
  [.start withdrawal, .start largeWithdrawal, .deliver 0 1, .deliver 0 0, .deliver 1 0,
   .deliver 0 2, .deliver 1 2, .deliver 1 1, .finish 1 0 fun _ => 0, .finish 0 0 fun _ => 0]

def alignedRun : Concurrent (referenceRuntime false) :=
  (run .binary64 (init overdraftNetwork) alignedEvents).get (by decide +kernel)

theorem alignedRun_agrees :
    (∀ s ∈ alignedRun.net.servers, ∀ s' ∈ alignedRun.net.servers, s.state = s'.state) ∧
    ∀ e ∈ alignedRun.served, ∀ e' ∈ alignedRun.served, e.broadcast = e'.broadcast →
      ∀ nodeId h signature nodeId' h' signature', e.reply = .result nodeId h signature →
        e'.reply = .result nodeId' h' signature' → h = h' :=
  agreement_of_common_order .binary64 honest_overdraftNetwork (Option.some_get _).symm
    (by decide +kernel)

end Concurrent

end ECN
