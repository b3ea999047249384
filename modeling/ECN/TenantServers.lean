import ECN.ApiKeys
import ECN.OrderedDict
import ECN.Runs
import Mathlib.Data.List.Perm.Basic

/-!
# Node servers of tenants

Creating a tenant starts its servers one after the other, deleting one stops them, and
shutting down stops the servers of every tenant that is there at the beginning. Each
call is suspended at every server, so calls interleave, and any start may fail.
-/
namespace ECN

/-! ## Networks and calls -/

/-- A server, by the network it was made for and its place there. -/
@[ext] structure ServerRef where
  serial : ℕ
  index : ℕ
  deriving DecidableEq

/-- A network whose servers have all started. Every call that makes one has a serial number
of its own. -/
structure StartedNetwork where
  serial : ℕ
  tenantId : String
  size : ℕ
  deriving DecidableEq

namespace StartedNetwork

def servers (net : StartedNetwork) : List ServerRef :=
  (List.range net.size).map (ServerRef.mk net.serial)

theorem mem_servers {net : StartedNetwork} {x : ServerRef} :
    x ∈ net.servers ↔ x.serial = net.serial ∧ x.index < net.size := by
  obtain ⟨serial, index⟩ := x
  simp only [servers, List.mem_map, List.mem_range, ServerRef.mk.injEq]
  constructor
  · rintro ⟨i, hi, rfl, rfl⟩
    exact ⟨rfl, hi⟩
  · rintro ⟨rfl, hi⟩
    exact ⟨index, hi, rfl, rfl⟩

end StartedNetwork

/-- A suspended call: a creation with the number of servers it has started, a deletion or
a shutdown with the servers it has yet to stop. -/
inductive RegistryCall where
  | creating (serial : ℕ) (tenantId : String) (nodeCount started : ℕ)
  | deleting (left : List ServerRef)
  | shuttingDown (left : List ServerRef)

namespace RegistryCall

def toStop : RegistryCall → List ServerRef
  | .creating _ _ _ _ => []
  | .deleting left => left
  | .shuttingDown left => left

/-- The servers that a creation has started. -/
def Started (x : ServerRef) : RegistryCall → Prop
  | .creating serial _ _ started => x.serial = serial ∧ x.index < started
  | .deleting _ => False
  | .shuttingDown _ => False

/-- The serial number that a creation will give to its network. -/
def serial : RegistryCall → Option ℕ
  | .creating serial _ _ _ => some serial
  | .deleting _ => none
  | .shuttingDown _ => none

theorem Started.serial {x : ServerRef} {c : RegistryCall} (h : c.Started x) :
    c.serial = some x.serial := by
  cases c with
  | creating serial tid nodeCount started => exact congrArg some h.1.symm
  | deleting left => exact h.elim
  | shuttingDown left => exact h.elim

theorem nothing_to_stop {x : ServerRef} {c : RegistryCall} (h : c.toStop = []) : x ∉ c.toStop := by
  rw [h]
  exact List.not_mem_nil

theorem not_started {x : ServerRef} {c : RegistryCall} (h : c.serial = none) : ¬ c.Started x := by
  intro hx
  rw [hx.serial] at h
  cases h

end RegistryCall

/-- The registry, the servers that run, the calls in progress, and what was made so far. -/
structure TenantServers where
  registry : OrderedDict String StartedNetwork
  running : List ServerRef
  calls : List RegistryCall
  nextSerial : ℕ
  created : List StartedNetwork

/-- A call begins, or the `i`th call in progress goes on to its next suspension. -/
inductive RegistryMove where
  | createTenant (tenantId : Option String) (generatedId : String) (nodeCount : ℕ)
  | startServer (i : ℕ) (fails : Bool)
  | register (i : ℕ)
  | deleteTenant (tenantId : String)
  | shutdownAll
  | stopServer (i : ℕ)
  | finish (i : ℕ)

namespace TenantServers

def start : TenantServers := ⟨.empty, [], [], 0, []⟩

/-- The number of nodes of a new tenant; an empty configuration stands for the default. -/
def nodesOf (nodeCount : ℕ) : ℕ := if nodeCount = 0 then 3 else nodeCount

def step (s : TenantServers) : RegistryMove → TenantServers
  | .createTenant tenantId generatedId nodeCount =>
    let tid := orGenerate tenantId generatedId
    if (s.registry.get? tid).isSome then s
    else
      { s with
        calls := s.calls ++ [.creating s.nextSerial tid (nodesOf nodeCount) 0]
        nextSerial := s.nextSerial + 1 }
  | .startServer i fails =>
    match s.calls[i]? with
    | some (.creating serial tid nodeCount started) =>
      if nodeCount ≤ started then s
      else if fails then { s with calls := s.calls.eraseIdx i }
      else
        { s with
          running := s.running ++ [⟨serial, started⟩]
          calls := s.calls.set i (.creating serial tid nodeCount (started + 1)) }
    | _ => s
  | .register i =>
    match s.calls[i]? with
    | some (.creating serial tid nodeCount started) =>
      if started < nodeCount then s
      else
        { s with
          registry := s.registry.set tid ⟨serial, tid, nodeCount⟩
          calls := s.calls.eraseIdx i
          created := s.created ++ [⟨serial, tid, nodeCount⟩] }
    | _ => s
  | .deleteTenant tenantId =>
    match s.registry.get? tenantId with
    | none => s
    | some net =>
      { s with
        registry := s.registry.erase tenantId
        calls := s.calls ++ [.deleting net.servers] }
  | .shutdownAll =>
    { s with
      calls := s.calls ++ [.shuttingDown (s.registry.values.flatMap StartedNetwork.servers)] }
  | .stopServer i =>
    match s.calls[i]? with
    | some (.deleting (x :: left)) =>
      { s with running := s.running.filter (· ≠ x), calls := s.calls.set i (.deleting left) }
    | some (.shuttingDown (x :: left)) =>
      { s with running := s.running.filter (· ≠ x), calls := s.calls.set i (.shuttingDown left) }
    | _ => s
  | .finish i =>
    match s.calls[i]? with
    | some (.deleting []) => { s with calls := s.calls.eraseIdx i }
    | some (.shuttingDown []) => { s with registry := .empty, calls := s.calls.eraseIdx i }
    | _ => s

/-! ## Owners of servers -/

/-- The server belongs to the network of a tenant in the registry. -/
def Registered (s : TenantServers) (x : ServerRef) : Prop :=
  ∃ tid net, s.registry.get? tid = some net ∧ x ∈ net.servers

/-- A call in progress is going to stop the server. -/
def StillToStop (s : TenantServers) (x : ServerRef) : Prop := ∃ c ∈ s.calls, x ∈ c.toStop

/-- A call in progress has started the server. -/
def BeingStarted (s : TenantServers) (x : ServerRef) : Prop := ∃ c ∈ s.calls, c.Started x

/-- A server of the network runs. -/
def Runs (s : TenantServers) (net : StartedNetwork) : Prop := ∃ x ∈ net.servers, x ∈ s.running

/-- Every server that runs belongs to a registered tenant, and of the networks made for
one tenant id at most one runs. -/
structure NoOrphans (s : TenantServers) : Prop where
  owned : ∀ x ∈ s.running, s.Registered x
  single : ∀ net ∈ s.created, ∀ net' ∈ s.created, net.tenantId = net'.tenantId →
    s.Runs net → s.Runs net' → net = net'

/-- Whenever no call is in progress there are no orphans. -/
def QuietlyOwned (s : TenantServers) : Prop := s.calls = [] → s.NoOrphans

/-- The servers of a network that run will be stopped by a call in progress. -/
def Expiring (s : TenantServers) (net : StartedNetwork) : Prop :=
  ∀ x ∈ net.servers, x ∈ s.running → s.StillToStop x

/-- No start fails after an earlier one of its call, and a network that is overwritten or
cleared is expiring. -/
def KeepsServers (s : TenantServers) : RegistryMove → Prop
  | .startServer i fails =>
    ∀ serial tid nodeCount started,
      s.calls[i]? = some (.creating serial tid nodeCount started) → started < nodeCount →
      fails = true → started = 0
  | .register i =>
    ∀ serial tid nodeCount started net,
      s.calls[i]? = some (.creating serial tid nodeCount started) → nodeCount ≤ started →
      s.registry.get? tid = some net → s.Expiring net
  | .finish i =>
    s.calls[i]? = some (.shuttingDown []) →
      ∀ tid net, s.registry.get? tid = some net → s.Expiring net
  | .createTenant _ _ _ => True
  | .deleteTenant _ => True
  | .shutdownAll => True
  | .stopServer _ => True

/-! ## What a move does -/

/-- The effect of a move, with the condition `ok` on it that matters. Calls are listed up
to their order. -/
inductive Effect (s s' : TenantServers) (ok : Prop) : Prop where
  | idle (h : s' = s) (hok : ok)
  | began (tid : String) (nodeCount : ℕ)
      (h : s' = { s with
        calls := s.calls ++ [.creating s.nextSerial tid nodeCount 0]
        nextSerial := s.nextSerial + 1 }) (hok : ok)
  | started (serial : ℕ) (tid : String) (nodeCount started : ℕ) (rest calls : List RegistryCall)
      (hcalls : s.calls.Perm (.creating serial tid nodeCount started :: rest))
      (hcalls' : calls.Perm (.creating serial tid nodeCount (started + 1) :: rest))
      (hlt : started < nodeCount)
      (h : s' = { s with running := s.running ++ [⟨serial, started⟩], calls }) (hok : ok)
  | failed (serial : ℕ) (tid : String) (nodeCount started : ℕ) (rest : List RegistryCall)
      (hcalls : s.calls.Perm (.creating serial tid nodeCount started :: rest))
      (h : s' = { s with calls := rest }) (hok : ok ↔ started = 0)
  | registered (serial : ℕ) (tid : String) (nodeCount started : ℕ) (rest : List RegistryCall)
      (hcalls : s.calls.Perm (.creating serial tid nodeCount started :: rest))
      (hall : nodeCount ≤ started)
      (h : s' = { s with
        registry := s.registry.set tid ⟨serial, tid, nodeCount⟩
        calls := rest
        created := s.created ++ [⟨serial, tid, nodeCount⟩] })
      (hok : ok ↔ ∀ net, s.registry.get? tid = some net → s.Expiring net)
  | popped (tid : String) (net : StartedNetwork) (hnet : s.registry.get? tid = some net)
      (h : s' = { s with
        registry := s.registry.erase tid
        calls := s.calls ++ [.deleting net.servers] }) (hok : ok)
  | listed (h : s' = { s with
        calls := s.calls ++ [.shuttingDown (s.registry.values.flatMap StartedNetwork.servers)] })
      (hok : ok)
  | stopped (x : ServerRef) (call call' : RegistryCall) (rest calls : List RegistryCall)
      (hcalls : s.calls.Perm (call :: rest)) (hcalls' : calls.Perm (call' :: rest))
      (hstop : call.toStop = x :: call'.toStop)
      (hserial : call.serial = none) (hserial' : call'.serial = none)
      (h : s' = { s with running := s.running.filter (· ≠ x), calls }) (hok : ok)
  | done (call : RegistryCall) (rest : List RegistryCall) (hcalls : s.calls.Perm (call :: rest))
      (hstop : call.toStop = []) (hserial : call.serial = none)
      (h : s' = { s with calls := rest }) (hok : ok)
  | cleared (call : RegistryCall) (rest : List RegistryCall) (hcalls : s.calls.Perm (call :: rest))
      (hstop : call.toStop = []) (hserial : call.serial = none)
      (h : s' = { s with registry := .empty, calls := rest })
      (hok : ok ↔ ∀ tid net, s.registry.get? tid = some net → s.Expiring net)

theorem perm_eraseIdx {calls : List RegistryCall} {i : ℕ} {c : RegistryCall}
    (h : calls[i]? = some c) : calls.Perm (c :: calls.eraseIdx i) := by
  obtain ⟨hlt, rfl⟩ := List.getElem?_eq_some_iff.mp h
  exact (List.getElem_cons_eraseIdx_perm hlt).symm

theorem set_perm {calls : List RegistryCall} {i : ℕ} {c : RegistryCall}
    (h : calls[i]? = some c) (c' : RegistryCall) :
    (calls.set i c').Perm (c' :: calls.eraseIdx i) :=
  List.set_perm_cons_eraseIdx (List.getElem?_eq_some_iff.mp h).1 c'

/-- The spec of a move. -/
theorem effect (s : TenantServers) (move : RegistryMove) :
    Effect s (s.step move) (s.KeepsServers move) := by
  cases move with
  | createTenant tenantId generatedId nodeCount =>
    unfold step
    dsimp only
    split
    · exact .idle rfl trivial
    · exact .began _ _ rfl trivial
  | startServer i fails =>
    unfold step
    dsimp only
    split
    · next serial tid nodeCount started hi =>
      split
      · next hle =>
        refine .idle rfl fun _ _ _ _ hi' hlt => ?_
        cases hi.symm.trans hi'
        omega
      · next hlt =>
        split
        · next hfails =>
          refine .failed serial tid nodeCount started _ (perm_eraseIdx hi) rfl ⟨fun hok => ?_, ?_⟩
          · exact hok serial tid nodeCount started hi (by omega) hfails
          · intro hzero _ _ _ _ hi' _ _
            cases hi.symm.trans hi'
            exact hzero
        · next hruns =>
          refine .started serial tid nodeCount started _ _ (perm_eraseIdx hi) (set_perm hi _)
            (by omega) rfl ?_
          exact fun _ _ _ _ _ _ hfails => absurd hfails hruns
    · next hother =>
      exact .idle rfl fun serial tid nodeCount started hi =>
        (hother serial tid nodeCount started hi).elim
  | register i =>
    unfold step
    dsimp only
    split
    · next serial tid nodeCount started hi =>
      split
      · next hlt =>
        refine .idle rfl fun _ _ _ _ _ hi' hle => ?_
        cases hi.symm.trans hi'
        omega
      · next hle =>
        refine .registered serial tid nodeCount started _ (perm_eraseIdx hi) (by omega) rfl
          ⟨fun hok net hnet => ?_, ?_⟩
        · exact hok serial tid nodeCount started net hi (by omega) hnet
        · intro hok _ _ _ _ net hi' _ hnet
          cases hi.symm.trans hi'
          exact hok net hnet
    · next hother =>
      exact .idle rfl fun serial tid nodeCount started _ hi =>
        (hother serial tid nodeCount started hi).elim
  | deleteTenant tenantId =>
    unfold step
    dsimp only
    split
    · exact .idle rfl trivial
    · next net hnet => exact .popped tenantId net hnet rfl trivial
  | shutdownAll => exact .listed rfl trivial
  | stopServer i =>
    unfold step
    dsimp only
    split
    · next x left hi =>
      exact .stopped x _ (.deleting left) _ _ (perm_eraseIdx hi) (set_perm hi _) rfl rfl rfl rfl
        trivial
    · next x left hi =>
      exact .stopped x _ (.shuttingDown left) _ _ (perm_eraseIdx hi) (set_perm hi _) rfl rfl rfl
        rfl trivial
    · exact .idle rfl trivial
  | finish i =>
    unfold step
    dsimp only
    split
    · next hi =>
      refine .done _ _ (perm_eraseIdx hi) rfl rfl rfl fun hi' => ?_
      cases hi.symm.trans hi'
    · next hi =>
      exact .cleared _ _ (perm_eraseIdx hi) rfl rfl rfl ⟨fun hok => hok hi, fun hok _ => hok⟩
    · next hother => exact .idle rfl fun hi => (hother hi).elim

/-! ## Serial numbers -/

/-- The serial numbers in use: of the networks made and of the creations in progress. -/
def serials (s : TenantServers) : List ℕ :=
  s.created.map StartedNetwork.serial ++ s.calls.filterMap RegistryCall.serial

theorem serials_perm {s : TenantServers} {c : RegistryCall} {rest : List RegistryCall}
    (h : s.calls.Perm (c :: rest)) : s.serials.Perm
      (s.created.map StartedNetwork.serial ++ (c.serial.toList ++
        rest.filterMap RegistryCall.serial)) := by
  have hmap := h.filterMap RegistryCall.serial
  have hcons : (c :: rest).filterMap RegistryCall.serial =
      c.serial.toList ++ rest.filterMap RegistryCall.serial := by
    rw [List.filterMap_cons]
    cases c.serial <;> rfl
  rw [hcons] at hmap
  exact hmap.append_left _

theorem serials_perm_of_none {s : TenantServers} {c : RegistryCall} {rest : List RegistryCall}
    (h : s.calls.Perm (c :: rest)) (hserial : c.serial = none) : s.serials.Perm
      (s.created.map StartedNetwork.serial ++ rest.filterMap RegistryCall.serial) := by
  have hperm := serials_perm h
  rw [hserial] at hperm
  exact hperm

/-- Serial numbers are used once, and the next one is free. -/
structure Numbered (s : TenantServers) : Prop where
  nodup : s.serials.Nodup
  below : ∀ k ∈ s.serials, k < s.nextSerial

theorem Numbered.of_subperm {s s' : TenantServers} (hs : s.Numbered)
    (h : s'.serials.Subperm s.serials) (hnext : s'.nextSerial = s.nextSerial) : s'.Numbered where
  nodup := by
    obtain ⟨l, hperm, hsub⟩ := h
    exact hperm.nodup_iff.mp (hs.nodup.sublist hsub)
  below k hk := hnext ▸ hs.below k (h.subset hk)

/-- A move frees a serial number, takes the next one, or hands one from a call to its
network. -/
theorem Numbered.effect {s s' : TenantServers} {ok : Prop} (hs : s.Numbered)
    (h : Effect s s' ok) : s'.Numbered := by
  cases h with
  | idle h _ =>
    subst h
    exact hs
  | began tid nodeCount h _ =>
    subst h
    have heq : serials { s with
        calls := s.calls ++ [.creating s.nextSerial tid nodeCount 0]
        nextSerial := s.nextSerial + 1 } = s.serials ++ [s.nextSerial] := by
      simp [serials, RegistryCall.serial]
    constructor
    · rw [heq, List.nodup_append]
      refine ⟨hs.nodup, List.nodup_singleton _, fun a ha b hb => ?_⟩
      have := hs.below a ha
      rw [List.mem_singleton.mp hb]
      omega
    · intro k hk
      rw [heq] at hk
      show k < s.nextSerial + 1
      rcases List.mem_append.mp hk with hk | hk
      · have := hs.below k hk
        omega
      · have := List.mem_singleton.mp hk
        omega
  | started serial tid nodeCount started rest calls hcalls hcalls' _ h _ =>
    subst h
    have hnow := serials_perm (s := { s with running := s.running ++ [⟨serial, started⟩], calls })
      hcalls'
    exact hs.of_subperm (hnow.trans (serials_perm hcalls).symm).subperm rfl
  | failed serial tid nodeCount started rest hcalls h _ =>
    subst h
    refine hs.of_subperm (List.Subperm.trans ?_ (serials_perm hcalls).symm.subperm) rfl
    exact (List.subperm_append_left _).mpr (List.sublist_cons_self _ _).subperm
  | registered serial tid nodeCount started rest hcalls _ h _ =>
    subst h
    refine hs.of_subperm (List.Perm.trans ?_ (serials_perm hcalls).symm).subperm rfl
    simp [serials, RegistryCall.serial]
  | popped tid net hnet h _ =>
    subst h
    refine hs.of_subperm (List.Perm.of_eq ?_).subperm rfl
    simp [serials, RegistryCall.serial]
  | listed h _ =>
    subst h
    refine hs.of_subperm (List.Perm.of_eq ?_).subperm rfl
    simp [serials, RegistryCall.serial]
  | stopped x call call' rest calls hcalls hcalls' _ hserial hserial' h _ =>
    subst h
    have hnow := serials_perm_of_none (s := { s with running := s.running.filter (· ≠ x), calls })
      hcalls' hserial'
    exact hs.of_subperm (hnow.trans (serials_perm_of_none hcalls hserial).symm).subperm rfl
  | done call rest hcalls _ hserial h _ =>
    subst h
    exact hs.of_subperm (serials_perm_of_none hcalls hserial).symm.subperm rfl
  | cleared call rest hcalls _ hserial h _ =>
    subst h
    exact hs.of_subperm (serials_perm_of_none hcalls hserial).symm.subperm rfl

theorem Numbered.made_inj {s : TenantServers} (hs : s.Numbered) {net net' : StartedNetwork}
    (h : net ∈ s.created) (h' : net' ∈ s.created) (hserial : net.serial = net'.serial) :
    net = net' :=
  List.inj_on_of_nodup_map (List.nodup_append.mp hs.nodup).1 h h' hserial

/-- No network has the number of a creation in progress. -/
theorem Numbered.made_ne {s : TenantServers} (hs : s.Numbered) {net : StartedNetwork}
    {c : RegistryCall} (hnet : net ∈ s.created) (hc : c ∈ s.calls) :
    c.serial ≠ some net.serial := by
  intro hserial
  exact (List.nodup_append.mp hs.nodup).2.2 _ (List.mem_map_of_mem hnet) _
    (List.mem_filterMap.mpr ⟨c, hc, hserial⟩) rfl

/-! ## Where servers are accounted for -/

theorem mem_head {calls rest : List RegistryCall} {c : RegistryCall}
    (h : calls.Perm (c :: rest)) : c ∈ calls :=
  h.symm.subset List.mem_cons_self

theorem mem_tail {calls rest : List RegistryCall} {c d : RegistryCall}
    (h : calls.Perm (c :: rest)) (hd : d ∈ rest) : d ∈ calls :=
  h.symm.subset (List.mem_cons_of_mem c hd)

theorem exists_perm_cons {calls rest : List RegistryCall} {c : RegistryCall}
    {P : RegistryCall → Prop} (h : calls.Perm (c :: rest)) :
    (∃ d ∈ calls, P d) ↔ P c ∨ ∃ d ∈ rest, P d := by
  simp [h.mem_iff]

theorem exists_tail_of_not {calls rest : List RegistryCall} {c : RegistryCall}
    {P : RegistryCall → Prop} (h : calls.Perm (c :: rest)) (hc : ¬ P c)
    (hcalls : ∃ d ∈ calls, P d) : ∃ d ∈ rest, P d :=
  ((exists_perm_cons h).mp hcalls).resolve_left hc

theorem exists_tail {calls rest : List RegistryCall} {c : RegistryCall}
    {P : RegistryCall → Prop} (h : calls.Perm (c :: rest)) (hrest : ∃ d ∈ rest, P d) :
    ∃ d ∈ calls, P d :=
  (exists_perm_cons h).mpr (.inr hrest)

theorem exists_concat {calls : List RegistryCall} {c : RegistryCall} {P : RegistryCall → Prop} :
    (∃ d ∈ calls ++ [c], P d) ↔ (∃ d ∈ calls, P d) ∨ P c := by
  simp [or_and_right, exists_or]

/-- A shutdown lists servers of registered networks. -/
theorem registered_of_listed {s : TenantServers} {x : ServerRef}
    (h : x ∈ s.registry.values.flatMap StartedNetwork.servers) : s.Registered x := by
  obtain ⟨net, hnet, hx⟩ := List.mem_flatMap.mp h
  obtain ⟨tid, hget⟩ := (OrderedDict.mem_values_iff _ net).mp hnet
  exact ⟨tid, net, hget, hx⟩

/-- The registry holds networks that were made, calls stop servers of such networks, and
what a creation in progress has started runs. -/
structure Accounted (s : TenantServers) : Prop where
  numbered : s.Numbered
  made : ∀ tid net, s.registry.get? tid = some net → net ∈ s.created ∧ net.tenantId = tid
  stopping : ∀ x, s.StillToStop x → ∃ net ∈ s.created, x.serial = net.serial
  count : ∀ serial tid nodeCount started,
    RegistryCall.creating serial tid nodeCount started ∈ s.calls → started ≤ nodeCount
  startedRun : ∀ x, s.BeingStarted x → x ∈ s.running

theorem accounted_start : start.Accounted where
  numbered := ⟨List.nodup_nil, fun _ hk => absurd hk List.not_mem_nil⟩
  made _ _ h := by cases h
  stopping := by
    rintro x ⟨c, hc, -⟩
    cases hc
  count _ _ _ _ h := by cases h
  startedRun := by
    rintro x ⟨c, hc, -⟩
    cases hc

theorem Accounted.not_beingStarted {s : TenantServers} (hs : s.Accounted) {x : ServerRef}
    (h : s.StillToStop x) : ¬ s.BeingStarted x := by
  rintro ⟨c, hc, hx⟩
  obtain ⟨net, hnet, hserial⟩ := hs.stopping x h
  exact hs.numbered.made_ne hnet hc (hserial ▸ hx.serial)

/-- A call without a serial number creates nothing that has to be counted. -/
theorem Accounted.count_concat {s : TenantServers} (hs : s.Accounted) {call : RegistryCall}
    (hserial : call.serial = none) (serial : ℕ) (tid : String) (nodeCount started : ℕ)
    (hmem : RegistryCall.creating serial tid nodeCount started ∈ s.calls ++ [call]) :
    started ≤ nodeCount := by
  rcases List.mem_append.mp hmem with hmem | hmem
  · exact hs.count serial tid nodeCount started hmem
  · rw [← List.mem_singleton.mp hmem] at hserial
    cases hserial

/-- Calls and registrations that end leave everything accounted for. -/
theorem Accounted.of_subset {s s' : TenantServers} (hs : s.Accounted) (hnumbered : s'.Numbered)
    (hcreated : s'.created = s.created) (hrunning : s'.running = s.running)
    (hcalls : s'.calls ⊆ s.calls)
    (hregistry : ∀ tid net, s'.registry.get? tid = some net → s.registry.get? tid = some net) :
    s'.Accounted where
  numbered := hnumbered
  made tid net h := by
    rw [hcreated]
    exact hs.made tid net (hregistry tid net h)
  stopping := by
    rintro x ⟨c, hc, hx⟩
    rw [hcreated]
    exact hs.stopping x ⟨c, hcalls hc, hx⟩
  count serial tid nodeCount started h := hs.count serial tid nodeCount started (hcalls h)
  startedRun := by
    rintro x ⟨c, hc, hx⟩
    rw [hrunning]
    exact hs.startedRun x ⟨c, hcalls hc, hx⟩

theorem Accounted.effect {s s' : TenantServers} {ok : Prop} (hs : s.Accounted)
    (h : Effect s s' ok) : s'.Accounted := by
  have hnumbered : s'.Numbered := hs.numbered.effect h
  cases h with
  | idle h _ =>
    subst h
    exact hs
  | began tid nodeCount h _ =>
    subst h
    refine ⟨hnumbered, hs.made, fun x hx => hs.stopping x ?_, ?_, fun x hx => hs.startedRun x ?_⟩
    · exact (exists_concat.mp hx).resolve_right List.not_mem_nil
    · intro serial tid' n k hmem
      rcases List.mem_append.mp hmem with hmem | hmem
      · exact hs.count serial tid' n k hmem
      · cases List.mem_singleton.mp hmem
        exact Nat.zero_le _
    · exact (exists_concat.mp hx).resolve_right fun h => Nat.not_lt_zero _ h.2
  | started serial tid nodeCount started rest calls hcalls hcalls' hlt h _ =>
    subst h
    refine ⟨hnumbered, hs.made, fun x hx => hs.stopping x ?_, ?_, fun x hx => ?_⟩
    · exact (exists_perm_cons hcalls).mpr ((exists_perm_cons hcalls').mp hx)
    · intro serial' tid' n k hmem
      rcases List.mem_cons.mp (hcalls'.subset hmem) with heq | hmem
      · cases heq
        exact hlt
      · exact hs.count serial' tid' n k (mem_tail hcalls hmem)
    · show x ∈ s.running ++ [⟨serial, started⟩]
      rw [List.mem_append, List.mem_singleton]
      rcases (exists_perm_cons hcalls').mp hx with ⟨hserial, hindex⟩ | hrest
      · by_cases hlast : x.index = started
        · exact .inr (ServerRef.ext hserial hlast)
        · exact .inl (hs.startedRun x ((exists_perm_cons hcalls).mpr (.inl ⟨hserial, by omega⟩)))
      · exact .inl (hs.startedRun x ((exists_perm_cons hcalls).mpr (.inr hrest)))
  | failed serial tid nodeCount started rest hcalls h _ =>
    subst h
    exact hs.of_subset hnumbered rfl rfl (fun c hc => mem_tail hcalls hc) fun _ _ hnet => hnet
  | registered serial tid nodeCount started rest hcalls _ h _ =>
    subst h
    refine ⟨hnumbered, fun tid' net hnet => ?_, fun x hx => ?_,
      fun _ _ _ _ hmem => hs.count _ _ _ _ (mem_tail hcalls hmem),
      fun x hx => hs.startedRun x (exists_tail hcalls hx)⟩
    · rw [OrderedDict.get?_set] at hnet
      split at hnet
      · next heq =>
        cases hnet
        exact ⟨List.mem_append_right _ List.mem_cons_self, heq.symm⟩
      · obtain ⟨hmade, htid⟩ := hs.made tid' net hnet
        exact ⟨List.mem_append_left _ hmade, htid⟩
    · obtain ⟨net, hnet, hserial⟩ := hs.stopping x (exists_tail hcalls hx)
      exact ⟨net, List.mem_append_left _ hnet, hserial⟩
  | popped tid net hnet h _ =>
    subst h
    refine ⟨hnumbered, fun tid' net' hnet' => hs.made tid' net' ?_, fun x hx => ?_,
      hs.count_concat rfl, fun x hx => hs.startedRun x ?_⟩
    · rw [OrderedDict.get?_erase] at hnet'
      split at hnet'
      · cases hnet'
      · exact hnet'
    · rcases exists_concat.mp hx with hx | hx
      · exact hs.stopping x hx
      · exact ⟨net, (hs.made tid net hnet).1, (StartedNetwork.mem_servers.mp hx).1⟩
    · exact (exists_concat.mp hx).resolve_right (RegistryCall.not_started rfl)
  | listed h _ =>
    subst h
    refine ⟨hnumbered, hs.made, fun x hx => ?_, hs.count_concat rfl,
      fun x hx => hs.startedRun x ?_⟩
    · rcases exists_concat.mp hx with hx | hx
      · exact hs.stopping x hx
      · obtain ⟨tid, net, hget, hx⟩ := registered_of_listed hx
        exact ⟨net, (hs.made tid net hget).1, (StartedNetwork.mem_servers.mp hx).1⟩
    · exact (exists_concat.mp hx).resolve_right (RegistryCall.not_started rfl)
  | stopped x call call' rest calls hcalls hcalls' hstop hserial hserial' h _ =>
    subst h
    refine ⟨hnumbered, hs.made, fun y hy => hs.stopping y ?_, ?_, fun y hy => ?_⟩
    · refine (exists_perm_cons hcalls).mpr (((exists_perm_cons hcalls').mp hy).imp_left ?_)
      intro hy
      rw [hstop]
      exact List.mem_cons_of_mem x hy
    · intro serial tid n k hmem
      rcases List.mem_cons.mp (hcalls'.subset hmem) with heq | hmem
      · subst heq
        cases hserial'
      · exact hs.count serial tid n k (mem_tail hcalls hmem)
    · have hbefore : s.BeingStarted y := by
        rcases (exists_perm_cons hcalls').mp hy with hy | hrest
        · exact (RegistryCall.not_started hserial' hy).elim
        · exact (exists_perm_cons hcalls).mpr (.inr hrest)
      refine List.mem_filter.mpr ⟨hs.startedRun y hbefore, decide_eq_true fun heq => ?_⟩
      refine hs.not_beingStarted ((exists_perm_cons hcalls).mpr (.inl ?_)) hbefore
      rw [hstop, heq]
      exact List.mem_cons_self
  | done call rest hcalls _ _ h _ =>
    subst h
    exact hs.of_subset hnumbered rfl rfl (fun c hc => mem_tail hcalls hc) fun _ _ hnet => hnet
  | cleared call rest hcalls _ _ h _ =>
    subst h
    refine hs.of_subset hnumbered rfl rfl (fun c hc => mem_tail hcalls hc) fun tid net hnet => ?_
    cases hnet

end TenantServers
end ECN
