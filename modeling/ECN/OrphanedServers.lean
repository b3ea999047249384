import ECN.TenantServers

/-!
# Orphaned servers

A server that runs is registered, about to be stopped or being started as long as no move
lets go of one. A server that was let go of runs for good, so the moves that keep servers
are the ones in runs without orphans.
-/
namespace ECN

namespace TenantServers

/-! ## Runs that keep every server -/

/-- Every server that runs is registered, is going to be stopped, or is being started. -/
def Held (s : TenantServers) : Prop :=
  ∀ x ∈ s.running, s.Registered x ∨ s.StillToStop x ∨ s.BeingStarted x

/-- One more call in progress lets go of no server. -/
theorem Held.concat {s : TenantServers} (hheld : s.Held) (c : RegistryCall) :
    Held { s with calls := s.calls ++ [c] } := by
  intro x hx
  refine (hheld x hx).imp_right (Or.imp ?_ ?_)
  · exact fun hstop => exists_concat.mpr (.inl hstop)
  · exact fun hstart => exists_concat.mpr (.inl hstart)

theorem Held.effect {s s' : TenantServers} {ok : Prop} (hheld : s.Held) (hs : s.Accounted)
    (h : Effect s s' ok) (hok : ok) : s'.Held := by
  cases h with
  | idle h _ =>
    subst h
    exact hheld
  | began tid nodeCount h _ =>
    subst h
    exact hheld.concat (.creating s.nextSerial tid nodeCount 0)
  | started serial tid nodeCount started rest calls hcalls hcalls' _ h _ =>
    subst h
    intro x hx
    rcases List.mem_append.mp hx with hx | hx
    · refine (hheld x hx).imp_right (Or.imp (fun hstop => ?_) fun hstart => ?_)
      · exact (exists_perm_cons hcalls').mpr ((exists_perm_cons hcalls).mp hstop)
      · refine (exists_perm_cons hcalls').mpr (((exists_perm_cons hcalls).mp hstart).imp_left ?_)
        exact fun ⟨hserial, hindex⟩ => ⟨hserial, Nat.lt_succ_of_lt hindex⟩
    · rw [List.mem_singleton.mp hx]
      exact .inr (.inr ((exists_perm_cons hcalls').mpr (.inl ⟨rfl, Nat.lt_succ_self started⟩)))
  | failed serial tid nodeCount started rest hcalls h hok' =>
    subst h
    intro x hx
    refine (hheld x hx).imp_right (Or.imp (fun hstop => ?_) fun hstart => ?_)
    · exact exists_tail_of_not hcalls List.not_mem_nil hstop
    · refine exists_tail_of_not hcalls (fun ⟨_, hindex⟩ => ?_) hstart
      rw [hok'.mp hok] at hindex
      exact Nat.not_lt_zero _ hindex
  | registered serial tid nodeCount started rest hcalls hall h hok' =>
    subst h
    intro x hx
    have hkeep (hstop : s.StillToStop x) : ∃ c ∈ rest, x ∈ c.toStop :=
      exists_tail_of_not hcalls List.not_mem_nil hstop
    rcases hheld x hx with ⟨tid', net, hnet, hmem⟩ | hstop | hstart
    · by_cases htid : tid' = tid
      · subst htid
        exact .inr (.inl (hkeep (hok'.mp hok net hnet x hmem hx)))
      · exact .inl ⟨tid', net, by rw [OrderedDict.get?_set, if_neg htid, hnet], hmem⟩
    · exact .inr (.inl (hkeep hstop))
    · rcases (exists_perm_cons hcalls).mp hstart with ⟨hserial, hindex⟩ | hrest
      · have hcount := hs.count serial tid nodeCount started (mem_head hcalls)
        refine .inl ⟨tid, ⟨serial, tid, nodeCount⟩, by rw [OrderedDict.get?_set, if_pos rfl], ?_⟩
        exact StartedNetwork.mem_servers.mpr ⟨hserial, Nat.lt_of_lt_of_le hindex hcount⟩
      · exact .inr (.inr hrest)
  | popped tid net hnet h _ =>
    subst h
    intro x hx
    rcases hheld.concat (.deleting net.servers) x hx with ⟨tid', net', hnet', hmem⟩ | hcall
    · by_cases htid : tid' = tid
      · subst htid
        cases hnet.symm.trans hnet'
        exact .inr (.inl (exists_concat.mpr (.inr hmem)))
      · exact .inl ⟨tid', net', by rw [OrderedDict.get?_erase, if_neg htid, hnet'], hmem⟩
    · exact .inr hcall
  | listed h _ =>
    subst h
    exact hheld.concat _
  | stopped x call call' rest calls hcalls hcalls' hstop hserial hserial' h _ =>
    subst h
    intro y hy
    obtain ⟨hy, hne⟩ := List.mem_filter.mp hy
    refine (hheld y hy).imp_right (Or.imp (fun hstop' => ?_) fun hstart => ?_)
    · refine (exists_perm_cons hcalls').mpr (((exists_perm_cons hcalls).mp hstop').imp_left ?_)
      intro hmem
      rw [hstop] at hmem
      exact (List.mem_cons.mp hmem).resolve_left (of_decide_eq_true hne)
    · refine (exists_perm_cons hcalls').mpr (.inr ?_)
      exact exists_tail_of_not hcalls (RegistryCall.not_started hserial) hstart
  | done call rest hcalls hstop hserial h _ =>
    subst h
    intro x hx
    refine (hheld x hx).imp_right (Or.imp (fun hstop' => ?_) fun hstart => ?_)
    · exact exists_tail_of_not hcalls (RegistryCall.nothing_to_stop hstop) hstop'
    · exact exists_tail_of_not hcalls (RegistryCall.not_started hserial) hstart
  | cleared call rest hcalls hstop hserial h hok' =>
    subst h
    intro x hx
    have hkeep (hstop' : s.StillToStop x) : ∃ c ∈ rest, x ∈ c.toStop :=
      exists_tail_of_not hcalls (RegistryCall.nothing_to_stop hstop) hstop'
    rcases hheld x hx with ⟨tid, net, hnet, hmem⟩ | hstop' | hstart
    · exact .inr (.inl (hkeep (hok'.mp hok tid net hnet x hmem hx)))
    · exact .inr (.inl (hkeep hstop'))
    · exact .inr (.inr (exists_tail_of_not hcalls (RegistryCall.not_started hserial) hstart))

/-- A server that runs while nothing is in progress tells the network it belongs to. -/
theorem Held.noOrphans {s : TenantServers} (hheld : s.Held) (hs : s.Accounted)
    (hquiet : s.calls = []) : s.NoOrphans := by
  have howned (x : ServerRef) (hx : x ∈ s.running) : s.Registered x := by
    rcases hheld x hx with h | ⟨c, hc, -⟩ | ⟨c, hc, -⟩
    · exact h
    · rw [hquiet] at hc
      cases hc
    · rw [hquiet] at hc
      cases hc
  have hnetwork (net : StartedNetwork) (hnet : net ∈ s.created) (hruns : s.Runs net) :
      s.registry.get? net.tenantId = some net := by
    obtain ⟨x, hmem, hx⟩ := hruns
    obtain ⟨tid, net', hget, hmem'⟩ := howned x hx
    obtain ⟨hmade, htid⟩ := hs.made tid net' hget
    have heq : net' = net := hs.numbered.made_inj hmade hnet <| by
      rw [← (StartedNetwork.mem_servers.mp hmem').1, (StartedNetwork.mem_servers.mp hmem).1]
    rw [← heq, htid, hget]
  refine ⟨howned, fun net hnet net' hnet' htid hruns hruns' => ?_⟩
  have h := hnetwork net' hnet' hruns'
  rw [← htid, hnetwork net hnet hruns] at h
  exact Option.some.inj h

/-! ## Runs that lose a server -/

/-- The server runs and nothing will stop it any more. -/
structure Lost (s : TenantServers) (x : ServerRef) : Prop where
  runs : x ∈ s.running
  notRegistered : ¬ s.Registered x
  notStopped : ¬ s.StillToStop x
  notCreating : ∀ c ∈ s.calls, c.serial ≠ some x.serial
  old : x.serial < s.nextSerial

/-- A call without a serial number creates no network. -/
theorem serial_ne_concat {calls : List RegistryCall} {k : ℕ}
    (h : ∀ c ∈ calls, c.serial ≠ some k) {call : RegistryCall} (hcall : call.serial = none) :
    ∀ c ∈ calls ++ [call], c.serial ≠ some k := by
  rw [List.forall_mem_append, List.forall_mem_singleton]
  refine ⟨h, fun hserial => ?_⟩
  rw [hcall] at hserial
  cases hserial

/-- The end of calls and registrations brings no lost server back. -/
theorem Lost.of_subset {s s' : TenantServers} {x : ServerRef} (hx : s.Lost x)
    (hrunning : s'.running = s.running) (hnext : s'.nextSerial = s.nextSerial)
    (hcalls : s'.calls ⊆ s.calls) (hregistered : s'.Registered x → s.Registered x) :
    s'.Lost x where
  runs := hrunning ▸ hx.runs
  notRegistered h := hx.notRegistered (hregistered h)
  notStopped := by
    rintro ⟨c, hc, hmem⟩
    exact hx.notStopped ⟨c, hcalls hc, hmem⟩
  notCreating c hc := hx.notCreating c (hcalls hc)
  old := hnext ▸ hx.old

theorem Lost.effect {s s' : TenantServers} {ok : Prop} {x : ServerRef} (hx : s.Lost x)
    (h : Effect s s' ok) : s'.Lost x := by
  have ⟨hruns, hregistered, hstop, hcreating, hold⟩ := hx
  cases h with
  | idle h _ =>
    subst h
    exact hx
  | began tid nodeCount h _ =>
    subst h
    refine ⟨hruns, hregistered, ?_, fun c hc => ?_, Nat.lt_succ_of_lt hold⟩
    · exact fun h => hstop ((exists_concat.mp h).resolve_right List.not_mem_nil)
    · rcases List.mem_append.mp hc with hc | hc
      · exact hcreating c hc
      · rw [List.mem_singleton.mp hc]
        intro hserial
        exact Nat.ne_of_lt hold (Option.some.inj hserial).symm
  | started serial tid nodeCount started rest calls hcalls hcalls' hlt h _ =>
    subst h
    refine ⟨List.mem_append_left _ hruns, hregistered, fun h => hstop ?_, fun c hc => ?_, hold⟩
    · exact (exists_perm_cons hcalls).mpr ((exists_perm_cons hcalls').mp h)
    · rcases List.mem_cons.mp (hcalls'.subset hc) with heq | hc
      · rw [heq]
        exact hcreating (.creating serial tid nodeCount started)
          (mem_head hcalls)
      · exact hcreating c (mem_tail hcalls hc)
  | failed serial tid nodeCount started rest hcalls h _ =>
    subst h
    exact hx.of_subset rfl rfl (fun c hc => mem_tail hcalls hc) fun h => h
  | registered serial tid nodeCount started rest hcalls _ h _ =>
    subst h
    refine hx.of_subset rfl rfl (fun c hc => mem_tail hcalls hc) ?_
    rintro ⟨tid', net, hnet, hmem⟩
    rw [OrderedDict.get?_set] at hnet
    split at hnet
    · cases hnet
      have hserial := (StartedNetwork.mem_servers.mp hmem).1
      exact absurd (congrArg some hserial.symm) (hcreating _ (mem_head hcalls))
    · exact ⟨tid', net, hnet, hmem⟩
  | popped tid net hnet h _ =>
    subst h
    refine ⟨hruns, ?_, fun h => ?_, serial_ne_concat hcreating rfl, hold⟩
    · rintro ⟨tid', net', hnet', hmem⟩
      rw [OrderedDict.get?_erase] at hnet'
      split at hnet'
      · cases hnet'
      · exact hregistered ⟨tid', net', hnet', hmem⟩
    · rcases exists_concat.mp h with h | hmem
      · exact hstop h
      · exact hregistered ⟨tid, net, hnet, hmem⟩
  | listed h _ =>
    subst h
    refine ⟨hruns, hregistered, fun h => ?_, serial_ne_concat hcreating rfl, hold⟩
    rcases exists_concat.mp h with h | hmem
    · exact hstop h
    · exact hregistered (registered_of_listed hmem)
  | stopped y call call' rest calls hcalls hcalls' hstop' hserial hserial' h _ =>
    subst h
    refine ⟨List.mem_filter.mpr ⟨hruns, decide_eq_true fun heq => hstop ?_⟩, hregistered,
      fun h => hstop ?_, fun c hc => ?_, hold⟩
    · refine (exists_perm_cons hcalls).mpr (.inl ?_)
      rw [hstop', heq]
      exact List.mem_cons_self
    · refine (exists_perm_cons hcalls).mpr (((exists_perm_cons hcalls').mp h).imp_left fun h => ?_)
      rw [hstop']
      exact List.mem_cons_of_mem y h
    · rcases List.mem_cons.mp (hcalls'.subset hc) with heq | hc
      · rw [heq, hserial']
        exact fun h => by cases h
      · exact hcreating c (mem_tail hcalls hc)
  | done call rest hcalls _ _ h _ =>
    subst h
    exact hx.of_subset rfl rfl (fun c hc => mem_tail hcalls hc) fun h => h
  | cleared call rest hcalls _ _ h _ =>
    subst h
    refine hx.of_subset rfl rfl (fun c hc => mem_tail hcalls hc) ?_
    rintro ⟨tid, net, hnet, -⟩
    cases hnet

/-- A network that was made has an old number. -/
theorem Numbered.made_lt {s : TenantServers} (hs : s.Numbered) {net : StartedNetwork}
    (h : net ∈ s.created) : net.serial < s.nextSerial :=
  hs.below net.serial (List.mem_append_left _ (List.mem_map_of_mem h))

/-- A running server that leaves the registry, and that no call will stop, is lost. -/
theorem Accounted.lost_of_unregistered {s s' : TenantServers} (hs : s.Accounted) {tid : String}
    {net : StartedNetwork} (hnet : s.registry.get? tid = some net) {x : ServerRef}
    (hmem : x ∈ net.servers) (hx : x ∈ s.running) (hstop : ¬ s.StillToStop x)
    (hrunning : s'.running = s.running) (hnext : s'.nextSerial = s.nextSerial)
    (hcalls : s'.calls ⊆ s.calls) (hregistered : ¬ s'.Registered x) : s'.Lost x := by
  have hmade := (hs.made tid net hnet).1
  have hserial := (StartedNetwork.mem_servers.mp hmem).1
  refine ⟨hrunning ▸ hx, hregistered, fun ⟨c, hc, hleft⟩ => hstop ⟨c, hcalls hc, hleft⟩, ?_, ?_⟩
  · intro c hc
    rw [hserial]
    exact hs.numbered.made_ne hmade (hcalls hc)
  · rw [hserial, hnext]
    exact hs.numbered.made_lt hmade

/-- A move that misses the condition loses a server. -/
theorem Accounted.loses {s s' : TenantServers} {ok : Prop} (hs : s.Accounted)
    (h : Effect s s' ok) (hok : ¬ ok) : ∃ x, s'.Lost x := by
  cases h with
  | idle _ hok' => exact (hok hok').elim
  | began _ _ _ hok' => exact (hok hok').elim
  | started _ _ _ _ _ _ _ _ _ _ hok' => exact (hok hok').elim
  | popped _ _ _ _ hok' => exact (hok hok').elim
  | listed _ hok' => exact (hok hok').elim
  | stopped _ _ _ _ _ _ _ _ _ _ _ hok' => exact (hok hok').elim
  | done _ _ _ _ _ _ hok' => exact (hok hok').elim
  | failed serial tid nodeCount started rest hcalls h hok' =>
    subst h
    rw [hok'] at hok
    have hcall : RegistryCall.creating serial tid nodeCount started ∈ s.calls :=
      mem_head hcalls
    have hunmade (net : StartedNetwork) (hnet : net ∈ s.created) : serial ≠ net.serial :=
      fun heq => hs.numbered.made_ne hnet hcall (congrArg some heq)
    refine ⟨⟨serial, 0⟩, ?_, ?_, ?_, fun c hc hserial => ?_, ?_⟩
    · exact hs.startedRun _ ⟨_, hcall, rfl, Nat.pos_of_ne_zero hok⟩
    · rintro ⟨tid', net, hnet, hmem⟩
      exact hunmade net (hs.made tid' net hnet).1 (StartedNetwork.mem_servers.mp hmem).1
    · rintro ⟨c, hc, hmem⟩
      obtain ⟨net, hnet, hserial⟩ := hs.stopping _ ⟨c, mem_tail hcalls hc, hmem⟩
      exact hunmade net hnet hserial
    · have hnodup := (serials_perm hcalls).nodup_iff.mp hs.numbered.nodup
      have hrest := (List.nodup_append.mp (List.nodup_append.mp hnodup).2.1).2.2
      refine hrest serial (List.mem_singleton.mpr rfl) serial ?_ rfl
      exact List.mem_filterMap.mpr ⟨c, hc, hserial⟩
    · refine hs.numbered.below serial (List.mem_append_right _ ?_)
      exact List.mem_filterMap.mpr ⟨_, hcall, rfl⟩
  | registered serial tid nodeCount started rest hcalls _ h hok' =>
    subst h
    rw [hok'] at hok
    simp only [Expiring, not_forall] at hok
    obtain ⟨net, hnet, x, hmem, hx, hstop⟩ := hok
    obtain ⟨hmade, htid⟩ := hs.made tid net hnet
    have hserial := (StartedNetwork.mem_servers.mp hmem).1
    refine ⟨x, hs.lost_of_unregistered hnet hmem hx hstop rfl rfl
      (fun c hc => mem_tail hcalls hc) ?_⟩
    rintro ⟨tid', net', hnet', hmem'⟩
    have hserial' := (StartedNetwork.mem_servers.mp hmem').1
    rw [OrderedDict.get?_set] at hnet'
    split at hnet'
    · cases hnet'
      exact hs.numbered.made_ne hmade (mem_head hcalls)
        (congrArg some (hserial'.symm.trans hserial))
    · next htid' =>
      obtain ⟨hmade', rfl⟩ := hs.made tid' net' hnet'
      rw [hs.numbered.made_inj hmade' hmade (hserial'.symm.trans hserial)] at htid'
      exact htid' htid
  | cleared call rest hcalls _ _ h hok' =>
    subst h
    rw [hok'] at hok
    simp only [Expiring, not_forall] at hok
    obtain ⟨tid, net, hnet, x, hmem, hx, hstop⟩ := hok
    refine ⟨x, hs.lost_of_unregistered hnet hmem hx hstop rfl rfl
      (fun c hc => mem_tail hcalls hc) ?_⟩
    rintro ⟨tid', net', hnet', -⟩
    cases hnet'

theorem Lost.not_noOrphans {s : TenantServers} {x : ServerRef} (hx : s.Lost x) : ¬ s.NoOrphans :=
  fun h => hx.notRegistered (h.owned x hx.runs)

/-- A run that misses the condition somewhere has lost a server at its end. -/
theorem Accounted.lost_of_missed {s : TenantServers} (hs : s.Accounted)
    {moves : List RegistryMove} (h : ¬ StepsMeet step KeepsServers s moves) :
    ∃ x, (moves.foldl step s).Lost x := by
  induction moves generalizing s with
  | nil => exact (h trivial).elim
  | cons move moves ih =>
    by_cases hok : s.KeepsServers move
    · exact ih (hs.effect (s.effect move)) fun hrest => h ⟨hok, hrest⟩
    · obtain ⟨x, hx⟩ := hs.loses (s.effect move) hok
      refine ⟨x, ?_⟩
      exact (Throughout.of_step (P := (Lost · x))
        (fun s move h => Lost.effect h (TenantServers.effect s move)) hx moves).last

/-- Servers are never orphaned in a run whose moves keep them. A run at whose end no call is
in progress leaves no orphans if and only if its moves keep servers. -/
theorem quietlyOwned_of_keepsServers (moves : List RegistryMove) :
    (StepsMeet step KeepsServers start moves → Throughout step QuietlyOwned start moves) ∧
      ((moves.foldl step start).calls = [] →
        ((moves.foldl step start).NoOrphans ↔ StepsMeet step KeepsServers start moves)) := by
  have hkeep (hmeet : StepsMeet step KeepsServers start moves) :
      Throughout step QuietlyOwned start moves := by
    have hheld : Throughout step (fun s => s.Accounted ∧ s.Held) start moves :=
      Throughout.of_stepsMeet (fun s move h hok =>
        ⟨h.1.effect (s.effect move), h.2.effect h.1 (s.effect move) hok⟩)
        ⟨accounted_start, fun x hx => absurd hx List.not_mem_nil⟩ hmeet
    exact hheld.mono fun s h hquiet => h.2.noOrphans h.1 hquiet
  refine ⟨hkeep, fun hquiet => ⟨fun howned => ?_, fun hmeet => (hkeep hmeet).last hquiet⟩⟩
  by_contra hmissed
  obtain ⟨x, hx⟩ := accounted_start.lost_of_missed hmissed
  exact hx.not_noOrphans howned

/-- The second start of a creation fails; two creations with one id run at the same time; a
tenant registers while a shutdown stops the servers of another. -/
theorem servers_orphaned :
    ¬ Throughout step QuietlyOwned start
        [.createTenant (some "acme") "" 3, .startServer 0 false, .startServer 0 true] ∧
      ¬ Throughout step QuietlyOwned start
        [.createTenant (some "acme") "" 1, .createTenant (some "acme") "" 1,
          .startServer 0 false, .startServer 1 false, .register 0, .register 0] ∧
      ¬ Throughout step QuietlyOwned start
        [.createTenant (some "acme") "" 1, .startServer 0 false, .register 0,
          .createTenant (some "beta") "" 1, .startServer 0 false,
          .shutdownAll, .register 0, .stopServer 0, .finish 0] := by
  refine ⟨fun h => ?_, fun h => ?_, fun h => ?_⟩
  · obtain ⟨tid, net, hnet, -⟩ := (h.last rfl).owned ⟨0, 0⟩ (by decide)
    cases hnet
  · obtain ⟨tid, net, hnet, hmem⟩ := (h.last rfl).owned ⟨0, 0⟩ (by decide)
    have hmade : net ∈ [⟨1, "acme", 1⟩] := (OrderedDict.mem_values_iff _ net).mpr ⟨tid, hnet⟩
    rw [List.mem_singleton.mp hmade] at hmem
    exact absurd (StartedNetwork.mem_servers.mp hmem).1 (by decide)
  · obtain ⟨tid, net, hnet, -⟩ := (h.last rfl).owned ⟨1, 0⟩ (by decide)
    cases hnet

end TenantServers
end ECN
