import ECN.Rehabilitation

/-!
# Attribution of faults

A result is judged under the id that it carries, and the sender chooses this id. The
votes are attributed to the right servers exactly when every server replies under its
own id and no two of them share one.
-/
namespace ECN

variable {rt : Runtime}

/-! ## Membership in the lists of a round -/

section Lists

variable (R : Rounding) {crypto : Crypto} (results : List NodeResult)
  (publicKeys : Option (OrderedDict String crypto.PublicKey)) (t : ℚ)

/-- An id is faulty when some result under it is rejected or diverges. -/
theorem mem_faultyNodes_iff (nodeId : String) :
    nodeId ∈ (runConsensus R results publicKeys t).faultyNodes ↔
      ∃ r ∈ results, r.nodeId = nodeId ∧ (accepted publicKeys r = false ∨
        (runConsensus R results publicKeys t).agreedHash ≠ some r.stateHash) := by
  rw [runConsensus_faultyNodes, List.mem_append, invalidSigIds, List.mem_map, List.mem_map]
  constructor
  · rintro (⟨r, hr, rfl⟩ | ⟨r, hr, rfl⟩)
    · obtain ⟨hr, hhash⟩ := List.mem_filter.mp hr
      have hne := of_decide_eq_true hhash
      exact ⟨r, List.mem_of_mem_filter hr, rfl, .inr (Ne.symm hne)⟩
    · obtain ⟨hr, hacc⟩ := List.mem_filter.mp hr
      exact ⟨r, hr, rfl, .inl (by simpa using hacc)⟩
  · rintro ⟨r, hr, rfl, hbad⟩
    by_cases hacc : accepted publicKeys r = true
    · have hne := hbad.resolve_left (by simp [hacc])
      refine .inl ⟨r, List.mem_filter.mpr ⟨List.mem_filter.mpr ⟨hr, hacc⟩, ?_⟩, rfl⟩
      simpa using Ne.symm hne
    · exact .inr ⟨r, List.mem_filter.mpr ⟨hr, by simpa using hacc⟩, rfl⟩

theorem mem_honestNodes {r : NodeResult} (hr : r ∈ results) (hacc : accepted publicKeys r = true)
    (hhash : (runConsensus R results publicKeys t).agreedHash = some r.stateHash) :
    r.nodeId ∈ (runConsensus R results publicKeys t).honestNodes := by
  rw [runConsensus_honestNodes]
  refine List.mem_map_of_mem (List.mem_filter.mpr ⟨List.mem_filter.mpr ⟨hr, hacc⟩, ?_⟩)
  simpa using hhash.symm

/-- Rejected results are faulty as well. -/
theorem mem_faultyNodes_of_invalidSig {nodeId : String}
    (h : nodeId ∈ (runConsensus R results publicKeys t).invalidSigNodes) :
    nodeId ∈ (runConsensus R results publicKeys t).faultyNodes := by
  rw [runConsensus_invalidSigNodes] at h
  rw [runConsensus_faultyNodes]
  exact List.mem_append_right _ h

/-- When all verified results carry one hash, that hash wins. -/
theorem runConsensus_agreedHash_of_forall {w : String} {r : NodeResult} (hr : r ∈ results)
    (hacc : accepted publicKeys r = true)
    (hall : ∀ r ∈ results, accepted publicKeys r = true → r.stateHash = w) :
    (runConsensus R results publicKeys t).agreedHash = some w := by
  have hverified : r ∈ verifiedResults results publicKeys := List.mem_filter.mpr ⟨hr, hacc⟩
  have hne : ballots results publicKeys ≠ [] := List.ne_nil_of_mem (List.mem_map_of_mem hverified)
  obtain ⟨v, hv⟩ := Plurality.exists_of_ne_nil hne
  obtain ⟨r', hr', hhash⟩ := List.mem_map.mp hv.mem
  obtain ⟨hr', hacc'⟩ := List.mem_filter.mp hr'
  have hvw : v = w := hhash ▸ hall r' hr' hacc'
  exact hvw ▸ (runConsensus_agreedHash_iff R results publicKeys t v).mpr hv

end Lists

theorem voteStatus_honest {cr : ConsensusResult} {nodeId : String}
    (hsig : nodeId ∉ cr.invalidSigNodes) (hfaulty : nodeId ∉ cr.faultyNodes) :
    voteStatus cr nodeId = .honest := by
  simp [voteStatus, hsig, hfaulty]

namespace P2PNetwork

theorem mem_resultsOf_gather {net : P2PNetwork rt} {tx : Transaction}
    {channel : NodeServer rt → Channel} {r : NodeResult} :
    r ∈ resultsOf (net.gather tx channel) ↔ ∃ server ∈ net.participating, ∃ latencyMs,
      (sendToServer server tx (channel server)).2 = some (r, latencyMs) := by
  unfold resultsOf gather
  simp only [List.mem_filterMap, List.mem_map]
  constructor
  · rintro ⟨-, ⟨server, hserver, rfl⟩, hr⟩
    obtain ⟨⟨r', latencyMs⟩, hsend, rfl⟩ := Option.map_eq_some_iff.mp hr
    exact ⟨server, hserver, latencyMs, hsend⟩
  · rintro ⟨server, hserver, latencyMs, hsend⟩
    exact ⟨_, ⟨server, hserver, rfl⟩, by simp [hsend]⟩

/-- Servers that share an id are sent the transaction together. -/
theorem mem_participating_of_nodeId {net : P2PNetwork rt} {s s' : NodeServer rt}
    (hs : s ∈ net.participating) (hs' : s' ∈ net.servers) (hid : s'.nodeId = s.nodeId) :
    s' ∈ net.participating := by
  have hpart := (List.mem_filter.mp hs).2
  refine List.mem_filter.mpr ⟨hs', ?_⟩
  rw [isParticipating, hid]
  exact hpart

/-- A registered key is the key of some server under that id. -/
theorem get?_publicKeys_eq_some {net : P2PNetwork rt} {nodeId : String} {pk : rt.PublicKey}
    (h : net.publicKeys.get? nodeId = some pk) :
    ∃ server ∈ net.servers, server.nodeId = nodeId ∧ server.publicKey = pk := by
  obtain ⟨e, he, hid, hpk⟩ := OrderedDict.mem_of_get?_ofList h
  obtain ⟨server, hserver, rfl⟩ := List.mem_map.mp he
  exact ⟨server, hserver, hid, hpk⟩

/-- Every id has a server whose key is the one registered. -/
theorem exists_registered {net : P2PNetwork rt} {s : NodeServer rt} (hs : s ∈ net.servers) :
    ∃ owner ∈ net.servers, owner.nodeId = s.nodeId ∧
      net.publicKeys.get? s.nodeId = some owner.publicKey := by
  have hkey : s.nodeId ∈ net.publicKeys.keys := by
    rw [publicKeys, OrderedDict.mem_keys_ofList, List.map_map]
    exact List.mem_map_of_mem hs
  obtain ⟨pk, hpk⟩ := (OrderedDict.mem_keys_iff _ _).mp hkey
  obtain ⟨owner, howner, hid, rfl⟩ := get?_publicKeys_eq_some hpk
  exact ⟨owner, howner, hid, hpk⟩

/-! ## Sound attribution -/

/-- The result is under the server's own id, with its own valid signature, on the winner. -/
def VotedHonestly (server : NodeServer rt) (r : NodeResult) (cr : ConsensusResult) : Prop :=
  r.nodeId = server.nodeId ∧ cr.agreedHash = some r.stateHash ∧ ∃ signature,
    r.signature = some signature ∧
      verifyResult rt.toCrypto r.nodeId r.stateHash signature server.publicKey = true

/-- The result is rejected for its signature or diverges from the winner. -/
def VotedWrongly (net : P2PNetwork rt) (r : NodeResult) (cr : ConsensusResult) : Prop :=
  accepted (some net.publicKeys) r = false ∨ cr.agreedHash ≠ some r.stateHash

/-- Nothing is held against the vote `r`, neither in the result nor in the audit log. -/
structure Cleared (after : P2PNetwork rt) (r : NodeResult) (cr : ConsensusResult) : Prop where
  honest : r.nodeId ∈ cr.honestNodes
  notFaulty : r.nodeId ∉ cr.faultyNodes
  notInvalid : r.nodeId ∉ cr.invalidSigNodes
  audited : ∀ log, after.auditLog = some log → ∃ event, log.events.getLast? = some event ∧
    ⟨r.nodeId, r.stateHash, r.signature, .honest⟩ ∈ event.votes

/-- In a round that returns, honest votes are cleared and wrong votes are held against
the server that sent them. -/
def SoundAttribution (R : Rounding) (net : P2PNetwork rt) (now : ℕ) (tx : Transaction)
    (channel : NodeServer rt → Channel) : Prop :=
  ∀ results cr, (net.broadcast R now tx channel).2 = .ok (results, cr) →
    ∀ server ∈ net.participating, ∀ r latencyMs,
      (sendToServer server tx (channel server)).2 = some (r, latencyMs) →
        (VotedHonestly server r cr → Cleared (net.broadcast R now tx channel).1 r cr) ∧
        (net.VotedWrongly r cr → server.nodeId ∈ cr.faultyNodes)

/-- The results that arrive carry the given ids. -/
def Named (net : P2PNetwork rt) (tx : Transaction) (ids : NodeServer rt → String)
    (channel : NodeServer rt → Channel) : Prop :=
  ∀ server ∈ net.participating, ∀ r latencyMs,
    (sendToServer server tx (channel server)).2 = some (r, latencyMs) → r.nodeId = ids server

/-- A signature that passes is the sender's own, or that of an owner of the key who does
not reply under his own id and may have handed it over. -/
def Unforged (net : P2PNetwork rt) (tx : Transaction) (ids : NodeServer rt → String)
    (channel : NodeServer rt → Channel) : Prop :=
  ∀ server ∈ net.participating, ∀ r latencyMs,
    (sendToServer server tx (channel server)).2 = some (r, latencyMs) →
      accepted (some net.publicKeys) r = true →
        ∃ owner ∈ net.servers, owner.nodeId = r.nodeId ∧
          net.publicKeys.get? r.nodeId = some owner.publicKey ∧
          (owner = server ∨ ids owner ≠ owner.nodeId)

/-- Too few servers are asked, or every one of them replies under its own id and shares
it with no other. -/
def OwnNames (net : P2PNetwork rt) (ids : NodeServer rt → String) : Prop :=
  (net.participating.length : ℤ) < net.minResponses ∨
    ∀ server ∈ net.participating, ids server = server.nodeId ∧
      ∀ server' ∈ net.participating, server'.nodeId = server.nodeId → server' = server

variable {R : Rounding} {net : P2PNetwork rt} {now : ℕ} {tx : Transaction}
  {ids : NodeServer rt → String} {channel : NodeServer rt → Channel}

theorem publicKeys_ne_empty {nodeId : String} {pk : rt.PublicKey}
    (h : net.publicKeys.get? nodeId = some pk) : net.publicKeys.isEmpty = false := by
  by_contra hempty
  have hnil : net.publicKeys.entries = [] := by
    simpa [OrderedDict.isEmpty] using hempty
  rw [OrderedDict.get?, hnil] at h
  cases h

/-! ## Own names are enough -/

/-- A result under the sender's own id with its own valid signature passes. -/
theorem accepted_of_votedHonestly {server : NodeServer rt} {r : NodeResult} {cr : ConsensusResult}
    (hkey : net.publicKeys.get? server.nodeId = some server.publicKey)
    (h : VotedHonestly server r cr) : accepted (some net.publicKeys) r = true := by
  obtain ⟨hid, -, signature, hsig, hverify⟩ := h
  have hvalid : signatureValid rt.toCrypto net.publicKeys r = true := by
    rw [← hid] at hkey
    simp only [signatureValid, hkey, hsig]
    exact hverify
  simp [accepted, hvalid]

/-- A round that returns appends the event of its results to the audit log. -/
theorem broadcast_auditLog {results : List NodeResult} {cr : ConsensusResult} {log : AuditLog}
    (hok : (net.broadcast R now tx channel).2 = .ok (results, cr))
    (hlog : (net.broadcast R now tx channel).1.auditLog = some log) :
    ∃ old : AuditLog, log.events.getLast? = some (old.event now tx results cr) := by
  obtain ⟨rfl, hmin, rfl⟩ := broadcast_eq_ok R hok
  rw [(broadcast_of_le R hmin now).2] at hlog
  obtain ⟨old, -, rfl⟩ := Option.map_eq_some_iff.mp hlog
  exact ⟨old, by rw [AuditLog.record, List.getLast?_concat]⟩

section OwnNames

variable (hown : ∀ server ∈ net.participating, ids server = server.nodeId ∧
    ∀ server' ∈ net.participating, server'.nodeId = server.nodeId → server' = server)
include hown

/-- With own ids every server's key is the one registered. -/
theorem get?_publicKeys_of_ownNames {server : NodeServer rt} (hs : server ∈ net.participating) :
    net.publicKeys.get? server.nodeId = some server.publicKey := by
  obtain ⟨owner, howner, hid, hkey⟩ := exists_registered (List.mem_of_mem_filter hs)
  have heq : owner = server :=
    (hown server hs).2 owner (mem_participating_of_nodeId hs howner hid) hid
  rw [heq] at hkey
  exact hkey

/-- With own ids there is one result under each id. -/
theorem result_unique_of_ownNames (hnamed : net.Named tx ids channel) {server : NodeServer rt}
    (hs : server ∈ net.participating) {r r' : NodeResult} {latencyMs : ℚ}
    (hsend : (sendToServer server tx (channel server)).2 = some (r, latencyMs))
    (hr' : r' ∈ resultsOf (net.gather tx channel)) (hid : r'.nodeId = r.nodeId) : r' = r := by
  obtain ⟨sender, hsender, latencyMs', hsend'⟩ := mem_resultsOf_gather.mp hr'
  have hname : sender.nodeId = server.nodeId := by
    rw [← (hown sender hsender).1, ← hnamed sender hsender r' latencyMs' hsend', hid,
      hnamed server hs r latencyMs hsend, (hown server hs).1]
  have heq : sender = server := (hown server hs).2 sender hsender hname
  rw [heq, hsend] at hsend'
  exact (Prod.mk.inj (Option.some_inj.mp hsend')).1.symm

end OwnNames

/-- Own ids that are not shared make the attribution sound. -/
theorem soundAttribution_of_ownNames (hown : net.OwnNames ids)
    (hnamed : net.Named tx ids channel) : SoundAttribution R net now tx channel := by
  intro results cr hround server hserver r latencyMs hsend
  obtain ⟨rfl, hmin, rfl⟩ := broadcast_eq_ok R hround
  rcases hown with hfew | hown
  · have hle : (resultsOf (net.gather tx channel)).length ≤ net.participating.length := by
      rw [resultsOf_gather_length]
      exact List.countP_le_length
    omega
  · have hr : r ∈ resultsOf (net.gather tx channel) :=
      mem_resultsOf_gather.mpr ⟨server, hserver, latencyMs, hsend⟩
    refine ⟨fun hvote => ?_, fun hwrong => ?_⟩
    · have hacc := accepted_of_votedHonestly (get?_publicKeys_of_ownNames hown hserver) hvote
      have hnotFaulty : r.nodeId ∉ (runConsensus R (resultsOf (net.gather tx channel))
          (some net.publicKeys) net.quorumThreshold).faultyNodes := by
        intro hfaulty
        obtain ⟨r', hr', hid, hbad⟩ := (mem_faultyNodes_iff R _ _ _ _).mp hfaulty
        obtain rfl := result_unique_of_ownNames hown hnamed hserver hsend hr' hid
        rcases hbad with hbad | hbad
        · simp [hacc] at hbad
        · exact hbad hvote.2.1
      have hnotInvalid := fun h => hnotFaulty (mem_faultyNodes_of_invalidSig R _ _ _ h)
      refine ⟨mem_honestNodes R _ _ _ hr hacc hvote.2.1, hnotFaulty, hnotInvalid, ?_⟩
      intro log hlog
      obtain ⟨old, hevent⟩ := broadcast_auditLog hround hlog
      refine ⟨_, hevent, List.mem_map.mpr ⟨r, hr, ?_⟩⟩
      rw [voteStatus_honest hnotInvalid hnotFaulty]
    · have hid : r.nodeId = server.nodeId :=
        (hnamed server hserver r latencyMs hsend).trans (hown server hserver).1
      rw [← hid]
      exact (mem_faultyNodes_iff R _ _ _ _).mpr ⟨r, hr, rfl, hwrong⟩

/-! ## Borrowed names -/

/-- All servers report one made-up hash under the given ids; those selected by `signs`
have a signature made with the key of `owner`. -/
def borrowedNames (ids : NodeServer rt → String) (owner : NodeServer rt)
    (signs : NodeServer rt → Bool) (server : NodeServer rt) : Channel :=
  .byzantine (.result (ids server) "00" (if signs server then
    some (signResult rt.toCrypto (ids server) "00" owner.privateKey) else none)) 0

section Borrowed

variable {owner : NodeServer rt} {signs : NodeServer rt → Bool}

/-- The result that a server sends. -/
def borrowedResult (ids : NodeServer rt → String) (owner : NodeServer rt)
    (signs : NodeServer rt → Bool) (server : NodeServer rt) : NodeResult :=
  ⟨ids server, "00", [], none, if signs server then
    some (signResult rt.toCrypto (ids server) "00" owner.privateKey) else none⟩

theorem send_borrowedNames (server : NodeServer rt) :
    (sendToServer server tx (borrowedNames ids owner signs server)).2 =
      some (borrowedResult ids owner signs server, 0) := rfl

theorem named_borrowedNames : net.Named tx ids (borrowedNames ids owner signs) := by
  intro server _ r latencyMs hsend
  rw [send_borrowedNames] at hsend
  obtain ⟨rfl, -⟩ := Prod.mk.inj (Option.some_inj.mp hsend)
  rfl

theorem mem_results_borrowedNames {r : NodeResult} :
    r ∈ resultsOf (net.gather tx (borrowedNames ids owner signs)) ↔
      ∃ server ∈ net.participating, borrowedResult ids owner signs server = r := by
  simp [mem_resultsOf_gather, send_borrowedNames]

/-- Every server's result arrives, so the round returns. -/
theorem broadcast_borrowedNames (R : Rounding) (now : ℕ)
    (hmin : net.minResponses ≤ (net.participating.length : ℤ)) :
    (net.broadcast R now tx (borrowedNames ids owner signs)).2 =
      .ok (resultsOf (net.gather tx (borrowedNames ids owner signs)),
        runConsensus R (resultsOf (net.gather tx (borrowedNames ids owner signs)))
          (some net.publicKeys) net.quorumThreshold) := by
  have hlen : (resultsOf (net.gather tx (borrowedNames ids owner signs))).length =
      net.participating.length := by
    rw [resultsOf_gather_length]
    exact List.countP_eq_length.mpr fun server _ => rfl
  exact (broadcast_of_le R (by rw [hlen]; exact hmin) now).1

theorem accepted_borrowedResult {server : NodeServer rt} (hsign : signs server = true)
    (hkey : net.publicKeys.get? (ids server) = some owner.publicKey) :
    accepted (some net.publicKeys) (borrowedResult ids owner signs server) = true := by
  have hvalid : signatureValid rt.toCrypto net.publicKeys
      (borrowedResult ids owner signs server) = true := by
    simp only [signatureValid, borrowedResult, hkey, hsign, if_true]
    exact verifyResult_signResult rt.toCrypto (ids server) "00" owner.privateKey
  simp [accepted, hvalid]

theorem rejected_borrowedResult {server : NodeServer rt} (hsign : signs server = false)
    {nodeId : String} {pk : rt.PublicKey} (hkey : net.publicKeys.get? nodeId = some pk) :
    accepted (some net.publicKeys) (borrowedResult ids owner signs server) = false := by
  have hinvalid : signatureValid rt.toCrypto net.publicKeys
      (borrowedResult ids owner signs server) = false := by
    unfold signatureValid borrowedResult
    split
    · next hsig => simp [hsign] at hsig
    · rfl
  simp [accepted, hinvalid, publicKeys_ne_empty hkey]

/-- One signed result makes the made-up hash the winner. -/
theorem agreedHash_borrowedNames (R : Rounding) (tx : Transaction) {server : NodeServer rt}
    (hs : server ∈ net.participating) (hsign : signs server = true)
    (hkey : net.publicKeys.get? (ids server) = some owner.publicKey) :
    (runConsensus R (resultsOf (net.gather tx (borrowedNames ids owner signs)))
      (some net.publicKeys) net.quorumThreshold).agreedHash = some "00" := by
  refine runConsensus_agreedHash_of_forall R _ _ _
    (mem_results_borrowedNames.mpr ⟨server, hs, rfl⟩) (accepted_borrowedResult hsign hkey) ?_
  intro r hr _
  obtain ⟨server', -, rfl⟩ := mem_results_borrowedNames.mp hr
  rfl

end Borrowed

section Unsound

variable (hsound : ∀ channel, net.Named tx ids channel → net.Unforged tx ids channel →
    SoundAttribution R net now tx channel)
  (hmin : net.minResponses ≤ (net.participating.length : ℤ))
  {owner : NodeServer rt} (howner : owner ∈ net.participating)
  (hkey : net.publicKeys.get? owner.nodeId = some owner.publicKey)
include hsound hmin howner hkey

/-- The owner of a registered key replies under its own id: else all results under that id
could be signed with its key, and its own unsigned result would not be held against it. -/
theorem ids_eq_of_sound : ids owner = owner.nodeId := by
  by_contra hne
  let signs : NodeServer rt → Bool := fun server => ids server = owner.nodeId
  have hunforged : net.Unforged tx ids (borrowedNames ids owner signs) := by
    intro server _ r latencyMs hsend hacc
    rw [send_borrowedNames] at hsend
    obtain ⟨rfl, -⟩ := Prod.mk.inj (Option.some_inj.mp hsend)
    by_cases hsign : ids server = owner.nodeId
    · refine ⟨owner, List.mem_of_mem_filter howner, hsign.symm, ?_, .inr hne⟩
      exact (congrArg net.publicKeys.get? hsign).trans hkey
    · have hunsigned : signs server = false := by simp [signs, hsign]
      rw [rejected_borrowedResult hunsigned hkey] at hacc
      cases hacc
  have hwrong := (hsound _ named_borrowedNames hunforged _ _ (broadcast_borrowedNames R now hmin)
    owner howner _ _ (send_borrowedNames owner)).2
      (.inl (rejected_borrowedResult (by simp [signs, hne]) hkey))
  obtain ⟨r, hr, hid, hbad⟩ := (mem_faultyNodes_iff R _ _ _ _).mp hwrong
  obtain ⟨server, hserver, rfl⟩ := mem_results_borrowedNames.mp hr
  -- The result under the owner's id passes and carries the winner.
  have hsign : signs server = true := decide_eq_true hid
  have hkey' : net.publicKeys.get? (ids server) = some owner.publicKey :=
    (congrArg net.publicKeys.get? hid).trans hkey
  rcases hbad with hbad | hbad
  · rw [accepted_borrowedResult hsign hkey'] at hbad
    cases hbad
  · exact hbad (agreedHash_borrowedNames R tx hserver hsign hkey')

open Classical in
/-- No other server shares the owner's id: its unsigned result would have to be held
against that id, under which the owner voted honestly. -/
theorem eq_of_sound {server : NodeServer rt} (hserver : server ∈ net.participating)
    (hid : server.nodeId = owner.nodeId) : server = owner := by
  by_contra hne
  have hown : ids owner = owner.nodeId := ids_eq_of_sound hsound hmin howner hkey
  have hkey' : net.publicKeys.get? (ids owner) = some owner.publicKey := by
    rw [hown]
    exact hkey
  let signs : NodeServer rt → Bool := fun s => s = owner
  have hunforged : net.Unforged tx ids (borrowedNames ids owner signs) := by
    intro s hs r latencyMs hsend hacc
    rw [send_borrowedNames] at hsend
    obtain ⟨rfl, -⟩ := Prod.mk.inj (Option.some_inj.mp hsend)
    by_cases hsign : s = owner
    · subst hsign
      exact ⟨s, List.mem_of_mem_filter howner, hown.symm, hkey', .inl rfl⟩
    · have hunsigned : signs s = false := by simp [signs, hsign]
      rw [rejected_borrowedResult hunsigned hkey] at hacc
      cases hacc
  have hround := hsound _ named_borrowedNames hunforged _ _ (broadcast_borrowedNames R now hmin)
  have hsigned : signs owner = true := by simp [signs]
  have hagreed := agreedHash_borrowedNames R tx howner hsigned hkey'
  have hclear := (hround owner howner _ _ (send_borrowedNames owner)).1
    ⟨hown, hagreed, _, by simp [borrowedResult, signs], verifyResult_signResult _ _ _ _⟩
  have hfaulty := (hround server hserver _ _ (send_borrowedNames server)).2
    (.inl (rejected_borrowedResult (by simp [signs, hne]) hkey))
  rw [hid, ← hown] at hfaulty
  exact hclear.notFaulty hfaulty

end Unsound

theorem ownNames_of_sound (hsound : ∀ channel, net.Named tx ids channel →
    net.Unforged tx ids channel → SoundAttribution R net now tx channel) : net.OwnNames ids := by
  by_cases hmin : net.minResponses ≤ (net.participating.length : ℤ)
  · refine .inr fun server hserver => ?_
    obtain ⟨owner, howner, hid, hkey⟩ := exists_registered (List.mem_of_mem_filter hserver)
    have howner := mem_participating_of_nodeId hserver howner hid
    rw [← hid] at hkey
    have heq : server = owner := eq_of_sound hsound hmin howner hkey hserver hid.symm
    subst heq
    exact ⟨ids_eq_of_sound hsound hmin hserver hkey,
      fun server' hserver' hid' => eq_of_sound hsound hmin hserver hkey hserver' hid'⟩
  · exact .inl (not_le.mp hmin)

/-- Whatever hashes and signatures the replies carry, faults are attributed soundly exactly
when the servers reply under their own ids. -/
theorem soundAttribution_iff (R : Rounding) (net : P2PNetwork rt) (now : ℕ) (tx : Transaction)
    (ids : NodeServer rt → String) :
    (∀ channel, net.Named tx ids channel → net.Unforged tx ids channel →
      SoundAttribution R net now tx channel) ↔ net.OwnNames ids :=
  ⟨ownNames_of_sound, fun hown _ hnamed _ => soundAttribution_of_ownNames hown hnamed⟩

/-! ## An honest node accused -/

/-- The third server replies under the first one's name. -/
def stolenName (server : NodeServer (referenceRuntime false)) : String :=
  if thirdServer server then "Node-1" else server.nodeId

def nameThief (server : NodeServer (referenceRuntime false)) : Channel :=
  if thirdServer server then .byzantine (.result "Node-1" "00" none) 0 else .answered 0

theorem nodeId_of_answered {server : NodeServer rt} {tx : Transaction} {sent latencyMs : ℚ}
    {r : NodeResult}
    (h : (sendToServer server tx (.answered sent)).2 = some (r, latencyMs)) :
    r.nodeId = server.nodeId := by
  cases hreply : (server.handleClient tx).2 with
  | error e => simp [sendToServer, hreply, receive] at h
  | result nodeId stateHash signature =>
    simp only [sendToServer, hreply, receive] at h
    obtain ⟨rfl, -⟩ := Prod.mk.inj (Option.some_inj.mp h)
    exact NodeServer.nodeId_of_handleClient hreply

theorem named_nameThief : overdraftNetwork.Named withdrawal stolenName nameThief := by
  intro server _ r latencyMs hsend
  unfold nameThief at hsend
  by_cases hthird : thirdServer server = true
  · simp only [hthird, if_true, sendToServer, receive] at hsend
    obtain ⟨rfl, -⟩ := Prod.mk.inj (Option.some_inj.mp hsend)
    simp [stolenName, hthird]
  · rw [if_neg hthird] at hsend
    rw [nodeId_of_answered hsend, stolenName, if_neg hthird]

theorem unforged_nameThief : overdraftNetwork.Unforged withdrawal stolenName nameThief := by
  intro server hserver r latencyMs hsend hacc
  have hmem : server ∈ overdraftNetwork.servers := List.mem_of_mem_filter hserver
  have hname := named_nameThief server hserver r latencyMs hsend
  unfold nameThief at hsend
  by_cases hthird : thirdServer server = true
  · simp only [hthird, if_true, sendToServer, receive] at hsend
    obtain ⟨rfl, -⟩ := Prod.mk.inj (Option.some_inj.mp hsend)
    exact absurd hacc (by decide)
  · rw [stolenName, if_neg hthird] at hname
    refine ⟨server, hmem, hname.symm, ?_, .inl rfl⟩
    rw [hname]
    exact get?_publicKeys honestMajority_overdraft.distinct hmem

/-- An unsigned reply under the first server's name is held against that server, which
answers as coded, and not against its sender. -/
theorem honest_node_accused :
    overdraftNetwork.Named withdrawal stolenName nameThief ∧
    overdraftNetwork.Unforged withdrawal stolenName nameThief ∧
    ListsFaulty "Node-1" (overdraftNetwork.broadcast .binary64 0 withdrawal nameThief).2 ∧
    ¬ SoundAttribution .binary64 overdraftNetwork 0 withdrawal nameThief := by
  obtain ⟨haccused, hunnamed⟩ : ListsFaulty "Node-1"
      (overdraftNetwork.broadcast .binary64 0 withdrawal nameThief).2 ∧ ¬ ListsFaulty "Node-3"
      (overdraftNetwork.broadcast .binary64 0 withdrawal nameThief).2 := by decide +kernel
  refine ⟨named_nameThief, unforged_nameThief, haccused, fun hsound => ?_⟩
  let thief : NodeServer (referenceRuntime false) :=
    .init _ "Node-3" overdraftState "127.0.0.1" 9003 [3] false
  have hthief : thief ∈ overdraftNetwork.participating :=
    List.mem_filter.mpr ⟨by simp [overdraftNetwork, P2PNetwork.init, thief], by decide⟩
  cases hround : (overdraftNetwork.broadcast .binary64 0 withdrawal nameThief).2 with
  | error e =>
    rw [hround] at haccused
    exact haccused
  | ok out =>
    obtain ⟨results, cr⟩ := out
    have hrejected : accepted (some overdraftNetwork.publicKeys)
        ⟨"Node-1", "00", [], none, none⟩ = false := by decide
    have hfaulty := (hsound results cr hround thief hthief _ _ rfl).2 (.inl hrejected)
    rw [hround] at hunnamed
    exact hunnamed hfaulty

end P2PNetwork
end ECN
