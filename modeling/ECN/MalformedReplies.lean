import ECN.Attribution
import ECN.Wire

/-!
# Malformed replies

A majority that returns one honestly signed hash decides every round that returns. What
the other replies can do is keep it from returning: a value of the wrong type raises in
the lookup of a key, in the check of a signature, in the counter or in the report, after
all servers have executed the transaction. `Harmless` says exactly which replies do not.
-/
namespace ECN.Wire

variable {rt : Runtime} {containerRepr : Json → String} {R : Rounding}
  {results : List WireResult} {keys : OrderedDict String rt.PublicKey} {t : ℚ}

/-! ## The votes of a round -/

variable {net : P2PNetwork rt} {replies : NodeServer rt → Option (Json × ℚ)} {verbose : Bool}
  {now : ℕ} {honest : NodeServer rt → Bool} {h : String}

theorem mem_resultsOf_gather {r : WireResult} : r ∈ resultsOf (gather net replies) ↔
    ∃ server ∈ net.participating, ∃ latencyMs, response (replies server) = some (r, latencyMs) := by
  unfold resultsOf gather
  simp only [List.mem_filterMap, List.mem_map]
  constructor
  · rintro ⟨-, ⟨server, hserver, rfl⟩, hr⟩
    obtain ⟨⟨r', latencyMs⟩, hsend, rfl⟩ := Option.map_eq_some_iff.mp hr
    exact ⟨server, hserver, latencyMs, hsend⟩
  · rintro ⟨server, hserver, latencyMs, hsend⟩
    exact ⟨_, ⟨server, hserver, rfl⟩, by simp [hsend]⟩

/-- More than half of all servers return the hash `h` under their own ids, signed with
their registered keys. -/
structure HonestMajority (net : P2PNetwork rt) (replies : NodeServer rt → Option (Json × ℚ))
    (honest : NodeServer rt → Bool) (h : String) : Prop where
  majority : net.servers.length < 2 * (net.participating.filter honest).length
  votes : ∀ server ∈ net.participating, honest server = true →
    net.publicKeys.get? server.nodeId = some server.publicKey ∧ ∃ signature latencyMs,
      response (replies server) = some (⟨.text server.nodeId, .text h, .text signature⟩, latencyMs) ∧
      ECN.verifyResult rt.toCrypto server.nodeId h signature server.publicKey = true

/-- What one server adds to the counter. -/
def voteOf (containerRepr : Json → String) (net : P2PNetwork rt)
    (replies : NodeServer rt → Option (Json × ℚ)) (server : NodeServer rt) : Option JsonScalar :=
  match response (replies server) with
  | some (r, _) => if counted containerRepr net.publicKeys r then some (hashKey r) else none
  | none => none

theorem hashes_gather (containerRepr : Json → String) (net : P2PNetwork rt)
    (replies : NodeServer rt → Option (Json × ℚ)) : ((resultsOf (gather net replies)).filter
    (counted containerRepr net.publicKeys)).map hashKey =
      net.participating.filterMap (voteOf containerRepr net replies) := by
  unfold resultsOf gather
  rw [List.filter_filterMap, List.map_filterMap, List.filterMap_map]
  congr 1
  funext server
  dsimp only [Function.comp, voteOf]
  cases response (replies server) with
  | none => rfl
  | some p =>
    by_cases hc : counted containerRepr net.publicKeys p.1 = true
    · simp [hc, Option.filter]
    · simp [hc, Option.filter]

theorem HonestMajority.voteOf_eq (hm : HonestMajority net replies honest h)
    {server : NodeServer rt} (hs : server ∈ net.participating) (hh : honest server = true) :
    voteOf containerRepr net replies server = some (.str (.text h)) := by
  obtain ⟨hkey, signature, latencyMs, hresponse, hverify⟩ := hm.votes server hs hh
  have hacc : accepted containerRepr net.publicKeys
      ⟨.text server.nodeId, .text h, .text signature⟩ = some true := by
    simp [accepted, P2PNetwork.publicKeys_ne_empty hkey, hkey, verifyResult, Json.pyStr,
      PyStr.encode, hverify]
  simp [voteOf, hresponse, counted, hacc, hashKey, Json.asKey]

/-- The honest hash has more than half of the counted votes, and its share of them is at
least its share of all servers. -/
theorem HonestMajority.count_le (hm : HonestMajority net replies honest h)
    (containerRepr : Json → String) :
    (net.participating.filter honest).length ≤
      (net.participating.filterMap (voteOf containerRepr net replies)).count (.str (.text h)) ∧
    (net.participating.filterMap (voteOf containerRepr net replies)).length ≤
      net.servers.length := by
  constructor
  · rw [List.count_filterMap, ← List.countP_eq_length_filter]
    refine List.countP_mono_left fun server hs hh => ?_
    simp [hm.voteOf_eq hs hh]
  · exact (List.length_filterMap_le _ _).trans (List.length_filter_le _ _)

theorem share_le_share {k c v n : ℕ} (hk : k ≤ c) (hv : v ≤ n) (hpos : 0 < v) :
    (k : ℚ) / n ≤ (c : ℚ) / v := by
  rw [div_le_div_iff₀ (by exact_mod_cast hpos.trans_le hv) (by exact_mod_cast hpos)]
  exact_mod_cast Nat.mul_le_mul hk hv

/-- A broadcast that returns had enough results, read them all and printed them. -/
theorem broadcast_eq_ok {cr : WireConsensus}
    (hok : (broadcast R containerRepr net now verbose replies).2 = .ok (results, cr)) :
    results = resultsOf (gather net replies) ∧
      net.minResponses ≤ ((resultsOf (gather net replies)).length : ℤ) ∧
      runConsensus containerRepr R (resultsOf (gather net replies)) net.publicKeys
        net.quorumThreshold = some cr ∧
      (verbose = true → ∀ r ∈ resultsOf (gather net replies), linePrints r = true) := by
  unfold broadcast at hok
  dsimp only at hok
  split at hok
  · cases hok
  · next hmin =>
    split at hok
    · cases hok
    · next cr' hcr =>
      split at hok
      · cases hok
      · next hprints =>
        cases hok
        refine ⟨rfl, not_lt.mp hmin, hcr, fun hv => ?_⟩
        rw [hv] at hprints
        simpa using hprints

theorem broadcast_of_runConsensus {cr : WireConsensus}
    (hmin : net.minResponses ≤ ((resultsOf (gather net replies)).length : ℤ))
    (hcr : runConsensus containerRepr R (resultsOf (gather net replies)) net.publicKeys
      net.quorumThreshold = some cr)
    (hprints : verbose = true → ∀ r ∈ resultsOf (gather net replies), linePrints r = true)
    (now : ℕ) : (broadcast R containerRepr net now verbose replies).2 =
      .ok (resultsOf (gather net replies), cr) := by
  have hreport : (verbose && !(resultsOf (gather net replies)).all linePrints) = false := by
    cases verbose with
    | false => rfl
    | true => simpa using hprints rfl
  unfold broadcast
  dsimp only
  rw [if_neg (not_lt.mpr hmin), hcr]
  dsimp only
  rw [hreport]
  rfl

/-! ## Withstanding malformed replies -/

/-- The result is held against the node that it names. -/
def HeldAgainst (containerRepr : Json → String) (keys : OrderedDict String rt.PublicKey)
    (cr : WireConsensus) (r : WireResult) : Prop :=
  accepted containerRepr keys r = some false ∨
    ∃ k, r.stateHash = .scalar k ∧ k.eq cr.agreedHash = false

/-- The broadcast returns with consensus on the honest hash, and whatever reply is held
against a node is held against its sender. -/
def Withstands (R : Rounding) (containerRepr : Json → String) (net : P2PNetwork rt) (now : ℕ)
    (verbose : Bool) (replies : NodeServer rt → Option (Json × ℚ)) (h : String) : Prop :=
  ∃ results cr, (broadcast R containerRepr net now verbose replies).2 = .ok (results, cr) ∧
    cr.agreedHash = .str (.text h) ∧ cr.consensusReached = true ∧
    ∀ server ∈ net.participating, ∀ r latencyMs, response (replies server) = some (r, latencyMs) →
      HeldAgainst containerRepr net.publicKeys cr r → r.nodeId = .text server.nodeId

/-- A result of `server` that nothing rejects with an exception and that is a vote for `h`
or carries the server's own id. -/
structure Harmless (containerRepr : Json → String) (keys : OrderedDict String rt.PublicKey)
    (verbose : Bool) (h : String) (server : NodeServer rt) (r : WireResult) : Prop where
  hashableId : ∃ k, r.nodeId = .scalar k
  textSignature : ∀ nodeId publicKey, r.nodeId = .text nodeId →
    keys.get? nodeId = some publicKey →
      r.signature = .null ∨ (∃ s, r.signature = .scalar (.str s)) ∨
        (r.stateHash.pyStr rt.toInterp containerRepr).encode = none
  hashableHash : accepted containerRepr keys r = some true → ∃ k, r.stateHash = .scalar k
  prints : verbose = true → linePrints r = true
  ownId : ¬ (accepted containerRepr keys r = some true ∧ r.stateHash = .text h) →
    r.nodeId = .text server.nodeId

/-- Enough results can be read, and all of them are harmless. -/
def AllHarmless (containerRepr : Json → String) (net : P2PNetwork rt) (verbose : Bool)
    (replies : NodeServer rt → Option (Json × ℚ)) (h : String) : Prop :=
  net.minResponses ≤ ((resultsOf (gather net replies)).length : ℤ) ∧
    ∀ server ∈ net.participating, ∀ r latencyMs, response (replies server) = some (r, latencyMs) →
      Harmless containerRepr net.publicKeys verbose h server r

theorem verifyResult_isSome_iff (nodeId : String) (stateHash signature : Json)
    (publicKey : rt.PublicKey) :
    (verifyResult containerRepr nodeId stateHash signature publicKey).isSome = true ↔
      (∃ s, signature = .scalar (.str s)) ∨
        (stateHash.pyStr rt.toInterp containerRepr).encode = none := by
  unfold verifyResult
  cases (stateHash.pyStr rt.toInterp containerRepr).encode with
  | none => simp
  | some hashText =>
    rcases signature with (_ | _ | _ | _ | (_ | _)) | _ | _ <;> simp [PyStr.encode]

theorem accepted_isSome_iff {r : WireResult} (hkeys : keys.isEmpty = false) :
    (accepted containerRepr keys r).isSome = true ↔ (∃ k, r.nodeId = .scalar k) ∧
      ∀ nodeId publicKey, r.nodeId = .text nodeId → keys.get? nodeId = some publicKey →
        r.signature = .null ∨ (∃ s, r.signature = .scalar (.str s)) ∨
          (r.stateHash.pyStr rt.toInterp containerRepr).encode = none := by
  obtain ⟨nodeId, stateHash, signature⟩ := r
  unfold accepted
  rw [hkeys, if_neg Bool.false_ne_true]
  rcases nodeId with (_ | _ | _ | _ | (nodeId | _)) | _ | _
  · simp
  · simp
  · simp
  · simp
  · -- Only a registered id has its signature read.
    have hread : ∀ {P : Prop}, ((∃ k, Json.scalar (.str (.text nodeId)) = .scalar k) ∧
        ∀ nodeId' publicKey, Json.scalar (.str (.text nodeId)) = .text nodeId' →
          keys.get? nodeId' = some publicKey → P) ↔
        ∀ publicKey, keys.get? nodeId = some publicKey → P := by
      intro P
      constructor
      · rintro ⟨-, hall⟩ publicKey hget
        exact hall nodeId publicKey rfl hget
      · intro hall
        refine ⟨⟨_, rfl⟩, fun nodeId' publicKey hid hget => ?_⟩
        obtain rfl : nodeId = nodeId' := by simpa using hid
        exact hall publicKey hget
    rw [hread]
    cases hget : keys.get? nodeId with
    | none => simp only [hget, Option.isSome_some, reduceCtorEq, false_imp_iff, implies_true]
    | some publicKey =>
      simp only [hget, Option.some.injEq, forall_eq']
      rcases signature with (_ | _ | _ | _ | _) | _ | _ <;> simp [verifyResult_isSome_iff]
  · simp
  · simp
  · simp

theorem counted_iff {r : WireResult} :
    counted containerRepr keys r = true ↔ accepted containerRepr keys r = some true := by
  unfold counted
  cases accepted containerRepr keys r <;> simp

theorem asKey_isSome_iff (v : Json) : v.asKey.isSome = true ↔ ∃ k, v = .scalar k := by
  cases v <;> simp [Json.asKey]

section

variable (hm : HonestMajority net replies honest h)
include hm

theorem HonestMajority.exists_vote : ∃ server ∈ net.participating, honest server = true := by
  have hpos : 0 < (net.participating.filter honest).length := by
    have hmaj := hm.majority
    omega
  obtain ⟨server, hmem⟩ := List.exists_mem_of_length_pos hpos
  exact ⟨server, List.mem_of_mem_filter hmem, (List.mem_filter.mp hmem).2⟩

theorem HonestMajority.keys_ne_empty : net.publicKeys.isEmpty = false := by
  obtain ⟨server, hs, hh⟩ := hm.exists_vote
  exact P2PNetwork.publicKeys_ne_empty (hm.votes server hs hh).1

/-- Every round with an honest majority whose results can be read ends in consensus on the
honest hash. -/
theorem HonestMajority.runConsensus
    (hread : ∀ r ∈ resultsOf (gather net replies),
      (accepted containerRepr net.publicKeys r).isSome = true)
    (hkey : ∀ r ∈ resultsOf (gather net replies), counted containerRepr net.publicKeys r = true →
      r.stateHash.asKey.isSome = true)
    (ht : net.quorumThreshold ≤
      R (((net.participating.filter honest).length : ℚ) / net.servers.length)) :
    ∃ cr, Wire.runConsensus containerRepr R (resultsOf (gather net replies)) net.publicKeys
        net.quorumThreshold = some cr ∧
      cr.agreedHash = .str (.text h) ∧ cr.consensusReached = true := by
  obtain ⟨hcount, hlength⟩ := hm.count_le containerRepr
  have hmaj := hm.majority
  have hhashes := hashes_gather containerRepr net replies
  have hhalf : (net.participating.filterMap (voteOf containerRepr net replies)).length <
      2 * (net.participating.filterMap (voteOf containerRepr net replies)).count
        (.str (.text h)) := by omega
  have hwin := selectWinner_counter hhalf
  have hne : (resultsOf (gather net replies)).filter (counted containerRepr net.publicKeys) ≠ [] := by
    intro hnil
    rw [hnil] at hhashes
    rw [← hhashes] at hcount
    simp only [List.map_nil, List.count_nil, Nat.le_zero] at hcount
    omega
  rw [← hhashes] at hwin hcount hlength
  refine ⟨_, runConsensus_of_readable hread hkey hne hwin, rfl, ?_⟩
  simp only [WireConsensus.init, sum_counter, votesFor_counter, ne_eq, reduceCtorEq,
    not_false_eq_true, true_and]
  have hpos : 0 < (((resultsOf (gather net replies)).filter
      (counted containerRepr net.publicKeys)).map hashKey).length := by
    rw [List.length_map]
    exact List.length_pos_iff.mpr hne
  rw [if_pos hpos, decide_eq_true_eq]
  exact ht.trans (R.mono (share_le_share hcount hlength hpos))

theorem allHarmless_of_withstands (hw : Withstands R containerRepr net now verbose replies h) :
    AllHarmless containerRepr net verbose replies h := by
  obtain ⟨results, cr, hok, hagreed, -, hblamed⟩ := hw
  obtain ⟨rfl, hmin, hcr, hprints⟩ := broadcast_eq_ok hok
  obtain ⟨hread, hkey⟩ := readable_of_runConsensus hcr
  refine ⟨hmin, fun server hs r latencyMs hr => ?_⟩
  have hmem := mem_resultsOf_gather.mpr ⟨server, hs, latencyMs, hr⟩
  obtain ⟨hid, hsig⟩ := (accepted_isSome_iff hm.keys_ne_empty).mp (hread r hmem)
  have hhash : accepted containerRepr net.publicKeys r = some true →
      ∃ k, r.stateHash = .scalar k :=
    fun hacc => (asKey_isSome_iff _).mp (hkey r hmem (counted_iff.mpr hacc))
  refine ⟨hid, hsig, hhash, fun hv => hprints hv r hmem,
    fun hno => hblamed server hs r latencyMs hr ?_⟩
  have hacc := accepted_eq_counted (hread r hmem)
  cases hc : counted containerRepr net.publicKeys r with
  | false => exact .inl (hc ▸ hacc)
  | true =>
    rw [hc] at hacc
    obtain ⟨k, hk⟩ := hhash hacc
    refine .inr ⟨k, hk, ?_⟩
    rw [hagreed, JsonScalar.eq_text, decide_eq_false_iff_not]
    rintro rfl
    exact hno ⟨hacc, hk⟩

theorem withstands_of_allHarmless (hall : AllHarmless containerRepr net verbose replies h)
    (ht : net.quorumThreshold ≤
      R (((net.participating.filter honest).length : ℚ) / net.servers.length)) (now : ℕ) :
    Withstands R containerRepr net now verbose replies h := by
  obtain ⟨hmin, hall⟩ := hall
  have hread : ∀ r ∈ resultsOf (gather net replies),
      (accepted containerRepr net.publicKeys r).isSome = true := by
    intro r hr
    obtain ⟨server, hs, latencyMs, hsend⟩ := mem_resultsOf_gather.mp hr
    have hharm := hall server hs r latencyMs hsend
    exact (accepted_isSome_iff hm.keys_ne_empty).mpr ⟨hharm.hashableId, hharm.textSignature⟩
  have hkey : ∀ r ∈ resultsOf (gather net replies),
      counted containerRepr net.publicKeys r = true → r.stateHash.asKey.isSome = true := by
    intro r hr hcounted
    obtain ⟨server, hs, latencyMs, hsend⟩ := mem_resultsOf_gather.mp hr
    exact (asKey_isSome_iff _).mpr
      ((hall server hs r latencyMs hsend).hashableHash (counted_iff.mp hcounted))
  have hprints : verbose = true → ∀ r ∈ resultsOf (gather net replies), linePrints r = true := by
    intro hv r hr
    obtain ⟨server, hs, latencyMs, hsend⟩ := mem_resultsOf_gather.mp hr
    exact (hall server hs r latencyMs hsend).prints hv
  obtain ⟨cr, hcr, hagreed, hreached⟩ := hm.runConsensus hread hkey ht
  refine ⟨_, cr, broadcast_of_runConsensus hmin hcr hprints now, hagreed, hreached, ?_⟩
  intro server hs r latencyMs hsend hheld
  refine (hall server hs r latencyMs hsend).ownId ?_
  rintro ⟨hacc, hhash⟩
  rcases hheld with hrejected | ⟨k, hk, hne⟩
  · rw [hacc] at hrejected
    cases hrejected
  · rw [hhash] at hk
    injection hk with hk
    rw [hagreed, ← hk] at hne
    simp at hne

/-- With an honest majority the broadcast withstands the other replies exactly when they
are harmless. -/
theorem withstands_iff (R : Rounding) (containerRepr : Json → String) (now : ℕ) (verbose : Bool)
    (ht : net.quorumThreshold ≤
      R (((net.participating.filter honest).length : ℚ) / net.servers.length)) :
    Withstands R containerRepr net now verbose replies h ↔
      AllHarmless containerRepr net verbose replies h :=
  ⟨allHarmless_of_withstands hm, fun hall => withstands_of_allHarmless hm hall ht now⟩

end

/-! ## Two rounds with an honest majority -/

/-- The first two servers sign one hash, and the third replies `data`. -/
def thirdReplies (data : Json) (server : NodeServer (referenceRuntime false)) :
    Option (Json × ℚ) :=
  if thirdServer server then some (data, 0)
  else some (.object [(.text "node_id", .text server.nodeId), (.text "state_hash", .text "00"),
    (.text "signature", .text (signResult referenceCrypto server.nodeId "00" server.privateKey))], 0)

def honestServer (server : NodeServer (referenceRuntime false)) : Bool := !thirdServer server

theorem response_thirdReplies {data : Json} {server : NodeServer (referenceRuntime false)}
    (hthird : thirdServer server = false) : response (thirdReplies data server) =
      some (⟨.text server.nodeId, .text "00",
        .text (signResult referenceCrypto server.nodeId "00" server.privateKey)⟩, 0) := by
  rw [thirdReplies, hthird]
  rfl

theorem honestMajority_thirdReplies (data : Json) :
    HonestMajority overdraftNetwork (thirdReplies data) honestServer "00" where
  majority := by decide
  votes := by
    intro server hs hh
    have hthird : thirdServer server = false := by simpa [honestServer] using hh
    exact ⟨P2PNetwork.get?_publicKeys honestMajority_overdraft.distinct
      (List.mem_of_mem_filter hs), _, 0, response_thirdReplies hthird,
      verifyResult_signResult referenceCrypto server.nodeId "00" server.privateKey⟩

theorem threshold_overdraftNetwork : overdraftNetwork.quorumThreshold ≤ Rounding.binary64
    (((overdraftNetwork.participating.filter honestServer).length : ℚ) /
      overdraftNetwork.servers.length) := by
  decide +kernel

/-- An id that is a list. -/
def unhashableReply : Json :=
  .object [(.text "node_id", .list []), (.text "state_hash", .text "00")]

/-- A reply with an id that is a list keeps a broadcast from returning. -/
theorem unhashable_id_aborts :
    ¬ ∀ (R : Rounding) (containerRepr : Json → String) (rt : Runtime) (net : P2PNetwork rt)
      (now : ℕ) (verbose : Bool) (replies : NodeServer rt → Option (Json × ℚ))
      (honest : NodeServer rt → Bool) (h : String), HonestMajority net replies honest h →
        net.quorumThreshold ≤
          R (((net.participating.filter honest).length : ℚ) / net.servers.length) →
        Withstands R containerRepr net now verbose replies h := by
  intro hall
  have hwithstands := hall .binary64 (fun _ => "") _ overdraftNetwork 0 false
    (thirdReplies unhashableReply) honestServer "00" (honestMajority_thirdReplies unhashableReply)
    threshold_overdraftNetwork
  obtain ⟨-, hharmless⟩ := allHarmless_of_withstands
    (honestMajority_thirdReplies unhashableReply) hwithstands
  let third : NodeServer (referenceRuntime false) :=
    .init _ "Node-3" overdraftState "127.0.0.1" 9003 [3] false
  have hthird : third ∈ overdraftNetwork.participating :=
    List.mem_filter.mpr ⟨by simp [overdraftNetwork, P2PNetwork.init, third], by decide⟩
  obtain ⟨k, hk⟩ := (hharmless third hthird ⟨.list [], .text "00", .null⟩ 0 rfl).hashableId
  cases hk

/-- A number for a hash, and no signature. -/
def untypedReply : Json :=
  .object [(.text "node_id", .text "Node-3"), (.text "state_hash", .scalar (.int 7))]

/-- An unsigned reply with a number for a hash is counted as a fault of its sender. -/
theorem untyped_hash_withstood :
    Withstands .binary64 (fun _ => "") overdraftNetwork 0 true (thirdReplies untypedReply) "00" := by
  refine (withstands_iff (honestMajority_thirdReplies untypedReply) .binary64 (fun _ => "") 0 true
    threshold_overdraftNetwork).mpr ⟨by decide, fun server hs r latencyMs hr => ?_⟩
  by_cases hthird : thirdServer server = true
  · rw [thirdReplies, if_pos hthird] at hr
    obtain ⟨rfl, -⟩ := Prod.mk.inj (Option.some_inj.mp hr)
    have hid : server.nodeId = "Node-3" := of_decide_eq_true hthird
    have hrejected : accepted (fun _ => "") overdraftNetwork.publicKeys
        ⟨.text "Node-3", .scalar (.int 7), .null⟩ = some false := by decide
    exact ⟨⟨_, rfl⟩, fun _ _ _ _ => .inl rfl, fun _ => ⟨_, rfl⟩, fun _ => by decide,
      fun _ => by rw [hid]⟩
  · rw [response_thirdReplies (by simpa using hthird)] at hr
    obtain ⟨rfl, -⟩ := Prod.mk.inj (Option.some_inj.mp hr)
    exact ⟨⟨_, rfl⟩, fun _ _ _ _ => .inr (.inl ⟨_, rfl⟩), fun _ => ⟨_, rfl⟩, fun _ => rfl,
      fun _ => rfl⟩

end ECN.Wire
