import ECN.JsonTree
import ECN.ReferenceRuntime

/-!
# The state hash as a commitment

The default hash digests the canonical text of the state. Texts of JSON states are equal
exactly when the states are equal up to the order of object keys, and encoding and
hexadecimal notation lose nothing, so only a collision of the digest can identify two
different states.
-/
namespace ECN

theorem utf8_injective : Function.Injective utf8 := by
  have hbytes : ∀ s : String, s.toByteArray = (utf8 s).toByteArray := by
    intro s
    have hlist : (String.ofList s.toList).toByteArray = s.toList.utf8Encode :=
      String.toByteArray_ofList
    rw [String.ofList_toList] at hlist
    exact hlist
  intro s t h
  rw [← String.toByteArray_inj, hbytes, hbytes, h]

theorem toHex_injective : Function.Injective toHex := by
  intro xs ys h
  have hread := congrArg fromHex h
  rwa [fromHex_toHex, fromHex_toHex, Option.some.injEq] at hread

theorem sha256_eq_of_hexDigest {crypto : Crypto} {xs ys : List UInt8}
    (h : hexDigest crypto xs = hexDigest crypto ys) : crypto.sha256 xs = crypto.sha256 ys :=
  Subtype.ext (toHex_injective h)

variable {rt : Runtime}

theorem stateHash_json {word : Scalar → Bool} {state : State} (h : JsonOver word (.dict state)) :
    stateHash rt false state =
      .ok (hexDigest rt.toCrypto (utf8 ((Value.dict state).text rt.toInterp))) := by
  simp only [stateHash, Bool.false_eq_true, if_false, h.dumps_eq]
  rfl

/-- The digest does not collide on the canonical texts of the two states. -/
def CollisionFree (rt : Runtime) (state state' : State) : Prop :=
  ∀ text text', (Value.dict state).dumps rt.toInterp = .ok text →
    (Value.dict state').dumps rt.toInterp = .ok text' →
      rt.sha256 (utf8 text) = rt.sha256 (utf8 text') → utf8 text = utf8 text'

/-- Equal digests of JSON states that do not collide come from the same state. -/
theorem stateHash_eq_iff_same {word : Scalar → Bool} (hword : WordTexts rt.toInterp word)
    {state state' : State} (hs : JsonOver word (.dict state)) (hs' : JsonOver word (.dict state'))
    (hfree : CollisionFree rt state state') :
    stateHash rt false state = stateHash rt false state' ↔
      (Value.dict state).same (.dict state') = true := by
  rw [stateHash_json hs, stateHash_json hs', ← text_eq_iff_same hword hs hs']
  refine ⟨fun h => ?_, fun h => by rw [h]⟩
  have hdigest := sha256_eq_of_hexDigest (Except.ok.inj h)
  exact utf8_injective (hfree _ _ hs.dumps_eq hs'.dumps_eq hdigest)

/-- Without the Merkle tree the hash commits to the whole state: managers over JSON states
hash, and when the digest does not collide on the two texts, their hashes agree exactly
when the states are structurally equal up to the order of object keys. -/
theorem computeStateHash_eq_iff {m m' : StateManager} (hm : m.useMerkle = false)
    (hm' : m'.useMerkle = false) (hs : IsJson (.dict m.state)) (hs' : IsJson (.dict m'.state))
    (hfree : CollisionFree rt m.state m'.state) :
    (∃ h, m.computeStateHash rt = .ok h) ∧
      (m.computeStateHash rt = m'.computeStateHash rt ↔
        (Value.dict m.state).same (.dict m'.state) = true) := by
  unfold StateManager.computeStateHash
  rw [hm, hm']
  exact ⟨⟨_, stateHash_json hs⟩, stateHash_eq_iff_same (wordTexts_isWord _) hs hs' hfree⟩

/-! ## Three states -/

/-- A state with two accounts, one of whose names needs an escape. -/
def quotedState (first second : String × ℤ) : State :=
  [(.str "balances", .dict [(.str first.1, .int first.2), (.str second.1, .int second.2)])]

theorem isJson_quotedState {first second : String × ℤ} (h : first.1 ≠ second.1) :
    IsJson (.dict (quotedState first second)) := by
  refine .dict (by simp [quotedState]) (by simp [quotedState]) ?_
  simp only [quotedState, List.mem_singleton, forall_eq]
  refine .dict (by simpa using h) (by simp) ?_
  simp only [List.mem_cons, List.not_mem_nil, or_false, forall_eq_or_imp, forall_eq]
  exact ⟨.word rfl, .word rfl⟩

/-- The order of the accounts does not show in the hash, their balances do. -/
theorem computeStateHash_quotedState :
    let rt := referenceRuntime false
    let hash := fun state => (StateManager.init (some state) false).computeStateHash rt
    hash (quotedState ("A", 10) ("B\"", -5)) = hash (quotedState ("B\"", -5) ("A", 10)) ∧
      hash (quotedState ("A", 10) ("B\"", -5)) ≠ hash (quotedState ("A", 10) ("B\"", -6)) := by
  intro rt hash
  have hjson : ∀ b : ℤ, IsJson (.dict (quotedState ("A", 10) ("B\"", b))) :=
    fun b => isJson_quotedState (show "A" ≠ "B\"" by decide)
  have hswap : IsJson (.dict (quotedState ("B\"", -5) ("A", 10))) :=
    isJson_quotedState (by decide)
  have hfree : CollisionFree rt (quotedState ("A", 10) ("B\"", -5))
      (quotedState ("B\"", -5) ("A", 10)) := by
    intro text text' h h' _
    rw [(hjson _).dumps_eq, Except.ok.injEq] at h
    rw [hswap.dumps_eq, Except.ok.injEq] at h'
    rw [← h, ← h']
    decide +kernel
  have hfree' : CollisionFree rt (quotedState ("A", 10) ("B\"", -5))
      (quotedState ("A", 10) ("B\"", -6)) := by
    intro text text' h h' hsha
    rw [(hjson _).dumps_eq, Except.ok.injEq] at h h'
    rw [← h, ← h'] at hsha
    exact absurd hsha (by decide +kernel)
  constructor
  · exact (computeStateHash_eq_iff rfl rfl (hjson _) hswap hfree).2.mpr (by decide)
  · rw [Ne, (computeStateHash_eq_iff rfl rfl (hjson _) (hjson _) hfree').2]
    decide

end ECN
