import ECN.MerkleCommitment

/-!
# What a signature binds

The signed text is the node id, a colon and the state hash. Two pairs have one text when
they split it at different colons, and then a signature of either is one of both. Pairs
that are not related in this way are told apart, in particular all pairs whose hashes are
hexadecimal digests.
-/
namespace ECN

/-! ## Two words around a separator -/

section Splittings

variable {χ : Type*}

/-- The second pair splits the text of the first at a later separator. -/
def SplitsLater (sep : χ) (first second : List χ × List χ) : Prop :=
  ∃ mid, second.1 = first.1 ++ sep :: mid ∧ first.2 = mid ++ sep :: second.2

/-- Two pairs have one text when they are the same or split it at different places. -/
theorem separated_eq_iff (sep : χ) (x y x' y' : List χ) :
    x ++ sep :: y = x' ++ sep :: y' ↔
      (x = x' ∧ y = y') ∨ SplitsLater sep (x, y) (x', y') ∨ SplitsLater sep (x', y') (x, y) := by
  rw [List.append_eq_append_iff]
  constructor
  · rintro (⟨mid, hx, hy⟩ | ⟨mid, hx, hy⟩)
    · cases mid with
      | nil => exact .inl ⟨by simpa using hx.symm, by simpa using hy⟩
      | cons c mid =>
        obtain ⟨rfl, htail⟩ := List.cons.inj hy
        exact .inr (.inl ⟨mid, hx, htail⟩)
    · cases mid with
      | nil => exact .inl ⟨by simpa using hx, by simpa using hy.symm⟩
      | cons c mid =>
        obtain ⟨rfl, htail⟩ := List.cons.inj hy
        exact .inr (.inr ⟨mid, hx, htail⟩)
  · rintro (⟨rfl, rfl⟩ | ⟨mid, hx, hy⟩ | ⟨mid, hx, hy⟩)
    · exact .inl ⟨[], by simp⟩
    · exact .inl ⟨sep :: mid, hx, congrArg (sep :: ·) hy⟩
    · exact .inr ⟨sep :: mid, hx, congrArg (sep :: ·) hy⟩

/-- A pair that splits its text at a later separator has one in its first word. -/
theorem SplitsLater.mem {sep : χ} {first second : List χ × List χ}
    (h : SplitsLater sep first second) : sep ∈ second.1 ∧ sep ∈ first.2 := by
  obtain ⟨mid, hfirst, hsecond⟩ := h
  rw [hfirst, hsecond]
  simp

/-- A proper splitting changes both words. -/
theorem SplitsLater.ne {sep : χ} {first second : List χ × List χ}
    (h : SplitsLater sep first second) : first.1 ≠ second.1 := by
  obtain ⟨mid, hfirst, -⟩ := h
  intro heq
  simpa [heq] using congrArg List.length hfirst

end Splittings

/-! ## Pairs of a node id and a state hash -/

/-- The text under a signature. -/
def signedText (nodeId stateHash : String) : String := nodeId ++ ":" ++ stateHash

/-- The two pairs split one text at different colons. -/
def Resplit (nodeId stateHash nodeId' stateHash' : String) : Prop :=
  SplitsLater ':' (nodeId.toList, stateHash.toList) (nodeId'.toList, stateHash'.toList) ∨
    SplitsLater ':' (nodeId'.toList, stateHash'.toList) (nodeId.toList, stateHash.toList)

theorem signedText_toList (nodeId stateHash : String) :
    (signedText nodeId stateHash).toList = nodeId.toList ++ ':' :: stateHash.toList := by
  simp [signedText]

theorem signedText_eq_iff (n h n' h' : String) :
    signedText n h = signedText n' h' ↔ (n = n' ∧ h = h') ∨ Resplit n h n' h' := by
  rw [← String.toList_inj, signedText_toList, signedText_toList, separated_eq_iff,
    String.toList_inj, String.toList_inj]
  rfl

theorem Resplit.ne {n h n' h' : String} (hsplit : Resplit n h n' h') : n' ≠ n := by
  rintro rfl
  rcases hsplit with hlater | hlater <;> exact hlater.ne rfl

/-- Hashes without a colon leave one place to split at. -/
theorem not_resplit {n h n' h' : String} (hh : ':' ∉ h.toList) (hh' : ':' ∉ h'.toList) :
    ¬ Resplit n h n' h' := by
  rintro (hlater | hlater)
  · exact hh hlater.mem.2
  · exact hh' hlater.mem.2

variable {crypto : Crypto}

/-- A signature of that key verifies for the signed message only. -/
def IdealSignatures (crypto : Crypto) (k : crypto.PrivateKey) : Prop :=
  ∀ message message', crypto.verify (crypto.publicKey k) (crypto.sign k message) message' = true →
    message' = message

/-- Verification compares the signed bytes. -/
theorem verifyResult_signResult_iff {k : crypto.PrivateKey} (hideal : IdealSignatures crypto k)
    (n h n' h' : String) :
    verifyResult crypto n' h' (signResult crypto n h k) (crypto.publicKey k) = true ↔
      buildMessage crypto n' h' = buildMessage crypto n h := by
  unfold verifyResult signResult
  rw [fromHex_toHex]
  dsimp only
  constructor
  · exact hideal _ _
  · intro heq
    rw [heq]
    exact crypto.verify_sign k _

/-- Without a collision of the two texts the signed bytes stand for the text. -/
theorem buildMessage_eq_iff {n h n' h' : String}
    (hfree : NoCollision crypto [utf8 (signedText n h), utf8 (signedText n' h')]) :
    buildMessage crypto n' h' = buildMessage crypto n h ↔ signedText n h = signedText n' h' := by
  constructor
  · intro heq
    have hbytes : crypto.sha256 (utf8 (signedText n h)) = crypto.sha256 (utf8 (signedText n' h')) :=
      Subtype.ext heq.symm
    exact utf8_injective (hfree _ (by simp) _ (by simp) hbytes)
  · intro heq
    have hbytes : utf8 (n' ++ ":" ++ h') = utf8 (n ++ ":" ++ h) := congrArg utf8 heq.symm
    unfold buildMessage
    rw [hbytes]

/-- A signature of a pair verifies for that pair alone, if and only if the other pair is not
another splitting of the signed text. -/
theorem binds_pair_iff {k : crypto.PrivateKey} (hideal : IdealSignatures crypto k)
    {n h n' h' : String}
    (hfree : NoCollision crypto [utf8 (signedText n h), utf8 (signedText n' h')]) :
    (verifyResult crypto n' h' (signResult crypto n h k) (crypto.publicKey k) = true ↔
      n' = n ∧ h' = h) ↔ ¬ Resplit n h n' h' := by
  rw [verifyResult_signResult_iff hideal, buildMessage_eq_iff hfree, signedText_eq_iff]
  constructor
  · intro hbinds hsplit
    exact hsplit.ne (hbinds.mp (.inr hsplit)).1
  · intro hno
    simp [hno, eq_comm]

/-- Signatures of digests bind the pair. -/
theorem binds_digests {k : crypto.PrivateKey} (hideal : IdealSignatures crypto k)
    {n n' : String} {data data' : List UInt8}
    (hfree : NoCollision crypto [utf8 (signedText n (hexDigest crypto data)),
      utf8 (signedText n' (hexDigest crypto data'))]) :
    verifyResult crypto n' (hexDigest crypto data') (signResult crypto n (hexDigest crypto data) k)
      (crypto.publicKey k) = true ↔ n' = n ∧ hexDigest crypto data' = hexDigest crypto data := by
  have hcolon : ∀ data : List UInt8, ':' ∉ (hexDigest crypto data).toList := by
    intro data hmem
    exact absurd (mem_toHex hmem) (by decide)
  have hno : ¬ Resplit n (hexDigest crypto data) n' (hexDigest crypto data') :=
    not_resplit (hcolon data) (hcolon data')
  rw [verifyResult_signResult_iff hideal, buildMessage_eq_iff hfree, signedText_eq_iff]
  simp [hno, eq_comm]

theorem idealSignatures_reference (k : List UInt8) : IdealSignatures referenceCrypto k := by
  intro message message' hverify
  have heq : k ++ message = k ++ message' := of_decide_eq_true hverify
  exact (List.append_cancel_left heq).symm

theorem noCollision_twoNodes : NoCollision referenceCrypto
    [utf8 (signedText "Node-1" "abc123"), utf8 (signedText "Node-2" "abc123")] := by
  decide +kernel

/-- The signature of one node's hash is none of another node's. -/
theorem binds_pair_twoNodes : ¬ Resplit "Node-1" "abc123" "Node-2" "abc123" ∧
    ((verifyResult referenceCrypto "Node-2" "abc123"
        (signResult referenceCrypto "Node-1" "abc123" [7]) (referenceCrypto.publicKey [7]) = true ↔
      "Node-2" = "Node-1" ∧ "abc123" = "abc123") ↔
        ¬ Resplit "Node-1" "abc123" "Node-2" "abc123") :=
  ⟨not_resplit (by decide) (by decide),
    binds_pair_iff (idealSignatures_reference [7]) noCollision_twoNodes⟩

/-- A signature of the node `a:b` is one of the node `a`. -/
theorem signature_of_two_pairs (crypto : Crypto) (k : crypto.PrivateKey) :
    verifyResult crypto "a" "b:c" (signResult crypto "a:b" "c" k) (crypto.publicKey k) = true := by
  have htext : buildMessage crypto "a:b" "c" = buildMessage crypto "a" "b:c" := by
    unfold buildMessage
    rw [show "a:b" ++ ":" ++ "c" = "a" ++ ":" ++ "b:c" from by decide]
  have hverify := verifyResult_signResult crypto "a" "b:c" k
  unfold signResult at hverify ⊢
  rw [htext]
  exact hverify

/-- With an ideal scheme and texts that do not collide, one signature verifies for two pairs. -/
theorem one_signature_two_pairs :
    ¬ ∀ (n h n' h' : String) (k : referenceCrypto.PrivateKey),
      IdealSignatures referenceCrypto k →
      NoCollision referenceCrypto [utf8 (signedText n h), utf8 (signedText n' h')] →
      (verifyResult referenceCrypto n' h' (signResult referenceCrypto n h k)
        (referenceCrypto.publicKey k) = true ↔ n' = n ∧ h' = h) := by
  intro hall
  have hfree : NoCollision referenceCrypto
      [utf8 (signedText "a:b" "c"), utf8 (signedText "a" "b:c")] := by
    have htext : signedText "a:b" "c" = signedText "a" "b:c" := by decide
    intro x hx y hy _
    rw [htext] at hx hy
    simp only [List.mem_cons, List.not_mem_nil, or_false, or_self] at hx hy
    rw [hx, hy]
  have hbinds := (hall "a:b" "c" "a" "b:c" [7] (idealSignatures_reference [7]) hfree).mp
    (signature_of_two_pairs referenceCrypto [7])
  exact absurd hbinds.1 (by decide)

end ECN
