import ECN.Hex

/-!
# Cryptographic trust layer

The hash function and the signature scheme are parameters. A digest has 32 bytes,
and verification accepts what the matching private key signed; nothing else is
assumed of either.
-/
namespace ECN

/-- A SHA-256 digest. -/
abbrev Digest := { bs : List UInt8 // bs.length = 32 }

/-- The hash and the Ed25519 operations that the library supplies. -/
structure Crypto where
  sha256 : List UInt8 → Digest
  PrivateKey : Type
  PublicKey : Type
  publicKey : PrivateKey → PublicKey
  sign : PrivateKey → List UInt8 → List UInt8
  verify : PublicKey → List UInt8 → List UInt8 → Bool
  verify_sign : ∀ k msg, verify (publicKey k) (sign k msg) msg = true

variable (crypto : Crypto)

/-- `sha256(data).hexdigest()`. -/
def hexDigest (data : List UInt8) : String := toHex (crypto.sha256 data).val

/-- The canonical byte string that is signed and verified. -/
def buildMessage (nodeId stateHash : String) : List UInt8 :=
  (crypto.sha256 (utf8 (nodeId ++ ":" ++ stateHash))).val

/-- Sign `(node_id, state_hash)`; the result is hexadecimal text. -/
def signResult (nodeId stateHash : String) (privateKey : crypto.PrivateKey) : String :=
  toHex (crypto.sign privateKey (buildMessage crypto nodeId stateHash))

/-- Verify a signature of `(node_id, state_hash)`; malformed text does not verify. -/
def verifyResult (nodeId stateHash signatureHex : String) (publicKey : crypto.PublicKey) : Bool :=
  match fromHex signatureHex with
  | some rawSig => crypto.verify publicKey rawSig (buildMessage crypto nodeId stateHash)
  | none => false

theorem verifyResult_signResult (nodeId stateHash : String) (k : crypto.PrivateKey) :
    verifyResult crypto nodeId stateHash (signResult crypto nodeId stateHash k)
      (crypto.publicKey k) = true := by
  unfold verifyResult signResult
  rw [fromHex_toHex]
  exact crypto.verify_sign k _

theorem hexDigest_length (data : List UInt8) : (hexDigest crypto data).length = 64 := by
  unfold hexDigest
  rw [toHex_length, (crypto.sha256 data).property]

/-- Text that holds a character outside the lowercase digits is no digest. -/
theorem ne_hexDigest {s : String} {c : Char} (hc : c ∈ s.toList) (hout : c ∉ hexAlphabet)
    (data : List UInt8) : s ≠ hexDigest crypto data := by
  rintro rfl
  exact hout (mem_toHex hc)

end ECN
