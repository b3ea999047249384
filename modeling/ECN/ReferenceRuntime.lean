import ECN.Sha256
import ECN.StateManager

/-!
# A runtime to evaluate with

SHA-256 itself, and in place of Ed25519 the scheme whose signature is the key
followed by the message. Numbers in text are read in decimal.
-/
namespace ECN

/-- An optional sign and decimal digits. -/
def parseDecimal (s : String) : Option ℤ :=
  let digits (cs : List Char) : Option ℤ :=
    if cs ≠ [] ∧ cs.all Char.isDigit then
      some (cs.foldl (fun n c => 10 * n + (c.toNat - 48 : ℕ)) 0)
    else none
  match s.toList with
  | '-' :: cs => (digits cs).map Neg.neg
  | '+' :: cs => digits cs
  | cs => digits cs

def referenceInterp : Interp where
  floatRepr _ := "0.0"
  containerRepr _ := ""
  parseInt := parseDecimal

def referenceCrypto : Crypto where
  sha256 data := ⟨Sha256.digest data, Sha256.digest_length data⟩
  PrivateKey := List UInt8
  PublicKey := List UInt8
  publicKey key := key
  sign key msg := key ++ msg
  verify key sig msg := sig = key ++ msg
  verify_sign _ _ := by simp

/-- The built-in handlers, with the supply-chain handlers when asked for. -/
def referenceRuntime (supplyChain : Bool) : Runtime where
  toInterp := referenceInterp
  toCrypto := referenceCrypto
  handlers :=
    if supplyChain then
      registerSupplyChainHandlers referenceInterp (builtinHandlers referenceInterp)
    else builtinHandlers referenceInterp

end ECN
