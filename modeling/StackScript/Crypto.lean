import StackScript.Digest
import StackScript.Schnorr

/-!
# Cryptographic capabilities

The machine takes its script hash, its double digest and its signature check from the host. A check
of inputs that cannot be read fails with a cause; a check of readable inputs that do not match
answers `false`. `Crypto.secp256k1` is the ready-made choice.
-/

namespace StackScript

/-- Why a key or a signature cannot be read. -/
inductive CryptoError where
  /-- The key has the wrong number of bytes. -/
  | publicKeyLength (expected actual : Nat)
  /-- The key names no point. -/
  | invalidPublicKey
  /-- The signature has the wrong number of bytes. -/
  | signatureLength (expected actual : Nat)
  /-- A half of the signature is out of range. -/
  | invalidSignature
  deriving DecidableEq, Repr

/-- The wording of a cause. -/
def CryptoError.message : CryptoError → String
  | .publicKeyLength expected actual => s!"public key must be {expected} bytes, got {actual}"
  | .invalidPublicKey => "public key is not a valid curve point"
  | .signatureLength expected actual => s!"signature must be {expected} bytes, got {actual}"
  | .invalidSignature => "signature encoding is invalid"

/-- What a host provides. -/
structure Crypto where
  /-- The hash of scripts. -/
  hash160 : Bytes → ScriptHash
  /-- The double digest of data. -/
  hash256 : Bytes → Bytes
  /-- Checks a signature of a message under a public key. -/
  verify : (message signature publicKey : Bytes) → Except CryptoError Bool

namespace Crypto

/-- Checks a Schnorr signature. Lengths come first, the key's before the signature's, then the key
itself, then the signature's halves. -/
def verifySchnorr (message signature publicKey : Bytes) : Except CryptoError Bool :=
  if publicKey.length ≠ Schnorr.publicKeyLength then
    .error (.publicKeyLength Schnorr.publicKeyLength publicKey.length)
  else if signature.length ≠ Schnorr.signatureLength then
    .error (.signatureLength Schnorr.signatureLength signature.length)
  else match Schnorr.PublicKey.ofBytes? publicKey with
    | none => .error .invalidPublicKey
    | some key =>
      match Schnorr.Signature.ofBytes? signature with
      | none => .error .invalidSignature
      | some signature => .ok (key.accepts message signature)

/-- Digests by RIPEMD-160 and SHA-256, signatures by Schnorr over secp256k1. -/
def secp256k1 : Crypto where
  hash160 := Digest.hash160
  hash256 := Digest.hash256
  verify := verifySchnorr

end Crypto

end StackScript
