import StackScript.Crypto
import StackScript.Opcode
import StackScript.Workspace

/-!
# Digests and signature checks

Signatures are checked against one message, which the host supplies with the script. A key or a
signature that cannot be read does not match.

A check of several signatures goes through the keys once: each signature must match a key behind
the key of the signature before it. Keys may be passed over, as long as there are no fewer of them
left than signatures, but a pair that cannot be read ends the check.
-/

namespace StackScript

/-- What checks of signatures need from the host. -/
structure Verifier where
  /-- The digests and the signature check. -/
  crypto : Crypto
  /-- The message that signatures are made for. -/
  message : Option Bytes

namespace Verifier

/-- The message, if the host supplied one. -/
def requireMessage (verifier : Verifier) : Operation Bytes :=
  match verifier.message with
  | some message => pure message
  | none => throw .noContainer

/-- Whether signatures match keys in order, with at most `spare` keys passed over. -/
def matchSparing (check : (signature key : Bytes) → Except CryptoError Bool) :
    (spare : Nat) → (signatures keys : List Bytes) → Bool
  | _, [], _ => true
  | _, _ :: _, [] => false
  | spare, signature :: signatures, key :: keys =>
      match check signature key with
      | .ok true => matchSparing check spare signatures keys
      | .ok false =>
          match spare with
          | 0 => false
          | spare + 1 => matchSparing check spare (signature :: signatures) keys
      | .error _ => false

/-- Whether signatures match keys in order, by the given check of one pair. -/
def matchInOrder (check : (signature key : Bytes) → Except CryptoError Bool)
    (signatures keys : List Bytes) : Bool :=
  matchSparing check (keys.length - signatures.length) signatures keys

end Verifier

/-- What a digest or signature check does. -/
def CryptoOp.run (verifier : Verifier) (op : CryptoOp) : Operation Unit :=
  match op with
  | .sha1 => do
      let data ← Operation.popBytes op.mnemonic
      Operation.pushBytes (Digest.Sha1.digest data)
  | .sha256 => do
      let data ← Operation.popBytes op.mnemonic
      Operation.pushBytes (Digest.Sha256.digest data)
  | .hash160 => do
      let data ← Operation.popBytes op.mnemonic
      Operation.pushBytes (verifier.crypto.hash160 data).bytes
  | .hash256 => do
      let data ← Operation.popBytes op.mnemonic
      Operation.pushBytes (verifier.crypto.hash256 data)
  | .checkSig => do
      let key ← Operation.popBytes op.mnemonic
      let signature ← Operation.popBytes op.mnemonic
      let message ← verifier.requireMessage
      Operation.pushBool (Verifier.matchInOrder (verifier.crypto.verify message) [signature] [key])
  | .checkMultiSig => do
      let n ← Operation.popInt32 op.mnemonic
      if n < 1 then throw (.multisig 0 n)
      let keys ← Operation.popMany op.mnemonic n.toNat
      let m ← Operation.popInt32 op.mnemonic
      if m < 1 ∨ m > n then throw (.multisig m n)
      let signatures ← Operation.popMany op.mnemonic m.toNat
      let message ← verifier.requireMessage
      Operation.pushBool (Verifier.matchInOrder (verifier.crypto.verify message) signatures keys)

end StackScript
