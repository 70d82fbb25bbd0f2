import StackScript.Digest.Sha256
import StackScript.Schnorr.Curve
import StackScript.Text.Utf8

/-!
# Schnorr signatures

Signatures of BIP-340 over secp256k1. A message of any length is signed by its SHA-256 digest, and
the auxiliary randomness is zero, so a key and a message have one signature. A public key is the
first coordinate of a point with an even second one. A signature is a field element `r` and a
scalar `s`, 32 bytes each, neither of them zero.
-/

namespace StackScript.Schnorr

/-- The number of bytes of a public key. -/
def publicKeyLength : Nat := 32

/-- The number of bytes of a signature. -/
def signatureLength : Nat := 64

/-- The natural number of a byte string, most significant byte first. -/
def natOfBytes (bytes : Bytes) : Nat := Bytes.toNat bytes.reverse

/-- The 32 bytes of a number, most significant byte first. -/
def bytes32 (n : Nat) : Bytes := (Bytes.ofNat 32 n).reverse

@[simp] theorem length_bytes32 (n : Nat) : (bytes32 n).length = 32 := by simp [bytes32]

/-- The digest of a message in the domain that `tag` names. -/
def taggedDigest (tag : String) (message : Bytes) : Bytes :=
  let domain := Digest.Sha256.digest (Text.Utf8.ofString tag)
  Digest.Sha256.digest (domain ++ domain ++ message)

/-- The scalar that binds a nonce point and a key, given by their first coordinates, to a digest. -/
def challenge (r key : Nat) (digest : Bytes) : Nat :=
  natOfBytes (taggedDigest "BIP0340/challenge" (bytes32 r ++ bytes32 key ++ digest)) %
    Curve.groupOrder

/-! ### Keys and signatures as bytes -/

/-- A public key: a point with an even second coordinate. -/
structure PublicKey where
  /-- The first coordinate. -/
  x : Nat
  /-- The point. -/
  point : Curve.Point

/-- The public key that 32 bytes name, if there is such a point. -/
def PublicKey.ofBytes? (bytes : Bytes) : Option PublicKey :=
  if bytes.length ≠ publicKeyLength then none
  else (Curve.Point.lift? (natOfBytes bytes)).map fun point => ⟨natOfBytes bytes, point⟩

/-- The bytes of a public key. -/
def PublicKey.bytes (key : PublicKey) : Bytes := bytes32 key.x

/-- A well-formed signature. -/
structure Signature where
  /-- The first coordinate of the nonce point. -/
  r : Nat
  /-- The response. -/
  s : Nat

/-- The signature in 64 bytes, if both halves are in range and not zero. -/
def Signature.ofBytes? (bytes : Bytes) : Option Signature :=
  if bytes.length ≠ signatureLength then none
  else
    let r := natOfBytes (bytes.take 32)
    let s := natOfBytes (bytes.drop 32)
    if 0 < r ∧ r < Curve.fieldPrime ∧ 0 < s ∧ s < Curve.groupOrder then some ⟨r, s⟩ else none

/-! ### Checking -/

/-- Whether a well-formed signature is one of `message` under `key`. -/
def PublicKey.accepts (key : PublicKey) (message : Bytes) (signature : Signature) : Bool :=
  let e := challenge signature.r key.x (Digest.Sha256.digest message)
  let nonce := (Curve.Point.mul signature.s .generator).add
    (Curve.Point.mul (Curve.groupOrder - e) key.point)
  match nonce.affine? with
  | none => false
  | some (x, y) => y % 2 = 0 && x = signature.r

/-- Checks signature bytes under a key. Bytes that are no signature are not accepted; bytes that
end before the first half of a signature does cannot be taken apart, and give `none`. -/
def PublicKey.verify? (key : PublicKey) (message signature : Bytes) : Option Bool :=
  if signature.length < 32 then none
  else match Signature.ofBytes? signature with
    | none => some false
    | some signature => some (key.accepts message signature)

/-! ### Signing -/

/-- A secret scalar, from 1 up to the group order. -/
structure SecretKey where
  /-- The scalar. -/
  scalar : Nat

/-- The secret key that 32 bytes name, if they are in range. -/
def SecretKey.ofBytes? (bytes : Bytes) : Option SecretKey :=
  let scalar := natOfBytes bytes
  if bytes.length = 32 ∧ 0 < scalar ∧ scalar < Curve.groupOrder then some ⟨scalar⟩ else none

/-- A scalar turned so that its point has an even second coordinate, with the first one. -/
def evenScalar (scalar : Nat) : Nat × Nat :=
  match (Curve.Point.mul scalar .generator).affine? with
  | none => (scalar, 0)
  | some (x, y) => (if y % 2 = 0 then scalar else Curve.groupOrder - scalar, x)

/-- The bytes of the public key of a secret key. -/
def SecretKey.publicKeyBytes (key : SecretKey) : Bytes := bytes32 (evenScalar key.scalar).2

/-- The signature of a message. -/
def SecretKey.sign (key : SecretKey) (message : Bytes) : Bytes :=
  let digest := Digest.Sha256.digest message
  let (d, x) := evenScalar key.scalar
  let mask := taggedDigest "BIP0340/aux" (List.replicate 32 0)
  let seed := List.zipWith (· ^^^ ·) (bytes32 d) mask
  let k₀ := natOfBytes (taggedDigest "BIP0340/nonce" (seed ++ bytes32 x ++ digest)) %
    Curve.groupOrder
  let (k, r) := evenScalar k₀
  bytes32 r ++ bytes32 ((k + challenge r x digest * d) % Curve.groupOrder)

end StackScript.Schnorr
