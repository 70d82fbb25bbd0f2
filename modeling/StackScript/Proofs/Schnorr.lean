import StackScript.Crypto
import StackScript.Proofs.Consumption

/-!
# Two ways to check a signature

A host checks signatures through its capabilities, which take the key as bytes and fail with a cause
where key or signature cannot be read. A key that has been read checks signatures by itself, and
answers `false` to bytes that are no signature. The two agree on signatures of 32 bytes or more.
Shorter ones cannot be cut into two halves, and there only the first way has an answer: it looks at
the length before it cuts.

Main statement: `checks_agree`.
-/

namespace StackScript.Schnorr

/-- Bytes that are no signature: not 64 of them, or with a half that is zero or out of range. -/
def Malformed (signature : Bytes) : Prop :=
  signature.length ≠ 64 ∨
    natOfBytes (signature.take 32) = 0 ∨ Curve.fieldPrime ≤ natOfBytes (signature.take 32) ∨
    natOfBytes (signature.drop 32) = 0 ∨ Curve.groupOrder ≤ natOfBytes (signature.drop 32)

/-! ### Reading keys and signatures -/

theorem bytes32_natOfBytes {bytes : Bytes} (h : bytes.length = 32) :
    bytes32 (natOfBytes bytes) = bytes := by
  have hwritten := Bytes.ofNat_toNat bytes.reverse
  rw [List.length_reverse, h] at hwritten
  rw [bytes32, natOfBytes, hwritten, List.reverse_reverse]

variable {bytes : Bytes} {key : PublicKey} (hkey : PublicKey.ofBytes? bytes = some key)

include hkey in
theorem PublicKey.length_of_ofBytes? : bytes.length = publicKeyLength := by
  by_contra hlength
  rw [PublicKey.ofBytes?, if_pos hlength] at hkey
  cases hkey

include hkey in
/-- A key that has been read is written as it was. -/
theorem PublicKey.bytes_of_ofBytes? : key.bytes = bytes := by
  have hlength := PublicKey.length_of_ofBytes? hkey
  rw [PublicKey.ofBytes?, if_neg (not_not.mpr hlength), Option.map_eq_some_iff] at hkey
  obtain ⟨point, -, rfl⟩ := hkey
  exact bytes32_natOfBytes hlength

theorem Signature.ofBytes?_eq_none_iff {signature : Bytes} :
    Signature.ofBytes? signature = none ↔ Malformed signature := by
  unfold Signature.ofBytes? Malformed signatureLength
  by_cases hlength : signature.length = 64
  · simp only [hlength, ne_eq, not_true_eq_false, if_false, ite_eq_right_iff, reduceCtorEq,
      imp_false, false_or]
    omega
  · simp only [hlength, ne_eq, not_false_eq_true, if_true, true_or]

/-! ### Both checks -/

section Checks

variable (message signature : Bytes)

include hkey in
/-- With a key that can be read, the check of a host fails exactly where the signature cannot. -/
theorem verifySchnorr_eq : Crypto.verifySchnorr message signature bytes =
    match Signature.ofBytes? signature with
    | some read => .ok (key.accepts message read)
    | none => .error (if signature.length = signatureLength then .invalidSignature
        else .signatureLength signatureLength signature.length) := by
  have hlength := PublicKey.length_of_ofBytes? hkey
  rw [Crypto.verifySchnorr, if_neg (not_not.mpr hlength), hkey]
  by_cases hsignature : signature.length = signatureLength
  · rw [if_neg (not_not.mpr hsignature), if_pos hsignature]
    cases Signature.ofBytes? signature <;> rfl
  · have hnone : Signature.ofBytes? signature = none :=
      Signature.ofBytes?_eq_none_iff.mpr (.inl hsignature)
    rw [if_pos hsignature, hnone, if_neg hsignature]

/-- A key by itself answers `false` where the signature cannot be read. -/
theorem PublicKey.verify?_eq (key : PublicKey) (h : 32 ≤ signature.length) :
    key.verify? message signature =
      some ((Signature.ofBytes? signature).elim false (key.accepts message)) := by
  rw [PublicKey.verify?, if_neg (Nat.not_lt.mpr h)]
  cases Signature.ofBytes? signature <;> rfl

/-- **The two checks agree from 32 bytes on.** A key that has been read has no answer exactly to
signatures of less than 32 bytes. To any other it answers whether the check of the host, given the
bytes of the key, succeeds with `true`, and the answer is `false` where the bytes are no
signature. -/
theorem checks_agree (hkey : PublicKey.ofBytes? bytes = some key) :
    key.bytes = bytes ∧
    (key.verify? message signature = none ↔ signature.length < 32) ∧
    (32 ≤ signature.length → ∃ accepted, key.verify? message signature = some accepted ∧
      (accepted = true ↔ Crypto.secp256k1.verify message signature bytes = .ok true) ∧
      (Malformed signature → accepted = false)) := by
  refine ⟨PublicKey.bytes_of_ofBytes? hkey, ⟨fun hnone => ?_, fun hshort => ?_⟩, fun hlong => ?_⟩
  · by_contra hlong
    rw [key.verify?_eq message signature (Nat.not_lt.mp hlong)] at hnone
    cases hnone
  · rw [PublicKey.verify?, if_pos hshort]
  · refine ⟨_, key.verify?_eq message signature hlong, ?_, fun hmalformed => ?_⟩
    · have hhost : Crypto.secp256k1.verify = Crypto.verifySchnorr := rfl
      rw [hhost, verifySchnorr_eq hkey]
      cases Signature.ofBytes? signature with
      | none => simp
      | some read => simp
    · rw [Signature.ofBytes?_eq_none_iff.mpr hmalformed, Option.elim_none]

end Checks

/-- The bytes of the generator, a point with an even second coordinate. -/
def generatorBytes : Bytes := bytes32 Curve.Point.generator.x

theorem exists_generatorKey : ∃ key, PublicKey.ofBytes? generatorBytes = some key := by
  rw [← Option.isSome_iff_exists]
  decide +kernel

/-- Under the generator, half a signature and one of zeros are answered with `false`, and no bytes
are not answered at all. -/
theorem checks_agree_generator : ∃ key, PublicKey.ofBytes? generatorBytes = some key ∧
    (∀ message, key.verify? message [] = none) ∧
    (∀ message, key.verify? message (List.replicate 32 0xff) = some false) ∧
    ∀ message, key.verify? message (List.replicate 64 0x00) = some false ∧
      Crypto.secp256k1.verify message (List.replicate 64 0x00) generatorBytes ≠ .ok true := by
  obtain ⟨key, hkey⟩ := exists_generatorKey
  refine ⟨key, hkey, fun message => ?_, fun message => ?_, fun message => ?_⟩
  · exact (checks_agree message [] hkey).2.1.mpr (by decide)
  · obtain ⟨accepted, hanswer, -, hmalformed⟩ :=
      (checks_agree message (List.replicate 32 0xff) hkey).2.2 (by decide)
    rw [hanswer, hmalformed (.inl (by decide))]
  · obtain ⟨accepted, hanswer, haccepted, hmalformed⟩ :=
      (checks_agree message (List.replicate 64 0x00) hkey).2.2 (by decide)
    obtain rfl := hmalformed (.inr (.inl (by decide)))
    exact ⟨hanswer, fun hok => Bool.false_ne_true (haccepted.mpr hok)⟩

/-- A key does not answer every signature as the host does: it has no answer to no bytes. -/
theorem checks_disagree_noBytes : ¬ ∀ (bytes : Bytes) (key : PublicKey),
    PublicKey.ofBytes? bytes = some key → ∀ message signature : Bytes, ∃ accepted,
      key.verify? message signature = some accepted ∧
      (accepted = true ↔ Crypto.secp256k1.verify message signature bytes = .ok true) := by
  intro hagree
  obtain ⟨key, hkey⟩ := exists_generatorKey
  obtain ⟨accepted, hanswer, -⟩ := hagree generatorBytes key hkey [] []
  cases hanswer

end StackScript.Schnorr
