import StackScript.Digest.Ripemd160
import StackScript.Digest.Sha1
import StackScript.Digest.Sha256
import StackScript.ScriptHash

/-!
# Digests of two rounds

Scripts are hashed by RIPEMD-160 over SHA-256, other data by SHA-256 twice.
-/

namespace StackScript.Digest

/-- RIPEMD-160 of SHA-256. -/
def hash160 (message : Bytes) : ScriptHash :=
  ⟨Ripemd160.digest (Sha256.digest message), by simp⟩

/-- SHA-256 of SHA-256. -/
def hash256 (message : Bytes) : Bytes := Sha256.digest (Sha256.digest message)

@[simp] theorem length_hash256 (message : Bytes) : (hash256 message).length = 32 := by
  simp [hash256]

end StackScript.Digest
