import StackScript.Text.Hex

/-!
# Script hashes

A script is known to others by a hash of twenty bytes. Calls name it, script tables are keyed by
it, and it is shown as lower case digits in byte order.
-/

namespace StackScript

/-- A hash of twenty bytes. -/
structure ScriptHash where
  /-- The bytes. -/
  bytes : Bytes
  /-- There are twenty of them. -/
  length_bytes : bytes.length = 20
  deriving DecidableEq

namespace ScriptHash

instance : Inhabited ScriptHash := ⟨⟨List.replicate 20 0, by simp⟩⟩

/-- The hash of twenty zeros. -/
def zero : ScriptHash := default

/-- The hash with the given bytes, if there are twenty. -/
def ofBytes? (bytes : Bytes) : Option ScriptHash :=
  if h : bytes.length = 20 then some ⟨bytes, h⟩ else none

/-- The digits of a hash. -/
def render (hash : ScriptHash) : String := Text.Hex.encode hash.bytes

/-- Reads forty digits, with or without the marker `0x`. -/
def parse (text : String) : Except Text.HexError ScriptHash :=
  match Text.Hex.decodeExact 20 (Text.dropMarker text) with
  | .error cause => .error cause
  | .ok bytes =>
    match ofBytes? bytes with
    | some hash => .ok hash
    | none => .error .wrongLength

/-- Whether `a` comes before `b` or is equal to it, byte by byte. -/
def le (a b : ScriptHash) : Bool := !(compareBytes b.bytes a.bytes)
where
  /-- Whether the first of two byte strings comes strictly before the second. -/
  compareBytes : Bytes → Bytes → Bool
    | [], [] => false
    | [], _ :: _ => true
    | _ :: _, [] => false
    | a :: as, b :: bs => a < b || (a == b && compareBytes as bs)

/-- Hashes in increasing order. -/
def sort (hashes : List ScriptHash) : List ScriptHash := hashes.mergeSort le

end ScriptHash

end StackScript
