import StackScript.Number.TwosComplement
import StackScript.ScriptHash

/-!
# Scripts and reading them

A script is a row of bytes. A reader consumes it from a cursor on. A read that would run past the
end fails and leaves the cursor where that read began; an operand made of several reads keeps the
progress of those that succeeded. So a reader gives back the cursor whether it succeeds or not.
-/

namespace StackScript

/-- The bytes of a script, with access by offset. -/
structure Script where
  /-- The bytes. -/
  code : Array UInt8
  deriving DecidableEq

namespace Script

instance : Inhabited Script := ⟨⟨#[]⟩⟩

/-- The script with the given bytes. -/
def ofBytes (bytes : Bytes) : Script := ⟨bytes.toArray⟩

/-- The bytes of a script. -/
def bytes (script : Script) : Bytes := script.code.toList

/-- The number of bytes. -/
def size (script : Script) : Nat := script.code.size

/-- The `count` bytes from `start` on, if the script reaches that far. -/
def slice? (script : Script) (start count : Nat) : Option Bytes :=
  if start + count ≤ script.size then some (script.code.extract start (start + count)).toList
  else none

@[simp] theorem bytes_ofBytes (bytes : Bytes) : (ofBytes bytes).bytes = bytes := by
  simp [ofBytes, Script.bytes]

@[simp] theorem size_ofBytes (bytes : Bytes) : (ofBytes bytes).size = bytes.length := by
  simp [ofBytes, size]

/-- A slice is a part of the byte string. -/
theorem slice?_eq (script : Script) (start count : Nat) :
    script.slice? start count =
      if start + count ≤ script.bytes.length then some (script.bytes.slice start count)
      else none := by
  rw [slice?, size, Script.bytes, Array.length_toList, Array.toList_extract,
    List.extract_eq_take_drop, Nat.add_sub_cancel_left, Bytes.slice]

end Script

/-- Why the bytes at a cursor are no instruction. -/
inductive DecodeError where
  /-- No opcode has this byte. -/
  | invalidOpcode (byte : UInt8) (offset : Nat)
  /-- The script ends too early. -/
  | endOfScript (cursor requested available : Nat)
  /-- A length is negative. -/
  | negativeLength (length : Int)
  /-- The name of a host call is too long. -/
  | nameTooLong (length max : Nat)
  deriving DecidableEq, Repr

/-- The two digits of a byte behind the marker `0x`. -/
def markedByte (byte : UInt8) : String := Text.Hex.encodeMarked [byte]

/-- The wording of an overlong name. -/
def nameTooLongMessage (length max : Nat) : String :=
  s!"syscall name is {length} bytes, at most {max} allowed"

/-- The wording of a cause. -/
def DecodeError.message : DecodeError → String
  | .invalidOpcode byte offset => s!"invalid opcode {markedByte byte} at offset {offset}"
  | .endOfScript cursor requested available =>
      s!"unexpected end of script at {cursor}: requested {requested} bytes, {available} available"
  | .negativeLength length => s!"negative data length {length}"
  | .nameTooLong length max => nameTooLongMessage length max

/-- A computation that reads a script from a cursor on. -/
abbrev Reader := ReaderT Script (EStateM DecodeError Nat)

namespace Reader

/-- What a reader finds in a script from a cursor on, and where it leaves the cursor. -/
def runAt {α : Type} (reader : Reader α) (script : Script) (cursor : Nat) :
    EStateM.Result DecodeError Nat α :=
  reader script cursor

/-- The next `count` bytes. -/
def exact (count : Nat) : Reader Bytes := do
  let script ← read
  let start ← get
  match script.slice? start count with
  | some bytes =>
      set (start + count)
      return bytes
  | none => throw (.endOfScript start count (script.size - start))

/-- A natural number of `width` bytes. -/
def natural (width : Nat) : Reader Nat := return (← exact width).toNat

/-- A signed number of `width` bytes. -/
def signed (width : Nat) : Reader Int := return Number.TwosComplement.decode (← exact width)

/-- One byte. -/
def byte : Reader UInt8 := return UInt8.ofNat (← natural 1)

/-- A natural number of variable width: one byte below 253, or a marker and two, four or eight
bytes. -/
def varNatural : Reader Nat := do
  match ← natural 1 with
  | 0xfd => natural 2
  | 0xfe => natural 4
  | 0xff => natural 8
  | small => return small

/-- Bytes behind a length of variable width, at most `max` of them. -/
def varBytes (max : Nat) : Reader Bytes := do
  let length ← varNatural
  if length > max then throw (.nameTooLong length max)
  exact length

/-- A script hash. -/
def hash : Reader ScriptHash := do
  let bytes ← exact 20
  return (ScriptHash.ofBytes? bytes).getD .zero

/-- Bytes behind a length of one byte. -/
def data1 : Reader Bytes := do exact (← natural 1)

/-- Bytes behind a length of two bytes. -/
def data2 : Reader Bytes := do exact (← natural 2)

/-- Bytes behind a signed length of four bytes. -/
def data4 : Reader Bytes := do
  let length ← signed 4
  if length < 0 then throw (.negativeLength length)
  exact length.toNat

end Reader

end StackScript
