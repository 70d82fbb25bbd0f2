import StackScript.Assembly.Error
import StackScript.Opcode

/-!
# Building scripts

A builder appends instructions to a script. A call that may be refused is answered, and leaves the
script as it was if it is.
-/

namespace StackScript

/-- Why a builder refuses a call. -/
inductive BuildError where
  /-- The opcode takes no jump offset. -/
  | notJump (instruction : String)
  /-- The name of a host call is not allowed. -/
  | callName (cause : NameError)
  deriving DecidableEq, Repr

/-- The wording of a cause. -/
def BuildError.message : BuildError → String
  | .notJump instruction => s!"{instruction} does not take a jump offset"
  | .callName cause => cause.message

/-- The script written so far. -/
structure Builder where
  /-- The bytes. -/
  code : Array UInt8 := #[]

namespace Builder

/-- A builder that has written nothing. -/
def empty : Builder := {}

/-- The number of bytes written so far. -/
def offset (builder : Builder) : Nat := builder.code.size

/-- The script written so far. -/
def script (builder : Builder) : Script := ⟨builder.code⟩

/-- Appends a bare opcode. -/
def emit (builder : Builder) (op : Opcode) : Builder := ⟨builder.code.push op.byte⟩

/-- Appends an opcode and a raw operand. -/
def emitWith (builder : Builder) (op : Opcode) (operand : Bytes) : Builder :=
  ⟨builder.code.push op.byte ++ operand⟩

/-- Appends a run of another script. -/
def appCall (builder : Builder) (kind : Invocation) (hash : ScriptHash) : Builder :=
  builder.emitWith (.invoke kind) hash.bytes

/-- Appends a jump; the offset is taken modulo 16 bits. -/
def jump (builder : Builder) (op : Opcode) (offset : Int) : Except BuildError Unit × Builder :=
  if op.isJump then (.ok (), builder.emitWith op (Number.TwosComplement.encodeFixed 2 offset))
  else (.error (.notJump op.mnemonic), builder)

/-- Appends the shortest push of a byte string. Up to 75 bytes stand behind their number, and more
of them behind an opcode and their number. -/
def pushBytes (builder : Builder) (data : Bytes) : Builder :=
  let length := data.length
  let builder :=
    if length ≤ 75 then ⟨builder.code.push (UInt8.ofNat length)⟩
    else if length < 0x100 then builder.emitWith (.pushData .one) [UInt8.ofNat length]
    else if length < 0x10000 then builder.emitWith (.pushData .two) (Bytes.ofNat 2 length)
    else builder.emitWith (.pushData .four) (Bytes.ofNat 4 length)
  ⟨builder.code ++ data⟩

/-- Appends the shortest push of an integer. -/
def pushInteger (builder : Builder) (value : Int) : Builder :=
  if value = -1 then builder.emit (.plain (.constant .minusOne))
  else if value = 0 then builder.emit (.plain (.constant .empty))
  else if 1 ≤ value ∧ value ≤ 16 then
    -- The opcodes of the integers from 1 to 16 follow each other.
    let first := Opcode.plain (.constant (.small 0))
    ⟨builder.code.push (first.byte + UInt8.ofNat (value.toNat - 1))⟩
  else builder.pushBytes (Number.TwosComplement.encode value)

/-- Appends the push of a truth value: the integer 1, or the empty byte string. -/
def pushBool (builder : Builder) (value : Bool) : Builder :=
  if value then builder.emit (.plain (.constant (.small 0)))
  else builder.emit (.plain (.constant .empty))

/-- Appends a host call. Its name is ASCII, from 1 to 252 characters. -/
def syscall (builder : Builder) (name : String) : Except BuildError Unit × Builder :=
  if name.isEmpty || !Text.Utf8.isAscii name then (.error (.callName (.invalid name)), builder)
  else
    let bytes := Text.Utf8.ofString name
    if maxNameLength < bytes.length then
      (.error (.callName (.tooLong bytes.length maxNameLength)), builder)
    else
      let builder := builder.emit .syscall
      (.ok (), ⟨builder.code.push (UInt8.ofNat bytes.length) ++ bytes⟩)

end Builder

end StackScript
