import StackScript.Text.Numeral

/-!
# The instruction set

An opcode is one byte with a name. Opcodes fall into families by what they work on: constants, the
stacks, byte strings, numbers, digests and signatures, and containers. These take all they need
from the stacks. The others carry an operand: data with a length of its own, a jump offset, a
script hash or a name.

The bytes from 1 to 75 are not in the table: each of them pushes that many bytes that follow it.

`Opcode.all` is the table in order of bytes. `ofByte?` and `ofMnemonic?` search it.
-/

namespace StackScript

/-- Constants that fit into the opcode. -/
inductive Constant where
  /-- The empty byte string. -/
  | empty
  /-- The integer -1. -/
  | minusOne
  /-- The integers from 1 to 16; `small n` stands for `n + 1`. -/
  | small (n : Fin 16)
  deriving DecidableEq, Repr

/-- Operations that move items within and between the two stacks. -/
inductive StackOp where
  | dupFromAlt
  | toAlt
  | fromAlt
  | xdrop
  | xswap
  | xtuck
  | depth
  | drop
  | dup
  | nip
  | over
  | pick
  | roll
  | rot
  | swap
  | tuck
  deriving DecidableEq, Repr

/-- Operations on byte strings. -/
inductive SpliceOp where
  | cat
  | substr
  | left
  | right
  | size
  deriving DecidableEq, Repr

/-- Operations on bits, numbers and truth values. -/
inductive NumberOp where
  | invert
  | and
  | or
  | xor
  | equal
  | inc
  | dec
  | sign
  | negate
  | abs
  | not
  | nz
  | add
  | sub
  | mul
  | div
  | mod
  | shl
  | shr
  | boolAnd
  | boolOr
  | numEqual
  | numNotEqual
  | lt
  | gt
  | lte
  | gte
  | min
  | max
  | within
  deriving DecidableEq, Repr

/-- Digests and signature checks. -/
inductive CryptoOp where
  | sha1
  | sha256
  | hash160
  | hash256
  | checkSig
  | checkMultiSig
  deriving DecidableEq, Repr

/-- Operations on arrays and structs. -/
inductive ContainerOp where
  | arraySize
  | pack
  | unpack
  | pickItem
  | setItem
  | newArray
  | newStruct
  deriving DecidableEq, Repr

/-- Opcodes without an operand that work on the stacks alone. -/
inductive Plain where
  | constant (c : Constant)
  | nop
  | stack (op : StackOp)
  | splice (op : SpliceOp)
  | number (op : NumberOp)
  | crypto (op : CryptoOp)
  | container (op : ContainerOp)
  deriving DecidableEq, Repr

/-- How many bytes hold the length of pushed data. -/
inductive LengthWidth where
  | one
  | two
  | four
  deriving DecidableEq, Repr

/-- Opcodes that move the cursor by an offset. -/
inductive Jump where
  /-- Jumps in any case. -/
  | always
  /-- Jumps if the top item is true. -/
  | ifTrue
  /-- Jumps if the top item is false. -/
  | ifFalse
  /-- Jumps in a new frame. -/
  | call
  deriving DecidableEq, Repr

/-- Opcodes that run another script. -/
inductive Invocation where
  /-- The other script returns to this frame. -/
  | nested
  /-- The other script takes the place of this frame. -/
  | tail
  deriving DecidableEq, Repr

/-- An entry of the table. -/
inductive Opcode where
  | plain (op : Plain)
  | pushData (width : LengthWidth)
  | jump (kind : Jump)
  | ret
  | invoke (kind : Invocation)
  | syscall
  deriving DecidableEq, Repr

/-- What follows an opcode. -/
inductive OperandKind where
  /-- A signed offset of two bytes. -/
  | offset
  /-- A script hash. -/
  | hash
  /-- A name behind its length. -/
  | name
  /-- Data behind its length. -/
  | data (width : LengthWidth)
  deriving DecidableEq, Repr

/-- The greatest length an assembled instruction may have: a length of four bytes is signed. -/
def LengthWidth.max : LengthWidth → Nat
  | .one => 255
  | .two => 65535
  | .four => 2147483647

/-! ### Bytes -/

/-- The byte of a constant. -/
def Constant.byte : Constant → UInt8
  | .empty => 0x00
  | .minusOne => 0x4f
  | .small n => 0x51 + UInt8.ofNat n.val

/-- The byte of a stack operation. -/
def StackOp.byte : StackOp → UInt8
  | .dupFromAlt => 0x6a
  | .toAlt => 0x6b
  | .fromAlt => 0x6c
  | .xdrop => 0x6d
  | .xswap => 0x72
  | .xtuck => 0x73
  | .depth => 0x74
  | .drop => 0x75
  | .dup => 0x76
  | .nip => 0x77
  | .over => 0x78
  | .pick => 0x79
  | .roll => 0x7a
  | .rot => 0x7b
  | .swap => 0x7c
  | .tuck => 0x7d

/-- The byte of an operation on byte strings. -/
def SpliceOp.byte : SpliceOp → UInt8
  | .cat => 0x7e
  | .substr => 0x7f
  | .left => 0x80
  | .right => 0x81
  | .size => 0x82

/-- The byte of an operation on numbers. -/
def NumberOp.byte : NumberOp → UInt8
  | .invert => 0x83
  | .and => 0x84
  | .or => 0x85
  | .xor => 0x86
  | .equal => 0x87
  | .inc => 0x8b
  | .dec => 0x8c
  | .sign => 0x8d
  | .negate => 0x8f
  | .abs => 0x90
  | .not => 0x91
  | .nz => 0x92
  | .add => 0x93
  | .sub => 0x94
  | .mul => 0x95
  | .div => 0x96
  | .mod => 0x97
  | .shl => 0x98
  | .shr => 0x99
  | .boolAnd => 0x9a
  | .boolOr => 0x9b
  | .numEqual => 0x9c
  | .numNotEqual => 0x9e
  | .lt => 0x9f
  | .gt => 0xa0
  | .lte => 0xa1
  | .gte => 0xa2
  | .min => 0xa3
  | .max => 0xa4
  | .within => 0xa5

/-- The byte of a digest or signature check. -/
def CryptoOp.byte : CryptoOp → UInt8
  | .sha1 => 0xa7
  | .sha256 => 0xa8
  | .hash160 => 0xa9
  | .hash256 => 0xaa
  | .checkSig => 0xac
  | .checkMultiSig => 0xae

/-- The byte of an operation on containers. -/
def ContainerOp.byte : ContainerOp → UInt8
  | .arraySize => 0xc0
  | .pack => 0xc1
  | .unpack => 0xc2
  | .pickItem => 0xc3
  | .setItem => 0xc4
  | .newArray => 0xc5
  | .newStruct => 0xc6

/-- The byte of an opcode without operand. -/
def Plain.byte : Plain → UInt8
  | .constant c => c.byte
  | .nop => 0x61
  | .stack op => op.byte
  | .splice op => op.byte
  | .number op => op.byte
  | .crypto op => op.byte
  | .container op => op.byte

/-- The byte of an opcode. -/
def Opcode.byte : Opcode → UInt8
  | .plain op => op.byte
  | .pushData .one => 0x4c
  | .pushData .two => 0x4d
  | .pushData .four => 0x4e
  | .jump .always => 0x62
  | .jump .ifTrue => 0x63
  | .jump .ifFalse => 0x64
  | .jump .call => 0x65
  | .ret => 0x66
  | .invoke .nested => 0x67
  | .syscall => 0x68
  | .invoke .tail => 0x69

/-! ### Names -/

/-- The name of a constant. -/
def Constant.mnemonic : Constant → String
  | .empty => "PUSH0"
  | .minusOne => "PUSHM1"
  | .small n => "PUSH" ++ Text.decimal (n.val + 1)

/-- The name of a stack operation. -/
def StackOp.mnemonic : StackOp → String
  | .dupFromAlt => "DUPFROMALTSTACK"
  | .toAlt => "TOALTSTACK"
  | .fromAlt => "FROMALTSTACK"
  | .xdrop => "XDROP"
  | .xswap => "XSWAP"
  | .xtuck => "XTUCK"
  | .depth => "DEPTH"
  | .drop => "DROP"
  | .dup => "DUP"
  | .nip => "NIP"
  | .over => "OVER"
  | .pick => "PICK"
  | .roll => "ROLL"
  | .rot => "ROT"
  | .swap => "SWAP"
  | .tuck => "TUCK"

/-- The name of an operation on byte strings. -/
def SpliceOp.mnemonic : SpliceOp → String
  | .cat => "CAT"
  | .substr => "SUBSTR"
  | .left => "LEFT"
  | .right => "RIGHT"
  | .size => "SIZE"

/-- The name of an operation on numbers. -/
def NumberOp.mnemonic : NumberOp → String
  | .invert => "INVERT"
  | .and => "AND"
  | .or => "OR"
  | .xor => "XOR"
  | .equal => "EQUAL"
  | .inc => "INC"
  | .dec => "DEC"
  | .sign => "SIGN"
  | .negate => "NEGATE"
  | .abs => "ABS"
  | .not => "NOT"
  | .nz => "NZ"
  | .add => "ADD"
  | .sub => "SUB"
  | .mul => "MUL"
  | .div => "DIV"
  | .mod => "MOD"
  | .shl => "SHL"
  | .shr => "SHR"
  | .boolAnd => "BOOLAND"
  | .boolOr => "BOOLOR"
  | .numEqual => "NUMEQUAL"
  | .numNotEqual => "NUMNOTEQUAL"
  | .lt => "LT"
  | .gt => "GT"
  | .lte => "LTE"
  | .gte => "GTE"
  | .min => "MIN"
  | .max => "MAX"
  | .within => "WITHIN"

/-- The name of a digest or signature check. -/
def CryptoOp.mnemonic : CryptoOp → String
  | .sha1 => "SHA1"
  | .sha256 => "SHA256"
  | .hash160 => "HASH160"
  | .hash256 => "HASH256"
  | .checkSig => "CHECKSIG"
  | .checkMultiSig => "CHECKMULTISIG"

/-- The name of an operation on containers. -/
def ContainerOp.mnemonic : ContainerOp → String
  | .arraySize => "ARRAYSIZE"
  | .pack => "PACK"
  | .unpack => "UNPACK"
  | .pickItem => "PICKITEM"
  | .setItem => "SETITEM"
  | .newArray => "NEWARRAY"
  | .newStruct => "NEWSTRUCT"

/-- The name of an opcode without operand. -/
def Plain.mnemonic : Plain → String
  | .constant c => c.mnemonic
  | .nop => "NOP"
  | .stack op => op.mnemonic
  | .splice op => op.mnemonic
  | .number op => op.mnemonic
  | .crypto op => op.mnemonic
  | .container op => op.mnemonic

/-- The name of an opcode. -/
def Opcode.mnemonic : Opcode → String
  | .plain op => op.mnemonic
  | .pushData .one => "PUSHDATA1"
  | .pushData .two => "PUSHDATA2"
  | .pushData .four => "PUSHDATA4"
  | .jump .always => "JMP"
  | .jump .ifTrue => "JMPIF"
  | .jump .ifFalse => "JMPIFNOT"
  | .jump .call => "CALL"
  | .ret => "RET"
  | .invoke .nested => "APPCALL"
  | .syscall => "SYSCALL"
  | .invoke .tail => "TAILCALL"

/-! ### The table -/

namespace Opcode

/-- The constants, in order of bytes. -/
def constants : List Opcode :=
  [.plain (.constant .empty), .pushData .one, .pushData .two, .pushData .four,
    .plain (.constant .minusOne)] ++
  (List.finRange 16).map fun n => .plain (.constant (.small n))

/-- The opcodes that steer a run, in order of bytes. -/
def controls : List Opcode :=
  [.plain .nop, .jump .always, .jump .ifTrue, .jump .ifFalse, .jump .call, .ret, .invoke .nested,
    .syscall, .invoke .tail]

/-- The stack operations, in order of bytes. -/
def stackOps : List StackOp :=
  [.dupFromAlt, .toAlt, .fromAlt, .xdrop, .xswap, .xtuck, .depth, .drop, .dup, .nip, .over, .pick,
    .roll, .rot, .swap, .tuck]

/-- The operations on byte strings, in order of bytes. -/
def spliceOps : List SpliceOp := [.cat, .substr, .left, .right, .size]

/-- The operations on numbers, in order of bytes. -/
def numberOps : List NumberOp :=
  [.invert, .and, .or, .xor, .equal, .inc, .dec, .sign, .negate, .abs, .not, .nz, .add, .sub, .mul,
    .div, .mod, .shl, .shr, .boolAnd, .boolOr, .numEqual, .numNotEqual, .lt, .gt, .lte, .gte, .min,
    .max, .within]

/-- The digests and signature checks, in order of bytes. -/
def cryptoOps : List CryptoOp := [.sha1, .sha256, .hash160, .hash256, .checkSig, .checkMultiSig]

/-- The operations on containers, in order of bytes. -/
def containerOps : List ContainerOp :=
  [.arraySize, .pack, .unpack, .pickItem, .setItem, .newArray, .newStruct]

/-- Every opcode, in order of bytes. -/
def all : List Opcode :=
  constants ++ controls ++ stackOps.map (fun op => .plain (.stack op)) ++
    spliceOps.map (fun op => .plain (.splice op)) ++
    numberOps.map (fun op => .plain (.number op)) ++
    cryptoOps.map (fun op => .plain (.crypto op)) ++
    containerOps.map (fun op => .plain (.container op))

/-- The opcode with the given byte. -/
def ofByte? (byte : UInt8) : Option Opcode := all.find? fun op => op.byte == byte

/-- The opcode with the given name, in the table's spelling. -/
def ofMnemonic? (name : String) : Option Opcode := all.find? fun op => op.mnemonic == name

/-- What follows the opcode. -/
def operand? : Opcode → Option OperandKind
  | .plain _ => none
  | .pushData width => some (.data width)
  | .jump _ => some .offset
  | .ret => none
  | .invoke _ => some .hash
  | .syscall => some .name

/-- Whether an offset follows the opcode. -/
def isJump : Opcode → Bool
  | .jump _ => true
  | _ => false

/-- The integer the opcode pushes, if it is one of the constants. -/
def smallInteger? : Opcode → Option Int
  | .plain (.constant .minusOne) => some (-1)
  | .plain (.constant (.small n)) => some (Int.ofNat n.val + 1)
  | _ => none

end Opcode

/-- Whether a byte pushes as many bytes as it says. -/
def isPushBytes (byte : UInt8) : Bool := 1 ≤ byte && byte ≤ 0x4b

/-- Whether a byte is in the range of constants and pushes, up to the constant 16. -/
def isPush (byte : UInt8) : Bool := byte ≤ 0x60

/-- The most bytes the name of a host call may have. -/
def maxNameLength : Nat := 252

/-! ### The table is the inverse of the bytes -/

/-- The table has every opcode. -/
theorem Opcode.mem_all (op : Opcode) : op ∈ Opcode.all := by
  cases op with
  | plain op =>
    cases op with
    | constant c =>
      cases c with
      | empty => decide
      | minusOne => decide
      | small n => revert n; decide
    | nop => decide
    | stack op => cases op <;> decide
    | splice op => cases op <;> decide
    | number op => cases op <;> decide
    | crypto op => cases op <;> decide
    | container op => cases op <;> decide
  | pushData width => cases width <;> decide
  | jump kind => cases kind <;> decide
  | ret => decide
  | invoke kind => cases kind <;> decide
  | syscall => decide

/-- An opcode found under a byte has that byte. -/
theorem Opcode.byte_ofByte? {byte : UInt8} {op : Opcode} (h : Opcode.ofByte? byte = some op) :
    op.byte = byte := by
  simpa using List.find?_some h

end StackScript
