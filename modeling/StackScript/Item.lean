import StackScript.Number.TwosComplement
import StackScript.Text.Hex

/-!
# Items

What scripts work on: integers of any size, truth values, byte strings, references to arrays and
structs, and objects of the host. Integers, truth values and byte strings can be seen as each
other; a reference and a host object can only be seen as a truth value, and that is true.

Two items of which one can be seen as bytes are equal if both can and their bytes coincide.
References are equal if they lead to the same cell, host objects if they are the same object.
-/

namespace StackScript

/-- The two kinds of container. -/
inductive ContainerKind where
  /-- Shared wherever it is stored. -/
  | array
  /-- Copied whenever it is stored into a container. -/
  | struct
  deriving DecidableEq, Repr

/-- A reference to a container: its kind and the number of its cell. -/
structure CellRef where
  /-- The kind. -/
  kind : ContainerKind
  /-- The number of the cell. -/
  cell : Nat
  deriving DecidableEq, Repr

/-- An object of the host that a script can hold but not look into. -/
structure HostObject where
  /-- What tells it from other objects. -/
  id : Nat
  /-- The name messages show. -/
  name : String
  /-- A number the host attached to it. -/
  tag : Option Int
  deriving DecidableEq, Repr

/-- An item. -/
inductive Item where
  | integer (value : Int)
  | boolean (value : Bool)
  | bytes (data : Bytes)
  | container (ref : CellRef)
  | host (object : HostObject)
  deriving DecidableEq, Repr

namespace Item

instance : Inhabited Item := ⟨.boolean false⟩

/-- The integer of a truth value. -/
def ofBool (b : Bool) : Int := if b then 1 else 0

/-- An item seen as an integer. -/
def integer? : Item → Option Int
  | .integer value => some value
  | .boolean value => some (ofBool value)
  | .bytes data => some (Number.TwosComplement.decode data)
  | .container _ | .host _ => none

/-- An item seen as a byte string. -/
def bytes? : Item → Option Bytes
  | .integer value => some (Number.TwosComplement.encode value)
  | .boolean value => some [if value then 1 else 0]
  | .bytes data => some data
  | .container _ | .host _ => none

/-- The number of bytes of an item seen as a byte string. -/
def size? : Item → Option Nat
  | .integer value => some (Number.TwosComplement.size value)
  | .boolean _ => some 1
  | .bytes data => some data.length
  | .container _ | .host _ => none

/-- An item seen as a truth value. -/
def truth : Item → Bool
  | .integer value => value != 0
  | .boolean value => value
  | .bytes data => data.any (· != 0)
  | .container _ | .host _ => true

/-- The reference an item is. -/
def ref? : Item → Option CellRef
  | .container ref => some ref
  | _ => none

/-- The cell of a struct. -/
def structCell? : Item → Option Nat
  | .container ⟨.struct, cell⟩ => some cell
  | _ => none

/-- Whether an item is a struct. -/
def isStruct (item : Item) : Bool := item.structCell?.isSome

/-- The name of an item's type. -/
def typeName : Item → String
  | .integer _ => "Integer"
  | .boolean _ => "Boolean"
  | .bytes _ => "ByteArray"
  | .container ⟨.array, _⟩ => "Array"
  | .container ⟨.struct, _⟩ => "Struct"
  | .host _ => "Interop"

/-- Whether two items are equal. -/
def equals : Item → Item → Bool
  | .integer a, .integer b => a == b
  | .container a, .container b => a == b
  | .host a, .host b => a.id == b.id
  | a, b =>
    match a.bytes?, b.bytes? with
    | some x, some y => x == y
    | _, _ => false

/-! ### Small laws -/

theorem size?_eq (item : Item) : item.size? = item.bytes?.map List.length := by
  cases item <;> simp [size?, bytes?]

end Item

end StackScript
