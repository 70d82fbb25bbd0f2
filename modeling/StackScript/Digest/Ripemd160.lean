import StackScript.Digest.Word

/-!
# RIPEMD-160

Two lines of eighty rounds run side by side over the same block, and their results are added
crosswise to the chaining words.
-/

namespace StackScript.Digest.Ripemd160

/-- The five chaining words. -/
structure State where
  a : UInt32
  b : UInt32
  c : UInt32
  d : UInt32
  e : UInt32

/-- The chaining words before the first block. -/
def initial : State := ⟨0x67452301, 0xefcdab89, 0x98badcfe, 0x10325476, 0xc3d2e1f0⟩

/-- What one line takes in each round: the word of the block, the turn, and for every sixteen
rounds a constant. -/
structure Line where
  /-- The index of the word each round takes. -/
  words : Array Nat
  /-- The bits each round turns by. -/
  turns : Array UInt32
  /-- The constant of each sixteen rounds. -/
  constants : Array UInt32
  /-- Whether the mixing functions come in reverse order. -/
  reversed : Bool

/-- The left line. -/
def left : Line where
  words := #[
    0, 1, 2, 3, 4, 5, 6, 7, 8, 9, 10, 11, 12, 13, 14, 15,
    7, 4, 13, 1, 10, 6, 15, 3, 12, 0, 9, 5, 2, 14, 11, 8,
    3, 10, 14, 4, 9, 15, 8, 1, 2, 7, 0, 6, 13, 11, 5, 12,
    1, 9, 11, 10, 0, 8, 12, 4, 13, 3, 7, 15, 14, 5, 6, 2,
    4, 0, 5, 9, 7, 12, 2, 10, 14, 1, 3, 8, 11, 6, 15, 13]
  turns := #[
    11, 14, 15, 12, 5, 8, 7, 9, 11, 13, 14, 15, 6, 7, 9, 8,
    7, 6, 8, 13, 11, 9, 7, 15, 7, 12, 15, 9, 11, 7, 13, 12,
    11, 13, 6, 7, 14, 9, 13, 15, 14, 8, 13, 6, 5, 12, 7, 5,
    11, 12, 14, 15, 14, 15, 9, 8, 9, 14, 5, 6, 8, 6, 5, 12,
    9, 15, 5, 11, 6, 8, 13, 12, 5, 12, 13, 14, 11, 8, 5, 6]
  constants := #[0x00000000, 0x5a827999, 0x6ed9eba1, 0x8f1bbcdc, 0xa953fd4e]
  reversed := false

/-- The right line. -/
def right : Line where
  words := #[
    5, 14, 7, 0, 9, 2, 11, 4, 13, 6, 15, 8, 1, 10, 3, 12,
    6, 11, 3, 7, 0, 13, 5, 10, 14, 15, 8, 12, 4, 9, 1, 2,
    15, 5, 1, 3, 7, 14, 6, 9, 11, 8, 12, 2, 10, 0, 4, 13,
    8, 6, 4, 1, 3, 11, 15, 0, 5, 12, 2, 13, 9, 7, 10, 14,
    12, 15, 10, 4, 1, 5, 8, 7, 6, 2, 13, 14, 0, 3, 9, 11]
  turns := #[
    8, 9, 9, 11, 13, 15, 15, 5, 7, 7, 8, 11, 14, 14, 12, 6,
    9, 13, 15, 7, 12, 8, 9, 11, 7, 7, 12, 7, 6, 15, 13, 11,
    9, 7, 15, 11, 8, 6, 6, 14, 12, 13, 5, 14, 13, 13, 7, 5,
    15, 5, 8, 11, 14, 14, 6, 14, 6, 9, 12, 9, 12, 5, 15, 8,
    8, 5, 12, 9, 12, 5, 14, 6, 8, 13, 6, 5, 15, 13, 11, 11]
  constants := #[0x50a28be6, 0x5c4dd124, 0x6d703ef3, 0x7a6d76e9, 0x00000000]
  reversed := true

/-- The mixing function of a group of sixteen rounds. -/
def mix (group : Nat) (x y z : UInt32) : UInt32 :=
  match group with
  | 0 => x ^^^ y ^^^ z
  | 1 => (x &&& y) ||| (~~~x &&& z)
  | 2 => (x ||| ~~~y) ^^^ z
  | 3 => (x &&& z) ||| (y &&& ~~~z)
  | _ => x ^^^ (y ||| ~~~z)

/-- The eighty rounds of one line. -/
def Line.run (line : Line) (block : Array UInt32) (s : State) : State :=
  (List.range 80).foldl (fun (t : State) j =>
    let group := if line.reversed then 4 - j / 16 else j / 16
    let sum := t.a + mix group t.b t.c t.d + block.getD (line.words.getD j 0) 0 +
      line.constants.getD (j / 16) 0
    ⟨t.e, rotateLeft sum (line.turns.getD j 0) + t.e, t.b, rotateLeft t.c 10, t.d⟩) s

/-- Updates the chaining words with one block. -/
def compress (s : State) (block : Array UInt32) : State :=
  let l := left.run block s
  let r := right.run block s
  ⟨s.b + l.c + r.d, s.c + l.d + r.e, s.d + l.e + r.a, s.e + l.a + r.b, s.a + l.b + r.c⟩

/-- The bytes of the chaining words. -/
def State.bytes (s : State) : Bytes :=
  ByteOrder.little.bytes s.a ++ ByteOrder.little.bytes s.b ++ ByteOrder.little.bytes s.c ++
    ByteOrder.little.bytes s.d ++ ByteOrder.little.bytes s.e

/-- The digest of a message. -/
def digest (message : Bytes) : Bytes := (foldBlocks .little message initial compress).bytes

@[simp] theorem length_digest (message : Bytes) : (digest message).length = 20 := by
  simp [digest, State.bytes]

end StackScript.Digest.Ripemd160
