import StackScript.Digest.Word

/-!
# SHA-1
-/

namespace StackScript.Digest.Sha1

/-- The five chaining words. -/
structure State where
  a : UInt32
  b : UInt32
  c : UInt32
  d : UInt32
  e : UInt32

/-- The chaining words before the first block. -/
def initial : State := ⟨0x67452301, 0xefcdab89, 0x98badcfe, 0x10325476, 0xc3d2e1f0⟩

/-- The eighty words of a block: its own sixteen, then each from four earlier ones. -/
def schedule (block : Array UInt32) : Array UInt32 :=
  (List.range 64).foldl (fun w k =>
    let i := k + 16
    w.push (rotateLeft (w.getD (i - 3) 0 ^^^ w.getD (i - 8) 0 ^^^ w.getD (i - 14) 0 ^^^
      w.getD (i - 16) 0) 1)) block

/-- The mixing function of a round. -/
def mix (round : Nat) (b c d : UInt32) : UInt32 :=
  if round < 20 then (b &&& c) ||| (~~~b &&& d)
  else if round < 40 then b ^^^ c ^^^ d
  else if round < 60 then (b &&& c) ||| (b &&& d) ||| (c &&& d)
  else b ^^^ c ^^^ d

/-- The constant of a round. -/
def constant (round : Nat) : UInt32 :=
  if round < 20 then 0x5a827999
  else if round < 40 then 0x6ed9eba1
  else if round < 60 then 0x8f1bbcdc
  else 0xca62c1d6

/-- Updates the chaining words with one block. -/
def compress (s : State) (block : Array UInt32) : State :=
  let w := schedule block
  let t := (List.range 80).foldl (fun (t : State) i =>
    let next := rotateLeft t.a 5 + mix i t.b t.c t.d + t.e + constant i + w.getD i 0
    ⟨next, t.a, rotateLeft t.b 30, t.c, t.d⟩) s
  ⟨s.a + t.a, s.b + t.b, s.c + t.c, s.d + t.d, s.e + t.e⟩

/-- The bytes of the chaining words. -/
def State.bytes (s : State) : Bytes :=
  ByteOrder.big.bytes s.a ++ ByteOrder.big.bytes s.b ++ ByteOrder.big.bytes s.c ++
    ByteOrder.big.bytes s.d ++ ByteOrder.big.bytes s.e

/-- The digest of a message. -/
def digest (message : Bytes) : Bytes := (foldBlocks .big message initial compress).bytes

@[simp] theorem length_digest (message : Bytes) : (digest message).length = 20 := by
  simp [digest, State.bytes]

end StackScript.Digest.Sha1
