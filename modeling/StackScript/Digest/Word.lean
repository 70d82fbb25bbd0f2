import StackScript.Bytes

/-!
# Words and blocks of the digests

The three digests work alike: a message is padded to whole blocks of 64 bytes, each block is read
as sixteen words of 32 bits, and a state of a few words is updated block by block. They differ in
the order of bytes, which `ByteOrder` names.
-/

namespace StackScript.Digest

/-- Which byte of a number comes first. -/
inductive ByteOrder where
  /-- Most significant byte first. -/
  | big
  /-- Least significant byte first. -/
  | little

/-- `count` bytes of `n` in the given order. -/
def ByteOrder.write (order : ByteOrder) (count n : Nat) : Bytes :=
  match order with
  | .little => Bytes.ofNat count n
  | .big => (Bytes.ofNat count n).reverse

/-- The word four bytes stand for. -/
def ByteOrder.word (order : ByteOrder) (a b c d : UInt8) : UInt32 :=
  match order with
  | .big => (a.toUInt32 <<< 24) ||| (b.toUInt32 <<< 16) ||| (c.toUInt32 <<< 8) ||| d.toUInt32
  | .little => (d.toUInt32 <<< 24) ||| (c.toUInt32 <<< 16) ||| (b.toUInt32 <<< 8) ||| a.toUInt32

/-- The four bytes of a word. -/
def ByteOrder.bytes (order : ByteOrder) (w : UInt32) : Bytes := order.write 4 w.toNat

@[simp] theorem ByteOrder.length_write (order : ByteOrder) (count n : Nat) :
    (order.write count n).length = count := by
  cases order <;> simp [ByteOrder.write]

@[simp] theorem ByteOrder.length_bytes (order : ByteOrder) (w : UInt32) :
    (order.bytes w).length = 4 := by
  simp [ByteOrder.bytes]

/-- What stands behind a message of `length` bytes: one set bit, zeros up to 56 bytes into the last
block, and the length in bits. -/
def padding (order : ByteOrder) (length : Nat) : Bytes :=
  0x80 :: List.replicate ((119 - length % 64) % 64) 0 ++ order.write 8 (8 * length)

/-- Reads words, four bytes each, onto `done`. -/
def wordsOnto (order : ByteOrder) (done : Array UInt32) : Bytes → Array UInt32
  | a :: b :: c :: d :: rest => wordsOnto order (done.push (order.word a b c d)) rest
  | _ => done

/-- The words of a padded message, sixteen for each block. -/
def messageWords (order : ByteOrder) (message : Bytes) : Array UInt32 :=
  wordsOnto order #[] (message ++ padding order message.length)

/-- A word turned left by `n` bits, for `n` from 1 to 31. -/
def rotateLeft (w n : UInt32) : UInt32 := (w <<< n) ||| (w >>> (32 - n))

/-- A word turned right by `n` bits, for `n` from 1 to 31. -/
def rotateRight (w n : UInt32) : UInt32 := (w >>> n) ||| (w <<< (32 - n))

/-- Updates a state with the blocks of a padded message in turn. -/
def foldBlocks {σ : Type} (order : ByteOrder) (message : Bytes) (start : σ)
    (step : σ → Array UInt32 → σ) : σ :=
  let words := messageWords order message
  (List.range (words.size / 16)).foldl
    (fun s k => step s (words.extract (16 * k) (16 * k + 16))) start

end StackScript.Digest
