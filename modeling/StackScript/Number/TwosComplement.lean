import StackScript.Bytes

/-!
# Integers as bytes

An integer is written in two's complement, least significant byte first, in as few bytes as keep
its sign: the top bit of the last byte is the sign. Zero takes one byte. Reading accepts any
length, and the empty string reads as zero.

A natural number takes one more byte while it does not fit into seven bits (`encodeNat_eq`). A
negative integer `v` is the bytewise complement of the natural number `-v - 1`.
-/

namespace StackScript.Number.TwosComplement

/-- The number of bytes that hold the bits of a natural number and a clear bit above them. -/
def byteCount (n : Nat) : Nat := (n.log2 + 1) / 8 + 1

/-- The bytes of a natural number, with a clear top bit at the end. -/
def encodeNat (n : Nat) : Bytes := Bytes.ofNat (byteCount n) n

/-- Every bit of every byte turned over. -/
def complement (bytes : Bytes) : Bytes := bytes.map fun b => ~~~b

/-- The fewest bytes that hold `v` and its sign. -/
def encode (v : Int) : Bytes :=
  match v with
  | .ofNat n => encodeNat n
  | .negSucc n => complement (encodeNat n)

/-- The number of bytes that `encode` writes. -/
def size (v : Int) : Nat :=
  match v with
  | .ofNat n => byteCount n
  | .negSucc n => byteCount n

/-- Whether the last byte has its top bit set. -/
def isNegative (bytes : Bytes) : Bool :=
  match bytes.getLast? with
  | some b => 0x80 ≤ b
  | none => false

/-- The integer a byte string stands for. -/
def decode (bytes : Bytes) : Int :=
  if isNegative bytes then .negSucc (complement bytes).toNat else .ofNat bytes.toNat

/-- The lowest `width` bytes of `v` in two's complement. -/
def encodeFixed (width : Nat) (v : Int) : Bytes :=
  match v with
  | .ofNat n => Bytes.ofNat width n
  | .negSucc n => complement (Bytes.ofNat width n)

/-- Whether `v` fits into 32 bits with a sign. -/
def fits32 (v : Int) : Bool := -2147483648 ≤ v && v < 2147483648

/-- Whether `v` fits into 16 bits with a sign. -/
def fits16 (v : Int) : Bool := -32768 ≤ v && v < 32768

/-! ### Small laws -/

@[simp] theorem length_encode (v : Int) : (encode v).length = size v := by
  cases v <;> simp [encode, encodeNat, complement, size]

theorem byteCount_of_lt {n : Nat} (h : n < 128) : byteCount n = 1 := by
  have : n.log2 < 7 := by
    by_cases h0 : n = 0
    · simp [h0]
    · exact (Nat.log2_lt h0).2 h
  rw [byteCount]
  omega

theorem byteCount_of_le {n : Nat} (h : 128 ≤ n) : byteCount n = byteCount (n / 256) + 1 := by
  by_cases hbig : n < 256
  · have : n.log2 = 7 := (Nat.log2_eq_iff (by omega)).2 ⟨h, hbig⟩
    rw [byteCount, this, Nat.div_eq_of_lt hbig]
    rfl
  · have hlog : n.log2 = (n / 256).log2 + 8 := by
      have bounds := (Nat.log2_eq_iff (n := n / 256) (by omega)).1 rfl
      have scale : ∀ power, power ≤ n / 256 ∧ n / 256 < power * 2 →
          power * 256 ≤ n ∧ n < power * 256 * 2 := by omega
      rw [Nat.log2_eq_iff (by omega)]
      simp only [Nat.pow_add] at bounds ⊢
      exact scale _ bounds
    rw [byteCount, byteCount, hlog]
    omega

/-- A natural number that fits into seven bits is one byte, and any other one is its lowest byte
followed by the bytes of the rest. -/
theorem encodeNat_eq (n : Nat) :
    encodeNat n = if n < 128 then [UInt8.ofNat n] else UInt8.ofNat n :: encodeNat (n / 256) := by
  split
  · rename_i h
    rw [encodeNat, byteCount_of_lt h]
    simp
  · rename_i h
    rw [encodeNat, byteCount_of_le (Nat.le_of_not_lt h), Bytes.ofNat_succ, encodeNat]

end StackScript.Number.TwosComplement
