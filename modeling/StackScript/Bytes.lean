import StackScript.Number.Positional

/-!
# Byte strings

Scripts carry data as byte strings. This module holds the little that is said of them without
reading them as numbers or text: cutting out a part, and natural numbers of a fixed width written
least significant byte first.

Numbers may be very long, so they are not written byte by byte: `ofNat` halves a number until one
byte is left of each part. `lowBytes` states what it writes, and `ofNat_eq_lowBytes` that it does.
-/

namespace StackScript

/-- A byte string. -/
abbrev Bytes := List UInt8

namespace Bytes

/-- At most `count` bytes from `start` on; what lies outside the string is left out. -/
def slice (bytes : Bytes) (start count : Nat) : Bytes := (bytes.drop start).take count

/-- The natural number a byte string stands for, least significant byte first. -/
def toNat (bytes : Bytes) : Nat := Number.ofDigits 256 (bytes.map UInt8.toNat)

/-- The lowest `width` bytes of `n`, one after the other. -/
def lowBytes : (width n : Nat) → Bytes
  | 0, _ => []
  | width + 1, n => UInt8.ofNat n :: lowBytes width (n >>> 8)

/-- The lowest bytes of `n` in front of `rest`: one byte, doubled `doublings` times. -/
def halvesOnto (rest : Bytes) : (doublings n : Nat) → Bytes
  | 0, n => UInt8.ofNat n :: rest
  | doublings + 1, n =>
      let bits := 8 <<< doublings
      halvesOnto (halvesOnto rest doublings (n >>> bits)) doublings (n &&& ((1 <<< bits) - 1))

/-- The lowest `width` bytes of `n`, least significant byte first. -/
def ofNat (width n : Nat) : Bytes := (halvesOnto [] ((width - 1).log2 + 1) n).take width

/-! ### Small laws -/

@[simp] theorem toNat_nil : toNat [] = 0 := rfl

@[simp] theorem toNat_cons (b : UInt8) (bytes : Bytes) :
    toNat (b :: bytes) = b.toNat + 256 * toNat bytes := by
  simp [toNat, Number.ofDigits_eq_value]

theorem length_lowBytes (width n : Nat) : (lowBytes width n).length = width := by
  induction width generalizing n with
  | zero => rfl
  | succ width ih => simp [lowBytes, ih]

/-- A wide number is its low bytes followed by its high ones. -/
theorem lowBytes_add (low high n : Nat) :
    lowBytes (low + high) n = lowBytes low n ++ lowBytes high (n >>> (8 * low)) := by
  induction low generalizing n with
  | zero => simp [lowBytes]
  | succ low ih =>
    rw [Nat.add_right_comm, lowBytes, ih, lowBytes, List.cons_append, ← Nat.shiftRight_add,
      Nat.mul_add, Nat.add_comm 8]

/-- The lowest bytes depend on the lowest bits only. -/
theorem lowBytes_mask (width n : Nat) :
    lowBytes width (n &&& ((1 <<< (8 * width)) - 1)) = lowBytes width n := by
  induction width generalizing n with
  | zero => rfl
  | succ width ih =>
    have split : 1 <<< (8 * (width + 1)) = 256 * 1 <<< (8 * width) := by
      simp only [Nat.one_shiftLeft, Nat.mul_add, Nat.pow_add]
      omega
    have mask : ∀ m k, m &&& (1 <<< k - 1) = m % 1 <<< k := by
      intro m k
      rw [Nat.one_shiftLeft, Nat.and_two_pow_sub_one_eq_mod]
    have high : (n % (256 * 1 <<< (8 * width))) >>> 8 = (n >>> 8) % 1 <<< (8 * width) := by
      rw [Nat.shiftRight_eq_div_pow, Nat.shiftRight_eq_div_pow, Nat.mod_mul_right_div_self]
    have head : UInt8.ofNat (n % (256 * 1 <<< (8 * width))) = UInt8.ofNat n := by
      apply UInt8.toNat_inj.1
      simp
    rw [lowBytes, lowBytes, mask, split, head, high, ← mask, ih]

theorem halvesOnto_eq (rest : Bytes) (doublings n : Nat) :
    halvesOnto rest doublings n = lowBytes (1 <<< doublings) n ++ rest := by
  induction doublings generalizing rest n with
  | zero => rfl
  | succ doublings ih =>
    have bits : 8 <<< doublings = 8 * 1 <<< doublings := by
      rw [Nat.shiftLeft_eq, Nat.one_shiftLeft]
    have double : 1 <<< (doublings + 1) = 1 <<< doublings + 1 <<< doublings := by
      simp only [Nat.one_shiftLeft, Nat.pow_succ]
      omega
    rw [halvesOnto, ih, ih, bits, lowBytes_mask, double, lowBytes_add, List.append_assoc]

/-- Halving a number writes the same bytes as going through it byte by byte. -/
theorem ofNat_eq_lowBytes (width n : Nat) : ofNat width n = lowBytes width n := by
  have enough : width ≤ 1 <<< ((width - 1).log2 + 1) := by
    have h := Nat.lt_log2_self (n := width - 1)
    rw [Nat.one_shiftLeft]
    omega
  obtain ⟨more, h⟩ := Nat.exists_eq_add_of_le enough
  rw [ofNat, halvesOnto_eq, List.append_nil, h, lowBytes_add,
    List.take_left' (length_lowBytes width n)]

@[simp] theorem ofNat_zero (n : Nat) : ofNat 0 n = [] := rfl

@[simp] theorem ofNat_succ (width n : Nat) :
    ofNat (width + 1) n = UInt8.ofNat n :: ofNat width (n / 256) := by
  rw [ofNat_eq_lowBytes, ofNat_eq_lowBytes, lowBytes, Nat.shiftRight_eq_div_pow]

@[simp] theorem length_ofNat (width n : Nat) : (ofNat width n).length = width := by
  rw [ofNat_eq_lowBytes, length_lowBytes]

end Bytes

end StackScript
