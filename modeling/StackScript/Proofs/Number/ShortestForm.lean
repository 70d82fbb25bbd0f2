import StackScript.Item
import StackScript.Proofs.Consumption

/-!
# The shortest form of an integer

`signedValue` says which integer a byte string stands for in two's complement: every byte weighs 256
times as much as the byte before it, and the top bit of the last byte counts negative. `decode`
finds it by complementing (`decode_eq_signedValue`).

Many byte strings stand for one integer, since the sign may be repeated in further bytes
(`signedValue_append_two_iff`). An integer fits into a number of bytes exactly if `encode` needs no
more (`size_le_iff`), and at a given length every integer has at most one form. So `encode` writes
the one shortest form, and a byte string is that form exactly if its last byte does more than repeat
the sign.

Main statement: `encode_shortest`.
-/

namespace StackScript.Number.TwosComplement

/-- The integer that bytes stand for in two's complement, the least significant byte first. -/
def signedValue : Bytes → Int
  | [] => 0
  | [top] => if 0x80 ≤ top then top.toNat - 256 else top.toNat
  | byte :: rest => byte.toNat + 256 * signedValue rest

/-- The last byte only repeats the sign of the bytes before it: it is clear above a clear top bit,
or full above a set one. -/
def SignRepeated (bytes : Bytes) : Prop :=
  ∃ front byte last, bytes = front ++ [byte, last] ∧
    (last = 0x00 ∧ byte < 0x80 ∨ last = 0xff ∧ 0x80 ≤ byte)

/-! ### The value of bytes -/

theorem signedValue_cons_cons (byte next : UInt8) (rest : Bytes) :
    signedValue (byte :: next :: rest) = byte.toNat + 256 * signedValue (next :: rest) := rfl

theorem decode_singleton (top : UInt8) :
    decode [top] = if 0x80 ≤ top then (top.toNat : Int) - 256 else top.toNat := by
  have hbyte := top.toNat_lt
  have hnot : (~~~top).toNat = 255 - top.toNat := by simp
  unfold decode isNegative
  simp only [List.getLast?_singleton, decide_eq_true_eq]
  split
  · simp only [complement, List.map_cons, List.map_nil, Bytes.toNat_cons, Bytes.toNat_nil, hnot]
    omega
  · simp

/-- A byte in front is a digit of base 256. -/
theorem decode_cons_cons (byte next : UInt8) (rest : Bytes) :
    decode (byte :: next :: rest) = byte.toNat + 256 * decode (next :: rest) := by
  have hbyte := byte.toNat_lt
  have hnot : (~~~byte).toNat = 255 - byte.toNat := by simp
  have hcomplement : (complement (byte :: next :: rest)).toNat =
      255 - byte.toNat + 256 * (complement (next :: rest)).toNat := by
    rw [← hnot, ← Bytes.toNat_cons]
    rfl
  have hsign : isNegative (byte :: next :: rest) = isNegative (next :: rest) := by
    rw [isNegative, isNegative, List.getLast?_cons_cons]
  unfold decode
  rw [hsign, hcomplement, Bytes.toNat_cons byte]
  split
  · omega
  · simp only [Int.ofNat_eq_natCast]
    omega

/-- **Reading is by two's complement.** -/
theorem decode_eq_signedValue (bytes : Bytes) : decode bytes = signedValue bytes := by
  induction bytes with
  | nil => rfl
  | cons byte rest ih =>
    cases rest with
    | nil => exact decode_singleton byte
    | cons next rest => rw [decode_cons_cons, ih, signedValue_cons_cons]

/-- The value of two bytes is that of the first exactly if the second repeats its sign. -/
theorem signedValue_pair_iff (byte last : UInt8) :
    signedValue [byte, last] = signedValue [byte] ↔
      last = 0x00 ∧ byte < 0x80 ∨ last = 0xff ∧ 0x80 ≤ byte := by
  have hbyte := byte.toNat_lt
  have hlast := last.toNat_lt
  have htop : (0x80 : UInt8).toNat = 128 := rfl
  have hclear : last = 0x00 ↔ last.toNat = 0 := UInt8.toNat_inj.symm
  have hfull : last = 0xff ↔ last.toNat = 255 := UInt8.toNat_inj.symm
  rw [signedValue_cons_cons, hclear, hfull]
  simp only [signedValue, UInt8.le_iff_toNat_le, UInt8.lt_iff_toNat_lt, htop]
  split_ifs <;> omega

/-- One more byte keeps the value exactly if it repeats the sign. -/
theorem signedValue_append_two_iff (front : Bytes) (byte last : UInt8) :
    signedValue (front ++ [byte, last]) = signedValue (front ++ [byte]) ↔
      last = 0x00 ∧ byte < 0x80 ∨ last = 0xff ∧ 0x80 ≤ byte := by
  induction front with
  | nil => exact signedValue_pair_iff byte last
  | cons first front ih =>
    have hlong : signedValue (first :: front ++ [byte, last]) =
        first.toNat + 256 * signedValue (front ++ [byte, last]) := by
      cases front <;> rfl
    have hshort : signedValue (first :: front ++ [byte]) =
        first.toNat + 256 * signedValue (front ++ [byte]) := by
      cases front <;> rfl
    rw [← ih, hlong, hshort]
    omega

/-! ### The length of the shortest form -/

theorem byteCount_le_iff {n width : Nat} : byteCount n ≤ width + 1 ↔ n < 128 * 256 ^ width := by
  have hpower : 128 * 256 ^ width = 2 ^ (7 + 8 * width) := by
    rw [Nat.pow_add, Nat.pow_mul]
  rw [hpower, byteCount]
  by_cases hzero : n = 0
  · subst hzero
    simp
  · rw [← Nat.log2_lt hzero]
    omega

/-- **An integer fits into a number of bytes exactly if its shortest form does.** -/
theorem size_le_iff {width : Nat} {v : Int} :
    size v ≤ width + 1 ↔ -(128 * 256 ^ width : Nat) ≤ v ∧ v < (128 * 256 ^ width : Nat) := by
  cases v with
  | ofNat n =>
    rw [size, byteCount_le_iff, Int.ofNat_eq_natCast]
    omega
  | negSucc n =>
    rw [size, byteCount_le_iff]
    omega

theorem size_pos (v : Int) : 0 < size v := by
  cases v <;> exact Nat.succ_pos _

theorem encode_ne_nil (v : Int) : encode v ≠ [] := by
  rw [← List.length_pos_iff, length_encode]
  exact size_pos v

/-- No form of an integer is shorter than the one that is written. -/
theorem size_decode_le (bytes : Bytes) (h : bytes ≠ []) : size (decode bytes) ≤ bytes.length := by
  obtain ⟨width, hwidth⟩ := Nat.exists_eq_add_one_of_ne_zero (mt List.length_eq_zero_iff.mp h)
  rw [hwidth, size_le_iff]
  exact decode_bounds hwidth

/-- A byte string is the shortest form of its value exactly if it has the length of that form. -/
theorem encode_decode_iff_length (bytes : Bytes) :
    encode (decode bytes) = bytes ↔ size (decode bytes) = bytes.length := by
  constructor
  · intro h
    rw [← length_encode, h]
  · intro h
    rw [encode_eq_encodeFixed, h, encodeFixed_decode]

/-- Writing into one more byte appends a byte. -/
theorem encodeFixed_succ (width : Nat) (v : Int) :
    ∃ last, encodeFixed (width + 1) v = encodeFixed width v ++ [last] := by
  have hnat : ∀ n, ∃ last, Bytes.ofNat (width + 1) n = Bytes.ofNat width n ++ [last] := by
    intro n
    rw [Bytes.ofNat_eq_lowBytes, Bytes.ofNat_eq_lowBytes, Bytes.lowBytes_add]
    exact ⟨_, rfl⟩
  cases v with
  | ofNat n => exact hnat n
  | negSucc n =>
    obtain ⟨last, hlast⟩ := hnat n
    refine ⟨~~~last, ?_⟩
    simp only [encodeFixed, hlast, complement, List.map_append, List.map_cons, List.map_nil]

/-- If the value fits into the bytes but the last one, the last one repeats the sign. -/
theorem signRepeated_iff (front : Bytes) (byte last : UInt8) :
    SignRepeated (front ++ [byte, last]) ↔
      size (decode (front ++ [byte, last])) ≤ front.length + 1 := by
  have hsame : decode (front ++ [byte, last]) = decode (front ++ [byte]) ↔
      last = 0x00 ∧ byte < 0x80 ∨ last = 0xff ∧ 0x80 ≤ byte := by
    rw [decode_eq_signedValue, decode_eq_signedValue, signedValue_append_two_iff]
  constructor
  · rintro ⟨front', byte', last', heq, hsign⟩
    obtain ⟨rfl, hpair⟩ := List.append_inj' heq rfl
    obtain ⟨rfl, rfl⟩ : byte = byte' ∧ last = last' := by simpa using hpair
    rw [hsame.mpr hsign]
    have hle := size_decode_le (front ++ [byte]) (by simp)
    rwa [List.length_append] at hle
  · intro hsize
    -- the form with one byte less is a beginning of the bytes, since writing at a width is unique
    have hread := decode_encodeFixed (size_le_iff.mp hsize)
    obtain ⟨last', hwritten⟩ := encodeFixed_succ (front.length + 1) (decode (front ++ [byte, last]))
    have hlength : (front ++ [byte, last]).length = front.length + 1 + 1 := by simp
    have hbytes : encodeFixed (front.length + 1) (decode (front ++ [byte, last])) ++ [last'] =
        front ++ [byte] ++ [last] := by
      rw [← hwritten, ← hlength, encodeFixed_decode, List.append_cons]
    obtain ⟨hfront, -⟩ := List.append_inj' hbytes rfl
    rw [hfront] at hread
    exact ⟨front, byte, last, rfl, hsame.mp hread.symm⟩

theorem not_signRepeated_singleton (byte : UInt8) : ¬ SignRepeated [byte] := by
  rintro ⟨front, first, last, heq, -⟩
  have hlength := congrArg List.length heq
  simp at hlength

/-- A byte string is the shortest form of its value exactly if it is not empty and its last byte
does more than repeat the sign. -/
theorem encode_decode_iff (bytes : Bytes) :
    encode (decode bytes) = bytes ↔ bytes ≠ [] ∧ ¬ SignRepeated bytes := by
  rw [encode_decode_iff_length]
  rcases List.eq_nil_or_concat bytes with rfl | ⟨front, last, rfl⟩
  · simp [(size_pos _).ne']
  rw [List.concat_eq_append]
  have hle := size_decode_le (front ++ [last]) (by simp)
  rw [List.length_append, List.length_singleton] at hle ⊢
  rcases List.eq_nil_or_concat front with rfl | ⟨front, byte, rfl⟩
  · have hpos := size_pos (decode ([] ++ [last]))
    have hrepeated := not_signRepeated_singleton last
    simp only [List.nil_append, List.length_nil] at hle hpos ⊢
    exact ⟨fun _ => ⟨List.cons_ne_nil _ _, hrepeated⟩, fun _ => by omega⟩
  · rw [List.concat_eq_append, List.append_assoc, List.singleton_append, List.length_append,
      List.length_singleton] at hle ⊢
    rw [signRepeated_iff]
    constructor
    · intro h
      exact ⟨by simp, by omega⟩
    · rintro ⟨-, h⟩
      omega

/-! ### The main statement -/

/-- **An integer has one shortest form.** The bytes of an integer are not empty, are read back, and
have the integer as their value; any other byte string with that value that is not empty is longer.
Conversely a byte string is read as its value, and is the form of it exactly if it is not empty and
its last byte does not merely repeat the sign. -/
theorem encode_shortest :
    (∀ v : Int, (Item.integer v).bytes? = some (encode v) ∧ encode v ≠ [] ∧
      (Item.bytes (encode v)).integer? = some v ∧ signedValue (encode v) = v ∧
      ∀ bytes : Bytes, bytes ≠ [] → signedValue bytes = v → bytes ≠ encode v →
        (encode v).length < bytes.length) ∧
    ∀ bytes : Bytes, (Item.bytes bytes).integer? = some (signedValue bytes) ∧
      (encode (signedValue bytes) = bytes ↔ bytes ≠ [] ∧ ¬ SignRepeated bytes) := by
  refine ⟨fun v => ⟨rfl, encode_ne_nil v, congrArg some (decode_encode v), ?_, ?_⟩,
    fun bytes => ⟨congrArg some (decode_eq_signedValue bytes), ?_⟩⟩
  · rw [← decode_eq_signedValue, decode_encode]
  · rintro bytes hne rfl hother
    rw [← decode_eq_signedValue] at hother ⊢
    have hle := size_decode_le bytes hne
    have hlength : size (decode bytes) ≠ bytes.length := fun h =>
      hother ((encode_decode_iff_length bytes).mpr h).symm
    rw [length_encode]
    omega
  · rw [← decode_eq_signedValue]
    exact encode_decode_iff bytes

/-- The last integer of one byte below zero, the first one of two, and a form of the second that
repeats the sign. -/
theorem encode_shortest_belowOneByte :
    encode (-128) = [0x80] ∧ encode (-129) = [0x7f, 0xff] ∧
      signedValue [0x7f, 0xff, 0xff] = -129 ∧
      (encode (-129)).length < [0x7f, 0xff, 0xff].length := by
  refine ⟨by decide, by decide, by decide, ?_⟩
  exact (encode_shortest.1 (-129)).2.2.2.2 [0x7f, 0xff, 0xff] (by decide) (by decide) (by decide)

end StackScript.Number.TwosComplement
