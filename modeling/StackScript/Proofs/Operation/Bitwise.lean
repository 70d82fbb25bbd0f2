import StackScript.Proofs.Number.ShortestForm
import StackScript.Proofs.Operation.Shifts

/-!
# Bit operations on bytes

The bit operations are defined on integers of any size, as endless rows of bits. On bytes they work
byte by byte, once both operands are filled up to one length with bytes that repeat their sign. The
row is taken apart from its low end: an integer is its lowest byte and the integer above it, an
operation acts on both by themselves (`ActsAs`), and so does the form of a fixed width. The shortest
form is that of any greater width without the repeated sign (`signExtend_encode`).

Main statement: `Control.bitwise_bytewise`.
-/

namespace StackScript

open Operation Number Number.TwosComplement

namespace Number.TwosComplement

/-! ### Repeating the sign -/

/-- The byte that repeats the sign of bytes: full above a set top bit, clear above a clear one. -/
def signByte (bytes : Bytes) : UInt8 :=
  match bytes.getLast? with
  | some top => if 0x80 ≤ top then 0xff else 0x00
  | none => 0x00

/-- The bytes with their sign repeated up to a length. -/
def signExtend (width : Nat) (bytes : Bytes) : Bytes :=
  bytes ++ List.replicate (width - bytes.length) (signByte bytes)

theorem signByte_append (bytes : Bytes) : signByte (bytes ++ [signByte bytes]) = signByte bytes := by
  have hsign : signByte bytes = 0xff ∨ signByte bytes = 0x00 := by
    unfold signByte
    split
    · split
      · exact .inl rfl
      · exact .inr rfl
    · exact .inr rfl
  rw [signByte, List.getLast?_append, List.getLast?_singleton]
  rcases hsign with h | h <;> rw [h] <;> rfl

/-- The value is kept where the sign is repeated. -/
theorem decode_append_signByte {bytes : Bytes} (hne : bytes ≠ []) :
    decode (bytes ++ [signByte bytes]) = decode bytes := by
  obtain ⟨front, byte, rfl⟩ := (List.eq_nil_or_concat' bytes).resolve_left hne
  have hsign : signByte (front ++ [byte]) = if 0x80 ≤ byte then 0xff else 0x00 := by
    rw [signByte, List.getLast?_append, List.getLast?_singleton]
    rfl
  rw [decode_eq_signedValue, decode_eq_signedValue, List.append_assoc, List.singleton_append,
    signedValue_append_two_iff, hsign]
  by_cases htop : 0x80 ≤ byte
  · rw [if_pos htop]
    exact .inr ⟨rfl, htop⟩
  · rw [if_neg htop]
    exact .inl ⟨rfl, UInt8.not_le.mp htop⟩

theorem decode_append_replicate (count : Nat) {bytes : Bytes} (hne : bytes ≠ []) :
    decode (bytes ++ List.replicate count (signByte bytes)) = decode bytes := by
  induction count generalizing bytes with
  | zero => rw [List.replicate_zero, List.append_nil]
  | succ count ih =>
    -- the first of the bytes goes to the string, which keeps its sign
    have hmore := @ih (bytes ++ [signByte bytes]) (by simp)
    rwa [signByte_append, decode_append_signByte hne, List.append_assoc, List.singleton_append,
      ← List.replicate_succ] at hmore

/-- **The shortest form with its sign repeated is the form of the greater width.** -/
theorem signExtend_encode {width : Nat} {v : Int} (h : size v ≤ width) :
    signExtend width (encode v) = encodeFixed width v := by
  have hlength : (signExtend width (encode v)).length = width := by
    rw [signExtend, List.length_append, List.length_replicate, length_encode]
    omega
  have hvalue : decode (signExtend width (encode v)) = v := by
    rw [signExtend, decode_append_replicate _ (encode_ne_nil v), decode_encode]
  -- at a given width an integer has one form
  have hform := encodeFixed_decode (signExtend width (encode v))
  rw [hlength, hvalue] at hform
  exact hform.symm

/-! ### The lowest byte and the rest -/

/-- The lowest byte of an integer. -/
def lowByte : Int → UInt8
  | .ofNat n => UInt8.ofNat n
  | .negSucc n => ~~~UInt8.ofNat n

/-- What is above the lowest byte. -/
def rest : Int → Int
  | .ofNat n => .ofNat (n >>> 8)
  | .negSucc n => .negSucc (n >>> 8)

theorem encodeFixed_lowByte (width : Nat) (v : Int) :
    encodeFixed (width + 1) v = lowByte v :: encodeFixed width (rest v) := by
  cases v <;> simp only [encodeFixed, Bytes.ofNat_eq_lowBytes] <;> rfl

/-- The natural number whose bits, or whose complement's, an integer has. -/
def magnitude : Int → Nat
  | .ofNat n => n
  | .negSucc n => n

theorem size_le_iff_magnitude {width : Nat} {v : Int} :
    size v ≤ width + 1 ↔ magnitude v < 2 ^ (7 + 8 * width) := by
  have hpower : 128 * 256 ^ width = 2 ^ (7 + 8 * width) := by
    rw [Nat.pow_add, Nat.pow_mul]
  cases v <;> rw [size, byteCount_le_iff, hpower] <;> rfl

/-! ### Operations on the bits -/

/-- An operation on integers acts as one on bytes: on the lowest byte and on the rest alike. It
needs no bits above those of its operands. -/
structure ActsAs (f : Int → Int → Int) (onByte : UInt8 → UInt8 → UInt8) : Prop where
  lowByte (a b : Int) : lowByte (f a b) = onByte (lowByte a) (lowByte b)
  rest (a b : Int) : rest (f a b) = f (rest a) (rest b)
  bits {a b : Int} {count : Nat} (ha : magnitude a < 2 ^ count) (hb : magnitude b < 2 ^ count) :
    magnitude (f a b) < 2 ^ count

theorem bitNot_bitNot (v : Int) : bitNot (bitNot v) = v := by
  cases v <;> rfl

theorem bitNot_bitAnd (a b : Int) : bitNot (bitAnd a b) = bitOr (bitNot a) (bitNot b) := by
  cases a <;> cases b <;> rfl

theorem bitNot_bitOr (a b : Int) : bitNot (bitOr a b) = bitAnd (bitNot a) (bitNot b) := by
  cases a <;> cases b <;> rfl

theorem lowByte_bitNot (v : Int) : lowByte (bitNot v) = ~~~lowByte v := by
  cases v with
  | ofNat n => rfl
  | negSucc n => exact UInt8.not_not.symm

theorem rest_bitNot (v : Int) : rest (bitNot v) = bitNot (rest v) := by
  cases v <;> rfl

theorem magnitude_bitNot (v : Int) : magnitude (bitNot v) = magnitude v := by
  cases v <;> rfl

/-- A byte is given by its bits. -/
theorem byte_ext {x y : UInt8} (h : ∀ i (hi : i < 8), x.toBitVec[i] = y.toBitVec[i]) : x = y :=
  UInt8.toBitVec_inj.mp (BitVec.eq_of_getElem_eq h)

theorem byte_without (x y : UInt8) : x ^^^ (x &&& y) = x &&& ~~~y := by
  refine byte_ext fun i hi => ?_
  simp only [UInt8.toBitVec_xor, UInt8.toBitVec_and, UInt8.toBitVec_not, BitVec.getElem_xor,
    BitVec.getElem_and, BitVec.getElem_not]
  cases x.toBitVec[i] <;> cases y.toBitVec[i] <;> rfl

theorem byte_not_or (x y : UInt8) : ~~~(x ||| y) = ~~~x &&& ~~~y := by
  refine byte_ext fun i hi => ?_
  simp only [UInt8.toBitVec_or, UInt8.toBitVec_and, UInt8.toBitVec_not, BitVec.getElem_or,
    BitVec.getElem_and, BitVec.getElem_not, Bool.not_or]

theorem actsAs_bitAnd : ActsAs bitAnd (· &&& ·) := by
  constructor
  · intro a b
    cases a <;> cases b <;> simp only [bitAnd, bitsWithout, lowByte, UInt8.ofNat_and,
      UInt8.ofNat_or, UInt8.ofNat_xor, byte_without, byte_not_or]
    exact UInt8.and_comm _ _
  · intro a b
    cases a <;> cases b <;> simp only [bitAnd, bitsWithout, rest, Nat.shiftRight_and_distrib,
      Nat.shiftRight_or_distrib, Nat.shiftRight_xor_distrib]
  · intro a b count ha hb
    cases a <;> cases b
    · exact Nat.and_lt_two_pow _ hb
    · exact Nat.xor_lt_two_pow ha (Nat.and_lt_two_pow _ hb)
    · exact Nat.xor_lt_two_pow hb (Nat.and_lt_two_pow _ ha)
    · exact Nat.or_lt_two_pow ha hb

/-- A union is the complement of what both complements share. -/
theorem actsAs_bitOr : ActsAs bitOr (· ||| ·) := by
  have hunion : ∀ a b, bitOr a b = bitNot (bitAnd (bitNot a) (bitNot b)) := by
    intro a b
    rw [bitNot_bitAnd, bitNot_bitNot, bitNot_bitNot]
  constructor
  · intro a b
    rw [hunion, lowByte_bitNot, actsAs_bitAnd.lowByte, lowByte_bitNot, lowByte_bitNot,
      ← byte_not_or, UInt8.not_not]
  · intro a b
    simp only [hunion, rest_bitNot, actsAs_bitAnd.rest]
  · intro a b count ha hb
    rw [hunion, magnitude_bitNot]
    refine actsAs_bitAnd.bits ?_ ?_ <;> rwa [magnitude_bitNot]

theorem actsAs_bitXor : ActsAs bitXor (· ^^^ ·) := by
  constructor
  · intro a b
    cases a <;> cases b <;>
      simp only [bitXor, lowByte, UInt8.ofNat_xor, UInt8.not_xor, UInt8.xor_not, UInt8.not_not]
  · intro a b
    cases a <;> cases b <;> simp only [bitXor, rest, Nat.shiftRight_xor_distrib]
  · intro a b count ha hb
    cases a <;> cases b <;> exact Nat.xor_lt_two_pow ha hb

/-- At a fixed width, an operation is applied byte by byte. -/
theorem ActsAs.encodeFixed {f : Int → Int → Int} {onByte : UInt8 → UInt8 → UInt8}
    (h : ActsAs f onByte) (width : Nat) (a b : Int) : encodeFixed width (f a b) =
      List.zipWith onByte (encodeFixed width a) (encodeFixed width b) := by
  induction width generalizing a b with
  | zero => cases f a b <;> cases a <;> cases b <;> rfl
  | succ width ih =>
    rw [encodeFixed_lowByte, encodeFixed_lowByte width a, encodeFixed_lowByte width b,
      List.zipWith_cons_cons, h.lowByte, h.rest, ih]

/-- The result fits where both operands do. -/
theorem ActsAs.size_le {f : Int → Int → Int} {onByte : UInt8 → UInt8 → UInt8}
    (h : ActsAs f onByte) {width : Nat} {a b : Int} (ha : size a ≤ width) (hb : size b ≤ width) :
    size (f a b) ≤ width := by
  obtain ⟨width, rfl⟩ := Nat.exists_eq_add_one_of_ne_zero ((size_pos a).trans_le ha).ne'
  rw [size_le_iff_magnitude] at ha hb ⊢
  exact h.bits ha hb

theorem encodeFixed_bitNot (width : Nat) (v : Int) :
    encodeFixed width (bitNot v) = (encodeFixed width v).map (~~~ ·) := by
  induction width generalizing v with
  | zero => cases v <;> rfl
  | succ width ih =>
    rw [encodeFixed_lowByte, encodeFixed_lowByte, List.map_cons, lowByte_bitNot, rest_bitNot, ih]

theorem size_bitNot (v : Int) : size (bitNot v) = size v := by
  cases v <;> rfl

end Number.TwosComplement

/-! ### Operations of the engine -/

namespace Operation

variable {w : Workspace} {left right : Item} {below : Stack Item} {a b : Int}

theorem unary_eq (instruction : String) (f : Int → Item) (heval : w.eval = left :: below)
    (hleft : left.integer? = some a) :
    unary instruction f w = .ok () { w with eval := f a :: below } :=
  run_bind_ok (popInteger_eq instruction heval hleft)

theorem binary_eq (instruction : String) (f : Int → Int → Item)
    (heval : w.eval = right :: left :: below) (hleft : left.integer? = some a)
    (hright : right.integer? = some b) :
    binary instruction f w = .ok () { w with eval := f a b :: below } := by
  refine (run_bind_ok (popInteger_eq instruction heval hright)).trans ?_
  exact run_bind_ok (popInteger_eq instruction rfl hleft)

end Operation

/-- An operation on numbers and what it does to bytes. -/
inductive NumberOp.Combines : NumberOp → (UInt8 → UInt8 → UInt8) → Prop where
  | and : Combines .and (· &&& ·)
  | or : Combines .or (· ||| ·)
  | xor : Combines .xor (· ^^^ ·)

theorem NumberOp.Combines.exists_actsAs {op : NumberOp} {onByte : UInt8 → UInt8 → UInt8}
    (h : op.Combines onByte) :
    ∃ f, ActsAs f onByte ∧ op.run = binary op.mnemonic fun a b => .integer (f a b) := by
  cases h with
  | and => exact ⟨bitAnd, actsAs_bitAnd, rfl⟩
  | or => exact ⟨bitOr, actsAs_bitOr, rfl⟩
  | xor => exact ⟨bitXor, actsAs_bitXor, rfl⟩

namespace Control

variable {e : Engine} {left right : Item} {a b : Int}

theorem performOn_invert (hleft : left.integer? = some a) :
    performOn .invert [left] e = .ok () (e.pushed (.integer (bitNot a))) :=
  performOn_ok (unary_eq _ _ rfl hleft)

theorem performOn_binary {op : NumberOp} {f : Int → Int → Int}
    (hop : op.run = binary op.mnemonic fun a b => .integer (f a b))
    (hleft : left.integer? = some a) (hright : right.integer? = some b) :
    performOn op [left, right] e = .ok () (e.pushed (.integer (f a b))) := by
  refine performOn_ok ?_
  rw [hop]
  exact binary_eq _ _ rfl hleft hright

/-- What is pushed is turned over next. -/
theorem performOn_then_invert {op : NumberOp} {operands : List Item}
    (h : performOn op operands e = .ok () (e.pushed (.integer a))) :
    (do performOn op operands; performOn .invert []) e =
      .ok () (e.pushed (.integer (bitNot a))) := by
  refine (run_bind_ok h).trans ?_
  rw [← performOn_cons]
  exact performOn_invert rfl

/-- Both operands are turned over before they are combined. -/
theorem performOn_inverted {op : NumberOp} {f : Int → Int → Int}
    (hop : op.run = binary op.mnemonic fun a b => .integer (f a b))
    (hleft : left.integer? = some a) (hright : right.integer? = some b) :
    (do performOn .invert [left]; performOn .invert [right]; performOn op []) e =
      .ok () (e.pushed (.integer (f (bitNot a) (bitNot b)))) := by
  refine (run_bind_ok (performOn_invert hleft)).trans ?_
  refine (run_bind_ok (performOn_invert hright)).trans ?_
  rw [← performOn_cons, ← performOn_cons]
  exact performOn_binary hop rfl rfl

/-- **Bit operations work on the bytes.** Filled up with the sign to any length that both operands'
shortest forms have room in, the bytes of what is pushed are the operands' bytes combined, or turned
over, one by one. So they are not more than the longer operand has. Turning over twice gives the
integer back, and turning over changes intersections and unions into each other. -/
theorem bitwise_bytewise (e : Engine) {a b : Int} {left right : Item}
    (hleft : left.integer? = some a) (hright : right.integer? = some b) :
    (∀ (op : NumberOp) (onByte : UInt8 → UInt8 → UInt8), op.Combines onByte → ∃ item bytes,
      performOn op [left, right] e = .ok () (e.pushed item) ∧ item.bytes? = some bytes ∧
      (∀ width, (encode a).length ≤ width → (encode b).length ≤ width → signExtend width bytes =
        List.zipWith onByte (signExtend width (encode a)) (signExtend width (encode b))) ∧
      bytes.length ≤ max (encode a).length (encode b).length) ∧
    (∃ item bytes,
      performOn .invert [left] e = .ok () (e.pushed item) ∧ item.bytes? = some bytes ∧
      (∀ width, (encode a).length ≤ width →
        signExtend width bytes = (signExtend width (encode a)).map (~~~ ·)) ∧
      bytes.length ≤ (encode a).length) ∧
    (do performOn .invert [left]; performOn .invert []) e = .ok () (e.pushed (.integer a)) ∧
    (do performOn .and [left, right]; performOn .invert []) e =
      (do performOn .invert [left]; performOn .invert [right]; performOn .or []) e ∧
    (do performOn .or [left, right]; performOn .invert []) e =
      (do performOn .invert [left]; performOn .invert [right]; performOn .and []) e := by
  have hand : NumberOp.and.run = binary _ fun a b => .integer (bitAnd a b) := rfl
  have hor : NumberOp.or.run = binary _ fun a b => .integer (bitOr a b) := rfl
  simp only [length_encode]
  refine ⟨fun op onByte hop => ?_, ?_, ?_, ?_, ?_⟩
  · obtain ⟨f, hf, hrun⟩ := hop.exists_actsAs
    refine ⟨_, encode (f a b), performOn_binary hrun hleft hright, rfl, fun width ha hb => ?_, ?_⟩
    · rw [signExtend_encode (hf.size_le ha hb), signExtend_encode ha, signExtend_encode hb,
        hf.encodeFixed]
    · rw [length_encode]
      exact hf.size_le (le_max_left _ _) (le_max_right _ _)
  · refine ⟨_, encode (bitNot a), performOn_invert hleft, rfl, fun width ha => ?_, ?_⟩
    · rw [signExtend_encode ((size_bitNot a).trans_le ha), signExtend_encode ha, encodeFixed_bitNot]
    · rw [length_encode, size_bitNot]
  · rw [performOn_then_invert (performOn_invert hleft), bitNot_bitNot]
  · rw [performOn_then_invert (performOn_binary hand hleft hright), bitNot_bitAnd,
      performOn_inverted hor hleft hright]
  · rw [performOn_then_invert (performOn_binary hor hleft hright), bitNot_bitOr,
      performOn_inverted hand hleft hright]

/-- An intersection across signs and lengths: of `-129`, whose sign is repeated once, and 200, one
byte is left. Turned over twice, the first operand is back, in its shortest form. -/
theorem bitwise_bytewise_oppositeSigns :
    (∃ item bytes, performOn .and [.bytes [0x7f, 0xff, 0xff], .integer 200]
        (Engine.new .secp256k1) = .ok () ((Engine.new .secp256k1).pushed item) ∧
      item.bytes? = some bytes ∧ signExtend 3 bytes = [0x48, 0x00, 0x00] ∧ bytes.length ≤ 2) ∧
    (do performOn .invert [.bytes [0x7f, 0xff, 0xff]]; performOn .invert [])
      (Engine.new .secp256k1) = .ok () ((Engine.new .secp256k1).pushed (.integer (-129))) := by
  have hleft : (Item.bytes [0x7f, 0xff, 0xff]).integer? = some (-129) := by decide
  have hright : (Item.integer 200).integer? = some 200 := rfl
  obtain ⟨hpairs, -, htwice, -⟩ := bitwise_bytewise (Engine.new .secp256k1) hleft hright
  obtain ⟨item, bytes, hpushed, hbytes, hforms, hlength⟩ := hpairs _ _ .and
  refine ⟨⟨item, bytes, hpushed, hbytes, ?_, hlength.trans (by decide)⟩, htwice⟩
  exact (hforms 3 (by decide) (by decide)).trans (by decide)

end Control

end StackScript
