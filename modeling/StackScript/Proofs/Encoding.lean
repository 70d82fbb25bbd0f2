import StackScript.Proofs.Reading
import Mathlib.Tactic.Ring

/-!
# Reading back what was written

`Instruction.encode` is the byte form of an instruction, and `push`, `pushInteger` and `pushBool`
are the shortest instructions that push a value. They serve as the measure for what the builder and
the assembler write. An instruction takes up as many bytes as it has in this form, whatever follows.
`Reads reader bytes a` says that a reader finds `a` in `bytes` at any place of any script, and reads
no further. `Instruction.Encodable` says which instructions have operands that fit their place.

Main statements: an encodable instruction is read back (`Instruction.decodeAt_encode`), hence so are
instructions written one after the other (`Instruction.tiles_encode`); an integer of any size is
read back from its shortest form (`Number.TwosComplement.decode_encode`).
-/

namespace StackScript

/-! ### Numbers -/

theorem Bytes.toNat_ofNat (width n : Nat) : (Bytes.ofNat width n).toNat = n % 256 ^ width := by
  induction width generalizing n with
  | zero => simp [Nat.mod_one]
  | succ width ih =>
    have hbyte : (UInt8.ofNat n).toNat = n % 256 := UInt8.toNat_ofNat'
    rw [Bytes.ofNat_succ, Bytes.toNat_cons, ih, hbyte, Nat.pow_succ', Nat.mod_mul]

namespace Number.TwosComplement

/-- The last byte of a number of fixed width. -/
theorem getLast?_ofNat (width n : Nat) :
    (Bytes.ofNat (width + 1) n).getLast? = some (UInt8.ofNat (n / 256 ^ width)) := by
  induction width generalizing n with
  | zero => simp
  | succ width ih =>
    rw [Bytes.ofNat_succ, Bytes.ofNat_succ, List.getLast?_cons_cons, ← Bytes.ofNat_succ, ih,
      Nat.div_div_eq_div_mul, Nat.pow_succ, Nat.mul_comm 256]

/-- A number that leaves the top bit clear is not negative. -/
theorem isNegative_ofNat {width n : Nat} (h : n < 128 * 256 ^ width) :
    isNegative (Bytes.ofNat (width + 1) n) = false := by
  have hlast : n / 256 ^ width < 128 := Nat.div_lt_of_lt_mul (by rwa [Nat.mul_comm])
  have hbyte : (UInt8.ofNat (n / 256 ^ width)).toNat = n / 256 ^ width :=
    UInt8.toNat_ofNat_of_lt' (hlast.trans (by decide))
  have htop : (0x80 : UInt8).toNat = 128 := rfl
  rw [isNegative, getLast?_ofNat]
  simp only [decide_eq_false_iff_not, UInt8.le_iff_toNat_le, hbyte, htop]
  omega

theorem complement_complement (bytes : Bytes) : complement (complement bytes) = bytes := by
  simp [complement, Function.comp_def]

/-- Turning over all bits changes the sign. -/
theorem isNegative_complement {bytes : Bytes} (h : bytes ≠ []) :
    isNegative (complement bytes) = !isNegative bytes := by
  obtain ⟨b, hb⟩ := Option.isSome_iff_exists.mp (List.getLast?_isSome.mpr h)
  have hbyte : b.toNat < 256 := b.toNat_lt
  have htop : (0x80 : UInt8).toNat = 128 := rfl
  have hnot : (~~~b).toNat = 255 - b.toNat := by simp
  unfold isNegative complement
  rw [List.getLast?_map, hb]
  simp only [Option.map_some, UInt8.le_iff_toNat_le, hnot, htop]
  rw [← decide_not]
  congr 1
  exact propext (by omega)

@[simp] theorem length_encodeFixed (width : Nat) (v : Int) :
    (encodeFixed width v).length = width := by
  cases v <;> simp [encodeFixed, complement]

/-- A number that fits into its width is read back. -/
theorem decode_encodeFixed {width : Nat} {v : Int}
    (h : -(128 * 256 ^ width : Nat) ≤ v ∧ v < (128 * 256 ^ width : Nat)) :
    decode (encodeFixed (width + 1) v) = v := by
  have hread : ∀ n : Nat, n < 128 * 256 ^ width → (Bytes.ofNat (width + 1) n).toNat = n := by
    intro n hn
    rw [Bytes.toNat_ofNat, Nat.mod_eq_of_lt]
    exact hn.trans_le (by rw [Nat.pow_succ']; exact Nat.mul_le_mul_right _ (by decide))
  cases v with
  | ofNat n =>
    have hn : n < 128 * 256 ^ width := Int.ofNat_lt.mp h.2
    rw [encodeFixed, decode, isNegative_ofNat hn, if_neg (by decide), hread n hn]
  | negSucc n =>
    have hn : n < 128 * 256 ^ width := by omega
    have hne : Bytes.ofNat (width + 1) n ≠ [] := by simp
    rw [encodeFixed, decode, isNegative_complement hne, isNegative_ofNat hn, if_pos (by decide),
      complement_complement, hread n hn]

/-- The width of the shortest form leaves the top bit clear. -/
theorem lt_of_byteCount {n width : Nat} (h : byteCount n = width + 1) : n < 128 * 256 ^ width := by
  have hwidth : (n.log2 + 1) / 8 = width := Nat.succ.inj h
  have hpower : 128 * 256 ^ width = 2 ^ (7 + 8 * width) := by
    rw [Nat.pow_add, Nat.pow_mul]
  rw [hpower]
  exact Nat.lt_of_lt_of_le Nat.lt_log2_self (Nat.pow_le_pow_right (by decide) (by omega))

theorem encode_eq_encodeFixed (v : Int) : encode v = encodeFixed (size v) v := by
  cases v <;> rfl

/-- **An integer is read back from its shortest form.** -/
theorem decode_encode (v : Int) : decode (encode v) = v := by
  obtain ⟨width, hwidth⟩ : ∃ width, size v = width + 1 := by
    cases v <;> exact ⟨_, rfl⟩
  rw [encode_eq_encodeFixed, hwidth]
  apply decode_encodeFixed
  cases v with
  | ofNat n =>
    have hn := lt_of_byteCount hwidth
    rw [Int.ofNat_eq_natCast]
    omega
  | negSucc n =>
    have hn := lt_of_byteCount hwidth
    omega

end Number.TwosComplement

/-! ### Readers -/

/-- The reader finds `a` in `bytes`, wherever they stand, and stops behind them. -/
def Reads {α : Type} (reader : Reader α) (bytes : Bytes) (a : α) : Prop :=
  ∀ (script : Script) (before after : Bytes), script.bytes = before ++ bytes ++ after →
    reader.runAt script before.length = .ok a (before.length + bytes.length)

namespace Reads

variable {α β : Type}

theorem pure (a : α) : Reads (pure a) [] a := fun _ _ _ _ => rfl

theorem bind {m : Reader α} {f : α → Reader β} {bytes bytes' : Bytes} {a : α} {b : β}
    (hm : Reads m bytes a) (hf : Reads (f a) bytes' b) : Reads (m >>= f) (bytes ++ bytes') b := by
  intro script before after hscript
  have hfirst := hm script before (bytes' ++ after) (by simp [hscript])
  have hsecond := hf script (before ++ bytes) after (by simp [hscript])
  rw [List.length_append] at hsecond
  rw [Reader.runAt_bind, hfirst]
  simp only
  rw [hsecond, List.length_append, Nat.add_assoc]

theorem map {m : Reader α} {f : α → β} {bytes : Bytes} {a : α} (hm : Reads m bytes a) :
    Reads (m >>= fun a => Pure.pure (f a)) bytes (f a) := by
  have h : Reads (m >>= fun a => Pure.pure (f a)) (bytes ++ []) (f a) := hm.bind (pure (f a))
  rwa [List.append_nil] at h

theorem exact (bytes : Bytes) : Reads (Reader.exact bytes.length) bytes bytes := by
  intro script before after hscript
  have hslice : script.slice? before.length bytes.length = some bytes := by
    rw [Script.slice?_eq, hscript, if_pos (by simp), Bytes.slice, List.append_assoc,
      List.drop_left, List.take_left]
  rw [Reader.runAt_exact, hslice]

theorem natural (bytes : Bytes) {n : Nat} (h : bytes.toNat = n) :
    Reads (Reader.natural bytes.length) bytes n := h ▸ (exact bytes).map

theorem byte (b : UInt8) : Reads Reader.byte [b] b := by
  have hnatural : Reads (Reader.natural 1) [b] b.toNat := natural [b] (by simp)
  have hbyte := hnatural.map (f := UInt8.ofNat)
  rwa [UInt8.ofNat_toNat] at hbyte

/-- A signed number that fits into its width. -/
theorem signed (width : Nat) {v : Int}
    (h : -(128 * 256 ^ width : Nat) ≤ v ∧ v < (128 * 256 ^ width : Nat)) :
    Reads (Reader.signed (width + 1)) (Number.TwosComplement.encodeFixed (width + 1) v) v := by
  have hread := (exact (Number.TwosComplement.encodeFixed (width + 1) v)).map
    (f := Number.TwosComplement.decode)
  rwa [Number.TwosComplement.length_encodeFixed, Number.TwosComplement.decode_encodeFixed h]
    at hread

theorem hash (hash : ScriptHash) : Reads Reader.hash hash.bytes hash := by
  have hread := (exact hash.bytes).map (f := fun bytes => (ScriptHash.ofBytes? bytes).getD .zero)
  rw [hash.length_bytes] at hread
  have hsame : (ScriptHash.ofBytes? hash.bytes).getD .zero = hash := by
    rw [ScriptHash.ofBytes?, dif_pos hash.length_bytes]
    rfl
  rwa [hsame] at hread

/-- Data behind its length, if the length can be read. -/
theorem counted {count : Reader Nat} {length data : Bytes} (h : Reads count length data.length) :
    Reads (do Reader.exact (← count)) (length ++ data) data := h.bind (exact data)

theorem length (width : Nat) {n : Nat} (h : n < 256 ^ width) :
    Reads (Reader.natural width) (Bytes.ofNat width n) n := by
  have hread := natural _ (Bytes.toNat_ofNat width n)
  rwa [Bytes.length_ofNat, Nat.mod_eq_of_lt h] at hread

theorem data1 {data : Bytes} (h : data.length ≤ LengthWidth.one.max) :
    Reads Reader.data1 (Bytes.ofNat 1 data.length ++ data) data :=
  counted (length _ (Nat.lt_succ_of_le h))

theorem data2 {data : Bytes} (h : data.length ≤ LengthWidth.two.max) :
    Reads Reader.data2 (Bytes.ofNat 2 data.length ++ data) data :=
  counted (length _ (Nat.lt_succ_of_le h))

/-- A length of four bytes is signed, and is written as one that is not negative. -/
theorem data4 {data : Bytes} (h : data.length ≤ LengthWidth.four.max) :
    Reads Reader.data4 (Bytes.ofNat 4 data.length ++ data) data := by
  have hlength : Reads (Reader.signed 4) (Bytes.ofNat 4 data.length) (Int.ofNat data.length) := by
    have hmax : data.length ≤ 2147483647 := h
    have hfits : Int.ofNat data.length < (128 * 256 ^ 3 : Nat) := Int.ofNat_lt.mpr (by omega)
    exact signed 3 ⟨by simp, hfits⟩
  refine hlength.bind ?_
  rw [if_neg (by simp)]
  exact exact data

/-- A name is behind a length of one byte, which is none of the markers of longer lengths. -/
theorem varBytes {name : Bytes} (h : name.length ≤ maxNameLength) :
    Reads (Reader.varBytes maxNameLength) (UInt8.ofNat name.length :: name) name := by
  have hmax : name.length ≤ 252 := h
  have hfirst : Reads (Reader.natural 1) [UInt8.ofNat name.length] name.length := by
    have hlt : name.length < 256 ^ 1 := by omega
    simpa using length 1 hlt
  have hnatural : Reads Reader.varNatural [UInt8.ofNat name.length] name.length := by
    have hread : Reads Reader.varNatural ([UInt8.ofNat name.length] ++ []) name.length := by
      refine hfirst.bind ?_
      split
      · omega
      · omega
      · omega
      · exact pure _
    simpa using hread
  refine hnatural.bind ?_
  rw [if_neg (by omega)]
  exact exact name

end Reads

/-! ### Instructions -/

theorem Opcode.ofByte?_byte (op : Opcode) : Opcode.ofByte? op.byte = some op := by
  have h : ∀ op ∈ Opcode.all, Opcode.ofByte? op.byte = some op := by decide +kernel
  exact h op (Opcode.mem_all op)

theorem Opcode.isPushBytes_byte (op : Opcode) : isPushBytes op.byte = false := by
  have h : ∀ op ∈ Opcode.all, isPushBytes op.byte = false := by decide +kernel
  exact h op (Opcode.mem_all op)

/-- The number of bytes of a length. -/
def LengthWidth.bytes : LengthWidth → Nat
  | .one => 1
  | .two => 2
  | .four => 4

namespace Instruction

/-- The bytes of an instruction. -/
def encode : Instruction → Bytes
  | .pushBytes data => UInt8.ofNat data.length :: data
  | .pushData width data =>
      (Opcode.pushData width).byte :: Bytes.ofNat width.bytes data.length ++ data
  | .jump kind offset => (Opcode.jump kind).byte :: Number.TwosComplement.encodeFixed 2 offset
  | .invoke kind hash => (Opcode.invoke kind).byte :: hash.bytes
  | .syscall name => Opcode.syscall.byte :: UInt8.ofNat name.length :: name
  | .ret => [Opcode.ret.byte]
  | .plain op => [op.byte]

/-- The shortest push of a byte string. -/
def push (data : Bytes) : Instruction :=
  if data.isEmpty then .plain (.constant .empty)
  else if data.length ≤ 75 then .pushBytes data
  else if data.length < 0x100 then .pushData .one data
  else if data.length < 0x10000 then .pushData .two data
  else .pushData .four data

/-- The shortest push of an integer. -/
def pushInteger (v : Int) : Instruction :=
  if v = -1 then .plain (.constant .minusOne)
  else if v = 0 then .plain (.constant .empty)
  else if h : 1 ≤ v ∧ v ≤ 16 then .plain (.constant (.small ⟨(v - 1).toNat, by omega⟩))
  else push (Number.TwosComplement.encode v)

/-- The push of a truth value: the integer 1, or the empty byte string. -/
def pushBool : Bool → Instruction
  | true => .plain (.constant (.small ⟨0, by decide⟩))
  | false => .plain (.constant .empty)

/-- The operand fits its place. -/
def Encodable : Instruction → Prop
  | .pushBytes data => 1 ≤ data.length ∧ data.length ≤ 75
  | .pushData width data => data.length ≤ width.max
  | .jump _ offset => Number.TwosComplement.fits16 offset = true
  | .syscall name => name.length ≤ maxNameLength
  | .invoke .. | .ret | .plain _ => True

/-- An opcode of the table and what its reader finds behind it. -/
theorem reads_of_opcode (op : Opcode) {operand : Bytes} {found : Instruction}
    (h : Reads (readArguments op) operand found) (offset : Nat) :
    Reads (do readOperand (← Reader.byte) offset) (op.byte :: operand) found := by
  refine (Reads.byte op.byte).bind ?_
  unfold readOperand
  rw [Opcode.isPushBytes_byte, Opcode.ofByte?_byte]
  exact h

/-- A push of as many bytes as its opcode says. -/
theorem reads_pushBytes {data : Bytes} (h : 1 ≤ data.length ∧ data.length ≤ 75) (offset : Nat) :
    Reads (do readOperand (← Reader.byte) offset) (UInt8.ofNat data.length :: data)
      (.pushBytes data) := by
  obtain ⟨hlow, hhigh⟩ := h
  have hbyte : (UInt8.ofNat data.length).toNat = data.length :=
    UInt8.toNat_ofNat_of_lt' (Nat.lt_of_le_of_lt hhigh (by decide))
  have hpush : isPushBytes (UInt8.ofNat data.length) = true := by
    have hone : (1 : UInt8).toNat = 1 := rfl
    have htop : (0x4b : UInt8).toNat = 75 := rfl
    simp only [isPushBytes, Bool.and_eq_true, decide_eq_true_eq, UInt8.le_iff_toNat_le, hbyte, hone,
      htop]
    exact ⟨hlow, hhigh⟩
  refine (Reads.byte _).bind ?_
  unfold readOperand
  rw [if_pos hpush, hbyte]
  exact (Reads.exact data).map

theorem reads_encode {found : Instruction} (h : found.Encodable) (offset : Nat) :
    Reads (do readOperand (← Reader.byte) offset) found.encode found := by
  cases found with
  | pushBytes data => exact reads_pushBytes h offset
  | pushData width data =>
    refine reads_of_opcode (.pushData width) ?_ offset
    cases width with
    | one => exact (Reads.data1 h).map
    | two => exact (Reads.data2 h).map
    | four => exact (Reads.data4 h).map
  | jump kind distance =>
    simp only [Encodable, Number.TwosComplement.fits16, Bool.and_eq_true, decide_eq_true_eq] at h
    exact reads_of_opcode (.jump kind) (Reads.signed 1 h).map offset
  | invoke kind hash => exact reads_of_opcode (.invoke kind) (Reads.hash hash).map offset
  | syscall name => exact reads_of_opcode .syscall (Reads.varBytes h).map offset
  | ret => exact reads_of_opcode .ret (Reads.pure _) offset
  | plain op => exact reads_of_opcode (.plain op) (Reads.pure _) offset

/-- **An instruction that was written is read back**, whatever stands before and after it. -/
theorem decodeAt_encode {found : Instruction} (h : found.Encodable) {script : Script}
    {before after : Bytes} (hscript : script.bytes = before ++ found.encode ++ after) :
    decodeAt script before.length = .ok found (before.length + found.encode.length) := by
  unfold decodeAt Instruction.read
  rw [Reader.runAt_bind, Reader.runAt_get]
  exact reads_encode h before.length script before after hscript

theorem length_encode_pos (found : Instruction) : 0 < found.encode.length := by
  cases found <;> simp [encode]

theorem size_append_encode (code : Array UInt8) (found : Instruction) :
    (code ++ found.encode).size = code.size + found.encode.length := by
  rw [← Array.length_toList, Array.toList_appendList, List.length_append, Array.length_toList]

/-- The shortest push of data fits its place, if the length of the data does not need the sign. -/
theorem encodable_push {data : Bytes} (h : data.length < 2 ^ 31) : (push data).Encodable := by
  unfold push
  split
  · trivial
  · rename_i hempty
    rw [List.isEmpty_iff_length_eq_zero] at hempty
    split
    · rename_i hshort
      exact ⟨Nat.one_le_iff_ne_zero.mpr hempty, hshort⟩
    · split
      · rename_i hone
        exact Nat.le_of_lt_succ hone
      · split
        · rename_i htwo
          exact Nat.le_of_lt_succ htwo
        · exact Nat.le_of_lt_succ h

theorem encodable_pushInteger {v : Int} (h : (Number.TwosComplement.encode v).length < 2 ^ 31) :
    (pushInteger v).Encodable := by
  unfold pushInteger
  split
  · trivial
  · split
    · trivial
    · split
      · trivial
      · exact encodable_push h

/-! ### Scripts -/

/-- The instructions with the given offsets follow each other from `offset` to the end of the
script. -/
inductive Tiles (script : Script) : (offset : Nat) → List (Nat × Instruction) → Prop where
  | done : Tiles script script.size []
  | next {offset next : Nat} {found : Instruction} {rest : List (Nat × Instruction)}
      (hdecode : decodeAt script offset = .ok found next) (hlt : offset < next)
      (hrest : Tiles script next rest) : Tiles script offset ((offset, found) :: rest)

theorem Tiles.offset_le {script : Script} {offset : Nat} {code : List (Nat × Instruction)}
    (h : Tiles script offset code) : offset ≤ script.size := by
  induction h with
  | done => exact Nat.le_refl _
  | next _ hlt _ ih => omega

/-- Instructions with the offsets at which they are written, one after the other. -/
def placed (offset : Nat) : List Instruction → List (Nat × Instruction)
  | [] => []
  | found :: rest => (offset, found) :: placed (offset + found.encode.length) rest

theorem mem_of_mem_placed {offset : Nat} {founds : List Instruction} {entry : Nat × Instruction}
    (h : entry ∈ placed offset founds) : entry.2 ∈ founds := by
  induction founds generalizing offset with
  | nil => cases h
  | cons found rest ih =>
    rw [placed, List.mem_cons] at h
    rcases h with rfl | h
    · exact List.mem_cons_self
    · exact List.mem_cons_of_mem _ (ih h)

/-- **Instructions written one after the other are read back.** -/
theorem tiles_encode {script : Script} {founds : List Instruction} (before : Bytes)
    (h : ∀ found ∈ founds, found.Encodable)
    (hscript : script.bytes = before ++ founds.flatMap encode) :
    Tiles script before.length (placed before.length founds) := by
  induction founds generalizing before with
  | nil =>
    have hsize : before.length = script.size := by
      rw [← Script.length_bytes, hscript]
      simp
    rw [hsize]
    exact .done
  | cons found rest ih =>
    rw [List.flatMap_cons, ← List.append_assoc] at hscript
    have hrest := ih _ (fun f hf => h f (List.mem_cons_of_mem _ hf)) hscript
    rw [List.length_append] at hrest
    refine .next (decodeAt_encode (h found List.mem_cons_self) hscript) ?_ hrest
    have := found.length_encode_pos
    omega

end Instruction

end StackScript
