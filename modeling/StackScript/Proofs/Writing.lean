import StackScript.Assembly.Statement
import StackScript.Proofs.Encoding

/-!
# What is written

Scripts are written in two places. A builder lays out the operand of each of its calls, and the
assembler lays out the operands of the instructions of the table by itself and leaves only the
pushes of literals to a builder. Each of them checks the names of host calls. Here each is compared
with the byte form of an instruction (`Instruction.encode`), and with what a name has to be
(`IsCallName`).

Main statements: a builder writes the shortest pushes (`Builder.pushBytes_eq`,
`Builder.pushInteger_eq`, `Builder.pushBool_eq`) and allows the names of host calls
(`Builder.syscall_of_isCallName`, `Builder.syscall_of_not_isCallName`); a command is written as the
instruction it stands for (`Assembly.Command.write_eq`), and an operand names a host call if it is
such a name in double quotes (`Assembly.nameOperand_eq_ok_iff`).
-/

namespace StackScript

/-- The text may be the name of a host call. -/
def IsCallName (text : String) : Prop :=
  text ≠ "" ∧ (∀ c ∈ text.toList, c.toNat < 128) ∧
    (Text.Utf8.ofString text).length ≤ maxNameLength

instance (text : String) : Decidable (IsCallName text) := inferInstanceAs (Decidable (_ ∧ _))

theorem isEmpty_or_not_isAscii_iff {text : String} :
    (text.isEmpty || !Text.Utf8.isAscii text) = true ↔
      ¬(text ≠ "" ∧ ∀ c ∈ text.toList, c.toNat < 128) := by
  simp only [Bool.or_eq_true, String.isEmpty_iff, Bool.not_eq_true', Text.Utf8.isAscii,
    List.all_eq_false, decide_eq_true_eq, not_and_or, not_not, not_forall, exists_prop]

theorem Bytes.ofNat_one (n : Nat) : Bytes.ofNat 1 n = [UInt8.ofNat n] := by
  rw [Bytes.ofNat_succ, Bytes.ofNat_zero]

/-! ### Builders -/

namespace Builder

/-- The builder with an instruction appended in its byte form. -/
def write (builder : Builder) (found : Instruction) : Builder := ⟨builder.code ++ found.encode⟩

/-- A builder is known by its bytes. -/
theorem eq_of_bytes_eq {builder builder' : Builder}
    (h : builder.script.bytes = builder'.script.bytes) : builder = builder' := by
  cases builder
  cases builder'
  exact congrArg mk (Array.toList_inj.mp h)

theorem offset_write (builder : Builder) (found : Instruction) :
    (builder.write found).offset = builder.offset + found.encode.length :=
  Instruction.size_append_encode builder.code found

theorem bytes_write (builder : Builder) (found : Instruction) :
    (builder.write found).script.bytes = builder.script.bytes ++ found.encode := by
  simp [write, script, Script.bytes]

theorem eq_write_of_toList {builder last : Builder} {found : Instruction}
    (h : last.code.toList = builder.code.toList ++ found.encode) : last = builder.write found :=
  eq_of_bytes_eq (h.trans (builder.bytes_write found).symm)

theorem emit_plain (builder : Builder) (op : Plain) :
    builder.emit (.plain op) = builder.write (.plain op) :=
  eq_write_of_toList (by simp [emit, Instruction.encode, Opcode.byte])

theorem emit_ret (builder : Builder) : builder.emit .ret = builder.write .ret :=
  eq_write_of_toList (by simp [emit, Instruction.encode])

theorem toList_emitWith (builder : Builder) (op : Opcode) (operand : Bytes) :
    (builder.emitWith op operand).code.toList = builder.code.toList ++ op.byte :: operand := by
  simp [emitWith]

theorem appCall_eq (builder : Builder) (kind : Invocation) (hash : ScriptHash) :
    builder.appCall kind hash = builder.write (.invoke kind hash) :=
  eq_write_of_toList (builder.toList_emitWith _ _)

theorem jump_eq (builder : Builder) (kind : Jump) (offset : Int) :
    builder.jump (.jump kind) offset = (.ok (), builder.write (.jump kind offset)) :=
  congrArg (Prod.mk _) (eq_write_of_toList (builder.toList_emitWith _ _))

/-! #### Pushes -/

/-- The number of bytes of a short push is its opcode, and none of them is the constant. -/
theorem encode_push_of_short {data : Bytes} (h : data.length ≤ 75) :
    (Instruction.push data).encode = UInt8.ofNat data.length :: data := by
  cases data with
  | nil => rfl
  | cons byte rest =>
    rw [Instruction.push, if_neg (by simp), if_pos h]
    rfl

theorem not_isEmpty_of_long {data : Bytes} (h : ¬data.length ≤ 75) : ¬data.isEmpty = true := by
  rw [List.isEmpty_iff_length_eq_zero]
  omega

/-- **A builder writes the shortest push of a byte string.** -/
theorem pushBytes_eq (builder : Builder) (data : Bytes) :
    builder.pushBytes data = builder.write (.push data) := by
  apply eq_write_of_toList
  unfold pushBytes
  simp only
  by_cases hshort : data.length ≤ 75
  · simp [hshort, encode_push_of_short hshort]
  have hne := not_isEmpty_of_long hshort
  by_cases hone : data.length < 0x100
  · simp [hshort, hone, hne, toList_emitWith, Instruction.push, Instruction.encode,
      LengthWidth.bytes]
  by_cases htwo : data.length < 0x10000
  · simp [hshort, hone, htwo, hne, toList_emitWith, Instruction.push, Instruction.encode,
      LengthWidth.bytes]
  · simp [hshort, hone, htwo, hne, toList_emitWith, Instruction.push, Instruction.encode,
      LengthWidth.bytes]

/-- **A builder writes the shortest push of an integer.** -/
theorem pushInteger_eq (builder : Builder) (value : Int) :
    builder.pushInteger value = builder.write (.pushInteger value) := by
  unfold pushInteger Instruction.pushInteger
  split
  · exact builder.emit_plain _
  split
  · exact builder.emit_plain _
  split
  · have hsame : (value - 1).toNat = value.toNat - 1 := by omega
    apply eq_write_of_toList
    simp [Instruction.encode, Plain.byte, Opcode.byte, Constant.byte, hsame]
  · exact builder.pushBytes_eq _

theorem pushBool_eq (builder : Builder) (value : Bool) :
    builder.pushBool value = builder.write (.pushBool value) := by
  cases value with
  | false => exact builder.emit_plain (.constant .empty)
  | true => exact builder.emit_plain (.constant (.small 0))

/-! #### Host calls -/

theorem syscall_of_isCallName (builder : Builder) {name : String} (h : IsCallName name) :
    builder.syscall name = (.ok (), builder.write (.syscall (Text.Utf8.ofString name))) := by
  obtain ⟨hne, hascii, hlength⟩ := h
  have hallowed := mt isEmpty_or_not_isAscii_iff.mp (not_not.mpr ⟨hne, hascii⟩)
  unfold syscall
  simp only [hallowed, if_neg (Nat.not_lt.mpr hlength)]
  refine congrArg (Prod.mk _) (eq_write_of_toList ?_)
  simp [emit, Instruction.encode]

theorem syscall_of_not_isCallName (builder : Builder) {name : String} (h : ¬IsCallName name) :
    ∃ cause, builder.syscall name = (.error cause, builder) := by
  unfold syscall
  split
  · exact ⟨_, rfl⟩
  rename_i hallowed
  rw [isEmpty_or_not_isAscii_iff, not_not] at hallowed
  have hlong : maxNameLength < (Text.Utf8.ofString name).length := by
    by_contra hshort
    exact h ⟨hallowed.1, hallowed.2, Nat.not_lt.mp hshort⟩
  simp only [if_pos hlong]
  exact ⟨_, rfl⟩

end Builder

/-! ### The assembler -/

namespace Assembly

/-- The instruction that a command stands for. -/
def Command.instruction : Command → Instruction
  | .plain op => .plain op
  | .ret => .ret
  | .pushData width data => .pushData width data
  | .jump kind offset => .jump kind offset
  | .invoke kind hash => .invoke kind hash
  | .syscall name => .syscall name
  | .pushInteger value => .pushInteger value
  | .pushBool value => .pushBool value
  | .pushBytes data => .push data

/-- **A command is written as the instruction it stands for.** -/
theorem Command.write_eq (builder : Builder) (command : Command) :
    command.write builder = builder.write command.instruction := by
  cases command with
  | plain op => exact Builder.eq_write_of_toList (builder.toList_emitWith (.plain op) [])
  | ret => exact Builder.eq_write_of_toList (builder.toList_emitWith .ret [])
  | pushData width data =>
    apply Builder.eq_write_of_toList
    cases width with
    | one =>
      rw [write, Builder.toList_emitWith, instruction, Instruction.encode, LengthWidth.bytes,
        Bytes.ofNat_one]
      rfl
    | two => exact builder.toList_emitWith _ _
    | four => exact builder.toList_emitWith _ _
  | jump kind offset => exact Builder.eq_write_of_toList (builder.toList_emitWith _ _)
  | invoke kind hash => exact Builder.eq_write_of_toList (builder.toList_emitWith _ _)
  | syscall name => exact Builder.eq_write_of_toList (builder.toList_emitWith _ _)
  | pushInteger value => exact builder.pushInteger_eq value
  | pushBool value => exact builder.pushBool_eq value
  | pushBytes data => exact builder.pushBytes_eq data

/-- The operands that name a host call. -/
theorem nameOperand_eq_ok_iff {token : String} {name : Bytes} :
    nameOperand token = .ok name ↔
      ∃ text, unquote? token = some text ∧ IsCallName text ∧ name = Text.Utf8.ofString text := by
  unfold nameOperand
  cases unquote? token with
  | none => simp
  | some text =>
    simp only [Option.some.injEq, exists_eq_left']
    split
    · rename_i hrefused
      rw [isEmpty_or_not_isAscii_iff] at hrefused
      constructor
      · intro h
        cases h
      · rintro ⟨hname, -⟩
        exact absurd ⟨hname.1, hname.2.1⟩ hrefused
    · rename_i hallowed
      rw [isEmpty_or_not_isAscii_iff, not_not] at hallowed
      split
      · rename_i hlong
        constructor
        · intro h
          cases h
        · rintro ⟨hname, -⟩
          exact absurd hname.2.2 (Nat.not_le.mpr hlong)
      · rename_i hshort
        constructor
        · intro h
          cases h
          exact ⟨⟨hallowed.1, hallowed.2, Nat.not_lt.mp hshort⟩, rfl⟩
        · rintro ⟨-, rfl⟩
          rfl

end Assembly

end StackScript
