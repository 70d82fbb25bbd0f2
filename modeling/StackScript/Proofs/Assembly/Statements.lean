import StackScript.Proofs.Assembly.Printing
import StackScript.Proofs.Assembly.Words
import StackScript.Proofs.Text
import StackScript.Proofs.Writing

/-!
# Printed instructions are statements

`Instruction.Printable` says which instructions a statement can stand for: the operand fits its
place, and the name of a host call is one that can be written between double quotes on a line.

Main statements: whatever a statement made of words stands for is printable, up to the length of
data (`Statement.printable_of_instruction`); a printable instruction is what its name and its
operand stand for, wherever the statement is and whatever its labels mean
(`Statement.instruction_of_printed`).
-/

namespace StackScript

open Assembly

namespace Assembly

theorem bind_eq_ok {ε α β : Type} {m : Except ε α} {f : α → Except ε β} {b : β}
    (h : m >>= f = .ok b) : ∃ a, m = .ok a ∧ f a = .ok b := by
  cases m with
  | error cause => cases h
  | ok a => exact ⟨a, rfl, h⟩

theorem map_eq_ok {ε α β : Type} {m : Except ε α} {f : α → β} {b : β} (h : m.map f = .ok b) :
    ∃ a, m = .ok a ∧ b = f a := by
  cases m with
  | error cause => cases h
  | ok a => exact ⟨a, rfl, (Except.ok.inj h).symm⟩

/-! ### Operands -/

theorem hexOperand_encodeMarked (data : Bytes) :
    hexOperand (Text.Hex.encodeMarked data) = .ok data := by
  rw [hexOperand, if_pos (Text.hasMarker_encodeMarked data), Text.dropMarker_encodeMarked,
    Text.Hex.decode_encode]

theorem dataOperand_encodeMarked {width : LengthWidth} {data : Bytes} (h : data.length ≤ width.max) :
    dataOperand width (Text.Hex.encodeMarked data) = .ok data := by
  unfold dataOperand
  rw [hexOperand_encodeMarked]
  exact if_neg (Nat.not_lt.mpr h)

theorem hashOperand_render (hash : ScriptHash) : hashOperand ("0x" ++ hash.render) = .ok hash := by
  unfold hashOperand
  rw [ScriptHash.parse_render]

theorem unquote?_quoted (text : String) : unquote? ("\"" ++ text ++ "\"") = some text := by
  have hchars : ("\"" ++ text ++ "\"").toList = '"' :: (text.toList ++ ['"']) := by simp
  rw [unquote?, hchars]
  simp

/-- A token in double quotes is made of the quotes and what stands between them. -/
theorem quoted_of_unquote? {token text : String} (h : unquote? token = some text) :
    token.toList = '"' :: text.toList ++ ['"'] := by
  unfold unquote? at h
  split at h
  · rename_i rest hchars
    split at h
    · rename_i hlast
      cases h
      rw [hchars, String.toList_ofList, List.cons_append,
        List.dropLast_append_getLast? '"' (by simpa using hlast)]
    · cases h
  · cases h

theorem nameOperand_quoted {text : String} (h : IsCallName text) :
    nameOperand ("\"" ++ text ++ "\"") = .ok (Text.Utf8.ofString text) :=
  nameOperand_eq_ok_iff.mpr ⟨text, unquote?_quoted text, h, rfl⟩

theorem offsetOperand_toString (resolve : Resolver) (address : Nat) {offset : Int}
    (h : Number.TwosComplement.fits16 offset = true) :
    offsetOperand resolve address (toString offset) = .ok offset := by
  have hfits := h
  simp only [Number.TwosComplement.fits16, Bool.and_eq_true, decide_eq_true_eq] at hfits
  have hbounds : -Int.ofNat 0x8000000000000000 ≤ offset ∧ offset < Int.ofNat 0x8000000000000000 :=
    ⟨Int.le_trans (by decide) hfits.1, Int.lt_of_lt_of_le hfits.2 (by decide)⟩
  unfold offsetOperand
  rw [Text.signed?_toString hbounds]
  exact if_pos h

theorem pushCounted_encodeMarked (data : Bytes) :
    pushCounted data.length (Text.Hex.encodeMarked data) = .ok (.pushBytes data) := by
  unfold pushCounted
  rw [hexOperand_encodeMarked]
  exact if_neg (by simp)

/-- A literal that starts like a number is neither a truth value nor a string. -/
theorem literal_of_cons {token : String} {c : Char} {rest : List Char}
    (hchars : token.toList = c :: rest) (hc : c.isDigit = true ∨ c = '-') :
    token ≠ "true" ∧ token ≠ "false" ∧ unquote? token = none := by
  have hfirst : ∀ d : Char, d.isDigit = false → d ≠ '-' → c ≠ d := by
    rintro d hdigit hminus rfl
    rcases hc with hc | hc
    · rw [hc] at hdigit
      cases hdigit
    · exact hminus hc
  refine ⟨?_, ?_, ?_⟩
  · rintro rfl
    exact hfirst 't' (by decide) (by decide) (List.cons.inj hchars).1.symm
  · rintro rfl
    exact hfirst 'f' (by decide) (by decide) (List.cons.inj hchars).1.symm
  · unfold unquote?
    rw [hchars]
    split
    · rename_i heq
      exact absurd (List.cons.inj heq).1 (hfirst '"' (by decide) (by decide))
    · rfl

theorem pushLiteral_encodeMarked (data : Bytes) :
    pushLiteral (Text.Hex.encodeMarked data) = .ok (.pushBytes data) := by
  obtain ⟨htrue, hfalse, hunquote⟩ := literal_of_cons (Text.Hex.toList_encodeMarked data) (.inl rfl)
  unfold pushLiteral
  simp only [if_neg htrue, if_neg hfalse, hunquote, Text.hasMarker_encodeMarked, if_true,
    hexOperand_encodeMarked]
  rfl

theorem pushLiteral_toString (v : Int) : pushLiteral (toString v) = .ok (.pushInteger v) := by
  have hnumeral : ∀ c ∈ (toString v).toList, c.isDigit = true ∨ c = '-' := fun _ hc =>
    Text.isDigit_or_eq_of_mem_toString hc
  have hmarker : Text.hasMarker (toString v) = false := by
    unfold Text.hasMarker
    split
    · rename_i heq
      have hmem : 'x' ∈ (toString v).toList := by
        rw [heq]
        simp
      rcases hnumeral 'x' hmem with hdigit | hminus
      · exact absurd hdigit (by decide)
      · exact absurd hminus (by decide)
    · rfl
  obtain ⟨c, rest, hchars⟩ := List.exists_cons_of_ne_nil
    (mt String.toList_eq_nil_iff.mp (Text.toString_ne_empty v))
  obtain ⟨htrue, hfalse, hunquote⟩ :=
    literal_of_cons hchars (hnumeral c (hchars ▸ List.mem_cons_self))
  unfold pushLiteral
  simp only [if_neg htrue, if_neg hfalse, hunquote, hmarker, Text.integer?_toString,
    Bool.false_eq_true, if_false]

/-! ### Names -/

theorem countedPush?_decimal {n : Nat} (h : 1 ≤ n ∧ n ≤ 75) :
    countedPush? ("PUSHBYTES" ++ Text.decimal n) = some (some n) := by
  have hcount : Text.natural? 256 (Text.decimal n) = some n := Text.natural?_decimal (by omega)
  have hmarker : "PUSHBYTES".toList.isPrefixOf ("PUSHBYTES".toList ++ (Text.decimal n).toList) = true :=
    List.isPrefixOf_iff_prefix.mpr (List.prefix_append _ _)
  simp only [countedPush?, String.toList_append, hmarker, if_true, List.drop_left,
    String.ofList_toList, hcount]
  simp [h.1, h.2]

/-- A name of the table is found there, and is neither of the two special forms. -/
theorem ofMnemonic?_mnemonic (op : Opcode) :
    op.mnemonic ≠ "PUSH" ∧ countedPush? op.mnemonic = none ∧
      Opcode.ofMnemonic? op.mnemonic = some op := by
  have h : ∀ op ∈ Opcode.all, op.mnemonic ≠ "PUSH" ∧ countedPush? op.mnemonic = none ∧
      Opcode.ofMnemonic? op.mnemonic = some op := by decide +kernel
  exact h op (Opcode.mem_all op)

namespace Statement

/-- The instruction that a statement stands for at `address`. -/
def instruction (s : Statement) (resolve : Resolver) (address : Nat) :
    Except StatementError Instruction :=
  (s.command resolve address).map Command.instruction

variable {s : Statement}

theorem operand_eq {text : String} (h : s.operands.map Token.text = [text]) :
    s.operand = .ok text := by
  obtain ⟨token, hoperands, rfl⟩ := List.map_eq_singleton_iff.mp h
  rw [operand, hoperands]

/-- A statement that pushes a literal. -/
theorem instruction_of_push {text : String} (hhead : s.head.text = "PUSH")
    (hoperands : s.operands.map Token.text = [text]) (resolve : Resolver) (address : Nat) :
    s.instruction resolve address = (pushLiteral text).map Command.instruction := by
  unfold instruction command
  simp only [hhead, if_true]
  rw [operand_eq hoperands]
  rfl

/-- A statement that names the number of bytes it pushes. -/
theorem instruction_of_count {count : Nat} {text : String} (hcount : 1 ≤ count ∧ count ≤ 75)
    (hhead : s.head.text = "PUSHBYTES" ++ Text.decimal count)
    (hoperands : s.operands.map Token.text = [text]) (resolve : Resolver) (address : Nat) :
    s.instruction resolve address = (pushCounted count text).map Command.instruction := by
  have hpush : "PUSHBYTES" ++ Text.decimal count ≠ "PUSH" := by
    intro heq
    have hlength := congrArg String.length heq
    have hmarker : "PUSHBYTES".length = 9 := rfl
    have hname : "PUSH".length = 4 := rfl
    rw [String.length_append, hmarker, hname] at hlength
    omega
  unfold instruction command
  simp only [hhead, if_neg hpush, countedPush?_decimal hcount]
  rw [operand_eq hoperands]
  rfl

/-- A statement with a name of the table. -/
theorem command_of_mnemonic {op : Opcode} (h : s.head.text = op.mnemonic) (resolve : Resolver)
    (address : Nat) : s.command resolve address =
      match withoutOperand? op with
      | some found => if s.operands.isEmpty then .ok found else .error (s.arityError 0)
      | none => s.operand >>= withOperand resolve address op := by
  obtain ⟨hpush, hcounted, htable⟩ := ofMnemonic?_mnemonic op
  unfold command
  simp only [h, if_neg hpush, hcounted, htable]
  cases withoutOperand? op <;> rfl

/-- A statement with a name of the table and the operand it takes. -/
theorem instruction_of_operand (op : Opcode) {text : String} (hop : withoutOperand? op = none)
    (hhead : s.head.text = op.mnemonic) (hoperands : s.operands.map Token.text = [text])
    (resolve : Resolver) (address : Nat) :
    s.instruction resolve address =
      (withOperand resolve address op text).map Command.instruction := by
  rw [instruction, command_of_mnemonic hhead, hop, operand_eq hoperands]
  rfl

/-- A jump. -/
theorem instruction_of_jump (kind : Jump) {text : String}
    (hhead : s.head.text = (Opcode.jump kind).mnemonic)
    (hoperands : s.operands.map Token.text = [text]) (resolve : Resolver) (address : Nat) :
    s.instruction resolve address =
      (offsetOperand resolve address text).map (Instruction.jump kind) := by
  rw [instruction_of_operand (.jump kind) rfl hhead hoperands, withOperand]
  cases offsetOperand resolve address text <;> rfl

/-- A statement with a name of the table that takes no operand. -/
theorem instruction_of_bare (op : Opcode) {found : Command} (hop : withoutOperand? op = some found)
    (hhead : s.head.text = op.mnemonic) (hoperands : s.operands.map Token.text = [])
    (resolve : Resolver) (address : Nat) : s.instruction resolve address = .ok found.instruction := by
  rw [instruction, command_of_mnemonic hhead, hop, List.map_eq_nil_iff.mp hoperands]
  rfl

end Statement

end Assembly

namespace Instruction

/-- A statement can stand for the instruction. -/
def Printable : Instruction → Prop
  | .syscall name => ∃ text : String, IsCallName text ∧ name = Text.Utf8.ofString text ∧
      IsWord ('"' :: text.toList ++ ['"'])
  | found => found.Encodable

theorem Printable.encodable {found : Instruction} (h : found.Printable) : found.Encodable := by
  cases found with
  | syscall name =>
    obtain ⟨text, hname, rfl, -⟩ := h
    exact hname.2.2
  | _ => exact h

end Instruction

/-- **A printable instruction is what its printed statement stands for.** -/
theorem Assembly.Statement.instruction_of_printed {s : Statement} {found : Instruction}
    (h : found.Printable) (hhead : s.head.text = found.name)
    (hoperands : s.operands.map Token.text = found.operandText?.toList) (resolve : Resolver)
    (address : Nat) : s.instruction resolve address = .ok found := by
  cases found with
  | pushBytes data =>
    have hne : ¬data.isEmpty = true := by
      rw [List.isEmpty_iff_length_eq_zero]
      exact Nat.ne_of_gt h.1
    have hpush : Instruction.push data = .pushBytes data := by
      rw [Instruction.push, if_neg hne, if_pos h.2]
    rw [instruction_of_count h hhead hoperands, pushCounted_encodeMarked data, ← hpush]
    rfl
  | pushData width data =>
    rw [instruction_of_operand (.pushData width) rfl hhead hoperands, withOperand,
      dataOperand_encodeMarked h]
    rfl
  | jump kind offset =>
    rw [instruction_of_jump kind hhead hoperands, offsetOperand_toString resolve address h]
    rfl
  | invoke kind hash =>
    rw [instruction_of_operand (.invoke kind) rfl hhead hoperands, withOperand,
      hashOperand_render]
    rfl
  | syscall name =>
    obtain ⟨text, hname, rfl, -⟩ := h
    have htext : Text.Utf8.decodeLossy (Text.Utf8.ofString text) = text :=
      Text.Utf8.decodeLossy_ofString hname.2.1
    rw [Instruction.operandText?, htext] at hoperands
    rw [instruction_of_operand .syscall rfl hhead hoperands, withOperand,
      nameOperand_quoted hname]
    rfl
  | ret => exact instruction_of_bare .ret rfl hhead hoperands resolve address
  | plain op => exact instruction_of_bare (.plain op) rfl hhead hoperands resolve address

/-! ### What a statement can stand for -/

namespace Assembly.Statement

variable {s : Statement} {resolve : Resolver} {address : Nat} {found : Instruction}

/-- How a command comes out of a statement. -/
inductive Means (s : Statement) (resolve : Resolver) (address : Nat) (found : Command) : Prop where
  | literal {token : Token} (hhead : s.head.text = "PUSH") (hoperands : s.operands = [token])
      (h : pushLiteral token.text = .ok found)
  | counted {token : Token} {count : Nat} (hhead : countedPush? s.head.text = some (some count))
      (hoperands : s.operands = [token]) (h : pushCounted count token.text = .ok found)
  | bare {op : Opcode} (hhead : Opcode.ofMnemonic? s.head.text = some op) (hoperands : s.operands = [])
      (h : withoutOperand? op = some found)
  | operand {op : Opcode} {token : Token} (hhead : Opcode.ofMnemonic? s.head.text = some op)
      (hop : withoutOperand? op = none) (hoperands : s.operands = [token])
      (h : withOperand resolve address op token.text = .ok found)

theorem operand_eq_ok {text : String} (h : s.operand = .ok text) :
    ∃ token, s.operands = [token] ∧ token.text = text := by
  unfold operand at h
  split at h
  · rename_i token hoperands
    exact ⟨token, hoperands, Except.ok.inj h⟩
  · cases h

theorem means_of_command {found : Command} (h : s.command resolve address = .ok found) :
    s.Means resolve address found := by
  unfold command at h
  dsimp only at h
  split at h
  · rename_i hhead
    obtain ⟨text, hoperand, h⟩ := bind_eq_ok h
    obtain ⟨token, hoperands, rfl⟩ := operand_eq_ok hoperand
    exact .literal hhead hoperands h
  · split at h
    · rename_i count hcount
      obtain ⟨text, hoperand, h⟩ := bind_eq_ok h
      obtain ⟨token, hoperands, rfl⟩ := operand_eq_ok hoperand
      exact .counted hcount hoperands h
    · cases h
    · split at h
      · cases h
      · rename_i op hop
        split at h
        · rename_i bare hbare
          split at h
          · rename_i hempty
            cases h
            exact .bare hop (List.isEmpty_iff.mp hempty) hbare
          · cases h
        · rename_i hbare
          obtain ⟨text, hoperand, h⟩ := bind_eq_ok h
          obtain ⟨token, hoperands, rfl⟩ := operand_eq_ok hoperand
          exact .operand hop hbare hoperands h

end Assembly.Statement

namespace Instruction

/-- The bytes of a push hold its data. -/
theorem length_le_length_encode_push (data : Bytes) : data.length ≤ (push data).encode.length := by
  unfold push
  split_ifs with hempty
  · simp_all
  all_goals
    simp only [encode, List.length_cons, List.length_append]
    omega

/-- The shortest push is printable, if its length does not need the sign. -/
theorem printable_push {data : Bytes} (h : (push data).encode.length < 2 ^ 31) :
    (push data).Printable := by
  have hencodable := encodable_push (Nat.lt_of_le_of_lt (length_le_length_encode_push data) h)
  unfold push at hencodable ⊢
  split_ifs at hencodable ⊢ <;> exact hencodable

theorem printable_pushInteger {v : Int} (h : (pushInteger v).encode.length < 2 ^ 31) :
    (pushInteger v).Printable := by
  unfold pushInteger at h ⊢
  split
  · trivial
  · rename_i hminus
    split
    · trivial
    · rename_i hzero
      split
      · trivial
      · rename_i hsmall
        rw [if_neg hminus, if_neg hzero, dif_neg hsmall] at h
        exact printable_push h

end Instruction

namespace Assembly

theorem printable_of_pushLiteral {token : String} {found : Command}
    (h : pushLiteral token = .ok found) (hlength : found.instruction.encode.length < 2 ^ 31) :
    found.instruction.Printable := by
  unfold pushLiteral at h
  split at h
  · cases h
    trivial
  · split at h
    · cases h
      trivial
    · split at h
      · cases h
        exact Instruction.printable_push hlength
      · split at h
        · obtain ⟨data, -, rfl⟩ := map_eq_ok h
          exact Instruction.printable_push hlength
        · split at h
          · cases h
            exact Instruction.printable_pushInteger hlength
          · cases h

theorem printable_of_pushCounted {count : Nat} {token : String} {found : Command}
    (h : pushCounted count token = .ok found) (hlength : found.instruction.encode.length < 2 ^ 31) :
    found.instruction.Printable := by
  obtain ⟨data, -, h⟩ := bind_eq_ok h
  dsimp only at h
  split at h
  · cases h
  · cases h
    exact Instruction.printable_push hlength

theorem length_of_dataOperand {width : LengthWidth} {token : String} {data : Bytes}
    (h : dataOperand width token = .ok data) : data.length ≤ width.max := by
  obtain ⟨data, -, h⟩ := bind_eq_ok h
  dsimp only at h
  split at h
  · cases h
  · rename_i hmax
    cases h
    exact Nat.not_lt.mp hmax

/-- Where the offset of a jump comes from. -/
theorem offsetOperand_eq_ok {resolve : Resolver} {address : Nat} {token : String} {offset : Int}
    (h : offsetOperand resolve address token = .ok offset) :
    Number.TwosComplement.fits16 offset = true ∧
      (Text.signed? 0x8000000000000000 token = some offset ∨
        Text.signed? 0x8000000000000000 token = none ∧
          ∃ target, resolve token = .ok target ∧ offset = Int.ofNat target - Int.ofNat address) := by
  have hcheck : ∀ found : Int, (if Number.TwosComplement.fits16 found = true then pure found
      else throw (.jumpRange found) : Except StatementError Int) = .ok offset →
      found = offset ∧ Number.TwosComplement.fits16 offset = true := by
    intro found hfound
    split at hfound
    · rename_i hfits
      cases hfound
      exact ⟨rfl, hfits⟩
    · cases hfound
  unfold offsetOperand at h
  split at h
  · rename_i found hnumber
    obtain ⟨rfl, hfits⟩ := hcheck found h
    exact ⟨hfits, .inl hnumber⟩
  · rename_i hnumber
    obtain ⟨target, htarget, h⟩ := bind_eq_ok h
    obtain ⟨rfl, hfits⟩ := hcheck _ h
    exact ⟨hfits, .inr ⟨hnumber, target, htarget, rfl⟩⟩

/-- The name of a host call, found between double quotes. -/
theorem printable_of_nameOperand {token : String} (hword : IsWord token.toList) {name : Bytes}
    (h : nameOperand token = .ok name) : (Instruction.syscall name).Printable := by
  obtain ⟨text, htext, hname, hbytes⟩ := nameOperand_eq_ok_iff.mp h
  exact ⟨text, hname, hbytes, quoted_of_unquote? htext ▸ hword⟩

theorem printable_of_withOperand {resolve : Resolver} {address : Nat} {op : Opcode} {token : String}
    (hword : IsWord token.toList) {found : Command}
    (h : withOperand resolve address op token = .ok found) : found.instruction.Printable := by
  cases op with
  | plain op =>
    cases h
    trivial
  | ret =>
    cases h
    trivial
  | pushData width =>
    obtain ⟨data, hdata, rfl⟩ := map_eq_ok h
    exact length_of_dataOperand hdata
  | jump kind =>
    obtain ⟨offset, hoffset, rfl⟩ := map_eq_ok h
    exact (offsetOperand_eq_ok hoffset).1
  | invoke kind =>
    obtain ⟨hash, -, rfl⟩ := map_eq_ok h
    trivial
  | syscall =>
    obtain ⟨name, hname, rfl⟩ := map_eq_ok h
    exact printable_of_nameOperand hword hname

/-- **What a statement stands for can be printed.** -/
theorem Statement.printable_of_instruction {s : Statement} {resolve : Resolver} {address : Nat}
    {found : Instruction} (hwords : ∀ token ∈ s.operands, IsWord token.text.toList)
    (h : s.instruction resolve address = .ok found) (hlength : found.encode.length < 2 ^ 31) :
    found.Printable := by
  obtain ⟨command, hcommand, rfl⟩ := map_eq_ok h
  cases means_of_command hcommand with
  | literal _ _ h => exact printable_of_pushLiteral h hlength
  | counted _ _ h => exact printable_of_pushCounted h hlength
  | @bare op _ _ h =>
    cases op <;> cases h <;> trivial
  | operand _ _ hoperands h =>
    exact printable_of_withOperand (hwords _ (by simp [hoperands])) h

end Assembly

end StackScript
