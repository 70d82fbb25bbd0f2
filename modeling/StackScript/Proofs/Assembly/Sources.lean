import StackScript.Proofs.Assembly.Relisting
import StackScript.Proofs.Building

/-!
# Builder calls as source lines

What a builder is called for can be written down as a source with one line for each call. The
assembler has ways of its own from there to the bytes: it cuts the line into tokens, reads the
operand, picks the opcode by its name and lays the operand out again.

Main statement: the source is assembled into the script that the builder has written
(`Assembly.assemble_calls`).
-/

namespace StackScript

open Assembly

namespace Builder.Call

/-! ### Lines -/

/-- The name that the line of a call starts with. -/
def name : Call → String
  | .emit op _ | .jump op _ => op.mnemonic
  | .appCall kind _ => (Opcode.invoke kind).mnemonic
  | .pushInteger _ | .pushBool _ | .pushBytes _ => "PUSH"
  | .syscall _ => Opcode.syscall.mnemonic

/-- What follows the name, if anything does. -/
def operandText? : Call → Option String
  | .emit .. => none
  | .appCall _ hash => some ("0x" ++ hash.render)
  | .jump _ offset => some (toString offset.toInt)
  | .pushInteger value => some (toString value)
  | .pushBool value => some (if value then "true" else "false")
  | .pushBytes data => some (Text.Hex.encodeMarked data)
  | .syscall name => some ("\"" ++ name ++ "\"")

/-- The line of a call. -/
def line (call : Call) : String :=
  match call.operandText? with
  | some operand => call.name ++ " " ++ operand
  | none => call.name

/-- The name of a host call lies on one line and has no double quotes. -/
def OneLine : Call → Prop
  | .syscall name => '"' ∉ name.toList ∧ '\n' ∉ name.toList
  | .emit .. | .appCall .. | .jump .. | .pushInteger _ | .pushBool _ | .pushBytes _ => True

/-- The words of the line of a call. -/
def words (call : Call) : List (List Char) :=
  call.name.toList :: call.operandText?.toList.map String.toList

theorem toList_line (call : Call) : call.line.toList = spaced call.words := by
  unfold line words
  cases call.operandText? with
  | none => simp [spaced]
  | some operand => simp [spaced]

theorem isAlphanum_of_mem_name {call : Call} {c : Char} (h : c ∈ call.name.toList) :
    c.isAlphanum = true := by
  have hpush : "PUSH".toList.all Char.isAlphanum = true := by decide +kernel
  cases call with
  | pushInteger | pushBool | pushBytes => exact List.all_eq_true.mp hpush c h
  | _ => exact Opcode.isAlphanum_of_mem_mnemonic h

theorem isWord_name (call : Call) : IsWord call.name.toList := by
  have hne : call.name ≠ "" := by
    cases call with
    | emit op | jump op => exact op.mnemonic_ne_empty
    | appCall kind => exact Opcode.mnemonic_ne_empty (.invoke kind)
    | syscall => exact Opcode.mnemonic_ne_empty .syscall
    | pushInteger | pushBool | pushBytes => simp [name]
  exact isWord_of_plain (by simp [hne]) fun _ hc =>
    isPlainChar_of_isAlphanum (isAlphanum_of_mem_name hc)

theorem isWord_operandText? {call : Call} (h : call.OneLine) :
    ∀ operand ∈ call.operandText?, IsWord operand.toList := by
  intro operand hoperand
  cases call with
  | emit op bare => cases hoperand
  | appCall kind hash =>
    cases hoperand
    exact Instruction.isWord_encodeMarked hash.bytes
  | jump op offset =>
    cases hoperand
    exact Instruction.isWord_toString offset.toInt
  | pushInteger value =>
    cases hoperand
    exact Instruction.isWord_toString value
  | pushBool value =>
    cases hoperand
    have hplain : (if value then "true" else "false").toList.all isPlainChar = true := by
      cases value <;> decide +kernel
    exact isWord_of_plain (by cases value <;> simp) (List.all_eq_true.mp hplain)
  | pushBytes data =>
    cases hoperand
    exact Instruction.isWord_encodeMarked data
  | syscall name =>
    cases hoperand
    simpa using isWord_quoted h.1 h.2

theorem isWord_words {call : Call} (h : call.OneLine) : ∀ word ∈ call.words, IsWord word := by
  rw [words, List.forall_mem_cons]
  refine ⟨call.isWord_name, fun word hword => ?_⟩
  obtain ⟨operand, hoperand, rfl⟩ := List.mem_map.mp hword
  exact isWord_operandText? h operand (Option.mem_toList.mp hoperand)

/-! ### Statements -/

/-- **The line of a call stands for the instruction that the call writes.** -/
theorem denotes_of_instruction? {call : Call} {found : Instruction}
    (h : call.instruction? = some found) {s : Statement} (hhead : s.head.text = call.name)
    (hoperands : s.operands.map Token.text = call.operandText?.toList) : s.Denotes found := by
  intro resolve address
  cases call with
  | emit op bare =>
    cases op with
    | plain op =>
      cases h
      exact Statement.instruction_of_bare (.plain op) rfl hhead hoperands resolve address
    | ret =>
      cases h
      exact Statement.instruction_of_bare .ret rfl hhead hoperands resolve address
    | _ => cases bare
  | appCall kind hash =>
    cases h
    rw [Statement.instruction_of_operand (.invoke kind) rfl hhead hoperands, withOperand,
      hashOperand_render]
    rfl
  | jump op offset =>
    have hfits : (jump op offset).Fits := trivial
    have hencodable := encodable_of_instruction? hfits h
    obtain ⟨kind, rfl, rfl⟩ := means_of_instruction? h
    rw [Statement.instruction_of_jump kind hhead hoperands,
      offsetOperand_toString resolve address hencodable]
    rfl
  | pushInteger value =>
    cases h
    rw [Statement.instruction_of_push hhead hoperands, pushLiteral_toString]
    rfl
  | pushBool value =>
    cases h
    rw [Statement.instruction_of_push hhead hoperands]
    cases value <;> rfl
  | pushBytes data =>
    cases h
    rw [Statement.instruction_of_push hhead hoperands, pushLiteral_encodeMarked]
    rfl
  | syscall name =>
    obtain ⟨hname, rfl⟩ := instruction?_syscall h
    rw [Statement.instruction_of_operand .syscall rfl hhead hoperands, withOperand,
      nameOperand_quoted hname]
    rfl

end Builder.Call

namespace Assembly

open Builder (Call)

/-- The line of a call adds a statement for its instruction. -/
theorem Layout.addLine_call (layout : Layout) {call : Call} {found : Instruction}
    (hline : call.OneLine) (h : call.instruction? = some found) (number : Nat) :
    ∃ s : Statement, s.Denotes found ∧
      layout.addLine (call.line.toList, number) = .ok
        { layout with
          statements := s :: layout.statements, size := layout.size + found.encode.length } := by
  let operands := call.operandText?.toList.map String.toList
  let s : Statement :=
    { line := number
      head := ⟨String.ofList call.name.toList, 1⟩
      operands := wordTokens (1 + byteWidth call.name.toList + 1) operands }
  have hs : s.Denotes found := by
    refine Call.denotes_of_instruction? h String.ofList_toList ?_
    rw [map_text_wordTokens, List.map_map]
    simp
  have htokens : wordTokens 1 call.words = s.head :: s.operands := rfl
  have hlabels : layout.defineLabels number (s.head :: s.operands) =
      .ok (layout, s.head :: s.operands) := by
    rw [defineLabels, label?_of_isAlphanum fun _ hc => Call.isAlphanum_of_mem_name hc]
  refine ⟨s, hs, ?_⟩
  rw [addLine, Call.toList_line, tokenize_spaced (Call.isWord_words hline), htokens]
  simp only [hlabels]
  exact addStatement_of_denotes hs layout

/-- The lines of calls are taken in, each with a statement for its instruction. -/
theorem Layout.foldlM_addLine_calls {calls : List Call} {founds : List Instruction}
    (hlines : ∀ call ∈ calls, call.OneLine)
    (h : List.Forall₂ (fun call found => call.instruction? = some found) calls founds)
    (layout : Layout) (number : Nat) :
    ∃ (layout' : Layout) (added : List Statement),
      ((calls.map fun call => call.line.toList).zipIdx number).foldlM addLine layout = .ok layout' ∧
      layout'.statements = added.reverse ++ layout.statements ∧
      List.Forall₂ Statement.Denotes added founds := by
  induction h generalizing layout number with
  | nil => exact ⟨layout, [], rfl, rfl, .nil⟩
  | @cons call found calls founds hfound _ ih =>
    rw [List.forall_mem_cons] at hlines
    obtain ⟨s, hs, hline⟩ := layout.addLine_call hlines.1 hfound number
    obtain ⟨layout', added, hfold, hstatements, hall⟩ := ih hlines.2
      { layout with
        statements := s :: layout.statements, size := layout.size + found.encode.length }
      (number + 1)
    refine ⟨layout', s :: added, ?_, ?_, .cons hs hall⟩
    · rw [List.map_cons, List.zipIdx_cons, List.foldlM_cons, hline]
      exact hfold
    · rw [hstatements]
      simp

/-- A source with the lines of calls is assembled into the instructions of the calls. -/
theorem assemble_of_lines {calls : List Call} {founds : List Instruction} {source : String}
    (hlines : ∀ call ∈ calls, call.OneLine)
    (h : List.Forall₂ (fun call found => call.instruction? = some found) calls founds)
    (hsource : Text.lines source = calls.map fun call => call.line.toList) :
    assemble source = .ok (.ofBytes (founds.flatMap Instruction.encode)) := by
  obtain ⟨layout, added, hfold, hstatements, hall⟩ := Layout.foldlM_addLine_calls hlines h {} 1
  have hlayout : Assembly.layout source = .ok layout := by
    rw [Assembly.layout, hsource, hfold]
  exact assemble_of_denotes hlayout (by simpa using hstatements) hall

/-! ### Sources -/

/-- The line of a call is one line, and not an empty one. -/
theorem oneLine_calls {calls : List Call} (h : ∀ call ∈ calls, call.OneLine) :
    ∀ line ∈ calls.map fun call => call.line.toList,
      ('\n' ∉ line ∧ line.getLast? ≠ some '\r') ∧ line ≠ [] := by
  intro line hline
  obtain ⟨call, hcall, rfl⟩ := List.mem_map.mp hline
  have hwords := Call.isWord_words (h call hcall)
  rw [Call.toList_line]
  refine ⟨⟨oneLine_spaced hwords, fun hreturn => ?_⟩, ?_⟩
  · exact absurd (isSeparator_getLast_spaced hwords hreturn) (by decide)
  · have hname := call.isWord_name.ne_nil
    rw [← Call.toList_line, Ne, String.toList_eq_nil_iff, Call.line]
    split <;> simp_all

/-- The source with a line for each call, every line ended by a line feed. -/
def sourceText (calls : List Call) : String := String.join (calls.map fun call => call.line ++ "\n")

theorem lines_sourceText {calls : List Call} (h : ∀ call ∈ calls, call.OneLine) :
    Text.lines (sourceText calls) = calls.map fun call => call.line.toList := by
  have hchars : (sourceText calls).toList =
      (calls.map fun call => call.line.toList).flatMap fun line => line ++ ['\n'] := by
    simp [sourceText, String.toList_join, List.flatMap_map]
  rw [← String.ofList_toList (s := sourceText calls), hchars]
  exact Text.lines_flatMap fun line hline => (oneLine_calls h line hline).1

theorem lines_intercalate_calls {calls : List Call} (h : ∀ call ∈ calls, call.OneLine) :
    Text.lines ("\n".intercalate (calls.map Call.line)) =
      calls.map fun call => call.line.toList := by
  have hchars : ("\n".intercalate (calls.map Call.line)).toList =
      ['\n'].intercalate (calls.map fun call => call.line.toList) := by
    simp [String.toList_intercalate, Function.comp_def]
  rw [← String.ofList_toList (s := "\n".intercalate _), hchars]
  exact Text.lines_intercalate (fun line hline => (oneLine_calls h line hline).1)
    fun line hline => (oneLine_calls h line hline).2

/-- None of the calls, made one after the other, is refused. -/
def Accepted (builder : Builder) : List Call → Prop
  | [] => True
  | call :: rest => (builder.perform call).1 = .ok () ∧ Accepted (builder.perform call).2 rest

/-- Calls none of which is refused ask for an instruction each, and append these. -/
theorem Accepted.exists_instructions {builder : Builder} {calls : List Call}
    (h : Accepted builder calls) :
    ∃ founds, List.Forall₂ (fun call found => call.instruction? = some found) calls founds ∧
      (builder.after calls).script.bytes =
        builder.script.bytes ++ founds.flatMap Instruction.encode := by
  induction calls generalizing builder with
  | nil => exact ⟨[], .nil, by simp [Builder.after]⟩
  | cons call rest ih =>
    obtain ⟨haccepted, hrest⟩ := h
    rw [Builder.perform_ok_iff, ← Call.exists_instruction?_iff] at haccepted
    obtain ⟨found, hfound⟩ := haccepted
    obtain ⟨founds, hfounds, hbytes⟩ := ih hrest
    have hnext : builder.after (call :: rest) = (builder.perform call).2.after rest := rfl
    refine ⟨found :: founds, .cons hfound hfounds, ?_⟩
    rw [hnext, hbytes, builder.perform_of_some hfound, Builder.bytes_write]
    simp

/-- **The assembler writes what the builder writes.** If none of the calls is refused, the source
with a line for each of them is assembled into the builder's script, whether the lines are ended by
line feeds or separated by them. -/
theorem assemble_calls {calls : List Call} (h : Accepted .empty calls)
    (hnames : ∀ name, .syscall name ∈ calls → '"' ∉ name.toList ∧ '\n' ∉ name.toList) :
    assemble (sourceText calls) = .ok (Builder.empty.after calls).script ∧
      assemble ("\n".intercalate (calls.map Call.line)) =
        .ok (Builder.empty.after calls).script := by
  have hlines : ∀ call ∈ calls, call.OneLine := by
    intro call hcall
    cases call with
    | syscall name => exact hnames name hcall
    | _ => trivial
  obtain ⟨founds, hfounds, hbytes⟩ := h.exists_instructions
  have hscript :
      (Builder.empty.after calls).script = .ofBytes (founds.flatMap Instruction.encode) :=
    congrArg Script.ofBytes hbytes
  rw [hscript]
  exact ⟨assemble_of_lines hlines hfounds (lines_sourceText hlines),
    assemble_of_lines hlines hfounds (lines_intercalate_calls hlines)⟩

/-- Calls of every kind; the name of the host call holds what separates tokens and what begins a
comment. -/
def dictated : List Call :=
  [.pushInteger (-300), .syscall "a, #b", .jump (.jump .always) (-3), .pushBytes [],
    .pushBool false, .pushBytes [0xab, 0x02], .appCall .nested .zero,
    .emit (.plain (.number .add)) rfl]

example : "\n".intercalate (dictated.map Call.line) =
    "PUSH -300\nSYSCALL \"a, #b\"\nJMP -3\nPUSH 0x\nPUSH false\nPUSH 0xab02\n" ++
      "APPCALL 0x0000000000000000000000000000000000000000\nADD" := by decide +kernel

/-- The bytes of the calls. -/
def dictatedScript : Script :=
  .ofBytes ([0x02, 0xd4, 0xfe, 0x68, 0x05, 0x61, 0x2c, 0x20, 0x23, 0x62, 0x62, 0xfd, 0xff, 0x00, 0x00,
    0x02, 0xab, 0x02, 0x67] ++ List.replicate 20 0x00 ++ [0x93])

theorem assemble_calls_dictated :
    Accepted .empty dictated ∧
      (∀ name, .syscall name ∈ dictated → '"' ∉ name.toList ∧ '\n' ∉ name.toList) ∧
      assemble (sourceText dictated) = .ok dictatedScript ∧
      assemble ("\n".intercalate (dictated.map Call.line)) = .ok dictatedScript := by
  have hcalls : Accepted .empty dictated := ⟨rfl, rfl, rfl, rfl, rfl, rfl, rfl, rfl, trivial⟩
  have hnames : ∀ name, .syscall name ∈ dictated → '"' ∉ name.toList ∧ '\n' ∉ name.toList := by
    simp [dictated]
  have hscript : (Builder.empty.after dictated).script = dictatedScript := by decide +kernel
  exact ⟨hcalls, hnames, hscript ▸ assemble_calls hcalls hnames⟩

end Assembly

end StackScript
