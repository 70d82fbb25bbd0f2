import StackScript.Proofs.Assembly.Layout

/-!
# Listings assemble again

A listing shows each instruction behind a label that holds its offset. Assembled again, the labels
are all different and no jump needs one, so the statements stand for the instructions they show.

Main statement: a script that comes out of the assembler is tiled by instructions, the listing has a
line for each of them, and the listing is assembled into the same script
(`Assembly.assemble_listing`).
-/

namespace StackScript

open Assembly

/-! ### Words of a listing -/

theorem Opcode.isAlphanum_of_mem_mnemonic {op : Opcode} {c : Char} (h : c ∈ op.mnemonic.toList) :
    c.isAlphanum = true := by
  have hall : ∀ op ∈ Opcode.all, op.mnemonic.toList.all Char.isAlphanum = true := by decide +kernel
  exact List.all_eq_true.mp (hall op (Opcode.mem_all op)) c h

theorem Opcode.mnemonic_ne_empty (op : Opcode) : op.mnemonic ≠ "" := by
  have hall : ∀ op ∈ Opcode.all, op.mnemonic ≠ "" := by decide +kernel
  exact hall op (Opcode.mem_all op)

namespace Instruction

theorem isAlphanum_of_mem_name {found : Instruction} {c : Char} (h : c ∈ found.name.toList) :
    c.isAlphanum = true := by
  cases found with
  | pushBytes data =>
    rw [name, String.toList_append, List.mem_append] at h
    rcases h with h | h
    · have hmarker : "PUSHBYTES".toList.all Char.isAlphanum = true := by decide +kernel
      exact List.all_eq_true.mp hmarker c h
    · rw [Char.isAlphanum, Text.isDigit_of_mem_decimal h, Bool.or_true]
  | _ => exact Opcode.isAlphanum_of_mem_mnemonic h

theorem name_ne_empty (found : Instruction) : found.name ≠ "" := by
  cases found with
  | pushBytes data => simp [name]
  | pushData width _ => exact Opcode.mnemonic_ne_empty (.pushData width)
  | jump kind _ => exact Opcode.mnemonic_ne_empty (.jump kind)
  | invoke kind _ => exact Opcode.mnemonic_ne_empty (.invoke kind)
  | syscall _ => exact Opcode.mnemonic_ne_empty .syscall
  | ret => exact Opcode.mnemonic_ne_empty .ret
  | plain op => exact Opcode.mnemonic_ne_empty (.plain op)

theorem isWord_name (found : Instruction) : IsWord found.name.toList :=
  isWord_of_plain (by simp [found.name_ne_empty]) fun _ hc =>
    isPlainChar_of_isAlphanum (isAlphanum_of_mem_name hc)

theorem isWord_encodeMarked (data : Bytes) : IsWord (Text.Hex.encodeMarked data).toList := by
  have hdigit : ∀ n < 16, (Text.Hex.digit n).isAlphanum = true := by decide
  rw [Text.Hex.toList_encodeMarked]
  refine isWord_of_plain (by simp) fun c hc => isPlainChar_of_isAlphanum ?_
  simp only [List.mem_cons, List.mem_flatMap, Text.Hex.pair, List.not_mem_nil, or_false] at hc
  rcases hc with rfl | rfl | ⟨b, -, rfl | rfl⟩
  · rfl
  · rfl
  · exact hdigit _ (Text.Hex.halves b).1
  · exact hdigit _ (Text.Hex.halves b).2.1

theorem isWord_toString (offset : Int) : IsWord (toString offset).toList := by
  refine isWord_of_plain (mt String.toList_eq_nil_iff.mp (Text.toString_ne_empty offset)) ?_
  intro c hc
  rcases Text.isDigit_or_eq_of_mem_toString hc with hdigit | rfl
  · exact isPlainChar_of_isDigit hdigit
  · rfl

theorem isWord_operandText? {found : Instruction} (h : found.Printable) :
    ∀ operand ∈ found.operandText?, IsWord operand.toList := by
  intro operand hoperand
  cases found with
  | pushBytes data =>
    cases hoperand
    exact isWord_encodeMarked data
  | pushData width data =>
    cases hoperand
    exact isWord_encodeMarked data
  | jump kind offset =>
    cases hoperand
    exact isWord_toString offset
  | invoke kind hash =>
    cases hoperand
    exact isWord_encodeMarked hash.bytes
  | syscall name =>
    cases hoperand
    obtain ⟨text, hname, rfl, hword⟩ := h
    rw [Text.Utf8.decodeLossy_ofString hname.2.1]
    simpa using hword
  | ret => cases hoperand
  | plain op => cases hoperand

/-- The words of an instruction in a statement. -/
def words (found : Instruction) : List (List Char) :=
  found.name.toList :: found.operandText?.toList.map String.toList

theorem toList_text (found : Instruction) : found.text.toList = spaced found.words := by
  unfold text words
  cases found.operandText? with
  | none => simp [spaced]
  | some operand => simp [spaced, statementText]

end Instruction

namespace Assembly

/-- The words of a line of a listing. -/
def lineWords (offset : Nat) (found : Instruction) : List (List Char) :=
  ((Text.fourDigits offset).toList ++ [':']) :: found.words

theorem toList_listingLine (offset : Nat) (found : Instruction) :
    (listingLine offset found.text).toList = spaced (lineWords offset found) ++ ['\n'] := by
  simp [listingLine, lineWords, Instruction.toList_text, spaced, Instruction.words]

theorem isWord_label (offset : Nat) : IsWord ((Text.fourDigits offset).toList ++ [':']) := by
  refine isWord_of_plain (by simp) fun c hc => ?_
  rw [List.mem_append, List.mem_singleton] at hc
  rcases hc with hc | rfl
  · exact isPlainChar_of_isDigit (Text.isDigit_of_mem_fourDigits hc)
  · rfl

theorem isWord_lineWords {found : Instruction} (h : found.Printable) (offset : Nat) :
    ∀ word ∈ lineWords offset found, IsWord word := by
  rw [lineWords, Instruction.words, List.forall_mem_cons, List.forall_mem_cons]
  refine ⟨isWord_label offset, found.isWord_name, fun word hword => ?_⟩
  obtain ⟨operand, hoperand, rfl⟩ := List.mem_map.mp hword
  exact Instruction.isWord_operandText? h operand (Option.mem_toList.mp hoperand)

/-! ### The listing -/

/-- The text of a listing. -/
def listingText (code : List (Nat × Instruction)) : String :=
  String.join (code.map fun entry => listingLine entry.1 entry.2.text)

theorem toList_listingText (code : List (Nat × Instruction)) :
    (listingText code).toList =
      (code.map fun entry => spaced (lineWords entry.1 entry.2)).flatMap fun line => line ++ ['\n'] := by
  simp only [listingText, String.toList_join, List.flatMap_map, toList_listingLine]

/-- The listing shows the instructions that tile the rest of a script. -/
theorem listingOnto_of_tiles {script : Script} {cursor : Nat} {code : List (Nat × Instruction)}
    (h : Instruction.Tiles script cursor code) {count : Nat} (hcount : script.size - cursor ≤ count)
    (done : String) : listingOnto script done count cursor = .ok (done ++ listingText code) := by
  induction h generalizing count done with
  | done =>
    have hnone : listingText [] = "" := by simp [listingText]
    rw [hnone, String.append_empty]
    cases count with
    | zero => rfl
    | succ count => rw [listingOnto, if_pos (Nat.le_refl _)]
  | @next offset next found rest hdecode hlt hrest ih =>
    have hle := hrest.offset_le
    obtain ⟨count, rfl⟩ := Nat.exists_eq_succ_of_ne_zero (n := count) (by omega)
    rw [listingOnto, if_neg (by omega), runAt_readText, hdecode]
    refine (ih (by omega) _).trans ?_
    simp [listingText, String.append_assoc]

/-! ### Assembling a listing -/

/-- The statement stands for the instruction, wherever it is and whatever labels mean. -/
def Statement.Denotes (s : Statement) (found : Instruction) : Prop :=
  ∀ resolve address, s.instruction resolve address = .ok found

theorem label?_fourDigits (offset column : Nat) :
    (Token.mk (String.ofList ((Text.fourDigits offset).toList ++ [':'])) column).label? =
      some (Text.fourDigits offset) := by
  obtain ⟨c, rest, hchars⟩ := List.exists_cons_of_ne_nil
    (mt String.toList_eq_nil_iff.mp (Text.fourDigits_ne_empty offset))
  have hdigit : c.isDigit = true :=
    Text.isDigit_of_mem_fourDigits (n := offset) (hchars ▸ List.mem_cons_self)
  have hquote : c ≠ '"' := by
    rintro rfl
    exact absurd hdigit (by decide)
  unfold Token.label?
  rw [String.toList_ofList]
  split
  · rename_i heq
    rw [hchars, List.cons_append] at heq
    exact absurd (List.cons.inj heq).1 hquote
  · simp [Text.fourDigits_ne_empty]

/-- A word of letters and digits defines no label. -/
theorem label?_of_isAlphanum {word : List Char} (h : ∀ c ∈ word, c.isAlphanum = true)
    (column : Nat) : (Token.mk (String.ofList word) column).label? = none := by
  have hcolon : word.getLast? ≠ some ':' := by
    intro hlast
    exact absurd (h _ (List.mem_of_getLast? hlast)) (by decide)
  unfold Token.label?
  rw [String.toList_ofList]
  split
  · rfl
  · rw [if_neg (fun h => hcolon h.1)]

theorem map_text_wordTokens (column : Nat) (words : List (List Char)) :
    (wordTokens column words).map Token.text = words.map String.ofList := by
  induction words generalizing column with
  | nil => rfl
  | cons word rest ih => rw [wordTokens, List.map_cons, ih, List.map_cons]

namespace Layout

theorem addStatement_of_denotes {s : Statement} {found : Instruction} (h : s.Denotes found)
    (layout : Layout) : layout.addStatement s = .ok
      { layout with
        statements := s :: layout.statements, size := layout.size + found.encode.length } := by
  rw [addStatement_eq, h]

/-- A line of a listing defines its offset and adds a statement for its instruction. -/
theorem addLine_listed (layout : Layout) {offset : Nat} {found : Instruction} (h : found.Printable)
    (hlabel : layout.labels.contains (Text.fourDigits offset) = false) (number : Nat) :
    ∃ s : Statement, s.Denotes found ∧
      layout.addLine (spaced (lineWords offset found), number) = .ok
        { labels := layout.labels.insert (Text.fourDigits offset) layout.size
          statements := s :: layout.statements
          size := layout.size + found.encode.length } := by
  let operands := found.operandText?.toList.map String.toList
  let column := 1 + byteWidth ((Text.fourDigits offset).toList ++ [':']) + 1
  let s : Statement :=
    { line := number
      head := ⟨String.ofList found.name.toList, column⟩
      operands := wordTokens (column + byteWidth found.name.toList + 1) operands }
  have hs : s.Denotes found := by
    refine Statement.instruction_of_printed h String.ofList_toList ?_
    rw [map_text_wordTokens, List.map_map]
    simp
  have htokens : wordTokens 1 (lineWords offset found) =
      ⟨String.ofList ((Text.fourDigits offset).toList ++ [':']), 1⟩ :: s.head :: s.operands := rfl
  refine ⟨s, hs, ?_⟩
  have hlabels : layout.defineLabels number (wordTokens 1 (lineWords offset found)) = .ok
      ({ layout with labels := layout.labels.insert (Text.fourDigits offset) layout.size },
        s.head :: s.operands) := by
    rw [htokens, defineLabels, label?_fourDigits]
    simp only [hlabel]
    rw [if_neg (by decide), defineLabels,
      label?_of_isAlphanum fun _ hc => Instruction.isAlphanum_of_mem_name hc]
  rw [addLine, tokenize_spaced (isWord_lineWords h offset)]
  simp only [hlabels]
  exact addStatement_of_denotes hs _

/-- The lines of a listing are taken in, each with a statement for its instruction. Every label is
the offset of an instruction before, so none is defined twice. -/
theorem foldlM_addLine_listed {founds : List Instruction} (h : ∀ found ∈ founds, found.Printable)
    (offset : Nat) (layout : Layout)
    (hlabels : ∀ label, layout.labels.contains label = true →
      ∃ before < offset, label = Text.fourDigits before) (number : Nat) :
    ∃ (layout' : Layout) (added : List Statement),
      (((Instruction.placed offset founds).map fun entry =>
        spaced (lineWords entry.1 entry.2)).zipIdx number).foldlM addLine layout = .ok layout' ∧
      layout'.statements = added.reverse ++ layout.statements ∧
      List.Forall₂ Statement.Denotes added founds := by
  induction founds generalizing offset layout number with
  | nil => exact ⟨layout, [], rfl, rfl, .nil⟩
  | cons found rest ih =>
    have hlabel : layout.labels.contains (Text.fourDigits offset) = false := by
      rw [← Bool.not_eq_true]
      intro hcontains
      obtain ⟨before, hlt, heq⟩ := hlabels _ hcontains
      exact absurd (Text.fourDigits_injective heq) (Nat.ne_of_gt hlt)
    obtain ⟨s, hs, hline⟩ := layout.addLine_listed (h found List.mem_cons_self) hlabel number
    -- The label of this line is the offset of its instruction, and the next one starts beyond it.
    have hlabels' : ∀ label,
        (layout.labels.insert (Text.fourDigits offset) layout.size).contains label = true →
        ∃ before < offset + found.encode.length, label = Text.fourDigits before := by
      intro label hcontains
      have hpos := found.length_encode_pos
      rw [Std.HashMap.contains_insert, Bool.or_eq_true, beq_iff_eq] at hcontains
      rcases hcontains with heq | hcontains
      · exact ⟨offset, by omega, heq.symm⟩
      · obtain ⟨before, hlt, heq⟩ := hlabels label hcontains
        exact ⟨before, by omega, heq⟩
    obtain ⟨layout', added, hfold, hstatements, hall⟩ :=
      ih (fun f hf => h f (List.mem_cons_of_mem _ hf)) (offset + found.encode.length)
        { labels := layout.labels.insert (Text.fourDigits offset) layout.size
          statements := s :: layout.statements
          size := layout.size + found.encode.length } hlabels' (number + 1)
    refine ⟨layout', s :: added, ?_, ?_, .cons hs hall⟩
    · rw [Instruction.placed, List.map_cons, List.zipIdx_cons, List.foldlM_cons, hline]
      exact hfold
    · rw [hstatements]
      simp

end Layout

theorem forall₂_placed {statements : List Statement} {founds : List Instruction}
    (h : List.Forall₂ Statement.Denotes statements founds) (resolve : Resolver) (offset : Nat) :
    List.Forall₂ (fun s entry => s.instruction resolve entry.1 = .ok entry.2) statements
      (Instruction.placed offset founds) := by
  induction h generalizing offset with
  | nil => exact .nil
  | cons hs _ ih => exact .cons (hs resolve offset) (ih _)

/-- What is listed for a printable instruction is one line. -/
theorem oneLine_listed {founds : List Instruction} (h : ∀ found ∈ founds, found.Printable)
    (offset : Nat) :
    ∀ line ∈ (Instruction.placed offset founds).map fun entry => spaced (lineWords entry.1 entry.2),
      '\n' ∉ line ∧ line.getLast? ≠ some '\r' := by
  intro line hline
  obtain ⟨entry, hentry, rfl⟩ := List.mem_map.mp hline
  have hwords := isWord_lineWords (h entry.2 (Instruction.mem_of_mem_placed hentry)) entry.1
  refine ⟨oneLine_spaced hwords, fun hreturn => ?_⟩
  exact absurd (isSeparator_getLast_spaced hwords hreturn) (by decide)

theorem lines_listingText {founds : List Instruction} (h : ∀ found ∈ founds, found.Printable)
    (offset : Nat) :
    Text.lines (listingText (Instruction.placed offset founds)) =
      (Instruction.placed offset founds).map fun entry => spaced (lineWords entry.1 entry.2) := by
  rw [← String.ofList_toList (s := listingText _), toList_listingText]
  exact Text.lines_flatMap (oneLine_listed h offset)

/-- A source whose statements stand for instructions is assembled into their bytes. -/
theorem assemble_of_denotes {source : String} {layout : Layout} {added : List Statement}
    {founds : List Instruction} (hlayout : Assembly.layout source = .ok layout)
    (hstatements : layout.statements = added.reverse)
    (hall : List.Forall₂ Statement.Denotes added founds) :
    assemble source = .ok (.ofBytes (founds.flatMap Instruction.encode)) := by
  have hemit : layout.statements.reverse.foldlM layout.emitStatement Builder.empty =
      .ok ⟨(founds.flatMap Instruction.encode).toArray⟩ := by
    refine Layout.foldlM_emitStatement_iff.mpr ⟨founds, rfl, ?_⟩
    rw [hstatements, List.reverse_reverse]
    exact forall₂_placed hall _ 0
  have hscript : layout.emit = .ok (.ofBytes (founds.flatMap Instruction.encode)) := by
    rw [Layout.emit, hemit]
    rfl
  rw [assemble, hlayout]
  exact hscript

/-- The listing of printable instructions is assembled into their bytes. -/
theorem assemble_listingText {founds : List Instruction} (h : ∀ found ∈ founds, found.Printable) :
    assemble (listingText (Instruction.placed 0 founds)) =
      .ok (.ofBytes (founds.flatMap Instruction.encode)) := by
  obtain ⟨layout, added, hfold, hstatements, hall⟩ :=
    Layout.foldlM_addLine_listed h 0 {} (by simp) 1
  have hlayout : Assembly.layout (listingText (Instruction.placed 0 founds)) = .ok layout := by
    rw [Assembly.layout, lines_listingText h, hfold]
  exact assemble_of_denotes hlayout (by simpa using hstatements) hall

/-- A source with a comment, a name that holds separators, and a jump back. -/
def repeating : String := "PUSH 5, # five\n  SYSCALL \"a, #b\"\nJMP -8"

/-- The bytes of that source. -/
def repeatingScript : Script := .ofBytes [0x55, 0x68, 5, 97, 44, 32, 35, 98, 0x62, 0xf8, 0xff]

example : (listing repeatingScript).toOption =
    some "0000: PUSH5\n0001: SYSCALL \"a, #b\"\n0008: JMP -8\n" := by decide +kernel

end Assembly

end StackScript
