import StackScript.Assembly.Program
import StackScript.Proofs.Assembly.Statements

/-!
# What the assembler takes in and writes

The first pass reads statements off the lines, the second writes what they stand for, each at the
address where the bytes before it end.

Main statements: the second pass writes exactly the instructions its statements stand for at their
places (`Layout.foldlM_emitStatement_iff`), and the statements are made of words
(`wellWorded_of_layout`); so an assembled script consists of instructions that statements made of
words stand for (`assemble_eq_ok`).
-/

namespace StackScript.Assembly

/-! ### The second pass -/

namespace Layout

/-- A statement is written as what it stands for behind what has been written. -/
theorem emitStatement_eq (layout : Layout) (builder : Builder) (s : Statement) :
    layout.emitStatement builder s =
      match s.instruction layout.defined builder.offset with
      | .ok found => .ok (builder.write found)
      | .error cause => .error (.statement s.position cause) := by
  unfold emitStatement commandAt Statement.instruction
  cases s.command layout.defined builder.offset with
  | error cause => rfl
  | ok found => exact congrArg Except.ok (found.write_eq builder)

theorem emitStatement_eq_ok {layout : Layout} {builder builder' : Builder} {s : Statement} :
    layout.emitStatement builder s = .ok builder' ↔
      ∃ found, s.instruction layout.defined builder.offset = .ok found ∧
        builder' = builder.write found := by
  rw [emitStatement_eq]
  cases s.instruction layout.defined builder.offset with
  | error cause => simp
  | ok found => simp [eq_comm]

/-- **Statements are written one after the other**, each as what it stands for at its address. -/
theorem foldlM_emitStatement_iff {layout : Layout} {statements : List Statement}
    {builder builder' : Builder} :
    statements.foldlM layout.emitStatement builder = .ok builder' ↔
      ∃ founds : List Instruction,
        builder'.script.bytes = builder.script.bytes ++ founds.flatMap Instruction.encode ∧
        List.Forall₂ (fun s entry => s.instruction layout.defined entry.1 = .ok entry.2) statements
          (Instruction.placed builder.offset founds) := by
  induction statements generalizing builder with
  | nil =>
    constructor
    · intro h
      cases h
      exact ⟨[], by simp, .nil⟩
    · rintro ⟨founds, hbytes, hall⟩
      cases founds with
      | nil =>
        obtain rfl : builder' = builder := Builder.eq_of_bytes_eq (by simpa using hbytes)
        rfl
      | cons found rest => cases hall
  | cons s rest ih =>
    rw [List.foldlM_cons]
    constructor
    · intro h
      obtain ⟨next, hemit, h⟩ := bind_eq_ok h
      obtain ⟨found, hfound, rfl⟩ := emitStatement_eq_ok.mp hemit
      obtain ⟨founds, hbytes, hall⟩ := ih.mp h
      -- The next statement stands where the bytes of this one end.
      rw [Builder.offset_write] at hall
      exact ⟨found :: founds, by simp [hbytes, Builder.bytes_write], .cons hfound hall⟩
    · rintro ⟨founds, hbytes, hall⟩
      cases founds with
      | nil => cases hall
      | cons found founds =>
        cases hall with
        | cons hfound hall =>
          rw [emitStatement_eq_ok.mpr ⟨found, hfound, rfl⟩]
          refine ih.mpr ⟨founds, by simp [hbytes, Builder.bytes_write], ?_⟩
          rwa [Builder.offset_write]

/-- Every instruction that is written comes from a statement. -/
theorem exists_statement {resolve : Resolver} {statements : List Statement} {offset : Nat}
    {founds : List Instruction}
    (h : List.Forall₂ (fun s entry => s.instruction resolve entry.1 = .ok entry.2) statements
      (Instruction.placed offset founds)) :
    ∀ found ∈ founds, ∃ s ∈ statements, ∃ address, s.instruction resolve address = .ok found := by
  induction founds generalizing statements offset with
  | nil => simp
  | cons found founds ih =>
    cases h with
    | @cons s _ statements _ hs hrest =>
      rw [List.forall_mem_cons]
      refine ⟨⟨s, List.mem_cons_self, offset, hs⟩, fun found hfound => ?_⟩
      obtain ⟨s, hs, address, hfound⟩ := ih hrest found hfound
      exact ⟨s, List.mem_cons_of_mem _ hs, address, hfound⟩

end Layout

/-! ### The first pass -/

/-- The operands of a statement are words. -/
def Statement.WellWorded (s : Statement) : Prop :=
  ∀ token ∈ s.operands, IsWord token.text.toList

namespace Layout

/-- Labels leave statements and size as they are, and stand in front of the other tokens. -/
theorem defineLabels_eq_ok {layout layout' : Layout} {line : Nat} {tokens rest : List Token}
    (h : layout.defineLabels line tokens = .ok (layout', rest)) :
    layout'.statements = layout.statements ∧ layout'.size = layout.size ∧ rest <:+ tokens := by
  induction tokens generalizing layout with
  | nil =>
    cases h
    exact ⟨rfl, rfl, List.suffix_refl _⟩
  | cons token tokens ih =>
    rw [defineLabels] at h
    split at h
    · cases h
      exact ⟨rfl, rfl, List.suffix_refl _⟩
    · split at h
      · cases h
      · obtain ⟨hstatements, hsize, hrest⟩ := ih h
        exact ⟨hstatements, hsize, hrest.trans (List.suffix_cons _ _)⟩

/-- A statement is measured by what it stands for, with any label that is not known yet at the
statement itself. -/
theorem addStatement_eq (layout : Layout) (s : Statement) :
    layout.addStatement s =
      match s.instruction (layout.known layout.size) layout.size with
      | .ok found => .ok { layout with
          statements := s :: layout.statements, size := layout.size + found.encode.length }
      | .error cause => .error (.statement s.position cause) := by
  unfold addStatement commandAt Statement.instruction
  cases s.command (layout.known layout.size) layout.size with
  | error cause => rfl
  | ok found =>
    have hsize : (found.write Builder.empty).offset = found.instruction.encode.length := by
      rw [found.write_eq, Builder.offset_write]
      exact Nat.zero_add _
    exact congrArg (fun size => Except.ok { layout with
      statements := s :: layout.statements, size := layout.size + size }) hsize

theorem addStatement_eq_ok {layout layout' : Layout} {s : Statement}
    (h : layout.addStatement s = .ok layout') :
    ∃ found, s.instruction (layout.known layout.size) layout.size = .ok found ∧
      layout' = { layout with
        statements := s :: layout.statements, size := layout.size + found.encode.length } := by
  rw [addStatement_eq] at h
  split at h
  · rename_i found hfound
    cases h
    exact ⟨found, hfound, rfl⟩
  · cases h

theorem wellWorded_addLine {layout layout' : Layout} {line : List Char × Nat}
    (hline : '\n' ∉ line.1) (hlayout : ∀ s ∈ layout.statements, s.WellWorded)
    (h : layout.addLine line = .ok layout') : ∀ s ∈ layout'.statements, s.WellWorded := by
  unfold addLine at h
  split at h
  · cases h
  · rename_i tokens htokens
    have hwords := isWord_of_tokenize hline htokens
    obtain ⟨⟨labelled, rest⟩, hlabels, h⟩ := bind_eq_ok h
    obtain ⟨hstatements, -, hrest⟩ := defineLabels_eq_ok hlabels
    dsimp only at h
    split at h
    · cases h
      rwa [hstatements]
    · rename_i head operands
      obtain ⟨found, -, rfl⟩ := addStatement_eq_ok h
      dsimp only
      rw [hstatements, List.forall_mem_cons]
      exact ⟨fun token htoken => hwords token (hrest.subset (List.mem_cons_of_mem _ htoken)), hlayout⟩

end Layout

theorem wellWorded_of_layout {source : String} {found : Layout} (h : layout source = .ok found) :
    ∀ s ∈ found.statements, s.WellWorded := by
  have hgeneral : ∀ (lines : List (List Char × Nat)) (start : Layout),
      (∀ line ∈ lines, '\n' ∉ line.1) → (∀ s ∈ start.statements, s.WellWorded) →
      lines.foldlM Layout.addLine start = .ok found → ∀ s ∈ found.statements, s.WellWorded := by
    intro lines
    induction lines with
    | nil =>
      intro start _ hstart hfold
      cases hfold
      exact hstart
    | cons line lines ih =>
      intro start hlines hstart hfold
      rw [List.foldlM_cons] at hfold
      obtain ⟨next, hnext, hfold⟩ := bind_eq_ok hfold
      rw [List.forall_mem_cons] at hlines
      exact ih next hlines.2 (Layout.wellWorded_addLine hlines.1 hstart hnext) hfold
  refine hgeneral _ _ (fun line hline => ?_) (by simp) h
  exact Text.newline_not_mem_of_mem_lines (List.fst_mem_of_mem_zipIdx hline)

/-- An assembled script is the bytes of what its statements stand for. -/
theorem assemble_eq_ok {source : String} {script : Script} (h : assemble source = .ok script) :
    ∃ founds : List Instruction, script.bytes = founds.flatMap Instruction.encode ∧
      ∀ found ∈ founds, ∃ (s : Statement) (resolve : Resolver) (address : Nat),
        s.WellWorded ∧ s.instruction resolve address = .ok found := by
  obtain ⟨layout, hlayout, h⟩ := bind_eq_ok h
  obtain ⟨builder, hbuilder, h⟩ := bind_eq_ok h
  cases h
  obtain ⟨founds, hbytes, hall⟩ := Layout.foldlM_emitStatement_iff.mp hbuilder
  refine ⟨founds, hbytes, fun found hfound => ?_⟩
  obtain ⟨s, hs, address, hfound⟩ := Layout.exists_statement hall found hfound
  exact ⟨s, _, address, wellWorded_of_layout hlayout s (List.mem_reverse.mp hs), hfound⟩

end StackScript.Assembly
