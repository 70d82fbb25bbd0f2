import StackScript.Proofs.Assembly.Layout
import Mathlib.Data.List.Forall2

/-!
# Labels and what they stand for

`entries` reads a source as a row of labels and statements, without addresses. The size of a
statement is the same wherever it stands and whatever its labels mean (`Statement.size`), so the
sizes of the statements in front of an entry give its address before any label is known.

Only a jump whose operand is no number looks at the labels (`Statement.instruction_cases`). That is
why sizes do not depend on them, and why a statement that the first pass accepts can fail in the
second pass for two reasons only.

Main statements: the first pass records exactly the labels of the source, each with the size of what
is in front of it (`covers_of_layout`); that is where the next statement is written, or the end of
the script (`Layout.Covers.address_eq`); a jump to a label carries the distance to it
(`Statement.JumpsTo.distance`); the second pass fails only at a jump whose label is not defined or
too far away (`Layout.Covers.emit_eq_error`).
-/

namespace StackScript.Assembly

/-! ### Statements and labels -/

/-- The statement is a jump to a label: its only operand is not a number. -/
structure Statement.JumpsTo (s : Statement) (kind : Jump) (label : String) : Prop where
  head : s.head.text = (Opcode.jump kind).mnemonic
  operands : s.operands.map Token.text = [label]
  notNumber : Text.signed? 0x8000000000000000 label = none

/-- The jump by a distance, which has to fit into 16 bits. -/
def jumpBy (kind : Jump) (distance : Int) : Except StatementError Instruction :=
  if Number.TwosComplement.fits16 distance then .ok (.jump kind distance)
  else .error (.jumpRange distance)

theorem map_offsetOperand_of_number (kind : Jump) {token : String} {offset : Int}
    (h : Text.signed? 0x8000000000000000 token = some offset) (resolve : Resolver) (address : Nat) :
    (offsetOperand resolve address token).map (.jump kind) = jumpBy kind offset := by
  unfold offsetOperand jumpBy
  rw [h]
  show Except.map _ (if Number.TwosComplement.fits16 offset then _ else _) =
    if Number.TwosComplement.fits16 offset then _ else _
  cases Number.TwosComplement.fits16 offset <;> rfl

theorem map_offsetOperand_of_label (kind : Jump) {token : String}
    (h : Text.signed? 0x8000000000000000 token = none) (resolve : Resolver) (address : Nat) :
    (offsetOperand resolve address token).map (.jump kind) =
      resolve token >>= fun target => jumpBy kind (Int.ofNat target - Int.ofNat address) := by
  unfold offsetOperand jumpBy
  rw [h]
  cases resolve token with
  | error cause => rfl
  | ok target =>
    show Except.map _ (if Number.TwosComplement.fits16 (Int.ofNat target - Int.ofNat address) then _
      else _) = if Number.TwosComplement.fits16 (Int.ofNat target - Int.ofNat address) then _ else _
    cases Number.TwosComplement.fits16 (Int.ofNat target - Int.ofNat address) <;> rfl

namespace Statement

theorem JumpsTo.instruction_eq {s : Statement} {kind : Jump} {label : String}
    (h : s.JumpsTo kind label) (resolve : Resolver) (address : Nat) :
    s.instruction resolve address =
      resolve label >>= fun target => jumpBy kind (Int.ofNat target - Int.ofNat address) := by
  rw [instruction_of_jump kind h.head h.operands, map_offsetOperand_of_label kind h.notNumber]

/-- **Only jumps to labels look at labels**: any other statement stands for the same wherever it is
and whatever labels mean. -/
theorem instruction_cases (s : Statement) :
    (∃ found, ∀ resolve address, s.instruction resolve address = found) ∨
      ∃ kind label, s.JumpsTo kind label := by
  by_cases hjump : ∃ kind, s.head.text = (Opcode.jump kind).mnemonic
  · obtain ⟨kind, hhead⟩ := hjump
    cases hoperand : s.operand with
    | error cause =>
      refine .inl ⟨.error cause, fun resolve address => ?_⟩
      rw [instruction, command_of_mnemonic hhead, hoperand]
      rfl
    | ok label =>
      obtain ⟨token, hoperands, rfl⟩ := operand_eq_ok hoperand
      have hlabel : s.operands.map Token.text = [token.text] := by rw [hoperands]; rfl
      cases hnumber : Text.signed? 0x8000000000000000 token.text with
      | none => exact .inr ⟨kind, token.text, hhead, hlabel, hnumber⟩
      | some offset =>
        refine .inl ⟨jumpBy kind offset, fun resolve address => ?_⟩
        rw [instruction_of_jump kind hhead hlabel, map_offsetOperand_of_number kind hnumber]
  · -- No other form hands on what it is given to resolve labels with.
    left
    cases hop : Opcode.ofMnemonic? s.head.text with
    | none =>
      refine ⟨s.instruction (fun _ => .ok 0) 0, fun resolve address => ?_⟩
      unfold instruction command
      simp only [hop]
    | some op =>
      have hhead : op.mnemonic = s.head.text := by simpa using List.find?_some hop
      refine ⟨s.instruction (fun _ => .ok 0) 0, fun resolve address => ?_⟩
      rw [instruction, instruction, command_of_mnemonic hhead.symm, command_of_mnemonic hhead.symm]
      cases op with
      | jump kind => exact absurd ⟨kind, hhead.symm⟩ hjump
      | _ => rfl

/-- The number of bytes of a statement, measured with every label at the statement itself. -/
def size (s : Statement) : Nat :=
  match s.instruction (fun _ => .ok 0) 0 with
  | .ok found => found.encode.length
  | .error _ => 0

/-- **The size of a statement does not depend on labels.** -/
theorem length_encode_eq_size {s : Statement} {resolve : Resolver} {address : Nat}
    {found : Instruction} (h : s.instruction resolve address = .ok found) :
    found.encode.length = s.size := by
  unfold size
  rcases s.instruction_cases with ⟨result, hsame⟩ | ⟨kind, label, hjump⟩
  · rw [hsame, ← hsame resolve address, h]
  · rw [hjump.instruction_eq] at h ⊢
    obtain ⟨target, -, h⟩ := bind_eq_ok h
    have hself : (Except.ok 0 >>= fun target => jumpBy kind (Int.ofNat target - Int.ofNat 0)) =
        .ok (.jump kind 0) := rfl
    rw [hself]
    unfold jumpBy at h
    split at h
    · cases h
      simp [Instruction.encode]
    · cases h

/-- A jump to a label carries the distance to it. -/
theorem JumpsTo.distance {s : Statement} {kind : Jump} {label : String} {resolve : Resolver}
    {address : Nat} {found : Instruction} (hjump : s.JumpsTo kind label)
    (h : s.instruction resolve address = .ok found) :
    ∃ target distance, resolve label = .ok target ∧ found = .jump kind distance ∧
      Number.TwosComplement.fits16 distance = true ∧
      Int.ofNat address + distance = Int.ofNat target := by
  rw [hjump.instruction_eq] at h
  obtain ⟨target, htarget, h⟩ := bind_eq_ok h
  unfold jumpBy at h
  split at h
  · rename_i hfits
    cases h
    exact ⟨target, _, htarget, rfl, hfits, by omega⟩
  · cases h

/-- A statement that stands for something in one place and not in another is a jump to a label. In
the other place the label is not known, or it is too far away. -/
theorem exists_label_of_error {s : Statement} {resolve resolve' : Resolver} {address address' : Nat}
    {found : Instruction} {cause : StatementError} (h : s.instruction resolve address = .ok found)
    (h' : s.instruction resolve' address' = .error cause) :
    ∃ kind label, s.JumpsTo kind label ∧ (resolve' label = .error cause ∨
      ∃ target, resolve' label = .ok target ∧
        Number.TwosComplement.fits16 (Int.ofNat target - Int.ofNat address') = false ∧
        cause = .jumpRange (Int.ofNat target - Int.ofNat address')) := by
  rcases s.instruction_cases with ⟨result, hsame⟩ | ⟨kind, label, hjump⟩
  · rw [hsame] at h h'
    rw [h] at h'
    cases h'
  · refine ⟨kind, label, hjump, ?_⟩
    rw [hjump.instruction_eq] at h'
    cases htarget : resolve' label with
    | error cause' =>
      rw [htarget] at h'
      cases h'
      exact .inl rfl
    | ok target =>
      rw [htarget] at h'
      replace h' : jumpBy kind (Int.ofNat target - Int.ofNat address') = .error cause := h'
      unfold jumpBy at h'
      split at h'
      · cases h'
      · rename_i hfits
        cases h'
        exact .inr ⟨target, rfl, by simpa using hfits, rfl⟩

end Statement

/-! ### Entries -/

/-- What stands in a source. -/
inductive Entry where
  | label (name : String)
  | statement (s : Statement)

/-- The statement an entry is. -/
def Entry.statement? : Entry → Option Statement
  | .label _ => none
  | .statement s => some s

/-- The statement that the tokens behind the labels of a line make up. -/
def bareEntries (line : Nat) : List Token → List Entry
  | [] => []
  | head :: operands => [.statement ⟨line, head, operands⟩]

/-- The entries of a line: the labels in front, and then its statement. -/
def tokenEntries (line : Nat) : List Token → List Entry
  | [] => []
  | token :: rest =>
      match token.label? with
      | some name => .label name :: tokenEntries line rest
      | none => bareEntries line (token :: rest)

/-- The entries of a line with its number. A line with a quote that is not closed has none. -/
def lineEntries (line : List Char × Nat) : List Entry :=
  match tokenize line.1 with
  | .ok tokens => tokenEntries line.2 tokens
  | .error _ => []

/-- The labels and statements of a source, in order. -/
def entries (source : String) : List Entry := ((Text.lines source).zipIdx 1).flatMap lineEntries

/-- The statements among some entries. -/
def statements (es : List Entry) : List Statement := es.filterMap Entry.statement?

/-- The number of bytes of the statements among some entries. -/
def extent : List Entry → Nat
  | [] => 0
  | .label _ :: rest => extent rest
  | .statement s :: rest => s.size + extent rest

/-- The labels among some entries that start at an address, each with its own address. -/
def labelled (address : Nat) : List Entry → List (String × Nat)
  | [] => []
  | .label name :: rest => (name, address) :: labelled address rest
  | .statement s :: rest => labelled (address + s.size) rest

@[simp] theorem statements_nil : statements [] = [] := rfl

@[simp] theorem statements_cons_label (name : String) (es : List Entry) :
    statements (.label name :: es) = statements es := rfl

@[simp] theorem statements_cons_statement (s : Statement) (es : List Entry) :
    statements (.statement s :: es) = s :: statements es := rfl

@[simp] theorem statements_append (es es' : List Entry) :
    statements (es ++ es') = statements es ++ statements es' := List.filterMap_append

theorem extent_append (es es' : List Entry) : extent (es ++ es') = extent es + extent es' := by
  induction es with
  | nil => simp [extent]
  | cons entry es ih => cases entry <;> simp [extent, ih, Nat.add_assoc]

theorem labelled_append (address : Nat) (es es' : List Entry) :
    labelled address (es ++ es') = labelled address es ++ labelled (address + extent es) es' := by
  induction es generalizing address with
  | nil => simp [labelled, extent]
  | cons entry es ih => cases entry <;> simp [labelled, extent, ih, Nat.add_assoc]

/-! ### The first pass -/

namespace Layout

/-- The layout is that of some entries: it has their statements and their size, its labels are
theirs with the addresses they have, and every statement was accepted. -/
structure Covers (layout : Layout) (es : List Entry) : Prop where
  statements : layout.statements.reverse = Assembly.statements es
  size : layout.size = extent es
  labels : ∀ name address, layout.labels[name]? = some address ↔ (name, address) ∈ labelled 0 es
  accepted : ∀ s ∈ Assembly.statements es, ∃ resolve address found,
    s.instruction resolve address = .ok found

theorem covers_empty : Covers {} [] where
  statements := rfl
  size := rfl
  labels := by simp [labelled]
  accepted := by simp

variable {layout layout' : Layout} {es : List Entry}

/-- A label that is not there yet gets the current address. -/
theorem Covers.insert (h : layout.Covers es) {name : String}
    (hnew : ¬layout.labels.contains name = true) :
    Covers { layout with labels := layout.labels.insert name layout.size }
      (es ++ [.label name]) where
  statements := by simpa using h.statements
  size := by
    rw [extent_append]
    simpa [extent] using h.size
  labels := by
    intro other address
    have hlabels := h.labels other address
    rw [labelled_append, List.mem_append, Nat.zero_add, ← h.size, ← hlabels, Std.HashMap.getElem?_insert]
    by_cases heq : name = other
    · subst heq
      have hnone : layout.labels[name]? = none := by simpa using hnew
      simp [labelled, hnone, eq_comm]
    · simp [labelled, heq, Ne.symm heq]
  accepted := by simpa using h.accepted

theorem Covers.addStatement (h : layout.Covers es) {s : Statement}
    (hadd : layout.addStatement s = .ok layout') : layout'.Covers (es ++ [.statement s]) := by
  obtain ⟨found, hinstruction, rfl⟩ := addStatement_eq_ok hadd
  refine ⟨?_, ?_, ?_, ?_⟩
  · simp [← h.statements]
  · rw [extent_append, ← h.size, Statement.length_encode_eq_size hinstruction]
    simp [extent]
  · intro name address
    rw [labelled_append, h.labels]
    simp [labelled]
  · rw [statements_append]
    intro s' hs'
    rcases List.mem_append.mp hs' with hs' | hs'
    · exact h.accepted s' hs'
    · obtain rfl : s' = s := by simpa using hs'
      exact ⟨_, _, found, hinstruction⟩

/-- The labels in front of a line are taken in, and the other tokens are left. -/
theorem Covers.defineLabels (h : layout.Covers es) {line : Nat} {tokens rest : List Token}
    (hlabels : layout.defineLabels line tokens = .ok (layout', rest)) :
    ∃ named, layout'.Covers (es ++ named) ∧
      tokenEntries line tokens = named ++ bareEntries line rest := by
  induction tokens generalizing layout es with
  | nil =>
    cases hlabels
    exact ⟨[], by simpa using h, rfl⟩
  | cons token tokens ih =>
    rw [Layout.defineLabels] at hlabels
    rw [tokenEntries]
    split at hlabels
    · rename_i hnone
      cases hlabels
      exact ⟨[], by simpa using h, by rw [hnone]; rfl⟩
    · rename_i name hname
      split at hlabels
      · cases hlabels
      · rename_i hnew
        obtain ⟨named, hcovers, htokens⟩ := ih (h.insert hnew) hlabels
        refine ⟨.label name :: named, by simpa using hcovers, ?_⟩
        rw [hname, htokens]
        rfl

theorem Covers.addLine (h : layout.Covers es) {line : List Char × Nat}
    (hline : layout.addLine line = .ok layout') : layout'.Covers (es ++ lineEntries line) := by
  unfold Layout.addLine at hline
  unfold lineEntries
  split at hline
  · cases hline
  · rename_i tokens htokens
    obtain ⟨⟨labelled, rest⟩, hlabels, hline⟩ := bind_eq_ok hline
    obtain ⟨named, hcovers, hentries⟩ := h.defineLabels hlabels
    rw [htokens]
    dsimp only at hline ⊢
    rw [hentries, ← List.append_assoc]
    split at hline
    · cases hline
      simpa [bareEntries] using hcovers
    · exact hcovers.addStatement hline

/-- The lines of a source are taken in one after the other. -/
theorem Covers.addLines (h : layout.Covers es) {lines : List (List Char × Nat)}
    (hlines : lines.foldlM Layout.addLine layout = .ok layout') :
    layout'.Covers (es ++ lines.flatMap lineEntries) := by
  induction lines generalizing layout es with
  | nil =>
    cases hlines
    simpa using h
  | cons line lines ih =>
    rw [List.foldlM_cons] at hlines
    obtain ⟨next, hnext, hlines⟩ := bind_eq_ok hlines
    rw [List.flatMap_cons, ← List.append_assoc]
    exact ih (h.addLine hnext) hlines

end Layout

/-- **The first pass records the labels of a source** with the sizes of what is in front of them. -/
theorem covers_of_layout {source : String} {table : Layout} (h : layout source = .ok table) :
    table.Covers (entries source) := by
  simpa [entries] using Layout.covers_empty.addLines h

/-! ### Where entries stand -/

/-- A label has the size of what is in front of it as its address. -/
theorem mem_labelled_iff {name : String} {start address : Nat} {es : List Entry} :
    (name, address) ∈ labelled start es ↔
      ∃ before after, es = before ++ .label name :: after ∧ address = start + extent before := by
  constructor
  · intro h
    induction es generalizing start with
    | nil => simp [labelled] at h
    | cons entry es ih =>
      cases entry with
      | label other =>
        rw [labelled, List.mem_cons, Prod.mk.injEq] at h
        rcases h with ⟨rfl, rfl⟩ | h
        · exact ⟨[], es, rfl, rfl⟩
        · obtain ⟨before, after, rfl, rfl⟩ := ih h
          exact ⟨.label other :: before, after, rfl, rfl⟩
      | statement s =>
        obtain ⟨before, after, rfl, rfl⟩ := ih h
        exact ⟨.statement s :: before, after, rfl, Nat.add_assoc ..⟩
  · rintro ⟨before, after, rfl, rfl⟩
    rw [labelled_append]
    simp [labelled]

end StackScript.Assembly

namespace StackScript.Instruction

/-- The offset at which the instruction with a number is written, or the end of the last one if
there are not as many. -/
def startOf (founds : List Instruction) (number : Nat) : Nat :=
  ((placed 0 founds)[number]?.map Prod.fst).getD (founds.flatMap encode).length

theorem getElem?_placed (offset : Nat) (founds : List Instruction) (number : Nat) :
    (placed offset founds)[number]? = founds[number]?.map fun found =>
      (offset + ((founds.take number).flatMap encode).length, found) := by
  induction founds generalizing offset number with
  | nil => rfl
  | cons found rest ih =>
    cases number with
    | zero => simp [placed]
    | succ number =>
      rw [placed, List.getElem?_cons_succ, ih, List.getElem?_cons_succ]
      simp [Nat.add_assoc]

/-- An instruction is written behind those with smaller numbers. -/
theorem startOf_eq (founds : List Instruction) (number : Nat) :
    startOf founds number = ((founds.take number).flatMap encode).length := by
  unfold startOf
  rw [getElem?_placed]
  cases hfound : founds[number]? with
  | none => simp [List.take_of_length_le (List.getElem?_eq_none_iff.mp hfound)]
  | some found => simp

theorem startOf_le (founds : List Instruction) (number : Nat) :
    startOf founds number ≤ (founds.flatMap encode).length := by
  rw [startOf_eq]
  calc ((founds.take number).flatMap encode).length
      ≤ ((founds.take number).flatMap encode ++ (founds.drop number).flatMap encode).length :=
        (List.sublist_append_left _ _).length_le
    _ = (founds.flatMap encode).length := by rw [← List.flatMap_append, List.take_append_drop]

end StackScript.Instruction

namespace StackScript.Assembly

/-! ### The second pass -/

namespace Layout

variable {table : Layout} {es : List Entry}

/-- What is in front of an entry is as long as its statements are when they are written. -/
theorem extent_eq_startOf {before after : List Entry} {offset : Nat} {founds : List Instruction}
    (h : List.Forall₂ (fun s entry => s.instruction table.defined entry.1 = .ok entry.2)
      (Assembly.statements (before ++ after)) (Instruction.placed offset founds)) :
    extent before = Instruction.startOf founds (Assembly.statements before).length := by
  rw [Instruction.startOf_eq]
  induction before generalizing offset founds with
  | nil => simp [extent]
  | cons entry before ih =>
    cases entry with
    | label name => exact ih h
    | statement s =>
      cases founds with
      | nil => cases h
      | cons found founds =>
        obtain ⟨hs, hrest⟩ := List.forall₂_cons.mp h
        rw [extent, ih hrest, ← Statement.length_encode_eq_size hs]
        simp

/-- **A label stands for the place of the next statement**, or for the end of the script. -/
theorem Covers.address_eq (h : table.Covers es) {founds : List Instruction}
    (hwritten : List.Forall₂ (fun s entry => s.instruction table.defined entry.1 = .ok entry.2)
      (Assembly.statements es) (Instruction.placed 0 founds)) (name : String) (address : Nat) :
    table.labels[name]? = some address ↔ ∃ before after, es = before ++ .label name :: after ∧
      address = Instruction.startOf founds (Assembly.statements before).length := by
  rw [h.labels, mem_labelled_iff]
  constructor
  · rintro ⟨before, after, rfl, rfl⟩
    exact ⟨before, after, rfl, by rw [Nat.zero_add, extent_eq_startOf hwritten]⟩
  · rintro ⟨before, after, rfl, rfl⟩
    exact ⟨before, after, rfl, by rw [Nat.zero_add, extent_eq_startOf hwritten]⟩

/-- The instruction that a statement is written as. -/
theorem exists_written {ss : List Statement} {offset : Nat} {founds : List Instruction}
    (h : List.Forall₂ (fun s entry => s.instruction table.defined entry.1 = .ok entry.2)
      ss (Instruction.placed offset founds)) {number : Nat} {s : Statement}
    (hs : ss[number]? = some s) :
    ∃ address found, (Instruction.placed offset founds)[number]? = some (address, found) ∧
      s.instruction table.defined address = .ok found := by
  obtain ⟨hlt, rfl⟩ := List.getElem?_eq_some_iff.mp hs
  have hlt' : number < (Instruction.placed offset founds).length := h.length_eq ▸ hlt
  exact ⟨_, _, List.getElem?_eq_getElem hlt', h.get hlt hlt'⟩

theorem defined_eq_ok {label : String} {target : Nat} :
    table.defined label = .ok target ↔ table.labels[label]? = some target := by
  unfold defined
  cases table.labels[label]? <;> simp

theorem defined_eq_error {label : String} {cause : StatementError} :
    table.defined label = .error cause ↔
      table.labels[label]? = none ∧ cause = .undefinedLabel label := by
  unfold defined
  cases table.labels[label]? <;> simp [eq_comm]

/-- The second pass stops at the first statement that fails at its place. -/
theorem exists_failed_statement {builder : Builder} {error : SourceError}
    (h : (Assembly.statements es).foldlM table.emitStatement builder = .error error) :
    ∃ before s after cause, es = before ++ .statement s :: after ∧
      error = .statement s.position cause ∧
      s.instruction table.defined (builder.offset + extent before) = .error cause := by
  induction es generalizing builder with
  | nil => cases h
  | cons entry es ih =>
    cases entry with
    | label name =>
      obtain ⟨before, s, after, cause, rfl, herror, hcause⟩ := ih h
      exact ⟨.label name :: before, s, after, cause, rfl, herror, hcause⟩
    | statement s =>
      rw [statements_cons_statement, List.foldlM_cons] at h
      cases hinstruction : s.instruction table.defined builder.offset with
      | error cause =>
        refine ⟨[], s, es, cause, rfl, ?_, hinstruction⟩
        simpa [emitStatement_eq, hinstruction, bind, Except.bind, eq_comm] using h
      | ok found =>
        rw [emitStatement_eq_ok.mpr ⟨found, hinstruction, rfl⟩] at h
        obtain ⟨before, s', after, cause, rfl, herror, hcause⟩ := ih h
        refine ⟨.statement s :: before, s', after, cause, rfl, herror, ?_⟩
        rwa [Builder.offset_write, Statement.length_encode_eq_size hinstruction, Nat.add_assoc]
          at hcause

/-- A second pass that fails has failed at a statement. -/
theorem Covers.exists_failed_of_emit (h : table.Covers es) {error : SourceError}
    (herror : table.emit = .error error) :
    ∃ before s after cause, es = before ++ .statement s :: after ∧
      error = .statement s.position cause ∧
      s.instruction table.defined (extent before) = .error cause := by
  have hfold : (Assembly.statements es).foldlM table.emitStatement Builder.empty = .error error := by
    rw [← h.statements]
    unfold emit at herror
    cases hbuilder : table.statements.reverse.foldlM table.emitStatement Builder.empty with
    | error cause =>
      rw [hbuilder] at herror
      cases herror
      rfl
    | ok builder =>
      rw [hbuilder] at herror
      cases herror
  obtain ⟨before, s, after, cause, hes, hcause, hfails⟩ := exists_failed_statement hfold
  rw [show Builder.empty.offset = 0 from rfl, Nat.zero_add] at hfails
  exact ⟨before, s, after, cause, hes, hcause, hfails⟩

/-- **The second pass fails at a jump only**, because its label is not defined or too far away. -/
theorem Covers.emit_eq_error (h : table.Covers es) {error : SourceError}
    (herror : table.emit = .error error) :
    ∃ before s after kind label, es = before ++ .statement s :: after ∧ s.JumpsTo kind label ∧
      (table.labels[label]? = none ∧ error = .statement s.position (.undefinedLabel label) ∨
        ∃ target, table.labels[label]? = some target ∧
          Number.TwosComplement.fits16 (Int.ofNat target - Int.ofNat (extent before)) = false ∧
          error = .statement s.position
            (.jumpRange (Int.ofNat target - Int.ofNat (extent before)))) := by
  obtain ⟨before, s, after, cause, rfl, rfl, hcause⟩ := h.exists_failed_of_emit herror
  obtain ⟨resolve, address, found, hfound⟩ := h.accepted s (by simp)
  obtain ⟨kind, label, hjump, hlabel⟩ := Statement.exists_label_of_error hfound hcause
  refine ⟨before, s, after, kind, label, rfl, hjump, ?_⟩
  rw [defined_eq_error] at hlabel
  rcases hlabel with ⟨hnone, rfl⟩ | ⟨target, htarget, hfits, rfl⟩
  · exact .inl ⟨hnone, rfl⟩
  · exact .inr ⟨target, defined_eq_ok.mp htarget, hfits, rfl⟩

end Layout

/-- An assembled script and the two passes it came from. -/
theorem passes_of_assemble {source : String} {script : Script} (h : assemble source = .ok script) :
    ∃ table founds, layout source = .ok table ∧
      script.bytes = founds.flatMap Instruction.encode ∧
      List.Forall₂ (fun s entry => s.instruction table.defined entry.1 = .ok entry.2)
        (statements (entries source)) (Instruction.placed 0 founds) := by
  obtain ⟨table, htable, h⟩ := bind_eq_ok h
  obtain ⟨builder, hbuilder, h⟩ := bind_eq_ok h
  cases h
  rw [(covers_of_layout htable).statements] at hbuilder
  obtain ⟨founds, hbytes, hwritten⟩ := Layout.foldlM_emitStatement_iff.mp hbuilder
  exact ⟨table, founds, htable, hbytes, hwritten⟩

end StackScript.Assembly
