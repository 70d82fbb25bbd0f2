import StackScript.Console.Program
import StackScript.Proofs.Assembly.Labels
import StackScript.Proofs.Assembly.Tokens

/-!
# Where a source fails

A source fails at a token. That is the token with the open quote, a label that has been defined
before, or the name of a statement that cannot be assembled. The line and the column of the error
are those of the token, whichever pass has found it: the statements of the second pass have been
taken off the lines by the first one, with their lines and tokens. So the line that a diagnostic
shows is always there.

Main statement: `assemble_error_located`.
-/

namespace StackScript.Assembly

/-- An error is about a token of a line with a number. -/
inductive Locates (number : Nat) (line : List Char) : SourceError → Prop where
  /-- The token holds the last double quote of the line, which is open. -/
  | unterminated {start : Nat} (hcut : IsCut line line.length) (hopen : line.count '"' % 2 = 1)
      (hrun : IsRun line line.length start line.length) :
      Locates number line (.unterminated ⟨number, columnAt line start⟩)
  /-- The token defines a label again. -/
  | label {cut start stop : Nat} {name : String} (hcut : IsCut line cut)
      (hrun : IsRun line cut start stop)
      (hlabel : (tokenAt line (start, stop)).label? = some name) :
      Locates number line (.statement ⟨number, columnAt line start⟩ (.duplicateLabel name))
  /-- The token names a statement that fails. -/
  | statement {cut start stop : Nat} {operands : List Token} {resolve : Resolver} {address : Nat}
      {cause : StatementError} (hcut : IsCut line cut) (hrun : IsRun line cut start stop)
      (hfails : Statement.instruction ⟨number, tokenAt line (start, stop), operands⟩ resolve
        address = .error cause) :
      Locates number line (.statement ⟨number, columnAt line start⟩ cause)

section Lines

variable {number : Nat} {line : List Char} {error : SourceError}

theorem Locates.line_eq (h : Locates number line error) : error.position.line = number := by
  cases h <;> rfl

/-- A token of a line stands at a run. -/
theorem exists_run_of_mem {tokens : List Token} (htokens : tokenize line = .ok tokens)
    {token : Token} (htoken : token ∈ tokens) : ∃ cut start stop, IsCut line cut ∧
      IsRun line cut start stop ∧ token = tokenAt line (start, stop) := by
  have hline := tokenize_tokenized line
  rw [htokens] at hline
  cases hline with
  | @tokens cut _ hcut _ hlists =>
    obtain ⟨runs, -, hruns, rfl⟩ := hlists
    obtain ⟨⟨start, stop⟩, hrun, rfl⟩ := List.mem_map.mp htoken
    exact ⟨cut, start, stop, hcut, (hruns start stop).mp hrun, rfl⟩

theorem locates_of_tokenize {column : Nat} (h : tokenize line = .error column) :
    Locates number line (.unterminated ⟨number, column⟩) := by
  have hline := tokenize_tokenized line
  rw [h] at hline
  cases hline with
  | unterminated hcut hopen hrun =>
    rw [quotesBefore_length] at hopen
    exact .unterminated hcut hopen hrun

/-- A label that is refused is among the tokens. -/
theorem Layout.defineLabels_eq_error {layout : Layout} {tokens : List Token}
    (h : layout.defineLabels number tokens = .error error) : ∃ token ∈ tokens, ∃ name,
      token.label? = some name ∧
        error = .statement ⟨number, token.column⟩ (.duplicateLabel name) := by
  induction tokens generalizing layout with
  | nil => cases h
  | cons token tokens ih =>
    rw [defineLabels] at h
    split at h
    · cases h
    · rename_i name hname
      split at h
      · cases h
        exact ⟨token, List.mem_cons_self, name, hname, rfl⟩
      · obtain ⟨token', htoken', hfailed⟩ := ih h
        exact ⟨token', List.mem_cons_of_mem _ htoken', hfailed⟩

theorem Layout.addStatement_eq_error {layout : Layout} {s : Statement}
    (h : layout.addStatement s = .error error) : ∃ cause,
      error = .statement s.position cause ∧
        s.instruction (layout.known layout.size) layout.size = .error cause := by
  rw [addStatement_eq] at h
  cases hinstruction : s.instruction (layout.known layout.size) layout.size with
  | ok found =>
    rw [hinstruction] at h
    cases h
  | error cause =>
    rw [hinstruction] at h
    cases h
    exact ⟨cause, rfl, rfl⟩

/-- A statement that fails is reported at the token that names it. -/
theorem locates_of_instruction {tokens operands : List Token} (htokens : tokenize line = .ok tokens)
    {head : Token} (hhead : head ∈ tokens) {resolve : Resolver} {address : Nat}
    {cause : StatementError}
    (h : Statement.instruction ⟨number, head, operands⟩ resolve address = .error cause) :
    Locates number line (.statement ⟨number, head.column⟩ cause) := by
  obtain ⟨cut, start, stop, hcut, hrun, rfl⟩ := exists_run_of_mem htokens hhead
  exact .statement hcut hrun h

/-- A line that is not taken in is at fault itself. -/
theorem locates_of_addLine {layout : Layout} (h : layout.addLine (line, number) = .error error) :
    Locates number line error := by
  unfold Layout.addLine at h
  split at h
  · rename_i column hcolumn
    cases h
    exact locates_of_tokenize hcolumn
  rename_i tokens htokens
  cases hlabels : layout.defineLabels number tokens with
  | error cause =>
    rw [hlabels] at h
    cases h
    obtain ⟨token, htoken, name, hname, rfl⟩ := Layout.defineLabels_eq_error hlabels
    obtain ⟨cut, start, stop, hcut, hrun, rfl⟩ := exists_run_of_mem htokens htoken
    exact .label hcut hrun hname
  | ok found =>
    obtain ⟨labelled, rest⟩ := found
    obtain ⟨-, -, hrest⟩ := Layout.defineLabels_eq_ok hlabels
    rw [hlabels] at h
    cases rest with
    | nil => cases h
    | cons head operands =>
      obtain ⟨cause, rfl, hcause⟩ := Layout.addStatement_eq_error h
      exact locates_of_instruction htokens (hrest.subset List.mem_cons_self) hcause

end Lines

/-! ### The lines of a source -/

section Sources

variable {source : String} {error : SourceError}

/-- A first pass that fails has failed at a line. -/
theorem exists_failed_line {lines : List (List Char × Nat)} {layout : Layout}
    (h : lines.foldlM Layout.addLine layout = .error error) :
    ∃ line ∈ lines, ∃ before : Layout, before.addLine line = .error error := by
  induction lines generalizing layout with
  | nil => cases h
  | cons line lines ih =>
    rw [List.foldlM_cons] at h
    cases hnext : layout.addLine line with
    | error cause =>
      rw [hnext] at h
      cases h
      exact ⟨line, List.mem_cons_self, layout, hnext⟩
    | ok next =>
      rw [hnext] at h
      obtain ⟨line', hline', hfailed⟩ := ih h
      exact ⟨line', List.mem_cons_of_mem _ hline', hfailed⟩

theorem of_mem_tokenEntries {number : Nat} {tokens : List Token} {s : Statement}
    (h : .statement s ∈ tokenEntries number tokens) : s.line = number ∧ s.head ∈ tokens := by
  induction tokens with
  | nil => cases h
  | cons token tokens ih =>
    rw [tokenEntries] at h
    split at h
    · obtain ⟨hline, hhead⟩ := ih (by simpa using h)
      exact ⟨hline, List.mem_cons_of_mem _ hhead⟩
    · obtain rfl : s = ⟨number, token, tokens⟩ := by simpa [bareEntries] using h
      exact ⟨rfl, List.mem_cons_self⟩

/-- A statement has its line and its name from a line of the source. -/
theorem exists_line_of_statement {s : Statement} (h : .statement s ∈ entries source) :
    ∃ line tokens, (line, s.line) ∈ (Text.lines source).zipIdx 1 ∧ tokenize line = .ok tokens ∧
      s.head ∈ tokens := by
  obtain ⟨⟨line, number⟩, hline, hs⟩ := List.mem_flatMap.mp h
  unfold lineEntries at hs
  split at hs
  · rename_i tokens htokens
    obtain ⟨rfl, hhead⟩ := of_mem_tokenEntries hs
    exact ⟨line, tokens, hline, htokens, hhead⟩
  · cases hs

/-- The error of a source is about a token of one of its lines. -/
theorem exists_located (h : assemble source = .error error) :
    ∃ line number, (line, number) ∈ (Text.lines source).zipIdx 1 ∧ Locates number line error := by
  unfold assemble at h
  cases htable : layout source with
  | error cause =>
    rw [htable] at h
    cases h
    obtain ⟨⟨line, number⟩, hline, before, hfailed⟩ := exists_failed_line htable
    exact ⟨line, number, hline, locates_of_addLine hfailed⟩
  | ok table =>
    rw [htable] at h
    obtain ⟨before, s, after, cause, hentries, rfl, hcause⟩ :=
      (covers_of_layout htable).exists_failed_of_emit h
    have hmem : .statement s ∈ entries source := by simp [hentries]
    obtain ⟨line, tokens, hline, htokens, hhead⟩ := exists_line_of_statement hmem
    exact ⟨line, s.line, hline, locates_of_instruction htokens hhead hcause⟩

/-- **A source that fails is told by its place.** The fault is an error of the source, and what is
logged is its diagnostic; that a fault has no place does not occur. -/
theorem assembleNamed_eq_error_iff {name : String} {fault : Fault}
    {logged : List (Console.Level × String)} :
    Console.assembleNamed name source = (.error fault, logged) ↔
      ∃ error, assemble source = .error error ∧ fault.located? = some error ∧
        logged = [(.error, diagnostic name source error)] := by
  cases hassemble : assemble source with
  | ok script => simp [Console.assembleNamed, hassemble, Except.mapError]
  | error error =>
    have hfails : Console.assembleNamed name source =
        (.error (.source error), [(.error, diagnostic name source error)]) := by
      simp only [Console.assembleNamed, hassemble]
      rfl
    rw [hfails]
    constructor
    · intro h
      cases h
      exact ⟨error, rfl, rfl, rfl⟩
    · rintro ⟨error', herror, hfault, rfl⟩
      cases herror
      rw [Fault.located?_eq_some_iff.mp hfault]

/-- **The error of a source is located.** Its line is one of the source and its column is that of a
token of this line: the token with an open double quote, a label that is defined again, or the name
of a statement that fails for the cause given. So a diagnostic echoes the line, and this is what is
logged of a source, or a source file, that fails, and never the words alone. -/
theorem assemble_error_located (h : assemble source = .error error) :
    1 ≤ error.position.line ∧ error.position.line ≤ (Text.lines source).length ∧
    ∃ line, (Text.lines source)[error.position.line - 1]? = some line ∧
      Locates error.position.line line error ∧
      ∀ file, diagnostic file source error =
          s!"error: {error.reason}\n --> {file}:{error.position.line}:{error.position.column}\n" ++
            echoLine line error.position ∧
        Console.assembleNamed file source =
          (.error (.source error), [(.error, diagnostic file source error)]) ∧
        ∀ files, Console.readText files file = .ok source →
          Console.scriptOfFile files file = .error (Console.refusal 1
            [(.error, diagnostic file source error),
              (.error, "Assembly failed: " ++ error.message)]) := by
  obtain ⟨line, number, hline, hlocates⟩ := exists_located h
  obtain rfl := hlocates.line_eq
  obtain ⟨hpos, hget⟩ := List.mk_mem_zipIdx_iff_le_and_getElem?_sub.mp hline
  have hle := List.snd_lt_of_mem_zipIdx hline
  have hlogged : ∀ file, Console.assembleNamed file source =
      (.error (.source error), [(.error, diagnostic file source error)]) := fun file =>
    assembleNamed_eq_error_iff.mpr ⟨error, h, rfl, rfl⟩
  refine ⟨hpos, Nat.le_of_lt_succ hle, line, hget, hlocates, fun file => ⟨?_, hlogged file, ?_⟩⟩
  · delta diagnostic
    simp only [hget]
  · intro files hread
    simp only [Console.scriptOfFile, Console.assembleFile, hread, hlogged]
    rfl

/-- A source whose second line has an open quote behind a character of two bytes. -/
def openQuote : String := "PUSH 1\n\t\u00e9 \"b"

/-- The open quote is found on its line, and the column counts bytes. -/
theorem assemble_error_located_openQuote :
    assemble openQuote = .error (.unterminated ⟨2, 5⟩) ∧
    ∃ line, (Text.lines openQuote)[1]? = some line ∧ Locates 2 line (.unterminated ⟨2, 5⟩) ∧
      diagnostic "a" openQuote (.unterminated ⟨2, 5⟩) =
        "error: unterminated string literal (missing closing quote)\n --> a:2:5\n" ++
          echoLine line ⟨2, 5⟩ := by
  have hfails : assemble openQuote = .error (.unterminated ⟨2, 5⟩) := by decide +kernel
  obtain ⟨-, -, line, hline, hlocates, hshown⟩ := assemble_error_located hfails
  exact ⟨hfails, line, hline, hlocates, (hshown "a").1⟩

end Sources

end StackScript.Assembly
