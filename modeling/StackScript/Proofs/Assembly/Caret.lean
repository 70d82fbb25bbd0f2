import StackScript.Proofs.Assembly.Locating
import Mathlib.Data.List.DropRight

/-!
# The caret of a diagnostic

A diagnostic ends in the line of the source that fails and a line with a caret. The source line
stands behind its number in at least four columns and a bar with blanks around it. The caret stands
behind a bar in the third column and as many blanks as there are bytes before the token. So the two
lines count from different columns and in different units: the caret is below the token only where
the characters before the token happen to take as many bytes more as the first gutter is wider than
the second (`caret_below_iff`). On a line of ASCII that is never the case.

Main statement: `caret_below_iff`.
-/

namespace StackScript.Assembly

/-- A text ends in a line that shows `chars` behind `gutter` characters, and in a line with a caret
behind `indent` characters. -/
def EndsInEcho (shown : String) (chars : List Char) (gutter indent : Nat) : Prop :=
  ∃ above before below, Text.lines shown = above ++ [before ++ chars, below ++ ['^']] ∧
    before.length = gutter ∧ below.length = indent

/-- The caret at the end of a text is below a character of what is shown above it. -/
def PointsTo (shown : String) (chars : List Char) (i : Nat) : Prop :=
  ∃ gutter, EndsInEcho shown chars gutter (gutter + i)

/-- A text shows `chars` and a caret in one place each. -/
theorem EndsInEcho.unique {shown : String} {chars : List Char} {gutter indent gutter' indent' : Nat}
    (h : EndsInEcho shown chars gutter indent) (h' : EndsInEcho shown chars gutter' indent') :
    gutter = gutter' ∧ indent = indent' := by
  obtain ⟨above, before, below, hlines, rfl, rfl⟩ := h
  obtain ⟨above', before', below', hlines', rfl, rfl⟩ := h'
  rw [hlines] at hlines'
  obtain ⟨-, hpair⟩ := List.append_inj' hlines' rfl
  obtain ⟨hecho, hcaret, -⟩ : before ++ chars = before' ++ chars ∧
      below ++ ['^'] = below' ++ ['^'] ∧ True := by simpa using hpair
  rw [List.append_cancel_right hecho, List.append_cancel_right hcaret]
  exact ⟨rfl, rfl⟩

theorem EndsInEcho.pointsTo_iff {shown : String} {chars : List Char} {gutter indent i : Nat}
    (h : EndsInEcho shown chars gutter indent) :
    PointsTo shown chars i ↔ indent = gutter + i := by
  constructor
  · rintro ⟨gutter', h'⟩
    obtain ⟨rfl, hindent⟩ := h.unique h'
    exact hindent
  · rintro rfl
    exact ⟨gutter, h⟩

/-! ### What is echoed -/

section Echo

variable {line : List Char} {i : Nat} {c : Char}

theorem dropReturns_eq_rdropWhile (line : List Char) :
    dropReturns line = line.rdropWhile (· == '\r') := rfl

theorem getElem?_dropReturns {chars : List Char} (h : chars[i]? = some c) (hc : c ≠ '\r') :
    (dropReturns chars)[i]? = some c := by
  have hchars : dropReturns chars ++ chars.rtakeWhile (· == '\r') = chars := by
    rw [dropReturns_eq_rdropWhile, List.rdropWhile_append_rtakeWhile]
  rw [← hchars] at h
  by_cases hi : i < (dropReturns chars).length
  · rwa [List.getElem?_append_left hi] at h
  · rw [List.getElem?_append_right (Nat.le_of_not_lt hi)] at h
    have hreturn := List.mem_rtakeWhile_imp (List.mem_of_getElem? h)
    exact absurd (eq_of_beq hreturn) hc

theorem mem_of_mem_dropReturns (h : c ∈ dropReturns line) : c ∈ line := by
  rw [dropReturns_eq_rdropWhile] at h
  exact (List.rdropWhile_prefix _ line).subset h

theorem getLast?_dropReturns (line : List Char) : (dropReturns line).getLast? ≠ some '\r' := by
  rw [dropReturns_eq_rdropWhile]
  intro h
  have hne : line.rdropWhile (· == '\r') ≠ [] := by
    intro hnil
    rw [hnil] at h
    cases h
  rw [List.getLast?_eq_some_getLast hne, Option.some.injEq] at h
  exact List.rdropWhile_last_not _ line hne (beq_iff_eq.mpr h)

/-- What stands before an echoed line: its number, flush right in four columns or more, and a
bar. -/
def gutter (number : Nat) : List Char := (Text.fourColumns number).toList ++ [' ', '|', ' ']

/-- The lines of an echo. -/
def echoLines (line : List Char) (position : Position) : List (List Char) :=
  [[' ', ' ', '|'], gutter position.line ++ dropReturns line,
    [' ', ' ', '|', ' '] ++ List.replicate (position.column - 1) ' ' ++ ['^']]

theorem toList_echoLine (line : List Char) (position : Position) :
    (echoLine line position).toList = (echoLines line position).flatMap (· ++ ['\n']) := by
  simp only [echoLine, echoLines, gutter, String.toList_append, String.reduceToList,
    String.toList_ofList, List.cons_append, List.nil_append, List.append_assoc, List.flatMap_cons,
    List.flatMap_nil, List.append_nil]

theorem length_gutter (number : Nat) :
    (gutter number).length = max 4 (toString number).length + 3 := by
  simp only [gutter, Text.fourColumns, Text.padLeft, Text.decimal, String.toList_append,
    String.toList_ofList, List.length_append, List.length_replicate, String.length_toList,
    List.length_cons, List.length_nil]
  omega

theorem newline_not_mem_gutter (number : Nat) : '\n' ∉ gutter number := by
  intro h
  rw [gutter, Text.fourColumns, Text.padLeft, String.toList_append, String.toList_ofList,
    List.mem_append, List.mem_append] at h
  rcases h with (hblank | hdigit) | hbar
  · exact absurd (List.eq_of_mem_replicate hblank) (by decide)
  · exact absurd (Text.isDigit_of_mem_decimal hdigit) (by decide)
  · exact absurd hbar (by decide)

/-- No line of an echo runs on or ends in a carriage return. -/
theorem echoLines_clean (hline : '\n' ∉ line) (position : Position) :
    ∀ shown ∈ echoLines line position, '\n' ∉ shown ∧ shown.getLast? ≠ some '\r' := by
  have hecho : '\n' ∉ gutter position.line ++ dropReturns line := by
    rw [List.mem_append, not_or]
    exact ⟨newline_not_mem_gutter _, fun h => hline (mem_of_mem_dropReturns h)⟩
  have hlast : (gutter position.line ++ dropReturns line).getLast? ≠ some '\r' := by
    have hgutter : (gutter position.line).getLast? = some ' ' := by simp [gutter]
    rw [List.getLast?_append, hgutter]
    have hclean := getLast?_dropReturns line
    cases hreturns : (dropReturns line).getLast? with
    | none => simp
    | some c =>
      rw [hreturns] at hclean
      exact hclean
  have hbar : '\n' ∉ [' ', ' ', '|'] ∧ [' ', ' ', '|'].getLast? ≠ some '\r' := by decide
  have hcaret : '\n' ∉ [' ', ' ', '|', ' '] ++ List.replicate (position.column - 1) ' ' ++ ['^'] ∧
      ([' ', ' ', '|', ' '] ++ List.replicate (position.column - 1) ' ' ++ ['^']).getLast? ≠
        some '\r' := by
    refine ⟨by simp, ?_⟩
    rw [List.getLast?_append, List.getLast?_singleton]
    simp
  rw [echoLines, List.forall_mem_cons, List.forall_mem_cons, List.forall_mem_singleton]
  exact ⟨hbar, ⟨hecho, hlast⟩, hcaret⟩

end Echo

/-! ### Where the token stands -/

section Tokens

variable {number : Nat} {chars : List Char} {error : SourceError} {cut start stop : Nat}

/-- An error is at the column of a token. -/
theorem Locates.exists_run (h : Locates number chars error) : ∃ cut start stop, IsCut chars cut ∧
    IsRun chars cut start stop ∧ error.position.column = columnAt chars start := by
  cases h with
  | unterminated hcut _ hrun => exact ⟨_, _, _, hcut, hrun, rfl⟩
  | label hcut hrun _ => exact ⟨_, _, _, hcut, hrun, rfl⟩
  | statement hcut hrun _ => exact ⟨_, _, _, hcut, hrun, rfl⟩

theorem IsCut.le_length (h : IsCut chars cut) : cut ≤ chars.length := by
  rcases h.reached with hcomment | rfl
  · exact Nat.le_of_lt (List.getElem?_eq_some_iff.mp hcomment.1).1
  · exact Nat.le_refl _

/-- The first character of a token is no carriage return: it stands outside double quotes. -/
theorem IsRun.exists_first (hcut : IsCut chars cut) (h : IsRun chars cut start stop) :
    ∃ c, chars[start]? = some c ∧ c ≠ '\r' := by
  obtain ⟨hstretch, hbegins, -⟩ := isRun_iff.mp h
  have hlt : start < chars.length :=
    (hstretch.nonempty.trans_le hstretch.within).trans_le hcut.le_length
  refine ⟨chars[start], List.getElem?_eq_getElem hlt, fun hreturn => ?_⟩
  -- a carriage return there would be a separator, and tokens hold none
  refine hstretch.solid start (Nat.le_refl _) hstretch.nonempty ⟨'\r', by decide, ?_, hbegins.even⟩
  rw [List.getElem?_eq_getElem hlt, hreturn]

theorem head?_tokenAt (h : start < stop) :
    (tokenAt chars (start, stop)).text.toList.head? = chars[start]? := by
  rw [tokenAt, String.toList_ofList, List.head?_drop, List.getElem?_take_of_lt h]

theorem byteWidth_of_ascii (h : ∀ c ∈ chars, c.utf8Size = 1) :
    byteWidth chars = chars.length := by
  induction chars with
  | nil => rfl
  | cons c chars ih =>
    obtain ⟨hc, hchars⟩ := List.forall_mem_cons.mp h
    rw [byteWidth, hc, ih hchars, List.length_cons, Nat.add_comm]

end Tokens

/-! ### The caret -/

section Diagnostics

variable {source : String} {error : SourceError} {line : List Char}

theorem exists_toList_diagnostic
    (hline : (Text.lines source)[error.position.line - 1]? = some line) (file : String) :
    ∃ first, (diagnostic file source error).toList =
      first ++ '\n' :: (echoLine line error.position).toList := by
  refine ⟨(s!"error: {error.reason}\n --> {file}:{error.position.line}:" ++
    toString error.position.column).toList, ?_⟩
  delta diagnostic
  simp only [hline, String.toList_append, List.append_assoc]
  rfl

/-- A diagnostic ends in the echo of its line. -/
theorem endsInEcho_diagnostic (hline : (Text.lines source)[error.position.line - 1]? = some line)
    (file : String) :
    EndsInEcho (diagnostic file source error) (dropReturns line)
      (max 4 (toString error.position.line).length + 3) (error.position.column - 1 + 4) := by
  have hclean : '\n' ∉ line := Text.newline_not_mem_of_mem_lines (List.mem_of_getElem? hline)
  obtain ⟨first, hfirst⟩ := exists_toList_diagnostic hline file
  obtain ⟨above, habove⟩ := Text.lines_append_flatMap (echoLines_clean hclean error.position) first
  rw [← toList_echoLine, ← hfirst, String.ofList_toList] at habove
  refine ⟨above ++ [[' ', ' ', '|']], gutter error.position.line,
    [' ', ' ', '|', ' '] ++ List.replicate (error.position.column - 1) ' ', ?_, length_gutter _, ?_⟩
  · rw [habove, List.append_assoc]
    rfl
  · rw [List.length_append, List.length_replicate, Nat.add_comm]
    rfl

/-- **Where the caret of a diagnostic stands.** The source of an error has a line with the token at
fault, and the diagnostic ends in an echo of that line, with the first character of the token in
it. The echo stands behind the width of the line's number, but at least four columns, and three
more; the caret stands behind four columns and one for every byte before the token. So the caret is
below the token exactly if the characters before it take as many bytes more than their number as the
line's number is wide, less one; and it never is if each of them is one byte. -/
theorem caret_below_iff (h : assemble source = .error error) (file : String) :
    ∃ line cut start stop c, (Text.lines source)[error.position.line - 1]? = some line ∧
      Locates error.position.line line error ∧ IsCut line cut ∧ IsRun line cut start stop ∧
      error.position.column = columnAt line start ∧
      (tokenAt line (start, stop)).text.toList.head? = some c ∧
      (dropReturns line)[start]? = some c ∧
      EndsInEcho (diagnostic file source error) (dropReturns line)
        (max 4 (toString error.position.line).length + 3) (byteWidth (line.take start) + 4) ∧
      (PointsTo (diagnostic file source error) (dropReturns line) start ↔
        byteWidth (line.take start) + 1 = start + max 4 (toString error.position.line).length) ∧
      ((∀ c ∈ line.take start, c.utf8Size = 1) →
        ¬ PointsTo (diagnostic file source error) (dropReturns line) start) := by
  obtain ⟨line, number, hmem, hlocates⟩ := exists_located h
  obtain rfl := hlocates.line_eq
  obtain ⟨-, hline⟩ := List.mk_mem_zipIdx_iff_le_and_getElem?_sub.mp hmem
  obtain ⟨cut, start, stop, hcut, hrun, hcolumn⟩ := hlocates.exists_run
  obtain ⟨c, hc, hreturn⟩ := hrun.exists_first hcut
  have hecho := endsInEcho_diagnostic hline file
  rw [hcolumn, columnAt, Nat.add_sub_cancel] at hecho
  have hpoints : PointsTo (diagnostic file source error) (dropReturns line) start ↔
      byteWidth (line.take start) + 1 = start + max 4 (toString error.position.line).length := by
    rw [hecho.pointsTo_iff]
    omega
  refine ⟨line, cut, start, stop, c, hline, hlocates, hcut, hrun, hcolumn, ?_,
    getElem?_dropReturns hc hreturn, hecho, hpoints, fun hascii => ?_⟩
  · rw [head?_tokenAt hrun.nonempty, hc]
  · have hlength : (line.take start).length = start :=
      List.length_take_of_le (List.getElem?_eq_some_iff.mp hc).1.le
    rw [hpoints, byteWidth_of_ascii hascii, hlength]
    omega

/-- A source with an open quote behind a word of two-byte characters. -/
def wideWord : String := "\u00e9\u00e9\u00e9 \"b"

/-- Three characters of two bytes make up for the wider gutter. -/
theorem caret_below_iff_wideWord :
    assemble wideWord = .error (.unterminated ⟨1, 8⟩) ∧
    ∃ line, (Text.lines wideWord)[0]? = some line ∧
      (tokenAt line (4, 6)).text = "\"b" ∧
      PointsTo (diagnostic "a" wideWord (.unterminated ⟨1, 8⟩)) (dropReturns line) 4 := by
  have hfails : assemble wideWord = .error (.unterminated ⟨1, 8⟩) := by decide +kernel
  obtain ⟨line, cut, start, stop, c, hline, -, -, -, hcolumn, -, hshown, -, hpoints, -⟩ :=
    caret_below_iff hfails "a"
  have hchars : (Text.lines wideWord)[0]? = some wideWord.toList := by decide +kernel
  obtain rfl : wideWord.toList = line := Option.some.inj (hchars.symm.trans hline)
  have hlength : (dropReturns wideWord.toList).length = 6 := by decide +kernel
  have honly : ∀ i < 6, 8 = columnAt wideWord.toList i → i = 4 := by decide +kernel
  obtain rfl := honly start (hlength ▸ (List.getElem?_eq_some_iff.mp hshown).1) hcolumn
  exact ⟨hfails, _, hchars, by decide +kernel, hpoints.mpr (by decide +kernel)⟩

/-- The caret is not below every token that is reported. A word that names no instruction, on the
first line and with nothing before it, is echoed behind seven columns, and the caret stands behind
four. -/
theorem caret_not_below_firstWord : ¬ ∀ (source file : String) (error : SourceError),
    assemble source = .error error → ∃ line start,
      (Text.lines source)[error.position.line - 1]? = some line ∧ start < line.length ∧
      error.position.column = columnAt line start ∧
      PointsTo (diagnostic file source error) (dropReturns line) start := by
  intro hbelow
  have hfails : assemble "BAD" = .error (.statement ⟨1, 1⟩ (.unknownInstruction "BAD")) := by
    decide +kernel
  obtain ⟨line, start, hline, -, -, hpoints⟩ := hbelow "BAD" "a" _ hfails
  -- the gutter of the echo alone is wider than what stands before the caret
  rw [(endsInEcho_diagnostic hline "a").pointsTo_iff] at hpoints
  have hwide := le_max_left 4 (toString 1).length
  simp only [SourceError.position] at hpoints
  omega

end Diagnostics

end StackScript.Assembly
