import StackScript.Assembly.Token
import Mathlib.Data.List.Basic

/-!
# Words of a line

A word is the text of a token: it is not empty, it lies on one line, and outside double quotes it
holds neither a separator nor the beginning of a comment. `Solid` says this of a stretch of
characters, with the state of the quotes before and behind it.

Main statements: the tokens of a line are words (`isWord_of_tokenize`), and words with a blank
between each two of them are the tokens of their line (`tokenize_spaced`).
-/

namespace StackScript.Assembly

/-- The characters belong to one token. The flags say whether they stand between double quotes,
before the first and behind the last of them. -/
inductive Solid : Bool → List Char → Bool → Prop where
  | nil {quoted : Bool} : Solid quoted [] quoted
  | quote {quoted quoted' : Bool} {rest : List Char} (h : Solid (!quoted) rest quoted') :
      Solid quoted ('"' :: rest) quoted'
  | char {quoted quoted' : Bool} {c : Char} {rest : List Char} (hc : c ≠ '"')
      (hopen : quoted = false → c ≠ '#' ∧ isSeparator c = false) (h : Solid quoted rest quoted') :
      Solid quoted (c :: rest) quoted'

namespace Solid

theorem append {a b c : Bool} {word rest : List Char} (hword : Solid a word b)
    (hrest : Solid b rest c) : Solid a (word ++ rest) c := by
  induction hword with
  | nil => exact hrest
  | quote _ ih => exact quote (ih hrest)
  | char hc hopen _ ih => exact char hc hopen (ih hrest)

/-- Outside quotes, a stretch without quotes, separators and comments. -/
theorem of_forall {chars : List Char}
    (h : ∀ c ∈ chars, c ≠ '"' ∧ c ≠ '#' ∧ isSeparator c = false) : Solid false chars false := by
  induction chars with
  | nil => exact nil
  | cons c rest ih =>
    obtain ⟨hquote, hopen⟩ := h c List.mem_cons_self
    exact char hquote (fun _ => hopen) (ih fun c hc => h c (List.mem_cons_of_mem _ hc))

/-- Between quotes, a stretch without quotes. -/
theorem of_not_mem {chars : List Char} (h : '"' ∉ chars) : Solid true chars true := by
  induction chars with
  | nil => exact nil
  | cons c rest ih =>
    rw [List.mem_cons, not_or] at h
    exact char (Ne.symm h.1) nofun (ih h.2)

/-- A separator stands between quotes, so it is not the last character of a word. -/
theorem isSeparator_getLast {quoted quoted' : Bool} {word : List Char} {last : Char}
    (h : Solid quoted word quoted') (hclosed : quoted' = false) (hlast : word.getLast? = some last) :
    isSeparator last = false := by
  induction h with
  | nil => simp at hlast
  | @quote _ _ rest _ ih =>
    cases rest with
    | nil =>
      obtain rfl : '"' = last := by simpa using hlast
      rfl
    | cons c rest => exact ih hclosed (by simpa using hlast)
  | @char _ _ c rest _ hopen hrest ih =>
    cases rest with
    | nil =>
      obtain rfl : c = last := by simpa using hlast
      cases hrest
      exact (hopen hclosed).2
    | cons c rest => exact ih hclosed (by simpa using hlast)

end Solid

/-- The characters of a token. -/
structure IsWord (chars : List Char) : Prop where
  ne_nil : chars ≠ []
  solid : Solid false chars false
  oneLine : '\n' ∉ chars

/-- A character that a word may hold anywhere. -/
def isPlainChar (c : Char) : Bool := c != '"' && c != '#' && !isSeparator c && c != '\n'

theorem isPlainChar_of_isAlphanum {c : Char} (h : c.isAlphanum = true) : isPlainChar c = true := by
  have hne : ∀ d : Char, d.isAlphanum = false → c ≠ d := by
    rintro d hd rfl
    rw [h] at hd
    cases hd
  simp [isPlainChar, isSeparator, hne ',' (by decide), hne ' ' (by decide), hne '\t' (by decide),
    hne '\r' (by decide), hne '"' (by decide), hne '#' (by decide), hne '\n' (by decide)]

theorem isPlainChar_of_isDigit {c : Char} (h : c.isDigit = true) : isPlainChar c = true :=
  isPlainChar_of_isAlphanum (by rw [Char.isAlphanum, h, Bool.or_true])

theorem isWord_of_plain {chars : List Char} (hne : chars ≠ [])
    (h : ∀ c ∈ chars, isPlainChar c = true) : IsWord chars := by
  simp only [isPlainChar, Bool.and_eq_true, bne_iff_ne, Bool.not_eq_true'] at h
  refine ⟨hne, .of_forall fun c hc => ?_, fun hmem => (h _ hmem).2 rfl⟩
  obtain ⟨⟨⟨hquote, hcomment⟩, hseparator⟩, -⟩ := h c hc
  exact ⟨hquote, hcomment, hseparator⟩

/-- A text between double quotes, without double quotes and line feeds of its own. -/
theorem isWord_quoted {chars : List Char} (hquote : '"' ∉ chars) (hline : '\n' ∉ chars) :
    IsWord ('"' :: chars ++ ['"']) := by
  refine ⟨by simp, ?_, by simp [hline]⟩
  exact .quote ((Solid.of_not_mem hquote).append (.quote .nil))

/-! ### Scanning words -/

/-- The number of bytes of a stretch of characters. -/
def byteWidth : List Char → Nat
  | [] => 0
  | c :: rest => c.utf8Size + byteWidth rest

namespace Scan

/-- Inside a token, a solid stretch is added to it. -/
theorem run_solid {quoted quoted' : Bool} {word : List Char} (h : Solid quoted word quoted')
    (done : List Token) (start column : Nat) (text rest : List Char) :
    run ⟨done, some (start, text), quoted⟩ column (word ++ rest) =
      run ⟨done, some (start, word.reverse ++ text), quoted'⟩ (column + byteWidth word) rest := by
  induction h generalizing column text with
  | nil => rfl
  | quote _ ih =>
    rw [List.cons_append, run, if_neg (by simp), if_pos rfl]
    refine (ih _ _).trans ?_
    simp [byteWidth, Nat.add_assoc]
  | @char quoted _ c word hc hopen _ ih =>
    -- Between quotes nothing ends a token; outside of them `hopen` rules out what would.
    have hcomment : ¬(c = '#' ∧ quoted = false) := fun h => (hopen h.2).1 h.1
    have hseparator : ¬(isSeparator c = true ∧ quoted = false) := by
      rintro ⟨hc, hq⟩
      exact absurd (hopen hq).2 (by simp [hc])
    rw [List.cons_append, run, if_neg hcomment, if_neg hc, if_neg hseparator]
    refine (ih _ _).trans ?_
    simp [byteWidth, Nat.add_assoc]

/-- Between tokens, a word begins one. -/
theorem run_word {word : List Char} (h : IsWord word) (done : List Token) (column : Nat)
    (rest : List Char) :
    run ⟨done, none, false⟩ column (word ++ rest) =
      run ⟨done, some (column, word.reverse), false⟩ (column + byteWidth word) rest := by
  obtain ⟨hne, hsolid, -⟩ := h
  cases hsolid with
  | nil => exact absurd rfl hne
  | quote hword =>
    rw [List.cons_append, run, if_neg (by simp), if_pos rfl, extend]
    refine (run_solid hword _ _ _ _ _).trans ?_
    simp [byteWidth, Nat.add_assoc]
  | @char _ _ c word hc hopen hword =>
    obtain ⟨hcomment, hseparator⟩ := hopen rfl
    rw [List.cons_append, run, if_neg (by simp [hcomment]), if_neg hc, if_neg (by simp [hseparator])]
    refine (run_solid hword _ _ _ _ _).trans ?_
    simp [byteWidth, Nat.add_assoc]

/-- A blank ends the token that a word is. -/
theorem run_word_blank {word : List Char} (h : IsWord word) (done : List Token) (column : Nat)
    (rest : List Char) :
    run ⟨done, none, false⟩ column (word ++ ' ' :: rest) =
      run ⟨⟨String.ofList word, column⟩ :: done, none, false⟩ (column + byteWidth word + 1) rest := by
  have hblank : ' '.utf8Size = 1 := rfl
  rw [run_word h, run, if_neg (by simp), if_neg (by decide), if_pos ⟨rfl, rfl⟩]
  simp [close, hblank]

/-- A scan never gives up a token it has found. -/
theorem exists_eq_append_of_run {scan : Scan} {column : Nat} {line : List Char} {tokens : List Token}
    (h : scan.run column line = .ok tokens) : ∃ more, tokens = scan.done.reverse ++ more := by
  have hextend : ∀ (scan : Scan) (c : Char) (column : Nat), (scan.extend column c).done = scan.done := by
    intro scan c column
    unfold extend
    split <;> rfl
  have hclose : ∀ scan : Scan, ∃ more, scan.close.done.reverse = scan.done.reverse ++ more := by
    intro scan
    unfold close
    split
    · exact ⟨_, List.reverse_cons⟩
    · exact ⟨[], (List.append_nil _).symm⟩
  induction line generalizing scan column with
  | nil =>
    rw [run] at h
    split at h
    · cases h
    · cases h
      exact hclose scan
  | cons c rest ih =>
    rw [run] at h
    split at h
    · cases h
      exact hclose scan
    · split at h
      · obtain ⟨more, hmore⟩ := ih h
        exact ⟨more, hextend scan c column ▸ hmore⟩
      · split at h
        · obtain ⟨more, hmore⟩ := ih h
          obtain ⟨closed, hclosed⟩ := hclose scan
          exact ⟨closed ++ more, by rw [hmore, hclosed, List.append_assoc]⟩
        · obtain ⟨more, hmore⟩ := ih h
          exact ⟨more, hextend scan c column ▸ hmore⟩

end Scan

/-- Words with a blank between each two of them. -/
def spaced (words : List (List Char)) : List Char := [' '].intercalate words

theorem spaced_cons_cons (word next : List Char) (rest : List (List Char)) :
    spaced (word :: next :: rest) = word ++ ' ' :: spaced (next :: rest) := by
  simp [spaced]

theorem oneLine_spaced {words : List (List Char)} (h : ∀ word ∈ words, IsWord word) :
    '\n' ∉ spaced words := by
  induction words with
  | nil => simp [spaced]
  | cons word rest ih =>
    have hword := (h word List.mem_cons_self).oneLine
    have hrest := ih fun w hw => h w (List.mem_cons_of_mem _ hw)
    cases rest with
    | nil => simpa [spaced] using hword
    | cons next rest =>
      rw [spaced_cons_cons, List.mem_append, List.mem_cons, not_or, not_or]
      exact ⟨hword, by decide, hrest⟩

/-- A line of words does not end in a separator. -/
theorem isSeparator_getLast_spaced {words : List (List Char)} (h : ∀ word ∈ words, IsWord word)
    {last : Char} (hlast : (spaced words).getLast? = some last) : isSeparator last = false := by
  induction words with
  | nil => simp [spaced] at hlast
  | cons word rest ih =>
    cases rest with
    | nil =>
      refine (h word List.mem_cons_self).solid.isSeparator_getLast rfl ?_
      simpa [spaced] using hlast
    | cons next rest =>
      have hrest : ∀ word ∈ next :: rest, IsWord word := fun w hw => h w (List.mem_cons_of_mem _ hw)
      have hne : spaced (next :: rest) ≠ [] := by
        have hnext := (hrest next List.mem_cons_self).ne_nil
        cases rest with
        | nil => simpa [spaced] using hnext
        | cons next' rest => simp [spaced_cons_cons]
      obtain ⟨c, chars, hchars⟩ := List.exists_cons_of_ne_nil hne
      refine ih hrest ?_
      rw [spaced_cons_cons, List.getLast?_append_cons, hchars, List.getLast?_cons_cons] at hlast
      rw [hchars, hlast]

/-- The tokens of words that start at a column. -/
def wordTokens : (column : Nat) → List (List Char) → List Token
  | _, [] => []
  | column, word :: rest =>
      ⟨String.ofList word, column⟩ :: wordTokens (column + byteWidth word + 1) rest

theorem Scan.run_spaced {words : List (List Char)} (h : ∀ word ∈ words, IsWord word)
    (done : List Token) (column : Nat) :
    run ⟨done, none, false⟩ column (spaced words) = .ok (done.reverse ++ wordTokens column words) := by
  induction words generalizing done column with
  | nil => simp [spaced, run, tokens, close, wordTokens]
  | cons word rest ih =>
    have hword := h word List.mem_cons_self
    have hrest := ih fun w hw => h w (List.mem_cons_of_mem _ hw)
    cases rest with
    | nil =>
      have hline : spaced [word] = word ++ [] := by simp [spaced]
      rw [hline, run_word hword]
      simp [run, tokens, close, wordTokens]
    | cons next rest =>
      rw [spaced_cons_cons, run_word_blank hword, hrest]
      simp [wordTokens]

/-- **Words with blanks between them are the tokens of their line.** -/
theorem tokenize_spaced {words : List (List Char)} (h : ∀ word ∈ words, IsWord word) :
    tokenize (spaced words) = .ok (wordTokens 1 words) := by
  exact Scan.run_spaced h [] 1

/-! ### Tokens are words -/

/-- The tokens found so far are words, and the token begun can become one. -/
structure Scan.Tidy (scan : Scan) : Prop where
  done : ∀ token ∈ scan.done, IsWord token.text.toList
  begun : ∀ start text, scan.begun = some (start, text) →
    text ≠ [] ∧ Solid false text.reverse scan.quoted ∧ '\n' ∉ text
  idle : scan.begun = none → scan.quoted = false

namespace Scan.Tidy

variable {scan : Scan}

theorem extend (h : scan.Tidy) {c : Char} {quoted : Bool} (hc : c ≠ '\n')
    (hsolid : Solid scan.quoted [c] quoted) (column : Nat) :
    Tidy { scan.extend column c with quoted := quoted } := by
  unfold Scan.extend
  split
  · rename_i start text hbegun
    obtain ⟨-, htext, hline⟩ := h.begun start text hbegun
    refine ⟨h.done, ?_, by simp⟩
    rintro _ _ ⟨rfl, rfl⟩
    refine ⟨by simp, ?_, ?_⟩
    · rw [List.reverse_cons]
      exact htext.append hsolid
    · rw [List.mem_cons, not_or]
      exact ⟨hc.symm, hline⟩
  · rename_i hbegun
    rw [h.idle hbegun] at hsolid
    refine ⟨h.done, ?_, by simp⟩
    rintro _ _ ⟨rfl, rfl⟩
    exact ⟨by simp, hsolid, by simp [hc.symm]⟩

theorem close (h : scan.Tidy) (hquoted : scan.quoted = false) : scan.close.Tidy := by
  unfold Scan.close
  split
  · rename_i start text hbegun
    obtain ⟨hne, htext, hline⟩ := h.begun start text hbegun
    refine ⟨?_, by simp, fun _ => hquoted⟩
    rw [List.forall_mem_cons, String.toList_ofList]
    exact ⟨⟨by simpa using hne, hquoted ▸ htext, by simpa using hline⟩, h.done⟩
  · exact h

theorem tokens (h : scan.Tidy) (hquoted : scan.quoted = false) :
    ∀ token ∈ scan.tokens, IsWord token.text.toList := by
  intro token htoken
  rw [Scan.tokens, List.mem_reverse] at htoken
  exact (h.close hquoted).done token htoken

/-- A scan keeps its tokens words, whatever it meets. -/
theorem run (h : scan.Tidy) {column : Nat} {line : List Char} (hline : '\n' ∉ line)
    {tokens : List Token} (hrun : Scan.run scan column line = .ok tokens) :
    ∀ token ∈ tokens, IsWord token.text.toList := by
  induction line generalizing scan column with
  | nil =>
    rw [Scan.run] at hrun
    split at hrun
    · cases hrun
    · rename_i hquoted
      cases hrun
      exact h.tokens (by simpa using hquoted)
  | cons c rest ih =>
    rw [List.mem_cons, not_or] at hline
    obtain ⟨hnewline, hrest⟩ := hline
    have hc : c ≠ '\n' := fun h => hnewline h.symm
    rw [Scan.run] at hrun
    split at hrun
    · rename_i hcomment
      cases hrun
      exact h.tokens hcomment.2
    · rename_i hcomment
      split at hrun
      · rename_i hquote
        subst hquote
        exact ih (h.extend hc (.quote .nil) column) hrest hrun
      · rename_i hquote
        split at hrun
        · rename_i hseparator
          exact ih (h.close hseparator.2) hrest hrun
        · rename_i hseparator
          have hopen : scan.quoted = false → c ≠ '#' ∧ isSeparator c = false := by
            intro hq
            exact ⟨fun hc => hcomment ⟨hc, hq⟩, by simpa [hq] using hseparator⟩
          have hquoted : (scan.extend column c).quoted = scan.quoted := by
            unfold Scan.extend
            split <;> rfl
          have htidy := h.extend hc (.char hquote hopen .nil) column
          rw [← hquoted] at htidy
          exact ih htidy hrest hrun

end Scan.Tidy

/-- **The tokens of a line are words.** -/
theorem isWord_of_tokenize {line : List Char} (hline : '\n' ∉ line) {tokens : List Token}
    (h : tokenize line = .ok tokens) : ∀ token ∈ tokens, IsWord token.text.toList :=
  Scan.Tidy.run ⟨by simp, by simp, fun _ => rfl⟩ hline h

end StackScript.Assembly
