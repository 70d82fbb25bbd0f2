import StackScript.Proofs.Assembly.Words
import Mathlib.Data.List.Pairwise

/-!
# Tokens by position

Which stretches of a line are tokens can be said without a scan. A character stands outside double
quotes if an even number of them is before it. The line is cut at the first `#` that stands so, and
the tokens are the stretches before the cut that hold no separator outside double quotes and are not
part of a longer such stretch.

The scan is at every position in step with that: what it has finished are the stretches that a
separator has ended, and what it has begun is the stretch it is in (`Scan.Covers`).

Main statements: `tokenize_tokenized`, and `tokenize_splits` with all that it says about a line.
-/

namespace StackScript.Assembly

/-! ### Positions of a line -/

/-- The number of double quotes before a position. -/
def quotesBefore (chars : List Char) (i : Nat) : Nat := (chars.take i).count '"'

/-- A character stands at a position, outside double quotes. -/
def Bare (chars : List Char) (i : Nat) (c : Char) : Prop :=
  chars[i]? = some c ∧ quotesBefore chars i % 2 = 0

/-- A comment begins at a position. -/
def StartsComment (chars : List Char) (i : Nat) : Prop := Bare chars i '#'

/-- A comma, a space, a tab or a carriage return stands at a position and separates tokens. -/
def Separates (chars : List Char) (i : Nat) : Prop := ∃ c ∈ [',', ' ', '\t', '\r'], Bare chars i c

/-- Where the first comment begins, or the end of a line without comments. -/
structure IsCut (chars : List Char) (cut : Nat) : Prop where
  reached : StartsComment chars cut ∨ cut = chars.length
  first : ∀ i < cut, ¬ StartsComment chars i

/-- The characters from one position up to another, before the cut, without a separator among
them. -/
structure IsStretch (chars : List Char) (cut start stop : Nat) : Prop where
  nonempty : start < stop
  within : stop ≤ cut
  solid : ∀ i, start ≤ i → i < stop → ¬ Separates chars i

/-- A stretch that is not part of a longer one. -/
structure IsRun (chars : List Char) (cut start stop : Nat) : Prop
    extends IsStretch chars cut start stop where
  maximal : ∀ start' stop', IsStretch chars cut start' stop' → start' ≤ start → stop ≤ stop' →
    start' = start ∧ stop' = stop

/-- The column of a position, counted in bytes from 1. -/
def columnAt (chars : List Char) (i : Nat) : Nat := byteWidth (chars.take i) + 1

/-- The token between two positions. -/
def tokenAt (chars : List Char) (run : Nat × Nat) : Token :=
  ⟨String.ofList ((chars.take run.2).drop run.1), columnAt chars run.1⟩

/-- The tokens are those between the positions of which `p` holds, in the order of the line. -/
def Lists (chars : List Char) (p : Nat → Nat → Prop) (tokens : List Token) : Prop :=
  ∃ runs : List (Nat × Nat), runs.Pairwise (fun r s => r.2 < s.1) ∧
    (∀ start stop, (start, stop) ∈ runs ↔ p start stop) ∧ tokens = runs.map (tokenAt chars)

/-- What comes of a line. -/
inductive Tokenized (chars : List Char) : Except Nat (List Token) → Prop where
  | tokens {cut : Nat} {tokens : List Token} (hcut : IsCut chars cut)
      (hclosed : quotesBefore chars cut % 2 = 0) (hlists : Lists chars (IsRun chars cut) tokens) :
      Tokenized chars (.ok tokens)
  /-- The last double quote is open, and its token reaches to the end of the line. -/
  | unterminated {start : Nat} (hcut : IsCut chars chars.length)
      (hopen : quotesBefore chars chars.length % 2 = 1)
      (hrun : IsRun chars chars.length start chars.length) :
      Tokenized chars (.error (columnAt chars start))

section Positions

variable {chars : List Char} {i : Nat} {c : Char}

theorem take_succ_of_getElem? (h : chars[i]? = some c) :
    chars.take (i + 1) = chars.take i ++ [c] := by
  rw [List.take_add_one, h, Option.toList_some]

theorem quotesBefore_succ (h : chars[i]? = some c) :
    quotesBefore chars (i + 1) = quotesBefore chars i + if c = '"' then 1 else 0 := by
  rw [quotesBefore, take_succ_of_getElem? h, List.count_append, List.count_singleton]
  simp only [quotesBefore, beq_iff_eq]

theorem quotesBefore_length (chars : List Char) :
    quotesBefore chars chars.length = chars.count '"' := by
  rw [quotesBefore, List.take_length]

theorem byteWidth_append (chars more : List Char) :
    byteWidth (chars ++ more) = byteWidth chars + byteWidth more := by
  induction chars with
  | nil => rw [List.nil_append, byteWidth, Nat.zero_add]
  | cons c chars ih => rw [List.cons_append, byteWidth, byteWidth, ih, Nat.add_assoc]

theorem columnAt_succ (h : chars[i]? = some c) :
    columnAt chars (i + 1) = columnAt chars i + c.utf8Size := by
  rw [columnAt, columnAt, take_succ_of_getElem? h, byteWidth_append, byteWidth, byteWidth]
  omega

theorem isSeparator_iff_mem (c : Char) : isSeparator c = true ↔ c ∈ [',', ' ', '\t', '\r'] := by
  simp [isSeparator, or_assoc]

theorem separates_iff (h : chars[i]? = some c) :
    Separates chars i ↔ isSeparator c = true ∧ quotesBefore chars i % 2 = 0 := by
  rw [isSeparator_iff_mem]
  constructor
  · rintro ⟨c', hmem, hc', heven⟩
    rw [h, Option.some.injEq] at hc'
    exact ⟨hc' ▸ hmem, heven⟩
  · rintro ⟨hmem, heven⟩
    exact ⟨c, hmem, h, heven⟩

theorem startsComment_iff (h : chars[i]? = some c) :
    StartsComment chars i ↔ c = '#' ∧ quotesBefore chars i % 2 = 0 := by
  rw [StartsComment, Bare, h, Option.some.injEq]

end Positions

/-! ### Runs by their borders -/

/-- A token can begin at a position: it is the first one, or a separator stands before it. -/
def Begins (chars : List Char) (i : Nat) : Prop := ∀ k, i = k + 1 → Separates chars k

section Runs

variable {chars : List Char} {cut cut' start stop : Nat}

theorem IsStretch.cutAt (h : IsStretch chars cut start stop) (hle : stop ≤ cut') :
    IsStretch chars cut' start stop :=
  ⟨h.nonempty, hle, h.solid⟩

theorem IsStretch.extend (h : IsStretch chars cut start stop) (hsolid : ¬ Separates chars stop)
    (hlt : stop < cut') : IsStretch chars cut' start (stop + 1) := by
  refine ⟨Nat.lt_succ_of_lt h.nonempty, hlt, fun i hi histop => ?_⟩
  obtain rfl | hlt := Nat.eq_or_lt_of_le (Nat.le_of_lt_succ histop)
  · exact hsolid
  · exact h.solid i hi hlt

theorem isRun_iff : IsRun chars cut start stop ↔
    IsStretch chars cut start stop ∧ Begins chars start ∧ (stop = cut ∨ Separates chars stop) := by
  constructor
  · rintro ⟨hstretch, hmaximal⟩
    refine ⟨hstretch, ?_, ?_⟩
    · rintro k rfl
      by_contra hk
      have hlonger : IsStretch chars cut k stop := by
        refine ⟨Nat.lt_of_succ_lt hstretch.nonempty, hstretch.within, fun i hi histop => ?_⟩
        obtain rfl | hi := Nat.eq_or_lt_of_le hi
        · exact hk
        · exact hstretch.solid i hi histop
      have hsame := hmaximal k stop hlonger (by omega) (Nat.le_refl _)
      omega
    · by_contra hstop
      rw [not_or] at hstop
      have hle := hstretch.within
      have hlonger : IsStretch chars cut start (stop + 1) := hstretch.extend hstop.2 (by omega)
      have hsame := hmaximal start (stop + 1) hlonger (Nat.le_refl _) (by omega)
      omega
  · rintro ⟨hstretch, hbegins, hends⟩
    refine ⟨hstretch, fun start' stop' hother hstart hstop => ⟨?_, ?_⟩⟩
    · by_contra hne
      have hlt := hstretch.nonempty
      obtain ⟨k, rfl⟩ : ∃ k, start = k + 1 := ⟨start - 1, by omega⟩
      exact hother.solid k (by omega) (by omega) (hbegins k rfl)
    · by_contra hne
      have hlt := hstretch.nonempty
      have hwithin := hother.within
      obtain rfl | hseparates := hends
      · omega
      · exact hother.solid stop (by omega) (by omega) hseparates

/-- A token does not begin between double quotes. -/
theorem Begins.even (h : Begins chars start) : quotesBefore chars start % 2 = 0 := by
  cases start with
  | zero => rfl
  | succ k =>
    obtain ⟨c, hmem, hc, heven⟩ := h k rfl
    have hquote : c ≠ '"' := by
      rintro rfl
      exact absurd hmem (by decide)
    rw [quotesBefore_succ hc, if_neg hquote, Nat.add_zero, heven]

end Runs

/-! ### The scan -/

/-- A run that a separator before position `i` has ended. -/
structure Ended (chars : List Char) (i start stop : Nat) : Prop where
  stretch : IsStretch chars i start stop
  begins : Begins chars start
  before : stop < i
  separates : Separates chars stop

/-- A scan is at position `i` of a line. -/
structure Scan.Covers (chars : List Char) (i : Nat) (scan : Scan) : Prop where
  quoted : scan.quoted = true ↔ quotesBefore chars i % 2 = 1
  done : Lists chars (Ended chars i) scan.done.reverse
  idle : scan.begun = none → Begins chars i
  begun : ∀ column text, scan.begun = some (column, text) → ∃ start,
    Begins chars start ∧ IsStretch chars i start i ∧ column = columnAt chars start ∧
      text.reverse = (chars.take i).drop start

section Lists

variable {chars : List Char} {p q : Nat → Nat → Prop} {tokens : List Token}

theorem Lists.congr (h : Lists chars p tokens) (hpq : ∀ start stop, p start stop ↔ q start stop) :
    Lists chars q tokens := by
  obtain ⟨runs, hsorted, hmem, htokens⟩ := h
  exact ⟨runs, hsorted, fun start stop => (hmem start stop).trans (hpq start stop), htokens⟩

theorem Lists.append (h : Lists chars p tokens) {start stop : Nat}
    (hbefore : ∀ start' stop', p start' stop' → stop' < start) :
    Lists chars (fun start' stop' => p start' stop' ∨ start' = start ∧ stop' = stop)
      (tokens ++ [tokenAt chars (start, stop)]) := by
  obtain ⟨runs, hsorted, hmem, rfl⟩ := h
  refine ⟨runs ++ [(start, stop)], ?_, fun start' stop' => ?_, ?_⟩
  · rw [List.pairwise_append]
    refine ⟨hsorted, List.pairwise_singleton _ _, fun r hr s hs => ?_⟩
    rw [List.mem_singleton] at hs
    subst hs
    exact hbefore r.1 r.2 ((hmem r.1 r.2).mp hr)
  · rw [List.mem_append, List.mem_singleton, hmem, Prod.mk.injEq]
  · rw [List.map_append, List.map_singleton]

end Lists

/-- At most one place where the stretch that reaches to a position begins. -/
theorem Begins.unique {chars : List Char} {i start start' : Nat} (h : Begins chars start)
    (hstretch : IsStretch chars i start i) (h' : Begins chars start')
    (hstretch' : IsStretch chars i start' i) : start = start' := by
  have hle : ∀ {a b : Nat}, Begins chars a → IsStretch chars i a i → IsStretch chars i b i →
      a ≤ b := by
    intro a b hbegins ha hb
    by_contra hlt
    have hai := ha.nonempty
    obtain ⟨k, rfl⟩ : ∃ k, a = k + 1 := ⟨a - 1, by omega⟩
    exact hb.solid k (by omega) (by omega) (hbegins k rfl)
  exact Nat.le_antisymm (hle h hstretch hstretch') (hle h' hstretch' hstretch)

/-- A separator ends all runs up to its position. -/
theorem isRun_iff_of_separates {chars : List Char} {i start stop : Nat} (h : Separates chars i) :
    IsRun chars i start stop ↔ Ended chars (i + 1) start stop := by
  rw [isRun_iff]
  constructor
  · rintro ⟨hstretch, hbegins, hends⟩
    have hle := hstretch.within
    refine ⟨hstretch.cutAt (by omega), hbegins, by omega, ?_⟩
    obtain rfl | hends := hends
    · exact h
    · exact hends
  · intro hended
    exact ⟨hended.stretch.cutAt (Nat.le_of_lt_succ hended.before), hended.begins,
      .inr hended.separates⟩

/-- Where there is no separator, no run is ended. -/
theorem ended_succ_iff {chars : List Char} {i start stop : Nat} (h : ¬ Separates chars i) :
    Ended chars i start stop ↔ Ended chars (i + 1) start stop := by
  constructor
  · intro hended
    have hlt := hended.before
    exact ⟨hended.stretch.cutAt (by omega), hended.begins, by omega, hended.separates⟩
  · intro hended
    have hne : stop ≠ i := by
      rintro rfl
      exact h hended.separates
    have hlt := hended.before
    exact ⟨hended.stretch.cutAt (by omega), hended.begins, by omega, hended.separates⟩

/-- A run up to a position is ended, or it reaches to the position. -/
theorem isRun_iff_ended {chars : List Char} {i start stop : Nat} : IsRun chars i start stop ↔
    Ended chars i start stop ∨ (Begins chars start ∧ IsStretch chars i start i) ∧ stop = i := by
  rw [isRun_iff]
  constructor
  · rintro ⟨hstretch, hbegins, hends⟩
    by_cases hstop : stop = i
    · subst hstop
      exact .inr ⟨⟨hbegins, hstretch⟩, rfl⟩
    · have hle := hstretch.within
      exact .inl ⟨hstretch, hbegins, by omega, hends.resolve_left hstop⟩
  · rintro (hended | ⟨⟨hbegins, hstretch⟩, rfl⟩)
    · exact ⟨hended.stretch, hended.begins, .inr hended.separates⟩
    · exact ⟨hstretch, hbegins, .inl rfl⟩

theorem Scan.quoted_extend (scan : Scan) (column : Nat) (c : Char) :
    (scan.extend column c).quoted = scan.quoted := by
  unfold extend
  split <;> rfl

namespace Scan.Covers

variable {chars : List Char} {i : Nat} {scan : Scan}

/-- The runs up to a position are those that are ended and the one begun. -/
theorem close (h : Covers chars i scan) : Lists chars (IsRun chars i) scan.close.done.reverse := by
  unfold Scan.close
  split
  · rename_i column text hbegun
    obtain ⟨start, hbegins, hstretch, rfl, htext⟩ := h.begun column text hbegun
    have hbefore : ∀ start' stop', Ended chars i start' stop' → stop' < start := by
      intro start' stop' hended
      by_contra hle
      exact hstretch.solid stop' (by omega) hended.before hended.separates
    rw [List.reverse_cons, htext]
    refine (h.done.append hbefore).congr fun start' stop' => ?_
    rw [isRun_iff_ended]
    refine or_congr_right (and_congr_left fun _ => ⟨?_, ?_⟩)
    · rintro rfl
      exact ⟨hbegins, hstretch⟩
    · rintro ⟨hbegins', hstretch'⟩
      exact hbegins'.unique hstretch' hbegins hstretch
  · rename_i hbegun
    refine h.done.congr fun start' stop' => ?_
    rw [isRun_iff_ended]
    refine ⟨.inl, fun hrun => hrun.resolve_right ?_⟩
    -- A stretch up to here would hold the separator before this position.
    rintro ⟨⟨-, hstretch'⟩, -⟩
    have hlt := hstretch'.nonempty
    obtain ⟨k, rfl⟩ : ∃ k, i = k + 1 := ⟨i - 1, by omega⟩
    exact hstretch'.solid k (by omega) (by omega) (h.idle hbegun k rfl)

/-- A separator ends the token begun. -/
theorem separator (h : Covers chars i scan) (hseparates : Separates chars i) :
    Covers chars (i + 1) scan.close := by
  have hbegun : scan.close.begun = none := by
    unfold Scan.close
    split
    · rfl
    · assumption
  have hquoted : scan.close.quoted = scan.quoted := by
    unfold Scan.close
    split <;> rfl
  have hbegins : Begins chars (i + 1) := by
    rintro k hk
    obtain rfl := Nat.succ.inj hk
    exact hseparates
  refine ⟨?_, ?_, fun _ => hbegins, ?_⟩
  · have heven := hbegins.even
    obtain ⟨c, -, -, hbare⟩ := hseparates
    rw [hquoted, h.quoted]
    omega
  · exact h.close.congr fun start stop => isRun_iff_of_separates hseparates
  · intro column text htext
    rw [hbegun] at htext
    cases htext

/-- Any other character is added to the token begun, or begins one. -/
theorem extend (h : Covers chars i scan) {c : Char} (hc : chars[i]? = some c)
    (hsolid : ¬ Separates chars i) {quoted : Bool}
    (hquoted : quoted = true ↔ quotesBefore chars (i + 1) % 2 = 1) :
    Covers chars (i + 1) { scan.extend (columnAt chars i) c with quoted } := by
  have hdone : Lists chars (Ended chars (i + 1)) scan.done.reverse :=
    h.done.congr fun start stop => ended_succ_iff hsolid
  have hi : i < chars.length := (List.getElem?_eq_some_iff.mp hc).1
  have hlength : (chars.take i).length = i := List.length_take_of_le (Nat.le_of_lt hi)
  unfold Scan.extend
  split
  · rename_i start text hbegun
    refine ⟨hquoted, hdone, by simp, ?_⟩
    rintro _ _ ⟨rfl, rfl⟩
    obtain ⟨start, hbegins, hstretch, rfl, htext⟩ := h.begun _ _ hbegun
    have hlt := hstretch.nonempty
    refine ⟨start, hbegins, hstretch.extend hsolid (Nat.lt_succ_self i), rfl, ?_⟩
    rw [List.reverse_cons, htext, take_succ_of_getElem? hc,
      List.drop_append_of_le_length (by omega)]
  · rename_i hbegun
    refine ⟨hquoted, hdone, by simp, ?_⟩
    rintro _ _ ⟨rfl, rfl⟩
    refine ⟨i, h.idle hbegun, ⟨by omega, Nat.le_refl _, fun k hk hki => ?_⟩, rfl, ?_⟩
    · obtain rfl : k = i := by omega
      exact hsolid
    · rw [take_succ_of_getElem? hc, List.drop_left' hlength]
      rfl

theorem quoted_eq_false_iff (h : Covers chars i scan) :
    scan.quoted = false ↔ quotesBefore chars i % 2 = 0 := by
  rw [← Bool.not_eq_true, h.quoted]
  omega

/-- The rest of the line is split as it should be. -/
theorem run (h : Covers chars i scan) (hi : i ≤ chars.length)
    (hfirst : ∀ k < i, ¬ StartsComment chars k) :
    Tokenized chars (scan.run (columnAt chars i) (chars.drop i)) := by
  induction hrest : chars.drop i generalizing i scan with
  | nil =>
    obtain rfl : i = chars.length := Nat.le_antisymm hi (List.drop_eq_nil_iff.mp hrest)
    rw [Scan.run]
    split
    · rename_i hquoted
      have hodd := h.quoted.mp hquoted
      cases hbegun : scan.begun with
      | none =>
        have heven := (h.idle hbegun).even
        omega
      | some begun =>
        obtain ⟨start, hbegins, hstretch, hcolumn, -⟩ := h.begun begun.1 begun.2 hbegun
        have hrun := isRun_iff.mpr ⟨hstretch, hbegins, .inl rfl⟩
        have hscan : scan.column = columnAt chars start := by
          rw [Scan.column, hbegun]
          exact hcolumn
        rw [hscan]
        exact .unterminated ⟨.inr rfl, hfirst⟩ hodd hrun
    · rename_i hquoted
      have heven := h.quoted_eq_false_iff.mp (Bool.not_eq_true _ ▸ hquoted)
      exact .tokens ⟨.inr rfl, hfirst⟩ heven h.close
  | cons c rest ih =>
    have hc : chars[i]? = some c := by
      rw [← List.head?_drop, hrest, List.head?_cons]
    have hnext : chars.drop (i + 1) = rest := by
      rw [← List.tail_drop, hrest, List.tail_cons]
    have hlt : i < chars.length := (List.getElem?_eq_some_iff.mp hc).1
    have hstep : ¬ StartsComment chars i → ∀ scan', Covers chars (i + 1) scan' →
        Tokenized chars (scan'.run (columnAt chars i + c.utf8Size) rest) := by
      intro hcomment scan' h'
      rw [← columnAt_succ hc]
      refine ih h' hlt (fun k hk => ?_) hnext
      obtain rfl | hk := Nat.eq_or_lt_of_le (Nat.le_of_lt_succ hk)
      · exact hcomment
      · exact hfirst k hk
    rw [Scan.run]
    split
    · rename_i hcomment
      have heven := h.quoted_eq_false_iff.mp hcomment.2
      exact .tokens ⟨.inl ((startsComment_iff hc).mpr ⟨hcomment.1, heven⟩), hfirst⟩ heven h.close
    rename_i hcomment
    rw [h.quoted_eq_false_iff, ← startsComment_iff hc] at hcomment
    split
    · rename_i hquote
      subst hquote
      refine hstep hcomment _ (h.extend hc ?_ ?_)
      · rw [separates_iff hc]
        rintro ⟨hseparator, -⟩
        cases hseparator
      · rw [Bool.not_eq_true', h.quoted_eq_false_iff, quotesBefore_succ hc, if_pos rfl]
        omega
    rename_i hquote
    split
    · rename_i hseparator
      rw [h.quoted_eq_false_iff, ← separates_iff hc] at hseparator
      exact hstep hcomment _ (h.separator hseparator)
    · rename_i hseparator
      rw [h.quoted_eq_false_iff, ← separates_iff hc] at hseparator
      have hquoted : (scan.extend (columnAt chars i) c).quoted = true ↔
          quotesBefore chars (i + 1) % 2 = 1 := by
        rw [quoted_extend, h.quoted, quotesBefore_succ hc, if_neg hquote, Nat.add_zero]
      exact hstep hcomment _ (h.extend hc hseparator hquoted)

end Scan.Covers

theorem Scan.covers_start (chars : List Char) : Covers chars 0 {} where
  quoted := by simp [quotesBefore]
  done := by
    refine ⟨[], .nil, fun start stop => ⟨fun h => ?_, fun h => ?_⟩, rfl⟩
    · cases h
    · exact absurd h.before (Nat.not_lt_zero stop)
  idle := by
    intro _ k hk
    cases hk
  begun := by
    intro column text h
    cases h

/-- **The tokens of a line are its runs**, and a line fails if a double quote is open at its end. -/
theorem tokenize_tokenized (chars : List Char) : Tokenized chars (tokenize chars) :=
  (Scan.covers_start chars).run (Nat.zero_le _) fun k hk => absurd hk (Nat.not_lt_zero k)

/-! ### Comments and open quotes -/

/-- The last double quote of a line. -/
structure IsLastQuote (chars : List Char) (i : Nat) : Prop where
  isQuote : chars[i]? = some '"'
  last : ∀ k, i < k → chars[k]? ≠ some '"'

theorem IsLastQuote.lt_length {chars : List Char} {i : Nat} (h : IsLastQuote chars i) :
    i < chars.length :=
  (List.getElem?_eq_some_iff.mp h.isQuote).1

/-- If there is a double quote from a position on, the last one is not before it. -/
theorem exists_lastQuote {chars : List Char} {start : Nat} (h : '"' ∈ chars.drop start) :
    ∃ i, start ≤ i ∧ IsLastQuote chars i := by
  -- The last one is the first one from behind.
  obtain ⟨after, before, hreverse, hnone⟩ := List.eq_append_cons_of_mem (List.mem_reverse.mpr h)
  have hdrop : chars.drop start = before.reverse ++ '"' :: after.reverse := by
    rw [← List.reverse_reverse (chars.drop start), hreverse]
    simp
  refine ⟨start + before.length, Nat.le_add_right _ _, ?_, fun k hk hquote => hnone ?_⟩
  · rw [← List.getElem?_drop, hdrop]
    simp
  · obtain ⟨j, rfl⟩ : ∃ j, k = start + (before.reverse.length + (j + 1)) := by
      rw [List.length_reverse]
      exact ⟨k - (start + before.length + 1), by omega⟩
    rw [← List.getElem?_drop, hdrop, List.getElem?_append_right (Nat.le_add_right _ _),
      Nat.add_sub_cancel_left, List.getElem?_cons_succ] at hquote
    exact List.mem_reverse.mp (List.mem_of_getElem? hquote)

/-- A run that begins outside double quotes holds the last one if their number is odd. -/
theorem IsRun.exists_lastQuote {chars : List Char} {cut start stop : Nat}
    (h : IsRun chars cut start stop) (hodd : chars.count '"' % 2 = 1) :
    ∃ i, start ≤ i ∧ IsLastQuote chars i := by
  have heven := (isRun_iff.mp h).2.1.even
  have hcount : chars.count '"' = quotesBefore chars start + (chars.drop start).count '"' := by
    rw [quotesBefore, ← List.count_append, List.take_append_drop]
  exact Assembly.exists_lastQuote (List.count_pos_iff.mp (by omega))

theorem IsCut.no_comment {chars : List Char} (h : IsCut chars chars.length) (i : Nat) :
    ¬ StartsComment chars i := by
  by_cases hlt : i < chars.length
  · exact h.first i hlt
  · rintro ⟨hc, -⟩
    rw [List.getElem?_eq_none (Nat.le_of_not_lt hlt)] at hc
    cases hc

theorem IsCut.eq_length {chars : List Char} {cut : Nat} (h : IsCut chars cut)
    (hno : ∀ i, ¬ StartsComment chars i) : cut = chars.length :=
  h.reached.resolve_left (hno cut)

/-- **How a line is split into tokens.** The line is cut at the first `#` with an even number of
double quotes before it, or at its end. It fails exactly if there is no such `#` and the number of
double quotes is odd, and then the column is that of the token which the last double quote is in.
Else the tokens are the longest stretches before the cut without a separator outside double quotes,
in order, each with its characters and the column of the first of them. -/
theorem tokenize_splits (chars : List Char) : ∃ cut, IsCut chars cut ∧
    ((∃ column, tokenize chars = .error column) ↔
      (∀ i, ¬ StartsComment chars i) ∧ chars.count '"' % 2 = 1) ∧
    (∀ column, tokenize chars = .error column → ∃ start stop quote, IsRun chars cut start stop ∧
      IsLastQuote chars quote ∧ start ≤ quote ∧ quote < stop ∧ column = columnAt chars start) ∧
    (∀ tokens, tokenize chars = .ok tokens → ∃ runs : List (Nat × Nat),
      runs.Pairwise (fun r s => r.2 < s.1) ∧
      (∀ start stop, (start, stop) ∈ runs ↔ IsRun chars cut start stop) ∧
      tokens = runs.map (tokenAt chars)) := by
  have hline := tokenize_tokenized chars
  generalize tokenize chars = found at hline ⊢
  cases hline with
  | @tokens cut tokens hcut hclosed hlists =>
    refine ⟨cut, hcut, ⟨fun ⟨_, h⟩ => ?_, fun ⟨hno, hodd⟩ => ?_⟩, fun _ h => ?_, ?_⟩
    · cases h
    · rw [hcut.eq_length hno, quotesBefore_length] at hclosed
      omega
    · cases h
    · rintro _ ⟨⟩
      exact hlists
  | @unterminated start hcut hopen hrun =>
    rw [quotesBefore_length] at hopen
    refine ⟨chars.length, hcut, ⟨fun _ => ⟨hcut.no_comment, hopen⟩, fun _ => ⟨_, rfl⟩⟩, ?_,
      fun _ h => ?_⟩
    · rintro _ ⟨⟩
      obtain ⟨quote, hquote, hlast⟩ := hrun.exists_lastQuote hopen
      exact ⟨start, chars.length, quote, hrun, hlast, hquote, hlast.lt_length, rfl⟩
    · cases h

-- Quotes hide separators and comments inside a token, and columns count bytes.
example : tokenize "\u00e9 \"a, #b\"c,d # \"".toList =
    .ok [⟨"\u00e9", 1⟩, ⟨"\"a, #b\"c", 4⟩, ⟨"d", 13⟩] := by decide

end StackScript.Assembly
