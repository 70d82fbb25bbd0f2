import StackScript.ScriptHash
import StackScript.Text.Lines
import StackScript.Text.Numeral
import Mathlib.Data.List.Basic

/-!
# Reading printed text

Numbers, byte strings and names are printed in one form each, and the readers take that form among
others. Main statements: what is printed is read back, for numerals (`signed?_toString`,
`integer?_toString`, `natural?_decimal`), lines (`lines_flatMap`, `lines_intercalate`), ASCII text
(`Utf8.decodeLossy_ofString`) and byte strings (`Hex.decode_encode`, `ScriptHash.parse_render`), and
numerals filled up to four digits tell numbers apart (`fourDigits_injective`).
-/

namespace StackScript

namespace Text

/-! ### Numerals -/

theorem digitsValue_eq_ofDigitChars (digits : List Char) :
    digitsValue digits = Nat.ofDigitChars 10 digits 0 := by
  rw [digitsValue_eq_foldl, Nat.ofDigitChars_eq_foldl]
  simp only [digitValue, Nat.add_comm]

theorem toList_decimal (n : Nat) : (decimal n).toList = Nat.toDigits 10 n := Nat.toList_repr

theorem isDigit_of_mem_decimal {n : Nat} {c : Char} (h : c ∈ (decimal n).toList) :
    c.isDigit = true := by
  rw [toList_decimal] at h
  exact Nat.isDigit_of_mem_toDigits (by decide) (by decide) h

theorem digits?_toDigits (n : Nat) : digits? (Nat.toDigits 10 n) = some n := by
  have hdigits : (Nat.toDigits 10 n).all Char.isDigit = true :=
    List.all_eq_true.mpr fun c hc => Nat.isDigit_of_mem_toDigits (by decide) (by decide) hc
  have hne : (Nat.toDigits 10 n).isEmpty = false := by simp [Nat.toDigits_ne_nil]
  rw [digits?, hdigits, hne, digitsValue_eq_ofDigitChars, Nat.ofDigitChars_ten_toDigits]
  rfl

/-- A numeral without sign starts with a digit. -/
theorem exists_toDigits_eq_cons (n : Nat) :
    ∃ c rest, Nat.toDigits 10 n = c :: rest ∧ c ≠ '+' ∧ c ≠ '-' := by
  obtain ⟨c, rest, h⟩ := List.exists_cons_of_ne_nil (Nat.toDigits_ne_nil (n := n) (b := 10))
  have hdigit : c.isDigit = true :=
    Nat.isDigit_of_mem_toDigits (n := n) (by decide) (by decide) (h ▸ List.mem_cons_self)
  refine ⟨c, rest, h, ?_, ?_⟩
  · rintro rfl
    exact absurd hdigit (by decide)
  · rintro rfl
    exact absurd hdigit (by decide)

theorem natural?_decimal {bound n : Nat} (h : n < bound) : natural? bound (decimal n) = some n := by
  obtain ⟨c, rest, hcons, hplus, -⟩ := exists_toDigits_eq_cons n
  have hread : digits? (c :: rest) = some n := hcons ▸ digits?_toDigits n
  unfold natural?
  rw [toList_decimal, hcons]
  split
  · rename_i heq
    exact absurd (List.cons.inj heq).1 hplus
  · rw [hread]
    simp [h]

theorem toList_toString_ofNat (n : Nat) : (toString (Int.ofNat n)).toList = Nat.toDigits 10 n :=
  Nat.toList_repr

theorem toList_toString_negSucc (n : Nat) :
    (toString (Int.negSucc n)).toList = '-' :: Nat.toDigits 10 (n + 1) := by
  simp [Int.toString_eq_repr, Int.repr, Nat.toList_repr]

/-- An integer within the bounds is read back. -/
theorem signed?_toString {bound : Nat} {v : Int} (h : -Int.ofNat bound ≤ v ∧ v < Int.ofNat bound) :
    signed? bound (toString v) = some v := by
  have hbounds : (-Int.ofNat bound ≤ v && v < Int.ofNat bound) = true := by simpa using h
  unfold signed?
  cases v with
  | ofNat n =>
    obtain ⟨c, rest, hcons, hplus, hminus⟩ := exists_toDigits_eq_cons n
    have hread : digits? (c :: rest) = some n := hcons ▸ digits?_toDigits n
    rw [toList_toString_ofNat, hcons]
    split
    · rename_i heq
      exact absurd (List.cons.inj heq).1 hplus
    · rename_i heq
      exact absurd (List.cons.inj heq).1 hminus
    · rw [hread]
      simp only [Option.map_some, Option.filter_some, hbounds, if_true]
  | negSucc n =>
    rw [toList_toString_negSucc]
    simp only [digits?_toDigits, Option.map_some]
    exact Option.filter_some_pos hbounds

theorem isDigit_or_eq_of_mem_toString {v : Int} {c : Char} (h : c ∈ (toString v).toList) :
    c.isDigit = true ∨ c = '-' := by
  cases v with
  | ofNat n =>
    rw [toList_toString_ofNat] at h
    exact .inl (Nat.isDigit_of_mem_toDigits (by decide) (by decide) h)
  | negSucc n =>
    rw [toList_toString_negSucc, List.mem_cons] at h
    rcases h with rfl | h
    · exact .inr rfl
    · exact .inl (Nat.isDigit_of_mem_toDigits (by decide) (by decide) h)

theorem toString_ne_empty (v : Int) : toString v ≠ "" := by
  rw [Ne, ← String.toList_eq_nil_iff]
  cases v with
  | ofNat n =>
    rw [toList_toString_ofNat]
    exact Nat.toDigits_ne_nil
  | negSucc n =>
    rw [toList_toString_negSucc]
    exact List.cons_ne_nil _ _

theorem separatedDigits?_toDigits (n : Nat) : separatedDigits? (Nat.toDigits 10 n) = some n := by
  have hdigit : ∀ c ∈ Nat.toDigits 10 n, c.isDigit = true := fun c hc =>
    Nat.isDigit_of_mem_toDigits (by decide) (by decide) hc
  have hhead : (Nat.toDigits 10 n).head? ≠ some '_' := by
    intro hhead
    exact absurd (hdigit _ (List.mem_of_mem_head? hhead)) (by decide)
  have hall : (Nat.toDigits 10 n).all (fun c => c.isDigit || c = '_') = true := by
    rw [List.all_eq_true]
    intro c hc
    simp [hdigit c hc]
  have hne : (Nat.toDigits 10 n).isEmpty = false := by simp [Nat.toDigits_ne_nil]
  rw [separatedDigits?, if_neg hhead, hall, hne, List.filter_eq_self.mpr hdigit,
    digitsValue_eq_ofDigitChars, Nat.ofDigitChars_ten_toDigits]
  rfl

/-- An integer of any size is read back. -/
theorem integer?_toString (v : Int) : integer? (toString v) = some v := by
  unfold integer?
  cases v with
  | ofNat n =>
    obtain ⟨c, rest, hcons, hplus, hminus⟩ := exists_toDigits_eq_cons n
    have hread : separatedDigits? (c :: rest) = some n := hcons ▸ separatedDigits?_toDigits n
    rw [toList_toString_ofNat, hcons]
    split
    · rename_i heq
      exact absurd (List.cons.inj heq).1 hplus
    · rename_i heq
      exact absurd (List.cons.inj heq).1 hminus
    · rw [hread]
      rfl
  | negSucc n =>
    rw [toList_toString_negSucc]
    simp only [separatedDigits?_toDigits, Option.map_some]
    rfl

/-- Zeros in front do not change the number. -/
theorem digitsValue_fourDigits (n : Nat) : digitsValue (fourDigits n).toList = n := by
  rw [digitsValue_eq_ofDigitChars, fourDigits, padLeft, String.toList_append, String.toList_ofList,
    toList_decimal, Nat.ofDigitChars_append, Nat.ofDigitChars_replicate_zero, Nat.mul_zero,
    Nat.ofDigitChars_ten_toDigits]

theorem fourDigits_injective : Function.Injective fourDigits := by
  intro a b h
  rw [← digitsValue_fourDigits a, h, digitsValue_fourDigits]

theorem isDigit_of_mem_fourDigits {n : Nat} {c : Char} (h : c ∈ (fourDigits n).toList) :
    c.isDigit = true := by
  rw [fourDigits, padLeft, String.toList_append, String.toList_ofList, List.mem_append] at h
  rcases h with h | h
  · rw [List.eq_of_mem_replicate h]
    rfl
  · exact isDigit_of_mem_decimal h

theorem fourDigits_ne_empty (n : Nat) : fourDigits n ≠ "" := by
  rw [Ne, ← String.toList_eq_nil_iff, fourDigits, padLeft, String.toList_append, toList_decimal]
  exact List.append_ne_nil_of_right_ne_nil _ Nat.toDigits_ne_nil

/-! ### Lines -/

theorem linesOnto_append {chars : List Char} (h : '\n' ∉ chars) (done : List (List Char))
    (current rest : List Char) :
    linesOnto done current (chars ++ rest) = linesOnto done (chars.reverse ++ current) rest := by
  induction chars generalizing current with
  | nil => rfl
  | cons c chars ih =>
    rw [List.mem_cons, not_or] at h
    rw [List.cons_append, linesOnto, ih h.2]
    · simp
    · exact fun hc => h.1 hc.symm

theorem closeLine_reverse {line : List Char} (h : line.getLast? ≠ some '\r') :
    closeLine line.reverse = line := by
  unfold closeLine
  split
  · rename_i chars hline
    rw [List.reverse_eq_iff, List.reverse_cons] at hline
    exact absurd (by simp [hline]) h
  · exact List.reverse_reverse line

/-- Lines that do not end in a carriage return are found again in front of anything. -/
theorem linesOnto_flatMap {lines : List (List Char)}
    (h : ∀ line ∈ lines, '\n' ∉ line ∧ line.getLast? ≠ some '\r') (done : List (List Char))
    (rest : List Char) :
    linesOnto done [] ((lines.flatMap fun line => line ++ ['\n']) ++ rest) =
      linesOnto (lines.reverse ++ done) [] rest := by
  induction lines generalizing done with
  | nil => rfl
  | cons line lines ih =>
    obtain ⟨hnewline, hreturn⟩ := h line List.mem_cons_self
    rw [List.flatMap_cons, List.append_assoc, List.append_assoc, linesOnto_append hnewline,
      List.singleton_append, List.append_nil, linesOnto, closeLine_reverse hreturn,
      ih fun line hline => h line (List.mem_cons_of_mem _ hline)]
    simp

theorem lines_flatMap {lines : List (List Char)}
    (h : ∀ line ∈ lines, '\n' ∉ line ∧ line.getLast? ≠ some '\r') :
    Text.lines (String.ofList (lines.flatMap fun line => line ++ ['\n'])) = lines := by
  have hall := linesOnto_flatMap h [] []
  rw [List.append_nil] at hall
  rw [Text.lines, String.toList_ofList, hall]
  simp [linesOnto]

/-- What stands behind a line feed is read by itself. -/
theorem linesOnto_append_newline (done : List (List Char)) (current chars rest : List Char) :
    linesOnto done current (chars ++ '\n' :: rest) =
      linesOnto (linesOnto done current (chars ++ ['\n'])) [] rest := by
  induction chars generalizing done current with
  | nil => rfl
  | cons c chars ih =>
    by_cases hc : c = '\n'
    · subst hc
      rw [List.cons_append, List.cons_append, linesOnto, ih, linesOnto]
    · rw [List.cons_append, List.cons_append, linesOnto, ih, linesOnto]
      · exact hc
      · exact hc

/-- Lines at the end of a text are found again, whatever stands before them. -/
theorem lines_append_flatMap {lines : List (List Char)}
    (h : ∀ line ∈ lines, '\n' ∉ line ∧ line.getLast? ≠ some '\r') (chars : List Char) :
    ∃ above, Text.lines (String.ofList
      (chars ++ '\n' :: lines.flatMap fun line => line ++ ['\n'])) = above ++ lines := by
  have hall := linesOnto_flatMap h (linesOnto [] [] (chars ++ ['\n'])) []
  rw [List.append_nil] at hall
  rw [Text.lines, String.toList_ofList, linesOnto_append_newline, hall]
  exact ⟨(linesOnto [] [] (chars ++ ['\n'])).reverse, by simp [linesOnto]⟩

/-- Without a line feed behind the last line, that line must not be empty. -/
theorem linesOnto_intercalate {lines : List (List Char)}
    (h : ∀ line ∈ lines, '\n' ∉ line ∧ line.getLast? ≠ some '\r') (hne : ∀ line ∈ lines, line ≠ [])
    (done : List (List Char)) :
    linesOnto done [] (['\n'].intercalate lines) = lines.reverse ++ done := by
  induction lines generalizing done with
  | nil => rfl
  | cons line lines ih =>
    obtain ⟨hnewline, hreturn⟩ := h line List.mem_cons_self
    cases lines with
    | nil =>
      have hline := hne line List.mem_cons_self
      have hlast := linesOnto_append hnewline done [] []
      simp only [List.append_nil] at hlast
      rw [List.intercalate_singleton, hlast]
      simp [linesOnto, hline]
    | cons next lines =>
      rw [List.intercalate_cons_cons, List.append_assoc, linesOnto_append hnewline,
        List.singleton_append, List.append_nil, linesOnto, closeLine_reverse hreturn,
        ih (fun l hl => h l (List.mem_cons_of_mem _ hl)) fun l hl => hne l (List.mem_cons_of_mem _ hl)]
      simp

theorem lines_intercalate {lines : List (List Char)}
    (h : ∀ line ∈ lines, '\n' ∉ line ∧ line.getLast? ≠ some '\r') (hne : ∀ line ∈ lines, line ≠ []) :
    Text.lines (String.ofList (['\n'].intercalate lines)) = lines := by
  rw [Text.lines, String.toList_ofList, linesOnto_intercalate h hne]
  simp

theorem linesOnto_eq (done : List (List Char)) (current chars : List Char) :
    linesOnto done current chars = linesOnto [] current chars ++ done := by
  induction chars generalizing done current with
  | nil =>
    rw [linesOnto, linesOnto]
    split <;> simp
  | cons c rest ih =>
    by_cases hc : c = '\n'
    · subst hc
      rw [linesOnto, linesOnto, ih (_ :: done), ih [_]]
      simp
    · rw [linesOnto, linesOnto, ih done]
      · exact hc
      · exact hc

/-- A line goes on as it has begun. Only a carriage return at its end may get lost. -/
theorem linesOnto_begun {head : List Char} (hne : head ≠ []) (hreturn : head.getLast? ≠ some '\r')
    (done : List (List Char)) (current rest : List Char) :
    ∃ more others, linesOnto done (current ++ head.reverse) rest = others ++ (head ++ more) :: done := by
  induction rest generalizing current with
  | nil =>
    rw [linesOnto, if_neg (by simp [hne])]
    exact ⟨current.reverse, [], by simp⟩
  | cons c rest ih =>
    by_cases hc : c = '\n'
    · subst hc
      obtain ⟨more, hmore⟩ : ∃ more, closeLine (current ++ head.reverse) = head ++ more := by
        cases current with
        | nil => exact ⟨[], by rw [List.nil_append, closeLine_reverse hreturn, List.append_nil]⟩
        | cons last current =>
          unfold closeLine
          split
          · rename_i chars heq
            obtain ⟨-, rfl⟩ := List.cons.inj heq
            exact ⟨current.reverse, by simp⟩
          · exact ⟨(last :: current).reverse, by simp⟩
      rw [linesOnto, linesOnto_eq, hmore]
      exact ⟨more, _, rfl⟩
    · rw [linesOnto]
      · exact ih (c :: current)
      · exact hc

/-- Lines are found again, and what follows them is the beginning of a line. -/
theorem lines_flatMap_append {lines : List (List Char)}
    (h : ∀ line ∈ lines, '\n' ∉ line ∧ line.getLast? ≠ some '\r') {head : List Char} (hne : head ≠ [])
    (hnewline : '\n' ∉ head) (hreturn : head.getLast? ≠ some '\r') (rest : List Char) :
    ∃ more others, Text.lines (String.ofList ((lines.flatMap fun line => line ++ ['\n']) ++
      (head ++ rest))) = lines ++ (head ++ more) :: others := by
  obtain ⟨more, others, hlines⟩ := linesOnto_begun hne hreturn lines.reverse [] rest
  rw [Text.lines, String.toList_ofList, linesOnto_flatMap h, linesOnto_append hnewline]
  rw [List.nil_append] at hlines
  rw [List.append_nil, List.append_nil, hlines]
  exact ⟨more, others.reverse, by simp⟩

/-- A line holds no line feed. -/
theorem newline_not_mem_of_mem_lines {text : String} {line : List Char} (h : line ∈ lines text) :
    '\n' ∉ line := by
  have hgeneral : ∀ (chars : List Char) (done : List (List Char)) (current : List Char),
      (∀ line ∈ done, '\n' ∉ line) → '\n' ∉ current →
      ∀ line ∈ linesOnto done current chars, '\n' ∉ line := by
    intro chars done current hdone hcurrent
    fun_induction linesOnto done current chars with
    | case1 done current hempty => exact hdone
    | case2 done current hempty =>
      rw [List.forall_mem_cons]
      exact ⟨by simpa using hcurrent, hdone⟩
    | case3 done current rest ih =>
      refine ih ?_ (by simp)
      rw [List.forall_mem_cons]
      refine ⟨?_, hdone⟩
      unfold closeLine
      split <;> simp_all
    | case4 done current c rest hc ih =>
      refine ih hdone ?_
      rw [List.mem_cons, not_or]
      exact ⟨fun h => hc h.symm, hcurrent⟩
  rw [lines, List.mem_reverse] at h
  exact hgeneral _ [] [] (by simp) (by simp) line h

/-! ### ASCII text -/

namespace Utf8

/-- An ASCII character is one byte. -/
theorem encode_ascii {chars : List Char} (h : ∀ c ∈ chars, c.toNat < 128) :
    encode chars = chars.map fun c => UInt8.ofNat c.toNat := by
  induction chars with
  | nil => rfl
  | cons c rest ih =>
    have hsize : c.utf8Size = 1 := by
      have := h c List.mem_cons_self
      rw [Char.utf8Size_eq_one_iff]
      exact Nat.le_of_lt_succ this
    rw [encode, List.flatMap_cons, String.utf8EncodeChar_eq_singleton hsize, List.map_cons, ← encode,
      ih fun c hc => h c (List.mem_cons_of_mem _ hc)]
    rfl

theorem partsOnto_ascii (done : List (Option Char)) {chars : List Char}
    (h : ∀ c ∈ chars, c.toNat < 128) :
    partsOnto done (chars.map fun c => UInt8.ofNat c.toNat) = (chars.map some).reverse ++ done := by
  induction chars generalizing done with
  | nil => simp [partsOnto]
  | cons c rest ih =>
    have hc : c.toNat < 128 := h c List.mem_cons_self
    have hbyte : (UInt8.ofNat c.toNat).toNat = c.toNat :=
      UInt8.toNat_ofNat_of_lt' (Nat.lt_trans hc (by decide))
    have hlow : UInt8.ofNat c.toNat < 0x80 := by
      rw [UInt8.lt_iff_toNat_lt, hbyte]
      exact hc
    have hnext : next (UInt8.ofNat c.toNat) (rest.map fun c => UInt8.ofNat c.toNat) =
        (some c, rest.map fun c => UInt8.ofNat c.toNat) := by
      rw [next, if_pos hlow, hbyte, Char.ofNat_toNat]
    rw [List.map_cons, partsOnto, hnext, ih _ fun c hc => h c (List.mem_cons_of_mem _ hc)]
    simp

/-- ASCII text is read back. -/
theorem decodeLossy_ofString {text : String} (h : ∀ c ∈ text.toList, c.toNat < 128) :
    decodeLossy (ofString text) = text := by
  have hparts : parts (ofString text) = text.toList.map some := by
    rw [parts, ofString, encode_ascii h, partsOnto_ascii [] h]
    simp
  rw [decodeLossy, hparts, List.map_map]
  exact (congrArg String.ofList (List.map_id' text.toList)).trans String.ofList_toList

end Utf8

/-! ### Byte strings -/

namespace Hex

theorem toList_encode (bytes : Bytes) : (encode bytes).toList = bytes.flatMap pair := by
  rw [encode, String.toList_ofList]

theorem toNat_digit_lt {n : Nat} (h : n < 16) : (digit n).toNat < 128 := by
  revert n
  decide

theorem digitValue?_digit {n : Nat} (h : n < 16) :
    digitValue? (UInt8.ofNat (digit n).toNat) = some n := by
  revert n
  decide

/-- The two halves of a byte are below sixteen and make up the byte. -/
theorem halves (b : UInt8) :
    b.toNat / 16 < 16 ∧ b.toNat % 16 < 16 ∧ UInt8.ofNat (16 * (b.toNat / 16) + b.toNat % 16) = b := by
  have hlt := b.toNat_lt
  refine ⟨by omega, by omega, ?_⟩
  rw [Nat.div_add_mod, UInt8.ofNat_toNat]

/-- Each byte is written as the bytes of two digits. -/
theorem ofString_encode (bytes : Bytes) : Utf8.ofString (encode bytes) = bytes.flatMap fun b =>
    [UInt8.ofNat (digit (b.toNat / 16)).toNat, UInt8.ofNat (digit (b.toNat % 16)).toNat] := by
  have hascii : ∀ c ∈ bytes.flatMap pair, c.toNat < 128 := by
    intro c hc
    obtain ⟨b, -, hb⟩ := List.mem_flatMap.mp hc
    obtain ⟨hhigh, hlow, -⟩ := halves b
    simp only [pair, List.mem_cons, List.not_mem_nil, or_false] at hb
    rcases hb with rfl | rfl
    · exact toNat_digit_lt hhigh
    · exact toNat_digit_lt hlow
  rw [Utf8.ofString, toList_encode, Utf8.encode_ascii hascii, List.map_flatMap]
  rfl

theorem length_ofString_encode (bytes : Bytes) :
    (Utf8.ofString (encode bytes)).length = 2 * bytes.length := by
  rw [ofString_encode]
  induction bytes with
  | nil => rfl
  | cons b rest ih =>
    rw [List.flatMap_cons, List.length_append, ih, List.length_cons]
    simp
    omega

theorem decodePairs_ofString_encode (position : Nat) (done bytes : Bytes) :
    decodePairs position done (Utf8.ofString (encode bytes)) = .ok (done.reverse ++ bytes) := by
  rw [ofString_encode]
  induction bytes generalizing position done with
  | nil => simp [decodePairs]
  | cons b rest ih =>
    obtain ⟨hhigh, hlow, hbyte⟩ := halves b
    rw [List.flatMap_cons, List.cons_append, List.cons_append, List.nil_append, decodePairs,
      digitValue?_digit hhigh, digitValue?_digit hlow]
    simp only [hbyte]
    rw [ih]
    simp

/-- A byte string is read back from its digits. -/
theorem decode_encode (bytes : Bytes) : decode (encode bytes) = .ok bytes := by
  simp only [decode]
  rw [length_ofString_encode, if_neg (by omega), decodePairs_ofString_encode]
  rfl

theorem decodeExact_encode (bytes : Bytes) : decodeExact bytes.length (encode bytes) = .ok bytes := by
  simp only [decodeExact]
  rw [length_ofString_encode, if_neg (by omega), if_neg (by omega), decodePairs_ofString_encode]
  rfl

theorem toList_encodeMarked (bytes : Bytes) :
    (encodeMarked bytes).toList = '0' :: 'x' :: bytes.flatMap pair := by
  rw [encodeMarked, String.toList_append, toList_encode]
  rfl

end Hex

theorem hasMarker_encodeMarked (bytes : Bytes) : hasMarker (Hex.encodeMarked bytes) = true := by
  rw [hasMarker, Hex.toList_encodeMarked]
  rfl

theorem dropMarker_encodeMarked (bytes : Bytes) :
    dropMarker (Hex.encodeMarked bytes) = Hex.encode bytes := by
  rw [dropMarker, Hex.toList_encodeMarked]
  rfl

end Text

/-- A hash is read back from its digits behind the marker. -/
theorem ScriptHash.parse_render (hash : ScriptHash) :
    ScriptHash.parse ("0x" ++ hash.render) = .ok hash := by
  have hdigits : Text.dropMarker ("0x" ++ hash.render) = Text.Hex.encode hash.bytes :=
    Text.dropMarker_encodeMarked hash.bytes
  have hbytes := Text.Hex.decodeExact_encode hash.bytes
  rw [hash.length_bytes] at hbytes
  rw [ScriptHash.parse, hdigits, hbytes]
  simp only [ScriptHash.ofBytes?, dif_pos hash.length_bytes]

end StackScript
