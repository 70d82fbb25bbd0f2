import StackScript.Bytes

/-!
# UTF-8

Text and bytes meet in three places: string literals become data, host call names come out of
scripts, and source files are read. `encode` writes characters as bytes. Reading goes by `parts`:
it cuts a byte string into well-formed characters and ill-formed stretches, each of them the
longest that could still have begun a character. `decode?` wants no ill-formed stretch, and
`decodeLossy` shows each one as U+FFFD.
-/

namespace StackScript.Text.Utf8

/-- The bytes of a list of characters. -/
def encode (chars : List Char) : Bytes := chars.flatMap String.utf8EncodeChar

/-- The bytes of a text. -/
def ofString (text : String) : Bytes := encode text.toList

/-- Whether every character of a text is ASCII. -/
def isAscii (text : String) : Bool := text.toList.all fun c => c.toNat < 128

/-! ### Reading one character -/

/-- What a first byte of a longer character asks for: its own share of the code point, the number
of bytes that follow, and the range of the first of these. -/
structure Lead where
  /-- The bits the first byte contributes. -/
  bits : Nat
  /-- How many bytes follow. -/
  owed : Nat
  /-- The least byte that may come second. -/
  low : UInt8
  /-- The greatest byte that may come second. -/
  high : UInt8

/-- The demands of a first byte that is not ASCII, or `none` where no character starts with it. -/
def lead? (b : UInt8) : Option Lead :=
  if 0xc2 ≤ b ∧ b ≤ 0xdf then some ⟨b.toNat - 0xc0, 1, 0x80, 0xbf⟩
  else if b = 0xe0 then some ⟨0, 2, 0xa0, 0xbf⟩
  else if b = 0xed then some ⟨0xd, 2, 0x80, 0x9f⟩
  else if 0xe1 ≤ b ∧ b ≤ 0xef then some ⟨b.toNat - 0xe0, 2, 0x80, 0xbf⟩
  else if b = 0xf0 then some ⟨0, 3, 0x90, 0xbf⟩
  else if 0xf1 ≤ b ∧ b ≤ 0xf3 then some ⟨b.toNat - 0xf0, 3, 0x80, 0xbf⟩
  else if b = 0xf4 then some ⟨4, 3, 0x80, 0x8f⟩
  else none

/-- Reads `owed` further bytes onto `bits`, the first of them within `low` and `high`. Stops before
the byte that does not fit. -/
def tail (bits : Nat) : (owed : Nat) → (low high : UInt8) → Bytes → Option Char × Bytes
  | 0, _, _, rest => (some (Char.ofNat bits), rest)
  | owed + 1, low, high, b :: rest =>
      if low ≤ b ∧ b ≤ high then tail (64 * bits + (b.toNat - 0x80)) owed 0x80 0xbf rest
      else (none, b :: rest)
  | _ + 1, _, _, [] => (none, [])

/-- The character that starts with `b`, or `none` for an ill-formed stretch; and what follows. -/
def next (b : UInt8) (rest : Bytes) : Option Char × Bytes :=
  if b < 0x80 then (some (Char.ofNat b.toNat), rest)
  else match lead? b with
    | none => (none, rest)
    | some lead => tail lead.bits lead.owed lead.low lead.high rest

theorem length_tail_le (bits owed : Nat) (low high : UInt8) (rest : Bytes) :
    (tail bits owed low high rest).2.length ≤ rest.length := by
  induction owed generalizing bits low high rest with
  | zero => simp [tail]
  | succ owed ih =>
    cases rest with
    | nil => simp [tail]
    | cons b rest =>
      simp only [tail]
      split
      · exact Nat.le_trans (ih _ _ _ _) (by simp)
      · simp

/-- Reading on from the second byte never gives bytes back. -/
theorem length_next_le (b : UInt8) (rest : Bytes) : (next b rest).2.length ≤ rest.length := by
  unfold next
  split
  · simp
  · split
    · simp
    · exact length_tail_le ..

/-! ### Reading a byte string -/

/-- Puts the parts of a byte string, last one first, in front of `done`. -/
def partsOnto (done : List (Option Char)) : Bytes → List (Option Char)
  | [] => done
  | b :: rest =>
      have : (next b rest).2.length < rest.length + 1 := Nat.lt_succ_of_le (length_next_le b rest)
      partsOnto ((next b rest).1 :: done) (next b rest).2
  termination_by bytes => bytes.length

/-- The parts of a byte string in order: `some` for each character, `none` for each ill-formed
stretch. -/
def parts (bytes : Bytes) : List (Option Char) := (partsOnto [] bytes).reverse

/-- The text of a byte string, if it is well-formed throughout. -/
def decode? (bytes : Bytes) : Option String :=
  let found := parts bytes
  if found.all Option.isSome then some (String.ofList (found.filterMap id)) else none

/-- The text of a byte string, with U+FFFD for each ill-formed stretch. -/
def decodeLossy (bytes : Bytes) : String :=
  String.ofList ((parts bytes).map fun part => part.getD '\ufffd')

end StackScript.Text.Utf8
