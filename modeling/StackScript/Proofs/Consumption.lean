import StackScript.Proofs.Encoding

/-!
# What readers consume

A reader moves the cursor forward and never past the end of the script, whether it succeeds or
fails (`Reader.Forward`). What it has consumed when it succeeds stands in the script
(`Script.Holds`), and for every operand but one it is what would be written for the value read.
The exception is the name of a host call, whose length may be written in several widths.

Main statements: decoding ends behind the cursor and within the script
(`Instruction.decodeAt_bounds`); an instruction that is read can be written, and was written as it
would be, unless it is a host call (`Instruction.holds_of_decodeAt`); a host call was written so if
its length takes one byte (`Instruction.holds_of_syscall`).
-/

namespace StackScript

/-! ### The cursor -/

namespace Reader

variable {α β : Type}

/-- The reader moves the cursor forward, and not past the end of the script. -/
def Forward (reader : Reader α) : Prop :=
  ∀ script cursor, cursor ≤ script.size →
    Outcome (fun _ next => cursor ≤ next ∧ next ≤ script.size)
      (fun _ next => cursor ≤ next ∧ next ≤ script.size) (reader.runAt script cursor)

theorem Forward.pure (a : α) : Forward (pure a) := fun _ _ h => ⟨Nat.le_refl _, h⟩

theorem Forward.throw (cause : DecodeError) : Forward (throw cause : Reader α) :=
  fun _ _ h => ⟨Nat.le_refl _, h⟩

theorem Forward.bind {m : Reader α} {f : α → Reader β} (hm : Forward m) (hf : ∀ a, Forward (f a)) :
    Forward (m >>= f) := by
  intro script cursor hcursor
  have hfirst := hm script cursor hcursor
  rw [runAt_bind]
  cases hrun : m.runAt script cursor with
  | error cause next =>
    rw [hrun] at hfirst
    exact hfirst
  | ok a next =>
    rw [hrun] at hfirst
    obtain ⟨hle, hend⟩ := hfirst
    refine (hf a script next hend).mono ?_ ?_
    · intro _ last hlast
      exact ⟨hle.trans hlast.1, hlast.2⟩
    · intro _ last hlast
      exact ⟨hle.trans hlast.1, hlast.2⟩

theorem forward_exact (count : Nat) : Forward (exact count) := by
  intro script cursor hcursor
  rw [runAt_exact, Script.slice?_eq, Script.length_bytes]
  split
  · rename_i hslice
    split at hslice
    · rename_i hend
      exact ⟨Nat.le_add_right _ _, hend⟩
    · cases hslice
  · exact ⟨Nat.le_refl _, hcursor⟩

theorem forward_natural (width : Nat) : Forward (natural width) :=
  (forward_exact width).bind fun _ => .pure _

theorem forward_signed (width : Nat) : Forward (signed width) :=
  (forward_exact width).bind fun _ => .pure _

theorem forward_byte : Forward byte := (forward_natural 1).bind fun _ => .pure _

theorem forward_hash : Forward hash := (forward_exact 20).bind fun _ => .pure _

theorem forward_data1 : Forward data1 := (forward_natural 1).bind forward_exact

theorem forward_data2 : Forward data2 := (forward_natural 2).bind forward_exact

theorem forward_data4 : Forward data4 := by
  refine (forward_signed 4).bind fun length => ?_
  split
  · exact .throw _
  · exact forward_exact _

theorem forward_varNatural : Forward varNatural := by
  refine (forward_natural 1).bind fun first => ?_
  split
  · exact forward_natural 2
  · exact forward_natural 4
  · exact forward_natural 8
  · exact .pure _

theorem forward_varBytes (max : Nat) : Forward (varBytes max) := by
  refine forward_varNatural.bind fun length => ?_
  split
  · exact .throw _
  · exact forward_exact _

end Reader

namespace Instruction

open Reader

theorem forward_readArguments (op : Opcode) : Forward (readArguments op) := by
  cases op with
  | plain op => exact .pure _
  | ret => exact .pure _
  | pushData width =>
    cases width with
    | one => exact forward_data1.bind fun _ => .pure _
    | two => exact forward_data2.bind fun _ => .pure _
    | four => exact forward_data4.bind fun _ => .pure _
  | jump kind => exact (forward_signed 2).bind fun _ => .pure _
  | invoke kind => exact forward_hash.bind fun _ => .pure _
  | syscall => exact (forward_varBytes _).bind fun _ => .pure _

theorem forward_readOperand (byte : UInt8) (offset : Nat) : Forward (readOperand byte offset) := by
  unfold readOperand
  split
  · exact (forward_exact _).bind fun _ => .pure _
  · cases Opcode.ofByte? byte with
    | some op => exact forward_readArguments op
    | none => exact .throw _

end Instruction

/-! ### Bytes in a script -/

/-- The bytes stand in the script from `start` up to `stop`. -/
def Script.Holds (script : Script) (start stop : Nat) (bytes : Bytes) : Prop :=
  ∃ before after, script.bytes = before ++ bytes ++ after ∧ before.length = start ∧
    start + bytes.length = stop

namespace Script.Holds

variable {script : Script} {start middle stop : Nat} {bytes bytes' : Bytes}

theorem nil (h : start ≤ script.size) : script.Holds start start [] := by
  refine ⟨script.bytes.take start, script.bytes.drop start, by simp, ?_, rfl⟩
  rw [List.length_take, Script.length_bytes]
  omega

theorem append (h : script.Holds start middle bytes) (h' : script.Holds middle stop bytes') :
    script.Holds start stop (bytes ++ bytes') := by
  obtain ⟨before, after, hscript, hbefore, hmiddle⟩ := h
  obtain ⟨before', after', hscript', hbefore', hstop⟩ := h'
  have hsame : before ++ bytes ++ after = before' ++ (bytes' ++ after') := by
    rw [← hscript, hscript', List.append_assoc]
  obtain ⟨-, rfl⟩ := List.append_inj hsame (by rw [List.length_append]; omega)
  refine ⟨before, after', by simp [hscript], hbefore, ?_⟩
  rw [List.length_append]
  omega

theorem stop_le (h : script.Holds start stop bytes) : stop ≤ script.size := by
  obtain ⟨before, after, hscript, hbefore, hstop⟩ := h
  have hlength := congrArg List.length hscript
  simp only [Script.length_bytes, List.length_append] at hlength
  omega

theorem stop_eq (h : script.Holds start stop bytes) : start + bytes.length = stop := by
  obtain ⟨_, _, _, _, hstop⟩ := h
  exact hstop

theorem getElem?_eq {b : UInt8} (h : script.Holds start stop (b :: bytes)) :
    script.bytes[start]? = some b := by
  obtain ⟨before, after, hscript, rfl, -⟩ := h
  rw [hscript, List.append_assoc, List.getElem?_append_right (Nat.le_refl _)]
  simp

/-- The script from `start` on begins with the bytes. -/
theorem drop_eq (h : script.Holds start stop bytes) :
    script.bytes.drop start = bytes ++ script.bytes.drop stop := by
  obtain ⟨before, after, hscript, rfl, rfl⟩ := h
  have hprefix : (before ++ bytes).length = before.length + bytes.length := List.length_append
  rw [hscript, ← hprefix, List.drop_left, List.append_assoc, List.drop_left]

end Script.Holds

/-! ### Numbers -/

theorem Bytes.ofNat_toNat (bytes : Bytes) : Bytes.ofNat bytes.length bytes.toNat = bytes := by
  induction bytes with
  | nil => rfl
  | cons b rest ih =>
    have hb := b.toNat_lt
    have hlow : UInt8.ofNat (b.toNat + 256 * Bytes.toNat rest) = b := by
      rw [← UInt8.toNat_inj, UInt8.toNat_ofNat']
      omega
    have hhigh : (b.toNat + 256 * Bytes.toNat rest) / 256 = Bytes.toNat rest := by omega
    rw [List.length_cons, Bytes.ofNat_succ, Bytes.toNat_cons, hlow, hhigh, ih]

theorem Bytes.toNat_lt (bytes : Bytes) : bytes.toNat < 256 ^ bytes.length := by
  rw [← Bytes.ofNat_toNat bytes, Bytes.toNat_ofNat, Bytes.length_ofNat]
  exact Nat.mod_lt _ (Nat.pow_pos (by decide))

namespace Number.TwosComplement

@[simp] theorem length_complement (bytes : Bytes) : (complement bytes).length = bytes.length := by
  simp [complement]

/-- A number read at a width is written as it was. -/
theorem encodeFixed_decode (bytes : Bytes) : encodeFixed bytes.length (decode bytes) = bytes := by
  unfold decode
  split
  · rw [encodeFixed, ← length_complement, Bytes.ofNat_toNat, complement_complement]
  · rw [encodeFixed, Bytes.ofNat_toNat]

/-- A clear top bit bounds the number. -/
theorem toNat_lt_of_isNegative {width : Nat} {bytes : Bytes} (hlength : bytes.length = width + 1)
    (h : isNegative bytes = false) : bytes.toNat < 128 * 256 ^ width := by
  induction width generalizing bytes with
  | zero =>
    obtain ⟨b, rfl⟩ := List.length_eq_one_iff.mp hlength
    have htop : (0x80 : UInt8).toNat = 128 := rfl
    simp only [isNegative, List.getLast?_singleton, decide_eq_false_iff_not, UInt8.le_iff_toNat_le,
      htop] at h
    simp
    omega
  | succ width ih =>
    obtain ⟨b, rest, rfl⟩ := List.exists_cons_of_length_eq_add_one hlength
    rw [List.length_cons, Nat.add_right_cancel_iff] at hlength
    obtain ⟨c, rest', rfl⟩ := List.exists_cons_of_length_eq_add_one hlength
    rw [isNegative, List.getLast?_cons_cons, ← isNegative] at h
    have hrest := ih hlength h
    have hb := b.toNat_lt
    rw [Bytes.toNat_cons, Nat.pow_succ]
    omega

/-- What is read at a width fits into it. -/
theorem decode_bounds {width : Nat} {bytes : Bytes} (hlength : bytes.length = width + 1) :
    -(128 * 256 ^ width : Nat) ≤ decode bytes ∧ decode bytes < (128 * 256 ^ width : Nat) := by
  unfold decode
  split
  · rename_i hnegative
    have hne : bytes ≠ [] := List.ne_nil_of_length_eq_add_one hlength
    have hlt := toNat_lt_of_isNegative ((length_complement bytes).trans hlength)
      (by rw [isNegative_complement hne, hnegative]; rfl)
    omega
  · rename_i hnegative
    have hlt := toNat_lt_of_isNegative hlength (by simpa using hnegative)
    simp only [Int.ofNat_eq_natCast]
    omega

end Number.TwosComplement

/-! ### What was read -/

namespace Reader

variable {α β : Type} {script : Script} {cursor next : Nat}

theorem runAt_bind_eq_ok {m : Reader α} {f : α → Reader β} {b : β}
    (h : (m >>= f).runAt script cursor = .ok b next) :
    ∃ a behind, m.runAt script cursor = .ok a behind ∧ (f a).runAt script behind = .ok b next := by
  rw [runAt_bind] at h
  cases hm : m.runAt script cursor with
  | ok a behind =>
    rw [hm] at h
    exact ⟨a, behind, rfl, h⟩
  | error cause behind =>
    rw [hm] at h
    cases h

theorem runAt_map_eq_ok {m : Reader α} {f : α → β} {b : β}
    (h : (m >>= fun a => pure (f a)).runAt script cursor = .ok b next) :
    ∃ a, m.runAt script cursor = .ok a next ∧ b = f a := by
  obtain ⟨a, behind, hm, hpure⟩ := runAt_bind_eq_ok h
  rw [runAt_pure, EStateM.Result.ok.injEq] at hpure
  obtain ⟨rfl, rfl⟩ := hpure
  exact ⟨a, hm, rfl⟩

theorem holds_exact {count : Nat} {bytes : Bytes}
    (h : (exact count).runAt script cursor = .ok bytes next) :
    script.Holds cursor next bytes ∧ bytes.length = count := by
  rw [runAt_exact] at h
  cases hslice : script.slice? cursor count with
  | none =>
    rw [hslice] at h
    cases h
  | some found =>
    have hlength := Script.length_of_slice? hslice
    rw [hslice] at h
    cases h
    rw [Script.slice?_eq] at hslice
    split at hslice
    · rename_i hend
      refine ⟨⟨script.bytes.take cursor, script.bytes.drop (cursor + count), ?_, ?_, ?_⟩, hlength⟩
      · rw [← Option.some.inj hslice, Bytes.slice, ← List.take_add, List.take_append_drop]
      · rw [List.length_take]
        omega
      · rw [hlength]
    · cases hslice

theorem holds_natural {width n : Nat} (h : (natural width).runAt script cursor = .ok n next) :
    script.Holds cursor next (Bytes.ofNat width n) ∧ n < 256 ^ width := by
  obtain ⟨bytes, hread, rfl⟩ := runAt_map_eq_ok h
  obtain ⟨hholds, rfl⟩ := holds_exact hread
  rw [Bytes.ofNat_toNat]
  exact ⟨hholds, bytes.toNat_lt⟩

theorem holds_byte {b : UInt8} (h : byte.runAt script cursor = .ok b next) :
    script.Holds cursor next [b] := by
  obtain ⟨n, hread, rfl⟩ := runAt_map_eq_ok h
  simpa using (holds_natural hread).1

theorem holds_signed {width : Nat} {v : Int}
    (h : (signed (width + 1)).runAt script cursor = .ok v next) :
    script.Holds cursor next (Number.TwosComplement.encodeFixed (width + 1) v) ∧
      -(128 * 256 ^ width : Nat) ≤ v ∧ v < (128 * 256 ^ width : Nat) := by
  obtain ⟨bytes, hread, rfl⟩ := runAt_map_eq_ok h
  obtain ⟨hholds, hlength⟩ := holds_exact hread
  rw [← hlength, Number.TwosComplement.encodeFixed_decode]
  exact ⟨hholds, Number.TwosComplement.decode_bounds hlength⟩

theorem holds_hash {found : ScriptHash} (h : hash.runAt script cursor = .ok found next) :
    script.Holds cursor next found.bytes := by
  obtain ⟨bytes, hread, rfl⟩ := runAt_map_eq_ok h
  obtain ⟨hholds, hlength⟩ := holds_exact hread
  rw [ScriptHash.ofBytes?, dif_pos hlength]
  exact hholds

/-- Data behind a length without sign. -/
theorem holds_counted {width : Nat} {data : Bytes}
    (h : (do exact (← natural width)).runAt script cursor = .ok data next) :
    script.Holds cursor next (Bytes.ofNat width data.length ++ data) ∧ data.length < 256 ^ width := by
  obtain ⟨n, behind, hlength, hread⟩ := runAt_bind_eq_ok h
  obtain ⟨hdata, rfl⟩ := holds_exact hread
  obtain ⟨hholds, hlt⟩ := holds_natural hlength
  exact ⟨hholds.append hdata, hlt⟩

/-- Data behind a length with a sign, which is not negative. -/
theorem holds_data4 {data : Bytes} (h : data4.runAt script cursor = .ok data next) :
    script.Holds cursor next (Bytes.ofNat 4 data.length ++ data) ∧
      data.length ≤ LengthWidth.four.max := by
  obtain ⟨length, behind, hlength, h⟩ := runAt_bind_eq_ok h
  obtain ⟨hholds, -, hlt⟩ := holds_signed hlength
  split at h
  · cases h
  · rename_i hsign
    obtain ⟨hdata, hcount⟩ := holds_exact h
    obtain ⟨n, rfl⟩ := Int.eq_ofNat_of_zero_le (Int.not_lt.mp hsign)
    obtain rfl : data.length = n := hcount
    refine ⟨hholds.append hdata, ?_⟩
    have hmax : LengthWidth.four.max = 2147483647 := rfl
    omega

/-- A name is at most as long as allowed. If its length is below all markers, it is one byte. -/
theorem holds_varBytes {max : Nat} {name : Bytes}
    (h : (varBytes max).runAt script cursor = .ok name next) :
    name.length ≤ max ∧ ∃ first, script.Holds cursor (cursor + 1) [first] ∧
      (first.toNat < 0xfd → first.toNat = name.length ∧ script.Holds (cursor + 1) next name) := by
  obtain ⟨length, behind, hlength, h⟩ := runAt_bind_eq_ok h
  obtain ⟨n, second, hfirst, hlength⟩ := runAt_bind_eq_ok hlength
  split at h
  · cases h
  · rename_i hmax
    obtain ⟨hname, rfl⟩ := holds_exact h
    obtain ⟨hholds, hlt⟩ := holds_natural hfirst
    obtain rfl : cursor + 1 = second := by simpa using hholds.stop_eq
    have hbyte : (UInt8.ofNat n).toNat = n := UInt8.toNat_ofNat_of_lt' hlt
    refine ⟨Nat.not_lt.mp hmax, UInt8.ofNat n, by simpa using hholds, fun hsmall => ?_⟩
    rw [hbyte] at hsmall ⊢
    split at hlength
    · omega
    · omega
    · omega
    · cases hlength
      exact ⟨rfl, hname⟩

end Reader

namespace Instruction

open Reader

variable {script : Script} {cursor next : Nat} {found : Instruction}

/-- The opcode is one byte, and the operand stands behind it. -/
theorem exists_opcode_of_decodeAt (h : decodeAt script cursor = .ok found next) :
    ∃ byte, script.Holds cursor (cursor + 1) [byte] ∧
      (readOperand byte cursor).runAt script (cursor + 1) = .ok found next := by
  rw [decodeAt_eq] at h
  cases hbyte : Reader.byte.runAt script cursor with
  | error cause behind =>
    rw [hbyte] at h
    cases h
  | ok byte behind =>
    rw [hbyte] at h
    have hholds := holds_byte hbyte
    obtain rfl : cursor + 1 = behind := hholds.stop_eq
    exact ⟨byte, hholds, h⟩

/-- **Decoding moves forward and stays within the script.** -/
theorem decodeAt_bounds (script : Script) {cursor : Nat} (hcursor : cursor ≤ script.size) :
    Outcome (fun _ next => cursor < next ∧ next ≤ script.size)
      (fun _ next => cursor ≤ next ∧ next ≤ script.size) (decodeAt script cursor) := by
  have hread : Forward Instruction.read := by
    refine Forward.bind (fun _ _ h => ⟨Nat.le_refl _, h⟩) fun offset => ?_
    exact forward_byte.bind fun byte => forward_readOperand byte offset
  have hbounds : Outcome _ _ (decodeAt script cursor) := hread script cursor hcursor
  cases hdecode : decodeAt script cursor with
  | error cause next =>
    rw [hdecode] at hbounds
    exact hbounds
  | ok found next =>
    obtain ⟨byte, hholds, hoperand⟩ := exists_opcode_of_decodeAt hdecode
    have hrest := forward_readOperand byte cursor script (cursor + 1) hholds.stop_le
    rw [hoperand] at hrest
    exact ⟨hrest.1, hrest.2⟩

/-- What stands behind an opcode of the table is what would be written there, unless the opcode is a
host call. -/
theorem holds_of_readArguments {op : Opcode} (hop : op ≠ .syscall) (hcursor : cursor ≤ script.size)
    (h : (readArguments op).runAt script cursor = .ok found next) :
    found.Encodable ∧ ∃ operand, found.encode = op.byte :: operand ∧
      script.Holds cursor next operand := by
  cases op with
  | plain op =>
    cases h
    exact ⟨trivial, [], rfl, .nil hcursor⟩
  | ret =>
    cases h
    exact ⟨trivial, [], rfl, .nil hcursor⟩
  | pushData width =>
    cases width with
    | one =>
      obtain ⟨data, hdata, rfl⟩ := runAt_map_eq_ok h
      obtain ⟨hholds, hlt⟩ := holds_counted hdata
      exact ⟨Nat.le_of_lt_succ hlt, _, rfl, hholds⟩
    | two =>
      obtain ⟨data, hdata, rfl⟩ := runAt_map_eq_ok h
      obtain ⟨hholds, hlt⟩ := holds_counted hdata
      exact ⟨Nat.le_of_lt_succ hlt, _, rfl, hholds⟩
    | four =>
      obtain ⟨data, hdata, rfl⟩ := runAt_map_eq_ok h
      obtain ⟨hholds, hmax⟩ := holds_data4 hdata
      exact ⟨hmax, _, rfl, hholds⟩
  | jump kind =>
    obtain ⟨offset, hoffset, rfl⟩ := runAt_map_eq_ok h
    obtain ⟨hholds, hbounds⟩ := holds_signed hoffset
    refine ⟨?_, _, rfl, hholds⟩
    simpa [Encodable, Number.TwosComplement.fits16] using hbounds
  | invoke kind =>
    obtain ⟨hash, hhash, rfl⟩ := runAt_map_eq_ok h
    exact ⟨trivial, _, rfl, holds_hash hhash⟩
  | syscall => exact absurd rfl hop

/-- **An instruction that is read can be written, and was written so**, unless it is a host call. -/
theorem holds_of_decodeAt (h : decodeAt script cursor = .ok found next) :
    found.Encodable ∧ ((∀ name, found ≠ .syscall name) → script.Holds cursor next found.encode) := by
  obtain ⟨byte, hbyte, h⟩ := exists_opcode_of_decodeAt h
  unfold readOperand at h
  split at h
  · rename_i hpush
    obtain ⟨data, hdata, rfl⟩ := runAt_map_eq_ok h
    obtain ⟨hholds, hlength⟩ := holds_exact hdata
    have hfirst : UInt8.ofNat data.length = byte := by rw [hlength, UInt8.ofNat_toNat]
    simp only [isPushBytes, Bool.and_eq_true, decide_eq_true_eq, UInt8.le_iff_toNat_le] at hpush
    refine ⟨?_, fun _ => ?_⟩
    · rw [Encodable, hlength]
      exact hpush
    · rw [encode, hfirst]
      exact hbyte.append hholds
  · cases hop : Opcode.ofByte? byte with
    | none =>
      rw [hop] at h
      cases h
    | some op =>
      rw [hop] at h
      by_cases hcall : op = .syscall
      · subst hcall
        obtain ⟨name, hname, rfl⟩ := runAt_map_eq_ok h
        exact ⟨(holds_varBytes hname).1, fun hne => absurd rfl (hne name)⟩
      · obtain ⟨hencodable, operand, hencode, hholds⟩ :=
          holds_of_readArguments hcall hbyte.stop_le h
        refine ⟨hencodable, fun _ => ?_⟩
        rw [hencode, Opcode.byte_ofByte? hop]
        exact hbyte.append hholds

theorem exists_name_of_decodeAt {name : Bytes}
    (h : decodeAt script cursor = .ok (.syscall name) next) :
    script.Holds cursor (cursor + 1) [Opcode.syscall.byte] ∧
      (varBytes maxNameLength).runAt script (cursor + 1) = .ok name next := by
  obtain ⟨byte, hbyte, h⟩ := exists_opcode_of_decodeAt h
  unfold readOperand at h
  split at h
  · obtain ⟨_, -, hne⟩ := runAt_map_eq_ok h
    cases hne
  · cases hop : Opcode.ofByte? byte with
    | none =>
      rw [hop] at h
      cases h
    | some op =>
      rw [hop] at h
      rw [← Opcode.byte_ofByte? hop] at hbyte
      cases op with
      | syscall =>
        obtain ⟨found, hname, heq⟩ := runAt_map_eq_ok h
        cases heq
        exact ⟨hbyte, hname⟩
      | plain op => cases h
      | ret => cases h
      | pushData width =>
        cases width <;>
        · obtain ⟨_, -, hne⟩ := runAt_map_eq_ok h
          cases hne
      | jump kind =>
        obtain ⟨_, -, hne⟩ := runAt_map_eq_ok h
        cases hne
      | invoke kind =>
        obtain ⟨_, -, hne⟩ := runAt_map_eq_ok h
        cases hne

/-- **A host call was written as it would be** if the byte behind its opcode is its length. -/
theorem holds_of_syscall {name : Bytes} (h : decodeAt script cursor = .ok (.syscall name) next)
    (hlength : script.bytes[cursor + 1]? = some (UInt8.ofNat name.length)) :
    script.Holds cursor next (syscall name).encode := by
  obtain ⟨hbyte, hname⟩ := exists_name_of_decodeAt h
  obtain ⟨hmax, first, hfirst, hsmall⟩ := holds_varBytes hname
  have hmax : name.length ≤ 252 := hmax
  obtain rfl : first = UInt8.ofNat name.length :=
    Option.some.inj (hfirst.getElem?_eq.symm.trans hlength)
  have hvalue : (UInt8.ofNat name.length).toNat = name.length :=
    UInt8.toNat_ofNat_of_lt' (Nat.lt_of_le_of_lt hmax (by decide))
  rw [hvalue] at hsmall
  exact hbyte.append (hfirst.append (hsmall (by omega)).2)

end Instruction

end StackScript
