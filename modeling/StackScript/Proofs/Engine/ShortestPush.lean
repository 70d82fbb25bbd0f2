import StackScript.Proofs.Building
import StackScript.Proofs.Engine.PushOnly
import StackScript.Proofs.Item.Equality

/-!
# The shortest push

A builder writes a push of bytes in one of four forms, chosen by the length, and a push of an
integer as a constant if there is one. What is written is run here by the machine, on a fresh frame.

An instruction whose opcode is in the range of pushes either cannot be read, and the step faults, or
pushes the item it stands for and ends where its bytes end (`Engine.first_step_cases`). What can be
read was written as it would be, so the question which push is the shortest is one about
instructions (`Instruction.length_encode_push_le`, `Instruction.length_encode_pushInteger_le`).

A length of four bytes is written without a sign and read with one. No instruction that can be read
has data longer than that, so nothing pushes it, whatever the bytes that are written turn into.

Main statements: `Engine.pushBytes_shortest`, `Engine.pushInteger_shortest`.
-/

namespace StackScript

open Number.TwosComplement

namespace Instruction

/-! ### Opcodes in the range of pushes -/

theorem isPush_ret : isPush Opcode.ret.byte = false := by decide

theorem isRefused_of_isPush {byte : UInt8} (h : isPush byte = true) :
    Control.isRefused byte = false := by
  rw [Control.isRefused, h]
  rfl

/-- What is read behind an opcode in the range of pushes is a push, and stands in the script as it
would be written. -/
theorem exists_pushed_of_isPush {script : Script} {cursor behind next : Nat} {byte : UInt8}
    {found : Instruction} (hbyte : Reader.byte.runAt script cursor = .ok byte behind)
    (hpush : isPush byte = true) (hdecode : decodeAt script cursor = .ok found next) :
    ∃ item, found.pushed? = some item ∧ found.Encodable ∧ cursor + found.encode.length = next := by
  obtain ⟨hencodable, hwritten⟩ := holds_of_decodeAt hdecode
  rcases pushes_of_not_refused hbyte (isRefused_of_isPush hpush) hdecode with
    rfl | ⟨item, hitem, -⟩
  · have hret := (hwritten fun _ h => Instruction.noConfusion h).getElem?_eq
    rw [(Reader.holds_byte hbyte).getElem?_eq] at hret
    rw [Option.some.inj hret, isPush_ret] at hpush
    cases hpush
  · refine ⟨item, hitem, hencodable, (hwritten fun name hname => ?_).stop_eq⟩
    rw [hname] at hitem
    cases hitem

theorem isPush_constant (c : Constant) : isPush (Plain.constant c).byte = true := by
  cases c with
  | empty => decide
  | minusOne => decide
  | small n =>
    revert n
    decide

/-- The opcode of a push is in the range of pushes, if it is not itself a length beyond the
range. -/
theorem exists_head_of_pushed? {found : Instruction} {item : Item} (h : found.pushed? = some item)
    (hshort : ∀ data, found = .pushBytes data → data.length ≤ 75) :
    ∃ byte, found.encode.head? = some byte ∧ isPush byte = true := by
  cases found with
  | pushBytes data =>
    refine ⟨UInt8.ofNat data.length, rfl, ?_⟩
    have hle := hshort data rfl
    have hbyte : (UInt8.ofNat data.length).toNat = data.length :=
      UInt8.toNat_ofNat_of_lt' (hle.trans_lt (by decide))
    have htop : (0x60 : UInt8).toNat = 96 := rfl
    rw [isPush, decide_eq_true_eq, UInt8.le_iff_toNat_le, hbyte, htop]
    omega
  | pushData width data => exact ⟨_, rfl, by cases width <;> decide⟩
  | plain op =>
    cases op with
    | constant c => exact ⟨_, rfl, isPush_constant c⟩
    | _ => cases h
  | _ => cases h

theorem length_le_of_push_eq {data bytes : Bytes} (h : push data = .pushBytes bytes) :
    bytes.length ≤ 75 := by
  unfold push at h
  split_ifs at h with _ hshort
  cases h
  exact hshort

theorem pushable_of_pushed? {found : Instruction} {item : Item} (h : found.pushed? = some item) :
    item.Pushable := by
  cases found with
  | pushBytes data | pushData width data =>
    cases h
    trivial
  | plain op =>
    cases op with
    | constant c =>
      cases h
      exact c.pushable_item
    | _ => cases h
  | _ => cases h

/-- The instructions that push a byte string. -/
theorem pushed?_eq_bytes_cases {found : Instruction} {data : Bytes}
    (h : found.pushed? = some (.bytes data)) :
    found = .pushBytes data ∨ (∃ width, found = .pushData width data) ∨
      (found = .plain (.constant .empty) ∧ data = []) := by
  cases found with
  | pushBytes bytes =>
    cases h
    exact .inl rfl
  | pushData width bytes =>
    cases h
    exact .inr (.inl ⟨width, rfl⟩)
  | plain op =>
    cases op with
    | constant c =>
      cases c with
      | empty =>
        cases h
        exact .inr (.inr ⟨rfl, rfl⟩)
      | _ => cases h
    | _ => cases h
  | _ => cases h

/-! ### Lengths of pushes -/

/-- The number of bytes in front of the data in the shortest push of `length` bytes. -/
def headerLength (length : Nat) : Nat :=
  if length ≤ 75 then 1 else if length < 0x100 then 2 else if length < 0x10000 then 3 else 5

theorem length_encode_pushData (width : LengthWidth) (data : Bytes) :
    (pushData width data).encode.length = 1 + width.bytes + data.length := by
  simp only [encode, List.cons_append, List.length_cons, List.length_append, Bytes.length_ofNat]
  omega

theorem length_encode_push (data : Bytes) :
    (push data).encode.length = headerLength data.length + data.length := by
  unfold push headerLength
  split
  · rename_i hempty
    rw [List.isEmpty_iff.mp hempty]
    rfl
  · split_ifs
    · exact Nat.add_comm ..
    · exact length_encode_pushData .one data
    · exact length_encode_pushData .two data
    · exact length_encode_pushData .four data

/-- More data takes a longer push. -/
theorem length_encode_push_mono {data data' : Bytes} (h : data.length ≤ data'.length) :
    (push data).encode.length ≤ (push data').encode.length := by
  rw [length_encode_push, length_encode_push]
  unfold headerLength
  split_ifs <;> omega

/-- Data that is pushed is not longer than a length of four bytes with a sign can say. -/
theorem length_le_of_pushed? {found : Instruction} {data : Bytes} (hencodable : found.Encodable)
    (h : found.pushed? = some (.bytes data)) : data.length ≤ 2147483647 := by
  rcases pushed?_eq_bytes_cases h with rfl | ⟨width, rfl⟩ | ⟨-, rfl⟩
  · exact hencodable.2.trans (by decide)
  · exact le_trans hencodable (by cases width <;> decide)
  · exact Nat.zero_le _

/-- **No push of the same bytes is shorter.** -/
theorem length_encode_push_le {found : Instruction} {data : Bytes} (hencodable : found.Encodable)
    (h : found.pushed? = some (.bytes data)) :
    (push data).encode.length ≤ found.encode.length := by
  rcases pushed?_eq_bytes_cases h with rfl | ⟨width, rfl⟩ | ⟨rfl, rfl⟩
  · rw [length_encode_push, headerLength, if_pos hencodable.2, Nat.add_comm]
    exact le_rfl
  · have hmax : data.length ≤ width.max := hencodable
    rw [length_encode_push, length_encode_pushData, headerLength]
    cases width <;> simp only [LengthWidth.bytes, LengthWidth.max] at hmax ⊢ <;> split_ifs <;> omega
  · exact le_rfl

/-- **No push of an item that is seen as the same integer is shorter.** -/
theorem length_encode_pushInteger_le {found : Instruction} {item : Item} {v : Int}
    (hencodable : found.Encodable) (h : found.pushed? = some item) (hv : item.integer? = some v) :
    (pushInteger v).encode.length ≤ found.encode.length := by
  have hpos := found.length_encode_pos
  have hpushable := pushable_of_pushed? h
  unfold pushInteger
  split_ifs with hminus hzero hsmall
  · exact hpos
  · exact hpos
  · exact hpos
  · -- No constant stands for the integer, so the item is one of its forms.
    cases item with
    | integer value =>
      cases hv
      exact absurd hpushable (not_or_intro hminus hsmall)
    | bytes data =>
      cases hv
      have hne : data ≠ [] := by
        rintro rfl
        exact hzero rfl
      refine le_trans (length_encode_push_mono ?_) (length_encode_push_le hencodable h)
      rw [length_encode]
      exact size_decode_le data hne
    | boolean value => exact hpushable.elim
    | container ref => exact hpushable.elim
    | host object => exact hpushable.elim

end Instruction

namespace Engine

/-! ### The first step of a fresh frame -/

/-- The engine in which a fresh frame has pushed an item, stands at `stop`, and has done nothing
else. -/
def pushedBy (e : Engine) (script : Script) (pushOnly : Bool) (item : Item) (stop : Nat) : Engine :=
  { e.load script pushOnly with
    frames :=
      { script, pushOnly, cursor := stop, breakpoints := e.breakpoints.sets.size } :: e.frames
    work := { e.work with eval := item :: e.work.eval } }

/-- The first step of a fresh frame puts the item on the evaluation stack, nothing else, and leaves
the cursor at `stop`. -/
structure FirstPushes (e : Engine) (script : Script) (pushOnly : Bool) (item : Item) (stop : Nat) :
    Prop where
  eval : (e.load script pushOnly).step.work.eval = item :: e.work.eval
  cursor : (e.load script pushOnly).step.cursor = stop

variable {e : Engine} {script : Script} {pushOnly : Bool}

/-- A fresh frame has no breakpoints. -/
theorem contains_load (e : Engine) (script : Script) (pushOnly : Bool) (offset : Nat) :
    (e.load script pushOnly).breakpoints.contains e.breakpoints.sets.size offset = false := by
  simp [load, Breakpoints.fresh, Breakpoints.contains, Breakpoints.offsets]

/-- **The first step of a frame that begins with a push.** The instruction is read and pushes its
item, or it cannot be read and nothing is pushed. -/
theorem first_step_cases (hlive : e.status.isTerminal = false) {byte : UInt8}
    (hfirst : script.bytes.head? = some byte) (hpush : isPush byte = true) :
    (∃ found item, Instruction.decodeAt script 0 = .ok found found.encode.length ∧
      found.Encodable ∧ found.pushed? = some item ∧
      (e.load script pushOnly).step = e.pushedBy script pushOnly item found.encode.length) ∨
    ((∃ cause next, Instruction.decodeAt script 0 = .error cause next) ∧
      (e.load script pushOnly).step.work = e.work) := by
  have hframes : (e.load script pushOnly).frames =
      { script, pushOnly, breakpoints := e.breakpoints.sets.size } :: e.frames := rfl
  have hloaded : (e.load script pushOnly).status.isTerminal = false := hlive
  have hread : ∀ {byte' : UInt8} {behind : Nat},
      Reader.byte.runAt script 0 = .ok byte' behind → byte' = byte := by
    intro byte' behind hbyte
    have hhead := (Reader.holds_byte hbyte).getElem?_eq
    rw [← List.head?_eq_getElem?, hfirst] at hhead
    exact (Option.some.inj hhead).symm
  have hadvances := Control.advances hframes
  generalize hresult : Control.advance (e.load script pushOnly) = result at hadvances
  cases hadvances with
  | atEnd hend =>
    have hsize : script.size ≤ 0 := of_decide_eq_true hend
    rw [← Script.length_bytes, Nat.le_zero, List.length_eq_zero_iff] at hsize
    rw [hsize] at hfirst
    cases hfirst
  | refuse hbyte _ hrefused =>
    rw [hread hbyte, Instruction.isRefused_of_isPush hpush] at hrefused
    cases hrefused
  | undecoded hdecode =>
    refine .inr ⟨⟨_, _, hdecode⟩, ?_⟩
    rw [step_of_advance_error hloaded hframes hresult]
    rfl
  | @perform found byte' behind next hbyte _ hdecode =>
    rw [hread hbyte] at hbyte
    obtain ⟨item, hitem, hencodable, hnext⟩ :=
      Instruction.exists_pushed_of_isPush hbyte hpush hdecode
    rw [Nat.zero_add] at hnext
    rw [← hnext] at hdecode hresult
    refine .inl ⟨found, item, hdecode, hencodable, hitem, ?_⟩
    rw [Control.perform_of_pushed? hitem] at hresult
    exact step_of_advance_ok hloaded hframes hresult (contains_load e script pushOnly _)

/-- An instruction that is all of the script is performed. -/
theorem first_step_of_encode (hlive : e.status.isTerminal = false) (pushOnly : Bool)
    {found : Instruction} {item : Item} (hencodable : found.Encodable) (hitem : found.pushed? = some item)
    (hscript : script.bytes = found.encode) :
    (e.load script pushOnly).step = e.pushedBy script pushOnly item script.size := by
  obtain ⟨byte, hfirst, hpush⟩ := Instruction.exists_head_of_pushed? hitem fun data hdata => by
    rw [hdata] at hencodable
    exact hencodable.2
  have hplaced : script.bytes = [] ++ found.encode ++ [] := by simp [hscript]
  have hdecode := Instruction.decodeAt_encode hencodable hplaced
  rw [List.length_nil, Nat.zero_add] at hdecode
  rw [← hscript] at hfirst
  rcases first_step_cases hlive hfirst hpush with
    ⟨found', item', hdecode', -, hitem', hstep⟩ | ⟨⟨cause, next, herror⟩, -⟩
  · rw [hdecode] at hdecode'
    cases hdecode'
    rw [hitem] at hitem'
    cases hitem'
    rw [hstep, ← Script.length_bytes, hscript]
  · rw [hdecode] at herror
    cases herror

theorem firstPushes_of_encode (hlive : e.status.isTerminal = false) (pushOnly : Bool)
    {found : Instruction} {item : Item} (hencodable : found.Encodable)
    (hitem : found.pushed? = some item) (hscript : script.bytes = found.encode) :
    e.FirstPushes script pushOnly item script.size := by
  have hstep := first_step_of_encode hlive pushOnly hencodable hitem hscript
  constructor
  · rw [hstep]
    rfl
  · rw [hstep]
    rfl

/-- What the first step pushes is the item of an instruction that ends where the step does. -/
theorem FirstPushes.exists_instruction {item : Item} {stop : Nat}
    (h : e.FirstPushes script pushOnly item stop) (hlive : e.status.isTerminal = false)
    {byte : UInt8} (hfirst : script.bytes.head? = some byte) (hpush : isPush byte = true) :
    ∃ found : Instruction, found.Encodable ∧ found.pushed? = some item ∧
      found.encode.length = stop := by
  obtain ⟨heval, hcursor⟩ := h
  rcases first_step_cases hlive hfirst hpush with
    ⟨found, item', -, hencodable, hitem, hstep⟩ | ⟨-, hwork⟩
  · rw [hstep] at heval hcursor
    obtain ⟨rfl, -⟩ := List.cons.inj heval
    exact ⟨found, hencodable, hitem, hcursor⟩
  · rw [hwork] at heval
    exact absurd heval.symm (List.cons_ne_self _ _)

/-! ### The main statements -/

/-- **The push of a byte string.** The first step on what a builder writes for some bytes pushes
these bytes, nothing else, and ends behind the last byte of the script, exactly if there are at most
`2 ^ 31 - 1` of them. In that case the step does not change anything else, and no instruction in the
range of pushes that pushes the bytes is shorter. -/
theorem pushBytes_shortest (e : Engine) (hlive : e.status.isTerminal = false) (pushOnly : Bool)
    (data : Bytes) (script : Script) (hscript : script = (Builder.empty.pushBytes data).script) :
    (e.FirstPushes script pushOnly (.bytes data) script.size ↔ data.length ≤ 2147483647) ∧
    (data.length ≤ 2147483647 →
      (e.load script pushOnly).step = e.pushedBy script pushOnly (.bytes data) script.size ∧
      ∀ (other : Script) (byte : UInt8) (stop : Nat), other.bytes.head? = some byte →
        isPush byte = true → e.FirstPushes other pushOnly (.bytes data) stop →
        script.size ≤ stop) := by
  have hbytes : script.bytes = (Instruction.push data).encode := by
    rw [hscript, Builder.pushBytes_eq, Builder.bytes_write]
    rfl
  have hitem := Instruction.pushed?_push data
  have hfits : data.length ≤ 2147483647 → (Instruction.push data).Encodable := fun hle =>
    Instruction.encodable_push (Nat.lt_succ_of_le hle)
  refine ⟨⟨fun h => ?_, fun hle => firstPushes_of_encode hlive pushOnly (hfits hle) hitem hbytes⟩,
    fun hle => ⟨first_step_of_encode hlive pushOnly (hfits hle) hitem hbytes, ?_⟩⟩
  · obtain ⟨byte, hfirst, hpush⟩ := Instruction.exists_head_of_pushed? hitem fun _ =>
      Instruction.length_le_of_push_eq
    rw [← hbytes] at hfirst
    obtain ⟨found, hencodable, hpushed, -⟩ := h.exists_instruction hlive hfirst hpush
    exact Instruction.length_le_of_pushed? hencodable hpushed
  · intro other byte stop hfirst hpush h
    obtain ⟨found, hencodable, hpushed, rfl⟩ := h.exists_instruction hlive hfirst hpush
    rw [← Script.length_bytes, hbytes]
    exact Instruction.length_encode_push_le hencodable hpushed

/-- The longer push of the same bytes, behind a length of two bytes. -/
def widePush (data : Bytes) : Script := .ofBytes (Instruction.pushData .two data).encode

/-- 76 bytes are the fewest that need a length of their own, which takes one byte and not two, and
`2 ^ 31` bytes are the fewest that cannot be pushed. -/
theorem pushBytes_shortest_limits :
    (Engine.new .secp256k1).FirstPushes (widePush (List.replicate 76 0xab)) true
      (.bytes (List.replicate 76 0xab)) (widePush (List.replicate 76 0xab)).size ∧
    (Builder.empty.pushBytes (List.replicate 76 0xab)).script.size ≤
      (widePush (List.replicate 76 0xab)).size ∧
    ¬ (Engine.new .secp256k1).FirstPushes
      (Builder.empty.pushBytes (List.replicate 2147483648 0xab)).script true
      (.bytes (List.replicate 2147483648 0xab))
      (Builder.empty.pushBytes (List.replicate 2147483648 0xab)).script.size := by
  have hfits : (Instruction.pushData .two (List.replicate 76 0xab)).Encodable :=
    (by decide : (List.replicate 76 (0xab : UInt8)).length ≤ 65535)
  have hwide : (Engine.new .secp256k1).FirstPushes (widePush (List.replicate 76 0xab)) true
      (.bytes (List.replicate 76 0xab)) (widePush (List.replicate 76 0xab)).size :=
    firstPushes_of_encode rfl true hfits rfl (Script.bytes_ofBytes _)
  obtain ⟨-, hshort⟩ := pushBytes_shortest (Engine.new .secp256k1) rfl true
    (List.replicate 76 0xab) _ rfl
  obtain ⟨hlong, -⟩ := pushBytes_shortest (Engine.new .secp256k1) rfl true
    (List.replicate 2147483648 0xab) _ rfl
  refine ⟨hwide, (hshort (by decide)).2 _ 0x4d _ rfl (by decide) hwide, fun h => ?_⟩
  have hle := hlong.mp h
  rw [List.length_replicate] at hle
  omega

/-- **The push of an integer.** The first step on what a builder writes for an integer pushes one
item, and does not change anything else. The item is seen as the integer, and is true and equal to
the integer exactly if that is not zero. No instruction in the range of pushes whose item is seen as
the integer is shorter. -/
theorem pushInteger_shortest (e : Engine) (hlive : e.status.isTerminal = false) (pushOnly : Bool)
    (v : Int) (hsize : (encode v).length < 2147483648) (script : Script)
    (hscript : script = (Builder.empty.pushInteger v).script) :
    (∃ item, (e.load script pushOnly).step = e.pushedBy script pushOnly item script.size ∧
      item.integer? = some v ∧ (item.truth = true ↔ v ≠ 0) ∧
      (item.equals (.integer v) = true ↔ v ≠ 0)) ∧
    ∀ (other : Script) (byte : UInt8) (item : Item) (stop : Nat),
      other.bytes.head? = some byte → isPush byte = true → item.integer? = some v →
      e.FirstPushes other pushOnly item stop → script.size ≤ stop := by
  have hbytes : script.bytes = (Instruction.pushInteger v).encode := by
    rw [hscript, Builder.pushInteger_eq, Builder.bytes_write]
    rfl
  obtain ⟨item, hitem, hinteger, hform⟩ := Instruction.exists_pushed?_pushInteger v
  have hencodable := Instruction.encodable_pushInteger hsize
  refine ⟨⟨item, first_step_of_encode hlive pushOnly hencodable hitem hbytes, hinteger,
    Item.truth_iff_of_integer? hinteger, ?_⟩, ?_⟩
  · rw [Item.equals_integer_iff, hform, Option.some.injEq]
    split_ifs with hzero
    · exact ⟨fun h => absurd h.symm (encode_ne_nil v), fun h => absurd hzero h⟩
    · exact ⟨fun _ => hzero, fun _ => rfl⟩
  · intro other byte item' stop hfirst hpush hinteger' h
    obtain ⟨found, hencodable', hpushed, rfl⟩ := h.exists_instruction hlive hfirst hpush
    rw [← Script.length_bytes, hbytes]
    exact Instruction.length_encode_pushInteger_le hencodable' hpushed hinteger'

/-- Zero is pushed as the empty byte string, which is not equal to it. The byte of zero would be,
but takes a longer push. -/
theorem pushInteger_shortest_zero :
    (encode 0).length < 2147483648 ∧
    (∃ item, ((Engine.new .secp256k1).load (Builder.empty.pushInteger 0).script false).step =
        (Engine.new .secp256k1).pushedBy (Builder.empty.pushInteger 0).script false item
          (Builder.empty.pushInteger 0).script.size ∧
      item.integer? = some 0 ∧ item.truth = false ∧ item.equals (.integer 0) = false) ∧
    (Engine.new .secp256k1).FirstPushes (.ofBytes (Instruction.pushBytes [0x00]).encode) false
      (.bytes [0x00]) 2 ∧
    (Builder.empty.pushInteger 0).script.size ≤ 2 := by
  have hfits : (Instruction.pushBytes [0x00]).Encodable := ⟨by decide, by decide⟩
  have hbyte : (Engine.new .secp256k1).FirstPushes
      (.ofBytes (Instruction.pushBytes [0x00]).encode) false (.bytes [0x00]) 2 :=
    firstPushes_of_encode rfl false hfits rfl rfl
  obtain ⟨⟨item, hstep, hinteger, htruth, hequal⟩, hshort⟩ :=
    pushInteger_shortest (Engine.new .secp256k1) rfl false 0 (by decide) _ rfl
  refine ⟨by decide, ⟨item, hstep, hinteger, ?_, ?_⟩, hbyte, hshort _ _ _ _ rfl (by decide) rfl hbyte⟩
  · simpa using htruth
  · simpa using hequal

end Engine

end StackScript
