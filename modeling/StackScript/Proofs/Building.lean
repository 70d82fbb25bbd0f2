import StackScript.Builder
import StackScript.Proofs.Assembly.Statements
import StackScript.Proofs.Engine.Inversion
import Mathlib.Data.List.Forall2

/-!
# Built scripts are read back

A script is built by calls, and the machine that runs it knows nothing of them: it sees one row of
bytes. `Call.instruction?` says which instruction a call asks for, if it is valid. The builder
appends this instruction, or refuses the call and stays as it was (`Builder.perform_of_some`,
`Builder.perform_of_none`), so that after some calls it holds the instructions of those that
succeeded, one after the other.

Main statement: fetching from the first byte to the last finds one instruction for each call that
succeeded, where the builder stood when the call was made, and it is what the call asked for
(`Builder.calls_fetched`).
-/

namespace StackScript

open Assembly

/-! ### Fetching a whole script -/

/-- The instructions that an engine fetches from the cursor of its current frame to the end of the
script, each with its offset. -/
inductive Engine.Fetches : Engine → List (Nat × Instruction) → Prop where
  | done {e : Engine} {frame : Frame} {rest : Stack Frame} (hframes : e.frames = frame :: rest)
      (hend : frame.atEnd = true) : Fetches e []
  | next {e after : Engine} {frame : Frame} {rest : Stack Frame} {found : Instruction}
      {code : List (Nat × Instruction)} (hframes : e.frames = frame :: rest)
      (hend : frame.atEnd = false) (hfetch : Control.fetch e = .ok found after)
      (hrest : Fetches after code) : Fetches e ((frame.cursor, found) :: code)

/-- A script is fetched in one way only. -/
theorem Engine.Fetches.unique {e : Engine} {code code' : List (Nat × Instruction)}
    (h : e.Fetches code) (h' : e.Fetches code') : code = code' := by
  induction h generalizing code' with
  | done hframes hend =>
    cases h' with
    | done => rfl
    | next hframes' hend' =>
      obtain ⟨rfl, -⟩ := List.cons.inj (hframes.symm.trans hframes')
      rw [hend] at hend'
      cases hend'
  | next hframes hend hfetch _ ih =>
    cases h' with
    | done hframes' hend' =>
      obtain ⟨rfl, -⟩ := List.cons.inj (hframes.symm.trans hframes')
      rw [hend] at hend'
      cases hend'
    | next hframes' _ hfetch' hrest' =>
      obtain ⟨rfl, -⟩ := List.cons.inj (hframes.symm.trans hframes')
      rw [hfetch] at hfetch'
      cases hfetch'
      rw [ih hrest']

/-- A frame that may do everything fetches the instructions that tile the rest of its script. -/
theorem Engine.fetches_of_tiles {e : Engine} {frame : Frame} {rest : Stack Frame} {script : Script}
    {offset : Nat} {code : List (Nat × Instruction)} (h : Instruction.Tiles script offset code)
    (hframes : e.frames = frame :: rest) (hpush : frame.pushOnly = false)
    (hscript : frame.script = script) (hcursor : frame.cursor = offset) : e.Fetches code := by
  -- The induction is on the tiling; fetching changes nothing but the cursor of the frame.
  induction h generalizing e frame with
  | done =>
    refine .done hframes ?_
    simp [Frame.atEnd, hscript, hcursor]
  | @next offset next found code hdecode hlt hrest ih =>
    have hle := hrest.offset_le
    have hend : frame.atEnd = false := by
      simp only [Frame.atEnd, hscript, hcursor, decide_eq_false_iff_not]
      omega
    rw [← hscript, ← hcursor] at hdecode
    rw [← hcursor]
    refine .next hframes hend (Control.fetch_of_decodeAt hframes hpush hdecode) ?_
    exact ih (show _ = { frame with cursor := next } :: rest from rfl) hpush hscript rfl

/-- All that the instruction does is to push the item. -/
def Instruction.Pushes (found : Instruction) (item : Item) : Prop :=
  ∀ e : Engine, Control.perform found e =
    .ok () { e with work := { e.work with eval := item :: e.work.eval } }

namespace Instruction

theorem Pushes.of_pushed? {found : Instruction} {item : Item} (h : found.pushed? = some item) :
    found.Pushes item :=
  Control.perform_of_pushed? h

theorem pushed?_push (data : Bytes) : (push data).pushed? = some (.bytes data) := by
  unfold push
  split_ifs with hempty
  · rw [List.isEmpty_iff.mp hempty]
    rfl
  all_goals rfl

theorem pushes_push (data : Bytes) : (push data).Pushes (.bytes data) :=
  .of_pushed? (pushed?_push data)

/-- The shortest push of an integer pushes an item that is seen as the integer, with the bytes of
the integer unless it is zero: that is pushed as the empty byte string. -/
theorem exists_pushed?_pushInteger (v : Int) :
    ∃ item, (pushInteger v).pushed? = some item ∧ item.integer? = some v ∧
      item.bytes? = some (if v = 0 then [] else Number.TwosComplement.encode v) := by
  by_cases hzero : v = 0
  · subst hzero
    exact ⟨_, rfl, rfl, rfl⟩
  simp only [pushInteger, if_neg hzero]
  split_ifs with hminus hsmall
  · subst hminus
    exact ⟨_, rfl, rfl, rfl⟩
  · have hvalue : Int.ofNat (v - 1).toNat + 1 = v := by
      simp only [Int.ofNat_eq_natCast]
      omega
    exact ⟨_, rfl, congrArg some hvalue,
      congrArg (fun value => some (Number.TwosComplement.encode value)) hvalue⟩
  · refine ⟨_, pushed?_push _, ?_, rfl⟩
    simp only [Item.integer?, Number.TwosComplement.decode_encode]

theorem pushes_pushInteger (v : Int) :
    ∃ item, (pushInteger v).Pushes item ∧ item.integer? = some v := by
  obtain ⟨item, hitem, hinteger, -⟩ := exists_pushed?_pushInteger v
  exact ⟨item, .of_pushed? hitem, hinteger⟩

theorem pushes_pushBool (b : Bool) :
    ∃ item, (pushBool b).Pushes item ∧ item.truth = b ∧ item.integer? = some (Item.ofBool b) := by
  cases b with
  | false => exact ⟨_, .of_pushed? rfl, rfl, rfl⟩
  | true => exact ⟨_, .of_pushed? rfl, rfl, rfl⟩

end Instruction

namespace Builder

/-! ### Calls -/

/-- A call of a builder. Only an opcode without operand is written bare. -/
inductive Call where
  | emit (op : Opcode) (bare : op.operand? = none)
  | appCall (kind : Invocation) (hash : ScriptHash)
  | jump (op : Opcode) (offset : Int16)
  | pushInteger (value : Int)
  | pushBool (value : Bool)
  | pushBytes (data : Bytes)
  | syscall (name : String)

/-- The answer to a call, and the builder afterwards. -/
def perform (builder : Builder) : Call → Except BuildError Unit × Builder
  | .emit op _ => (.ok (), builder.emit op)
  | .appCall kind hash => (.ok (), builder.appCall kind hash)
  | .jump op offset => builder.jump op offset.toInt
  | .pushInteger value => (.ok (), builder.pushInteger value)
  | .pushBool value => (.ok (), builder.pushBool value)
  | .pushBytes data => (.ok (), builder.pushBytes data)
  | .syscall name => builder.syscall name

/-- The builder after some calls. -/
def after (builder : Builder) (calls : List Call) : Builder :=
  calls.foldl (fun builder call => (builder.perform call).2) builder

/-- The calls that succeed, each with the offset of the builder just before. -/
def succeeded (builder : Builder) : List Call → List (Nat × Call)
  | [] => []
  | call :: rest =>
      match builder.perform call with
      | (.ok (), next) => (builder.offset, call) :: next.succeeded rest
      | (.error _, next) => next.succeeded rest

namespace Call

/-- The length of the data that is pushed does not need the sign of a length of four bytes. -/
def Fits : Call → Prop
  | .pushInteger value => (Number.TwosComplement.encode value).length < 2 ^ 31
  | .pushBytes data => data.length < 2 ^ 31
  | .emit .. | .appCall .. | .jump .. | .pushBool _ | .syscall _ => True

/-- The call is one that a builder accepts. -/
def Valid : Call → Prop
  | .jump op _ => op.isJump = true
  | .syscall name => name ≠ "" ∧ (∀ c ∈ name.toList, c.toNat < 128) ∧
      (Text.Utf8.ofString name).length ≤ maxNameLength
  | .emit .. | .appCall .. | .pushInteger _ | .pushBool _ | .pushBytes _ => True

/-- The instruction is what the call asks for: its opcode and operand, or a push of its value. -/
def Means : Call → Instruction → Prop
  | .emit (.plain op) _, found => found = .plain op
  | .emit .ret _, found => found = .ret
  | .appCall kind hash, found => found = .invoke kind hash
  | .jump op offset, found => ∃ kind, op = .jump kind ∧ found = .jump kind offset.toInt
  | .pushInteger value, found => ∃ item, found.Pushes item ∧ item.integer? = some value
  | .pushBool value, found =>
      ∃ item, found.Pushes item ∧ item.truth = value ∧ item.integer? = some (Item.ofBool value)
  | .pushBytes data, found => found.Pushes (.bytes data)
  | .syscall name, found => found = .syscall (Text.Utf8.ofString name)

/-- The instruction that a call asks for, if the call is valid. -/
def instruction? : Call → Option Instruction
  | .emit (.plain op) _ => some (.plain op)
  | .emit .ret _ => some .ret
  | .appCall kind hash => some (.invoke kind hash)
  | .jump (.jump kind) offset => some (.jump kind offset.toInt)
  | .jump _ _ => none
  | .pushInteger value => some (.pushInteger value)
  | .pushBool value => some (.pushBool value)
  | .pushBytes data => some (.push data)
  | .syscall name => if IsCallName name then some (.syscall (Text.Utf8.ofString name)) else none

/-! ### What a call asks for -/

theorem instruction?_syscall {name : String} {found : Instruction}
    (h : (syscall name).instruction? = some found) :
    IsCallName name ∧ found = .syscall (Text.Utf8.ofString name) := by
  rw [instruction?] at h
  split at h
  · rename_i hname
    exact ⟨hname, (Option.some.inj h).symm⟩
  · cases h

/-- The calls that ask for an instruction are the valid ones. -/
theorem exists_instruction?_iff (call : Call) :
    (∃ found, call.instruction? = some found) ↔ call.Valid := by
  cases call with
  | emit op bare =>
    cases op with
    | plain op => exact ⟨fun _ => trivial, fun _ => ⟨_, rfl⟩⟩
    | ret => exact ⟨fun _ => trivial, fun _ => ⟨_, rfl⟩⟩
    | _ => cases bare
  | jump op offset =>
    cases op with
    | jump kind => exact ⟨fun _ => rfl, fun _ => ⟨_, rfl⟩⟩
    | _ => simp [instruction?, Valid, Opcode.isJump]
  | syscall name =>
    constructor
    · rintro ⟨found, h⟩
      exact (instruction?_syscall h).1
    · intro hvalid
      exact ⟨_, if_pos hvalid⟩
  | _ => exact ⟨fun _ => trivial, fun _ => ⟨_, rfl⟩⟩

/-- What a call asks for fits its place. -/
theorem encodable_of_instruction? {call : Call} {found : Instruction} (hfits : call.Fits)
    (h : call.instruction? = some found) : found.Encodable := by
  cases call with
  | emit op bare =>
    cases op with
    | plain op =>
      cases h
      trivial
    | ret =>
      cases h
      trivial
    | _ => cases bare
  | appCall kind hash =>
    cases h
    trivial
  | jump op offset =>
    cases op with
    | jump kind =>
      cases h
      have hlow := offset.le_toInt
      have hhigh := offset.toInt_lt
      simp only [Instruction.Encodable, Number.TwosComplement.fits16, Bool.and_eq_true,
        decide_eq_true_eq]
      omega
    | _ => cases h
  | pushInteger value =>
    cases h
    exact Instruction.encodable_pushInteger hfits
  | pushBool value =>
    cases h
    cases value <;> trivial
  | pushBytes data =>
    cases h
    exact Instruction.encodable_push hfits
  | syscall name =>
    obtain ⟨hname, rfl⟩ := instruction?_syscall h
    exact hname.2.2

theorem means_of_instruction? {call : Call} {found : Instruction}
    (h : call.instruction? = some found) : call.Means found := by
  cases call with
  | emit op bare =>
    cases op with
    | plain op => exact (Option.some.inj h).symm
    | ret => exact (Option.some.inj h).symm
    | _ => cases bare
  | appCall kind hash => exact (Option.some.inj h).symm
  | jump op offset =>
    cases op with
    | jump kind => exact ⟨kind, rfl, (Option.some.inj h).symm⟩
    | _ => cases h
  | pushInteger value =>
    cases h
    exact Instruction.pushes_pushInteger value
  | pushBool value =>
    cases h
    exact Instruction.pushes_pushBool value
  | pushBytes data =>
    cases h
    exact Instruction.pushes_push data
  | syscall name => exact (instruction?_syscall h).2

end Call

/-! ### What some calls write -/

/-- **A call that asks for an instruction is accepted**, and appends it. -/
theorem perform_of_some (builder : Builder) {call : Call} {found : Instruction}
    (h : call.instruction? = some found) :
    builder.perform call = (.ok (), builder.write found) := by
  cases call with
  | emit op bare =>
    cases op with
    | plain op =>
      cases h
      exact congrArg (Prod.mk _) (builder.emit_plain op)
    | ret =>
      cases h
      exact congrArg (Prod.mk _) builder.emit_ret
    | _ => cases bare
  | appCall kind hash =>
    cases h
    exact congrArg (Prod.mk _) (builder.appCall_eq kind hash)
  | jump op offset =>
    cases op with
    | jump kind =>
      cases h
      exact builder.jump_eq kind offset.toInt
    | _ => cases h
  | pushInteger value =>
    cases h
    exact congrArg (Prod.mk _) (builder.pushInteger_eq value)
  | pushBool value =>
    cases h
    exact congrArg (Prod.mk _) (builder.pushBool_eq value)
  | pushBytes data =>
    cases h
    exact congrArg (Prod.mk _) (builder.pushBytes_eq data)
  | syscall name =>
    obtain ⟨hname, rfl⟩ := Call.instruction?_syscall h
    exact builder.syscall_of_isCallName hname

/-- **Any other call is refused**, and leaves the builder as it was. -/
theorem perform_of_none (builder : Builder) {call : Call} (h : call.instruction? = none) :
    ∃ cause, builder.perform call = (.error cause, builder) := by
  cases call with
  | emit op bare =>
    cases op with
    | plain op => cases h
    | ret => cases h
    | _ => cases bare
  | jump op offset =>
    cases op with
    | jump kind => cases h
    | _ => exact ⟨_, rfl⟩
  | syscall name =>
    refine builder.syscall_of_not_isCallName fun hname => ?_
    rw [Call.instruction?, if_pos hname] at h
    cases h
  | appCall | pushInteger | pushBool | pushBytes => cases h

theorem perform_ok_iff (builder : Builder) (call : Call) :
    (builder.perform call).1 = .ok () ↔ call.Valid := by
  rw [← call.exists_instruction?_iff]
  cases h : call.instruction? with
  | some found => simp [perform_of_some builder h]
  | none =>
    obtain ⟨cause, hrefused⟩ := perform_of_none builder h
    simp [hrefused]

theorem perform_snd_of_error {builder : Builder} {call : Call} {cause : BuildError}
    (h : (builder.perform call).1 = .error cause) : (builder.perform call).2 = builder := by
  cases hasked : call.instruction? with
  | some found =>
    rw [perform_of_some builder hasked] at h
    cases h
  | none =>
    obtain ⟨cause, hrefused⟩ := perform_of_none builder hasked
    rw [hrefused]

/-- The instructions that calls write. -/
def written (calls : List Call) : List Instruction := calls.filterMap Call.instruction?

/-- The calls append the bytes of their instructions. -/
theorem bytes_after (builder : Builder) (calls : List Call) :
    (builder.after calls).script.bytes =
      builder.script.bytes ++ (written calls).flatMap Instruction.encode := by
  induction calls generalizing builder with
  | nil => simp [after, written]
  | cons call rest ih =>
    have hnext : builder.after (call :: rest) = (builder.perform call).2.after rest := rfl
    rw [hnext, ih]
    cases h : call.instruction? with
    | some found => simp [written, perform_of_some builder h, bytes_write, h]
    | none =>
      obtain ⟨cause, hrefused⟩ := perform_of_none builder h
      simp [written, hrefused, h]

/-- A call that succeeds is made where its instruction is placed. -/
theorem forall₂_succeeded (builder : Builder) (calls : List Call) :
    List.Forall₂ (fun made entry => made.1 = entry.1 ∧ made.2.instruction? = some entry.2)
      (builder.succeeded calls) (Instruction.placed builder.offset (written calls)) := by
  induction calls generalizing builder with
  | nil => exact .nil
  | cons call rest ih =>
    cases h : call.instruction? with
    | some found =>
      have hwritten : written (call :: rest) = found :: written rest := by simp [written, h]
      have hrest := ih (builder.write found)
      rw [offset_write] at hrest
      rw [succeeded, perform_of_some builder h, hwritten]
      exact .cons ⟨rfl, h⟩ hrest
    | none =>
      -- A refused call is on neither side.
      have hwritten : written (call :: rest) = written rest := by simp [written, h]
      obtain ⟨cause, hrefused⟩ := perform_of_none builder h
      rw [succeeded, hrefused, hwritten]
      exact ih builder

theorem encodable_of_mem_written {calls : List Call} (hfits : ∀ call ∈ calls, call.Fits) :
    ∀ found ∈ written calls, found.Encodable := by
  intro found hfound
  obtain ⟨call, hcall, h⟩ := List.mem_filterMap.mp hfound
  exact Call.encodable_of_instruction? (hfits call hcall) h

/-- **A built script is read back as the calls that built it.** A builder accepts the valid calls
and is left as it was by the others. A frame that may do everything, at the start of the script,
fetches from the first byte to the last one instruction for each call that succeeded, in their
order, at the offset of the builder when the call was made, and each is what its call asked for. -/
theorem calls_fetched {calls : List Call} (hfits : ∀ call ∈ calls, call.Fits) {e : Engine}
    {frame : Frame} {rest : Stack Frame} (hframes : e.frames = frame :: rest)
    (hscript : frame.script = (empty.after calls).script) (hcursor : frame.cursor = 0)
    (hpush : frame.pushOnly = false) :
    (∀ (builder : Builder) (call : Call), ((builder.perform call).1 = .ok () ↔ call.Valid) ∧
      ∀ cause, (builder.perform call).1 = .error cause → (builder.perform call).2 = builder) ∧
    ∃ code, (∀ code', e.Fetches code' ↔ code' = code) ∧
      List.Forall₂ (fun made entry => made.1 = entry.1 ∧ made.2.Means entry.2)
        (empty.succeeded calls) code := by
  have hbytes : (empty.after calls).script.bytes =
      [] ++ (written calls).flatMap Instruction.encode := bytes_after empty calls
  have htiles := Instruction.tiles_encode [] (encodable_of_mem_written hfits) hbytes
  have hfetches := Engine.fetches_of_tiles htiles hframes hpush hscript hcursor
  refine ⟨fun builder call => ⟨builder.perform_ok_iff call, fun _ => perform_snd_of_error⟩, _,
    fun code' => ⟨fun hcode => hcode.unique hfetches, fun hcode => hcode ▸ hfetches⟩, ?_⟩
  refine (forall₂_succeeded empty calls).imp ?_
  rintro made entry ⟨hoffset, hinstruction⟩
  exact ⟨hoffset, Call.means_of_instruction? hinstruction⟩

/-- Calls of every kind, two of which are refused: a jump that is none, and a host call without a
name. -/
def mixed : List Call :=
  [.pushInteger 300, .jump .ret 3, .syscall "", .syscall "a", .jump (.jump .always) (-3),
    .pushBytes [], .pushBool true, .appCall .tail .zero, .emit .ret rfl]

/-- A frame at the start of what they build. -/
def mixedFrame : Frame := { script := (empty.after mixed).script, breakpoints := 0 }

/-- An engine that runs it. -/
def mixedEngine : Engine := { Engine.new .secp256k1 with frames := [mixedFrame] }

example : (empty.succeeded mixed).map Prod.fst = [0, 3, 6, 9, 10, 11, 32] := by decide +kernel

theorem calls_fetched_mixed :
    (∀ call ∈ mixed, call.Fits) ∧ mixedEngine.frames = [mixedFrame] ∧
      mixedFrame.script = (empty.after mixed).script ∧ mixedFrame.cursor = 0 ∧
      mixedFrame.pushOnly = false ∧
      (∀ (builder : Builder) (call : Call), ((builder.perform call).1 = .ok () ↔ call.Valid) ∧
        ∀ cause, (builder.perform call).1 = .error cause → (builder.perform call).2 = builder) ∧
      ∃ code, (∀ code', mixedEngine.Fetches code' ↔ code' = code) ∧
        List.Forall₂ (fun made entry => made.1 = entry.1 ∧ made.2.Means entry.2)
          (empty.succeeded mixed) code := by
  have hinteger : (Number.TwosComplement.encode 300).length < 2 ^ 31 := by decide
  have hfits : ∀ call ∈ mixed, call.Fits := by
    simpa [mixed, Call.Fits] using hinteger
  exact ⟨hfits, rfl, rfl, rfl, rfl, calls_fetched hfits rfl rfl rfl rfl⟩

end Builder

end StackScript
