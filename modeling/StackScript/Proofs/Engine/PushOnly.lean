import StackScript.Proofs.Consumption
import StackScript.Proofs.Engine.Inversion
import Mathlib.Logic.Function.Iterate

/-!
# Push-only frames are confined

A push-only frame is given to scripts that are not trusted. It refuses an opcode by its byte alone:
everything above the constant 16 but a return. What is left pushes constants and data
(`Instruction.pushes_of_not_refused`), and each of these moves the cursor on. So whatever the bytes
of the script are and whatever the host provides, the frame comes to an end after at most one step
for each byte and one to leave, and all it has done until then is to put integers and byte strings
on the evaluation stack.

Main statement: `Engine.pushOnly_confined`.
-/

namespace StackScript

open Control

/-- An integer that is a constant, or a byte string. -/
def Item.Pushable : Item → Prop
  | .integer value => value = -1 ∨ (1 ≤ value ∧ value ≤ 16)
  | .bytes _ => True
  | .boolean _ | .container _ | .host _ => False

theorem Constant.pushable_item (c : Constant) : c.item.Pushable := by
  cases c with
  | empty => trivial
  | minusOne => exact .inl rfl
  | small n =>
    have hn := n.isLt
    refine .inr ⟨?_, ?_⟩
    · exact Int.le_add_of_nonneg_left (Int.natCast_nonneg _)
    · simp only [Int.ofNat_eq_natCast]
      omega

/-! ### Opcodes that are not refused -/

/-- An opcode that a push-only frame takes. -/
def Opcode.isHarmless : Opcode → Bool
  | .plain (.constant _) | .pushData _ | .ret => true
  | _ => false

theorem Opcode.isRefused_byte (op : Opcode) : isRefused op.byte = !op.isHarmless := by
  have h : ∀ op ∈ Opcode.all, isRefused op.byte = !op.isHarmless := by decide +kernel
  exact h op (Opcode.mem_all op)

namespace Instruction

variable {script : Script} {cursor behind next : Nat} {byte : UInt8} {found : Instruction}

/-- **What is not refused returns or pushes.** -/
theorem pushes_of_not_refused (hbyte : Reader.byte.runAt script cursor = .ok byte behind)
    (hrefused : isRefused byte = false) (hdecode : decodeAt script cursor = .ok found next) :
    found = .ret ∨ ∃ item, found.pushed? = some item ∧ item.Pushable := by
  rw [decodeAt_eq, hbyte] at hdecode
  simp only [readOperand] at hdecode
  split at hdecode
  · obtain ⟨data, -, rfl⟩ := Reader.runAt_map_eq_ok hdecode
    exact .inr ⟨_, rfl, trivial⟩
  · cases hop : Opcode.ofByte? byte with
    | none =>
      rw [hop] at hdecode
      cases hdecode
    | some op =>
      rw [hop] at hdecode
      rw [← Opcode.byte_ofByte? hop, Opcode.isRefused_byte, Bool.not_eq_false'] at hrefused
      cases op with
      | plain op =>
        cases hdecode
        cases op with
        | constant c => exact .inr ⟨_, rfl, c.pushable_item⟩
        | _ => cases hrefused
      | pushData width =>
        cases width <;>
        · obtain ⟨data, -, rfl⟩ := Reader.runAt_map_eq_ok hdecode
          exact .inr ⟨_, rfl, trivial⟩
      | ret =>
        cases hdecode
        exact .inl rfl
      | _ => cases hrefused

end Instruction

namespace Engine

variable {e : Engine} {frame : Frame} {rest : Stack Frame}

/-! ### Steps of a push-only frame -/

/-- The frames have no breakpoints. -/
def Unwatched (e : Engine) : Prop :=
  ∀ f ∈ e.frames, ∀ offset, e.breakpoints.contains f.breakpoints offset = false

theorem Unwatched.atBreakpoint (h : e.Unwatched) : e.atBreakpoint = false := by
  unfold Engine.atBreakpoint
  split
  · rename_i frame rest hframes
    exact h frame (by simp [hframes]) frame.cursor
  · rfl

/-- The engine with other frames and one more item on the evaluation stack. -/
def withPush (e : Engine) (frames : Stack Frame) (item : Item) : Engine :=
  { e with frames, work := { e.work with eval := item :: e.work.eval } }

/-- What a step of the push-only frame on top of others can come to: a fault, the end of the frame,
or one more item and a cursor further on. -/
inductive PushStep (e : Engine) (frame : Frame) (rest : Stack Frame) : Engine → Prop where
  | fault (cursor : Nat) (cause : Fault) :
      PushStep e frame rest
        { e with
          frames := { frame with cursor } :: rest, status := .faulted, reason := some cause }
  | leave (status : Status) : PushStep e frame rest { e with frames := rest, status }
  | push {cursor : Nat} {item : Item} (hcursor : frame.cursor < cursor)
      (hsize : cursor ≤ frame.script.size) (hitem : item.Pushable) :
      PushStep e frame rest (e.withPush ({ frame with cursor } :: rest) item)

/-- **A step of a push-only frame faults, leaves or pushes.** -/
theorem pushStep (hstatus : e.status = .running) (hframes : e.frames = frame :: rest)
    (hpush : frame.pushOnly = true) (hcursor : frame.cursor ≤ frame.script.size)
    (hclear : e.Unwatched) : PushStep e frame rest e.step := by
  have hlive : e.status.isTerminal = false := by rw [hstatus]; rfl
  rw [Unwatched, hframes, List.forall_mem_cons] at hclear
  have hleft : ∀ status, { e with frames := rest, status }.atBreakpoint = false := fun status =>
    Unwatched.atBreakpoint hclear.2
  have hadvances := advances hframes
  generalize hresult : advance e = result at hadvances
  cases hadvances with
  | atEnd =>
    rw [step_of_advance_ok hlive hframes hresult (hleft _)]
    exact .leave _
  | refuse | undecoded =>
    rw [step_of_advance_error hlive hframes hresult]
    exact .fault _ _
  | @perform found byte behind next hbyte hrefused hdecode =>
    have hbounds := Instruction.decodeAt_bounds frame.script hcursor
    rw [hdecode] at hbounds
    rcases Instruction.pushes_of_not_refused hbyte (hrefused hpush) hdecode with
      rfl | ⟨item, hitem, hpushable⟩
    · rw [perform, leave_eq (show _ = { frame with cursor := next } :: rest from rfl)] at hresult
      rw [step_of_advance_ok hlive hframes hresult (hleft _)]
      exact .leave _
    · rw [perform_of_pushed? hitem] at hresult
      -- The frame has no breakpoints, wherever its cursor is.
      rw [step_of_advance_ok hlive hframes hresult (hclear.1 next)]
      exact .push hbounds.1 hbounds.2 hpushable

/-! ### Runs of a push-only frame -/

/-- All that has happened is that the push-only frame has moved its cursor or is gone, and that
items have been put on the evaluation stack. -/
structure Confined (e : Engine) (frame : Frame) (rest : Stack Frame) (now : Engine) : Prop where
  frames : now.frames = rest ∨ ∃ cursor, now.frames = { frame with cursor } :: rest
  eval : ∃ added, now.work.eval = added ++ e.work.eval ∧ ∀ item ∈ added, item.Pushable
  alt : now.work.alt = e.work.alt
  heap : now.work.heap = e.work.heap

theorem Confined.refl (hframes : e.frames = frame :: rest) : Confined e frame rest e :=
  ⟨.inr ⟨frame.cursor, hframes⟩, ⟨[], rfl, by simp⟩, rfl, rfl⟩

/-- What is confined after a push is so from before it. -/
theorem Confined.of_push {cursor : Nat} {item : Item} {now : Engine} (hitem : item.Pushable)
    (h : Confined (e.withPush ({ frame with cursor } :: rest) item) { frame with cursor } rest now) :
    Confined e frame rest now := by
  obtain ⟨hframes, ⟨added, heval, hadded⟩, halt, hheap⟩ := h
  refine ⟨hframes, ⟨added ++ [item], ?_, ?_⟩, halt, hheap⟩
  · rw [List.append_assoc]
    exact heval
  · rw [List.forall_mem_append, List.forall_mem_singleton]
    exact ⟨hadded, hitem⟩

/-- The frame comes to an end while there are bytes left, or one step later. -/
theorem exists_confined (hstatus : e.status = .running) (hframes : e.frames = frame :: rest)
    (hpush : frame.pushOnly = true) (hcursor : frame.cursor ≤ frame.script.size)
    (hclear : e.Unwatched) :
    ∃ k ≤ frame.script.size - frame.cursor + 1,
      ((∃ fault, (Engine.step^[k] e).FaultedWith fault) ∨ (Engine.step^[k] e).frames = rest) ∧
      ∀ j ≤ k, Confined e frame rest (Engine.step^[j] e) := by
  -- The number of bytes behind the cursor gets smaller with every item.
  induction hleft : frame.script.size - frame.cursor using Nat.strong_induction_on
    generalizing e frame with
  | _ left ih =>
    have hstart : Confined e frame rest e := .refl hframes
    have hone : Confined e frame rest e.step →
        ∀ j ≤ 1, Confined e frame rest (Engine.step^[j] e) := by
      intro hstep j hj
      rcases Nat.le_one_iff_eq_zero_or_eq_one.mp hj with rfl | rfl
      · exact hstart
      · exact hstep
    have hstep := pushStep hstatus hframes hpush hcursor hclear
    generalize hnext : e.step = now at hstep hone
    cases hstep with
    | fault cursor cause =>
      refine ⟨1, by omega, .inl ⟨cause, ?_⟩, hone ⟨.inr ⟨cursor, rfl⟩, ⟨[], rfl, by simp⟩, rfl, rfl⟩⟩
      rw [Function.iterate_one, hnext]
      exact ⟨rfl, rfl⟩
    | leave status =>
      refine ⟨1, by omega, .inr ?_, hone ⟨.inl rfl, ⟨[], rfl, by simp⟩, rfl, rfl⟩⟩
      rw [Function.iterate_one, hnext]
    | @push cursor item hlt hsize hitem =>
      rw [Unwatched, hframes, List.forall_mem_cons] at hclear
      have hclear' : (e.withPush ({ frame with cursor } :: rest) item).Unwatched :=
        List.forall_mem_cons.mpr hclear
      obtain ⟨k, hk, hend, hall⟩ := ih (frame.script.size - cursor) (by omega)
        (e := e.withPush ({ frame with cursor } :: rest) item) hstatus rfl hpush hsize hclear' rfl
      refine ⟨k + 1, by omega, ?_, fun j hj => ?_⟩
      · rw [Function.iterate_succ_apply, hnext]
        exact hend
      · cases j with
        | zero => exact hstart
        | succ j =>
          rw [Function.iterate_succ_apply, hnext]
          exact (hall j (Nat.le_of_succ_le_succ hj)).of_push hitem

/-- **Push-only frames are confined and come to an end.** An engine that starts to run a push-only
frame has faulted or left the frame after at most one step for each byte of the script and one more.
Until then no frame is added and those below stay the same, and so do the alternative stack and the
heap; the items that were on the evaluation stack stay there, and all that comes on top of them are
the integers -1 and 1 to 16 and byte strings. -/
theorem pushOnly_confined (e : Engine) (frame : Frame) (rest : Stack Frame)
    (hstatus : e.status = .running) (hframes : e.frames = frame :: rest)
    (hpush : frame.pushOnly = true) (hcursor : frame.cursor = 0)
    (hclear : ∀ f ∈ e.frames, ∀ offset, e.breakpoints.contains f.breakpoints offset = false) :
    ∃ k ≤ frame.script.size + 1,
      ((∃ fault, (Engine.step^[k] e).FaultedWith fault) ∨ (Engine.step^[k] e).frames = rest) ∧
      ∀ j ≤ k, Confined e frame rest (Engine.step^[j] e) := by
  have h := exists_confined hstatus hframes hpush (hcursor ▸ Nat.zero_le _) hclear
  rwa [hcursor, Nat.sub_zero] at h

/-- A push-only frame with the script `PUSH1`, a push of two bytes, and the host call `Drop`. -/
def untrustedFrame : Frame where
  script := .ofBytes [0x51, 0x02, 0xaa, 0xbb, 0x68, 0x04, 0x44, 0x72, 0x6f, 0x70]
  pushOnly := true
  breakpoints := 0

/-- A frame that works on what the one above it pushes. -/
def trustingFrame : Frame := { script := .ofBytes [0x93], breakpoints := 0 }

/-- An engine that runs the one on top of the other; the host call would drop both. -/
def untrusted : Engine :=
  { (Engine.new .secp256k1).register "Drop" [.dispose] with
    frames := [untrustedFrame, trustingFrame]
    work := { eval := [.boolean true], alt := [.integer 7] } }

example : (Engine.step^[3] untrusted).FaultedWith (.pushOnly "SYSCALL") := by decide +kernel

theorem pushOnly_confined_untrusted :
    untrusted.status = .running ∧ untrusted.frames = [untrustedFrame, trustingFrame] ∧
      untrustedFrame.pushOnly = true ∧ untrustedFrame.cursor = 0 ∧
      ∃ k ≤ 11, ((∃ fault, (Engine.step^[k] untrusted).FaultedWith fault) ∨
        (Engine.step^[k] untrusted).frames = [trustingFrame]) ∧
        ∀ j ≤ k, Confined untrusted untrustedFrame [trustingFrame] (Engine.step^[j] untrusted) := by
  have hclear : ∀ f ∈ untrusted.frames, ∀ offset,
      untrusted.breakpoints.contains f.breakpoints offset = false := fun _ _ _ => rfl
  exact ⟨rfl, rfl, rfl, rfl, pushOnly_confined untrusted untrustedFrame [trustingFrame] rfl rfl rfl rfl
    hclear⟩

end Engine

end StackScript
