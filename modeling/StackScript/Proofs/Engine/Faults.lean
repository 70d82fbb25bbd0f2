import StackScript.Proofs.Consumption
import StackScript.Proofs.Engine.Decoding

/-!
# What a fault leaves of an engine

A fault stops the run in the middle of an instruction, and what the instruction did before stays
done. That is little: the cursor of the top frame has moved over what was read of the instruction,
and operands are gone from the evaluation stack. The frames, their breakpoints and the stacks are
otherwise as they were, whichever instruction it was and wherever in it the fault was raised.

Main statement: `Engine.fault_contained`.
-/

namespace StackScript.Engine

open Control

/-- All that has happened is that the cursor of the top frame has moved within the script and that
operands are gone from the evaluation stack. -/
structure Stopped (e : Engine) (frame : Frame) (rest : Stack Frame) (last : Engine) : Prop where
  frames : ∃ cursor, last.frames = { frame with cursor } :: rest ∧
    frame.cursor ≤ cursor ∧ cursor ≤ frame.script.size
  breakpoints : last.breakpoints = e.breakpoints
  work : e.work.Dropped last.work

variable {e : Engine} {frame : Frame} {rest : Stack Frame}

theorem dropped_refl (w : Workspace) : w.Dropped w := ⟨List.suffix_rfl, rfl⟩

theorem stopped_at {cursor : Nat} (hle : frame.cursor ≤ cursor) (hsize : cursor ≤ frame.script.size) :
    Stopped e frame rest { e with frames := { frame with cursor } :: rest } :=
  ⟨⟨cursor, rfl, hle, hsize⟩, rfl, dropped_refl e.work⟩

/-- An instruction that fails has changed neither frames nor breakpoints, and taken operands at
most. -/
theorem performs_dropped {found : Instruction} {fault : Fault} {last : Engine}
    (h : Performs e frame rest found (.error fault last)) :
    last.frames = e.frames ∧ last.breakpoints = e.breakpoints ∧ e.work.Dropped last.work := by
  cases h with
  | refuse => exact ⟨rfl, rfl, dropped_refl e.work⟩
  | workFault hop hrun =>
    have hclean := clean_of_operation? hop e.work
    rw [hrun] at hclean
    exact ⟨rfl, rfl, hclean.2⟩
  | branchFault hpop =>
    have hbool := Operation.popBool_takes (.refl e.work)
    rw [hpop] at hbool
    exact ⟨rfl, rfl, hbool.2.eval, hbool.2.alt⟩
  | missing => exact ⟨rfl, rfl, dropped_refl e.work⟩

/-- A frame at its end is left, which cannot fail. -/
theorem cursor_lt_of_advance_error (hframes : e.frames = frame :: rest) {fault : Fault}
    {last : Engine} (h : advance e = .error fault last) : frame.cursor < frame.script.size := by
  by_contra hend
  unfold advance at h
  rw [run_bind, current_eq hframes] at h
  simp only [Frame.atEnd, decide_eq_true (Nat.not_lt.mp hend), if_true] at h
  rw [leave_eq hframes] at h
  cases h

/-- An engine that fails to read or perform its next instruction has not gone further. -/
theorem stopped_of_advance_error (hservice : e.service = .builtin)
    (hframes : e.frames = frame :: rest) {fault : Fault} {last : Engine}
    (h : advance e = .error fault last) : Stopped e frame rest last := by
  have hcursor := Nat.le_of_lt (cursor_lt_of_advance_error hframes h)
  have hdecoded := Instruction.decodeAt_bounds frame.script hcursor
  have hadvances := advances hframes
  generalize advance e = result at h hadvances
  cases hadvances with
  | atEnd => cases h
  | refuse hbyte =>
    cases h
    have hbounds := Reader.forward_byte frame.script frame.cursor hcursor
    rw [hbyte] at hbounds
    exact stopped_at hbounds.1 hbounds.2
  | undecoded hdecode =>
    cases h
    rw [hdecode] at hdecoded
    exact stopped_at hdecoded.1 hdecoded.2
  | @perform found _ _ next _ _ hdecode =>
    rw [hdecode] at hdecoded
    have hstopped : Stopped e frame rest _ :=
      stopped_at (Nat.le_of_lt hdecoded.1) hdecoded.2
    -- The instruction starts from an engine whose cursor is behind it.
    have hperforms := performs
      (e := { e with frames := { frame with cursor := next } :: rest }) hservice rfl found
    rw [h] at hperforms
    obtain ⟨hlast, hbreakpoints, hwork⟩ := performs_dropped hperforms
    exact ⟨by rw [hlast]; exact hstopped.frames, hbreakpoints, hwork⟩

/-- Performing the next instruction ends in a fault only if it fails. -/
theorem advance_status_ne_faulted (hservice : e.service = .builtin) (hframes : e.frames = frame :: rest)
    (hlive : e.status.isTerminal = false) {last : Engine} (h : advance e = .ok () last) :
    last.status ≠ .faulted := by
  have hnone := Status.ne_faulted_of_not_isTerminal hlive
  have hadvances := advances hframes
  generalize advance e = result at h hadvances
  cases hadvances with
  | atEnd =>
    cases h
    dsimp only
    split
    · simp
    · exact hnone
  | refuse => cases h
  | undecoded => cases h
  | @perform found _ _ next _ _ _ =>
    have hperforms := performs
      (e := { e with frames := { frame with cursor := next } :: rest }) hservice rfl found
    rw [h] at hperforms
    exact performs_status_ne_faulted hperforms hnone

/-- **A fault is contained.** A step that faults leaves all frames there, with the cursor of the top
one moved within the script at most; the breakpoints and the alternative stack are the same, and the
evaluation stack is a bottom part of what it was. -/
theorem fault_contained (e : Engine) (frame : Frame) (rest : Stack Frame)
    (hlive : e.status.isTerminal = false) (hservice : e.service = .builtin)
    (hframes : e.frames = frame :: rest) (hfault : e.step.status = .faulted) :
    (∃ cursor, e.step.frames = { frame with cursor } :: rest ∧
      frame.cursor ≤ cursor ∧ cursor ≤ frame.script.size) ∧
    e.step.breakpoints = e.breakpoints ∧ e.step.work.alt = e.work.alt ∧
    e.step.work.eval <:+ e.work.eval := by
  rw [step_of_cons hlive hframes] at hfault ⊢
  cases hadvance : advance e with
  | ok _ last =>
    rw [hadvance] at hfault
    have hnone := advance_status_ne_faulted hservice hframes hlive hadvance
    dsimp only at hfault
    split at hfault
    · cases hfault
    · exact absurd hfault hnone
  | error cause last =>
    obtain ⟨hstopped, hbreakpoints, hwork⟩ := stopped_of_advance_error hservice hframes hadvance
    exact ⟨hstopped, hbreakpoints, hwork.alt, hwork.eval⟩

/-- A called frame is about to pack more items than there are. -/
def overpacking : Engine :=
  { Engine.new .secp256k1 with
    frames := [{ script := .ofBytes [0xc1], breakpoints := 0 },
      { script := .ofBytes [0x65, 0x03, 0x00], cursor := 3, breakpoints := 0 }]
    work := { eval := [.integer 4, .bytes [0x2a]], alt := [.boolean true] } }

/-- The count is gone, the item below it and the calling frame are still there. -/
theorem fault_contained_overpacking :
    overpacking.step.FaultedWith (.argumentRange "PACK" 4 1) ∧
      (∃ cursor, overpacking.step.frames = [{ script := .ofBytes [0xc1], cursor, breakpoints := 0 },
          { script := .ofBytes [0x65, 0x03, 0x00], cursor := 3, breakpoints := 0 }] ∧
        0 ≤ cursor ∧ cursor ≤ 1) ∧
      overpacking.step.breakpoints = {} ∧ overpacking.step.work.alt = [.boolean true] ∧
      overpacking.step.work.eval <:+ [.integer 4, .bytes [0x2a]] := by
  have hfault : overpacking.step.FaultedWith (.argumentRange "PACK" 4 1) := by decide +kernel
  exact ⟨hfault, fault_contained overpacking _ _ rfl rfl rfl hfault.1⟩

end StackScript.Engine
