import StackScript.Proofs.Assembly.Printing
import StackScript.Proofs.Engine.Inversion
import StackScript.Proofs.Operation.Faults

/-!
# The listing and the engine decode alike

A listing and a running engine read the same bytes for different ends. If the listing cannot read
the bytes at a cursor, a step there faults with the same cause. If it can, a step reads up to the
same cursor, and whatever fault it raises is not one of decoding. Behind the instruction is where
the frame goes on, unless the instruction sends it elsewhere.

Main statement: `Engine.step_decodes_as_listed`.
-/

namespace StackScript

open Control

namespace Instruction

/-- An instruction that, if it succeeds, puts a frame on top of the one it was read in. -/
def isCall : Instruction → Bool
  | .jump .call _ | .invoke .nested _ => true
  | _ => false

/-- An instruction that, if it succeeds, sends its frame elsewhere or ends it: a return, a jump that
is taken, or the call of a script in place of the frame. -/
def Departs (work : Workspace) : Instruction → Prop
  | .ret => True
  | .jump kind _ =>
      kind = .always ∨ ∃ sense left, kind.sense? = some sense ∧
        Operation.popBool work = .ok sense left
  | .invoke kind _ => kind = .tail
  | .pushBytes _ | .pushData .. | .syscall _ | .plain _ => False

end Instruction

namespace Engine

variable {e : Engine} {frame : Frame} {rest : Stack Frame}

/-! ### Faults of instructions -/

theorem clean_of_operation? {found : Instruction} {op : Operation Unit}
    (hop : operation? e found = some op) : Operation.Clean op := by
  rcases operation?_cases hop with ⟨data, rfl⟩ | ⟨verifier, plain, rfl⟩
  · exact fun _ => trivial
  · exact Plain.run_fails verifier plain

/-- No instruction fails as if it could not be read. -/
theorem performs_fault_ne_decode {found : Instruction} {fault : Fault} {last : Engine}
    (h : Performs e frame rest found (.error fault last)) (cause : DecodeError) :
    fault ≠ .decode cause := by
  cases h with
  | refuse h => cases h <;> nofun
  | workFault hop hrun =>
    have hclean := clean_of_operation? hop e.work
    rw [hrun] at hclean
    exact hclean.1 cause
  | branchFault hpop =>
    have hbool := Operation.popBool_takes (.refl e.work)
    rw [hpop] at hbool
    exact hbool.1 cause
  | missing => nofun

/-! ### Where the frame goes on -/

/-- The frame at a depth runs the script of `frame` and stands at its cursor. -/
def StandsAt (e : Engine) (depth : Nat) (frame : Frame) : Prop :=
  ∃ asked, e.frames[depth]? = some asked ∧ asked.script = frame.script ∧ asked.cursor = frame.cursor

theorem standsAt_top (h : e.frames = frame :: rest) : e.StandsAt 0 frame :=
  ⟨frame, by rw [h]; rfl, rfl, rfl⟩

theorem StandsAt.withStatus {depth : Nat} (h : e.StandsAt depth frame) (status : Status)
    (reason : Option Fault) :
    { e with status, reason }.StandsAt depth frame := h

/-- A frame that has its hash remembered stands where it stood. -/
theorem standsAt_set {depth : Nat} {asked : Frame} (crypto : Crypto)
    (hasked : (frame :: rest)[depth]? = some asked)
    (h : e.frames = (frame :: rest).set depth (asked.remember crypto)) : e.StandsAt 0 frame := by
  cases depth with
  | zero =>
    obtain rfl : frame = asked := Option.some.inj hasked
    exact ⟨frame.remember crypto, by rw [h]; rfl, rfl, rfl⟩
  | succ depth => exact ⟨frame, by rw [h]; rfl, rfl, rfl⟩

/-- After an instruction the frame that it was read in stands behind it, and under one frame more
if it was a call that succeeded, unless the instruction sent it elsewhere. -/
theorem performs_standsAt {found : Instruction} {result : EStateM.Result Fault Engine Unit}
    (h : Performs e frame rest found result) (hframes : e.frames = frame :: rest) :
    Outcome
      (fun _ last => found.Departs e.work ∨ last.StandsAt (if found.isCall then 1 else 0) frame)
      (fun _ last => last.StandsAt 0 frame) result := by
  have htop := standsAt_top hframes
  cases h with
  | refuse => exact htop
  | @work found _ _ hop _ =>
    right
    have hcall : found.isCall = false := by
      cases found with
      | jump | invoke => cases hop
      | _ => rfl
    rw [hcall]
    exact htop
  | workFault => exact htop
  | move => exact .inl (.inl rfl)
  | branch _ hkind hpop => exact .inl (.inr ⟨_, _, hkind, hpop⟩)
  | @skip kind _ _ _ hkind _ =>
    right
    cases kind with
    | call => cases hkind
    | _ => exact htop
  | branchFault => exact htop
  | enter => exact .inr ⟨frame, rfl, rfl, rfl⟩
  | missing => exact htop
  | nested =>
    refine .inr ⟨frame, ?_, rfl, rfl⟩
    show e.frames[0]? = some frame
    rw [hframes]
    rfl
  | tail => exact .inl rfl
  | container => exact .inr htop
  | hash hasked => exact .inr (standsAt_set _ hasked rfl)
  | leave => exact .inl trivial

/-- An instruction that succeeds raises no fault. -/
theorem performs_status_ne_faulted {found : Instruction} {last : Engine}
    (h : Performs e frame rest found (.ok () last)) (hstatus : e.status ≠ .faulted) :
    last.status ≠ .faulted := by
  cases h with
  | leave =>
    simp only
    split
    · simp
    · exact hstatus
  | _ => exact hstatus

/-! ### Reading -/

section Reading

variable (hframes : e.frames = frame :: rest) (hpush : frame.pushOnly = false)
  (hcursor : frame.cursor < frame.script.size)

include hframes hpush hcursor

theorem advance_of_undecoded {cause : DecodeError} {next : Nat}
    (hdecode : Instruction.decodeAt frame.script frame.cursor = .error cause next) :
    ∃ last, advance e = .error (.decode cause) last := by
  have hadvances := advances hframes
  generalize advance e = result at hadvances ⊢
  cases hadvances with
  | atEnd h => simp [Frame.atEnd] at h; omega
  | refuse _ h => rw [hpush] at h; cases h
  | undecoded h =>
    rw [hdecode] at h
    cases h
    exact ⟨_, rfl⟩
  | perform _ _ h => rw [hdecode] at h; cases h

theorem advance_of_decoded {found : Instruction} {next : Nat}
    (hdecode : Instruction.decodeAt frame.script frame.cursor = .ok found next) :
    advance e = perform found { e with frames := { frame with cursor := next } :: rest } := by
  have hadvances := advances hframes
  generalize advance e = result at hadvances ⊢
  cases hadvances with
  | atEnd h => simp [Frame.atEnd] at h; omega
  | refuse _ h => rw [hpush] at h; cases h
  | undecoded h => rw [hdecode] at h; cases h
  | perform _ _ h =>
    rw [hdecode] at h
    cases h
    rfl

end Reading

/-- What a step does once the instruction is read: the fault is not one of decoding, and the frame
stands behind the instruction unless that has sent it elsewhere. -/
theorem step_of_decoded {found : Instruction} {next : Nat} (hstatus : e.status = .running)
    (hservice : e.service = .builtin) (hframes : e.frames = frame :: rest)
    (hpush : frame.pushOnly = false) (hcursor : frame.cursor < frame.script.size)
    (hdecode : Instruction.decodeAt frame.script frame.cursor = .ok found next) :
    (∀ cause, ¬e.step.FaultedWith (.decode cause)) ∧
      (e.step.status ≠ .faulted ∧ found.Departs e.work ∨
        e.step.StandsAt (if found.isCall && e.step.status != .faulted then 1 else 0)
          { frame with cursor := next }) := by
  have hlive : e.status.isTerminal = false := by rw [hstatus]; rfl
  rw [step_of_cons hlive hframes, advance_of_decoded hframes hpush hcursor hdecode]
  obtain ⟨moved, hmoved⟩ : ∃ moved : Engine,
      moved = { e with frames := { frame with cursor := next } :: rest } := ⟨_, rfl⟩
  have hframes' : moved.frames = { frame with cursor := next } :: rest := by rw [hmoved]
  have hwork : moved.work = e.work := by rw [hmoved]
  have hnofault : moved.status ≠ .faulted := by simp [hmoved, hstatus]
  have hperforms := performs (by rw [hmoved]; exact hservice) hframes' found
  have hstands := performs_standsAt hperforms hframes'
  rw [← hmoved]
  cases hrun : perform found moved with
  | ok _ last =>
    rw [hrun] at hperforms hstands
    have hlast := performs_status_ne_faulted hperforms hnofault
    rw [Outcome, hwork] at hstands
    -- A pause changes neither frames nor whether there was a fault.
    by_cases hbreak : last.atBreakpoint = true
    · simp only [if_pos hbreak]
      refine ⟨fun _ hfault => ?_, hstands.imp (fun h => ⟨by simp, h⟩) fun h => ?_⟩
      · cases hfault.1
      · have hpaused : (Status.paused != .faulted) = true := rfl
        rw [hpaused, Bool.and_true]
        exact h.withStatus .paused last.reason
    · simp only [if_neg hbreak]
      refine ⟨fun cause hcause => hlast hcause.1, hstands.imp (fun h => ⟨hlast, h⟩) fun h => ?_⟩
      simpa [hlast] using h
  | error fault last =>
    rw [hrun] at hperforms hstands
    refine ⟨fun cause hcause => ?_, .inr ?_⟩
    · exact performs_fault_ne_decode hperforms cause (Option.some.inj hcause.2)
    · have hfaulted : (Status.faulted != .faulted) = false := rfl
      simp only [hfaulted, Bool.and_false, Bool.false_eq_true, if_false]
      exact StandsAt.withStatus hstands .faulted (some fault)

/-! ### The main statement -/

open Assembly in
/-- **The listing and the engine decode alike.** If the listing has no text for the bytes at the
cursor, a step faults with the same cause. If it has one, there is an instruction of that text which
the step performs: the step faults for no reason of decoding, and the frame that performed it stands
where the listing stopped reading, below one frame more if it was a call that succeeded, unless it
was a return, a jump taken or a script called in its place. -/
theorem step_decodes_as_listed (e : Engine) (frame : Frame) (rest : Stack Frame)
    (hstatus : e.status = .running) (hservice : e.service = .builtin)
    (hframes : e.frames = frame :: rest) (hpush : frame.pushOnly = false)
    (hcursor : frame.cursor < frame.script.size) :
    (∀ cause, textAt frame.script frame.cursor = .error cause →
      e.step.FaultedWith (.decode cause)) ∧
    ∀ text, textAt frame.script frame.cursor = .ok text →
      ∃ found next, readText.runAt frame.script frame.cursor = .ok text next ∧
        Instruction.decodeAt frame.script frame.cursor = .ok found next ∧ found.text = text ∧
        (∀ cause, ¬e.step.FaultedWith (.decode cause)) ∧
        (e.step.status ≠ .faulted ∧ found.Departs e.work ∨
          e.step.StandsAt (if found.isCall && e.step.status != .faulted then 1 else 0)
            { frame with cursor := next }) := by
  have hlive : e.status.isTerminal = false := by rw [hstatus]; rfl
  unfold textAt
  rw [runAt_readText]
  cases hdecode : Instruction.decodeAt frame.script frame.cursor with
  | error cause next =>
    refine ⟨fun cause' hcause => ?_, nofun⟩
    obtain rfl : cause = cause' := Except.error.inj hcause
    obtain ⟨last, hlast⟩ := advance_of_undecoded hframes hpush hcursor hdecode
    rw [step_of_cons hlive hframes, hlast]
    exact ⟨rfl, rfl⟩
  | ok found next =>
    refine ⟨nofun, fun text htext => ⟨found, next, ?_, rfl, Except.ok.inj htext, ?_⟩⟩
    · rw [← Except.ok.inj htext]
    · exact step_of_decoded hstatus hservice hframes hpush hcursor hdecode

/-- A frame with the script `CALL 4`, followed by a push of data with the length -1. -/
def callThenPush (cursor : Nat) : Frame where
  script := .ofBytes [0x65, 0x04, 0x00, 0x4e, 0xff, 0xff, 0xff, 0xff]
  cursor
  breakpoints := 0

/-- The call leaves its frame behind it, and the push cannot be read. -/
theorem step_decodes_as_listed_calling :
    { Engine.new .secp256k1 with frames := [callThenPush 0] }.step.StandsAt 1 (callThenPush 3) ∧
      { Engine.new .secp256k1 with frames := [callThenPush 3] }.step.FaultedWith
        (.decode (.negativeLength (-1))) := by
  have hcall := step_decodes_as_listed
    { Engine.new .secp256k1 with frames := [callThenPush 0] } (callThenPush 0) [] rfl rfl rfl rfl
    (by decide)
  have hpush := step_decodes_as_listed
    { Engine.new .secp256k1 with frames := [callThenPush 3] } (callThenPush 3) [] rfl rfl rfl rfl
    (by decide)
  constructor
  · obtain ⟨found, next, -, hdecode, -, -, hstands⟩ := hcall.2 "CALL 4" (by decide +kernel)
    have hfound : Instruction.decodeAt (callThenPush 0).script (callThenPush 0).cursor =
        .ok (.jump .call 4) 3 := rfl
    rw [hfound] at hdecode
    cases hdecode
    rcases hstands with ⟨-, hdeparts⟩ | hstands
    · rcases hdeparts with h | ⟨_, _, h, _⟩ <;> cases h
    · exact hstands
  · exact hpush.1 (.negativeLength (-1)) (by decide +kernel)

end Engine

end StackScript
