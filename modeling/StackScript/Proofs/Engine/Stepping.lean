import StackScript.Proofs.Consumption
import StackScript.Proofs.Engine.Decoding
import StackScript.Proofs.Engine.Sessions
import Mathlib.Order.Bounds.Basic

/-!
# Stepping over calls and out of frames

A debugger steps over an instruction by running until there are no more frames than before, and out
of a frame by running until there are fewer. Only the number of frames is looked at, while calls,
returns and scripts called in place of others go on above. What makes this right is that a step
touches the top frame alone: the frames below stay where they are, one and all, except that a host
call may have one of them remember its hash (`Engine.above_step`). So the frames that are left when
the number is reached are the ones that were there before.

Main statement: `Engine.stepping_keeps_callers`.
-/

namespace StackScript

open Control

/-! ### Frames that are kept -/

namespace Frame

/-- The frame is the same, or has its hash remembered. -/
def Recalls (crypto : Crypto) (f f' : Frame) : Prop := f' = f ∨ f' = f.remember crypto

theorem remember_remember (f : Frame) (crypto : Crypto) :
    (f.remember crypto).remember crypto = f.remember crypto := rfl

theorem Recalls.trans {crypto : Crypto} {f f' f'' : Frame} (h : f.Recalls crypto f')
    (h' : f'.Recalls crypto f'') : f.Recalls crypto f'' := by
  rcases h with rfl | rfl
  · exact h'
  · rw [Recalls, remember_remember, or_self] at h'
    exact .inr h'

end Frame

/-- The frames are the same, one by one, up to hashes that are remembered. -/
def KeptFrames (crypto : Crypto) (frames frames' : Stack Frame) : Prop :=
  List.Forall₂ (Frame.Recalls crypto) frames frames'

namespace KeptFrames

variable {crypto : Crypto} {frames frames' frames'' : Stack Frame}

theorem refl (crypto : Crypto) (frames : Stack Frame) : KeptFrames crypto frames frames :=
  List.forall₂_same.mpr fun _ _ => .inl rfl

theorem trans (h : KeptFrames crypto frames frames') (h' : KeptFrames crypto frames' frames'') :
    KeptFrames crypto frames frames'' := by
  induction h generalizing frames'' with
  | nil => exact h'
  | cons hframe _ ih =>
    cases h' with
    | cons hframe' hrest' => exact .cons (hframe.trans hframe') (ih hrest')

/-- One of the frames has its hash remembered. -/
theorem set {depth : Nat} {asked : Frame} (h : frames[depth]? = some asked) :
    KeptFrames crypto frames (frames.set depth (asked.remember crypto)) := by
  induction frames generalizing depth with
  | nil => cases h
  | cons frame rest ih =>
    cases depth with
    | zero =>
      obtain rfl : frame = asked := Option.some.inj h
      exact .cons (.inr rfl) (refl crypto rest)
    | succ depth => exact .cons (.inl rfl) (ih h)

/-- The lower ones of some frames are kept. -/
theorem exists_append {upper : Stack Frame} (h : KeptFrames crypto (upper ++ frames) frames') :
    ∃ upper' lower, frames' = upper' ++ lower ∧ KeptFrames crypto frames lower := by
  refine ⟨frames'.take upper.length, frames'.drop upper.length, by simp, ?_⟩
  exact (List.forall₂_drop_append _ _ _ h.flip).flip

end KeptFrames

namespace Engine

variable {e : Engine} {frame : Frame} {rest : Stack Frame}

/-! ### What a step leaves below the top frame -/

/-- The frames of `base` are at the bottom, with any others above them. -/
structure Above (crypto : Crypto) (base : Stack Frame) (e : Engine) : Prop where
  service : e.service = .builtin
  crypto_eq : e.crypto = crypto
  frames : ∃ upper lower, e.frames = upper ++ lower ∧ KeptFrames crypto base lower

namespace Above

variable {crypto : Crypto} {base lower : Stack Frame}

theorem of_frames (hservice : e.service = .builtin) (upper : Stack Frame)
    (hframes : e.frames = upper ++ base) : Above e.crypto base e :=
  ⟨hservice, rfl, upper, base, hframes, .refl _ _⟩

theorem of_kept (h : Above crypto lower e) (hkept : KeptFrames crypto base lower) :
    Above crypto base e := by
  obtain ⟨hservice, hcrypto, upper, lower', hframes, hlower⟩ := h
  exact ⟨hservice, hcrypto, upper, lower', hframes, hkept.trans hlower⟩

theorem of_append {upper : Stack Frame} (h : Above crypto (upper ++ base) e) :
    Above crypto base e := by
  obtain ⟨hservice, hcrypto, upper', lower, hframes, hlower⟩ := h
  obtain ⟨between, bottom, rfl, hbottom⟩ := hlower.exists_append
  refine ⟨hservice, hcrypto, upper' ++ between, bottom, ?_, hbottom⟩
  rw [hframes, List.append_assoc]

/-- Where no frame is above them, the frames are those of `base`. -/
theorem kept_of_length_le (h : Above crypto base e) (hlength : e.frames.length ≤ base.length) :
    KeptFrames crypto base e.frames := by
  obtain ⟨-, -, upper, lower, hframes, hlower⟩ := h
  have hsame : base.length = lower.length := hlower.length_eq
  have hnil : upper = [] := by
    rw [hframes, List.length_append] at hlength
    exact List.length_eq_zero_iff.mp (by omega)
  rw [hframes, hnil, List.nil_append]
  exact hlower

end Above

/-- Whatever an instruction does, it does to the top frame. -/
theorem performs_above {found : Instruction} {result : EStateM.Result Fault Engine Unit}
    (h : Performs e frame rest found result) (hservice : e.service = .builtin)
    (hframes : e.frames = frame :: rest) :
    Outcome (fun _ => Above e.crypto rest) (fun _ => Above e.crypto rest) result := by
  have htop : e.frames = [frame] ++ rest := hframes
  cases h with
  | refuse => exact .of_frames hservice [frame] htop
  | work | workFault | skip | branchFault | missing | container =>
    exact ⟨hservice, rfl, [frame], rest, htop, .refl _ _⟩
  | move | branch => exact ⟨hservice, rfl, [_], rest, rfl, .refl _ _⟩
  | enter => exact ⟨hservice, rfl, [_, frame], rest, rfl, .refl _ _⟩
  | nested =>
    exact ⟨hservice, rfl, [_, frame], rest, congrArg (List.cons _) hframes, .refl _ _⟩
  | tail => exact ⟨hservice, rfl, [_], rest, rfl, .refl _ _⟩
  | @hash _ depth asked hasked =>
    cases depth with
    | zero => exact ⟨hservice, rfl, [_], rest, rfl, .refl _ _⟩
    | succ depth => exact ⟨hservice, rfl, [frame], _, rfl, .set hasked⟩
  | leave => exact ⟨hservice, rfl, [], rest, rfl, .refl _ _⟩

/-- **A step leaves the frames below the top one as they are.** -/
theorem above_step (hservice : e.service = .builtin) (hframes : e.frames = frame :: rest) :
    Above e.crypto rest e.step := by
  refine step_of_advance (.of_frames hservice [frame] hframes)
    (fun _ _ _ h => ⟨h.service, h.crypto_eq, h.frames⟩) fun top others htop => ?_
  obtain ⟨rfl, rfl⟩ := List.cons.inj (hframes.symm.trans htop)
  have hadvances := advances hframes
  generalize advance e = result at hadvances ⊢
  cases hadvances with
  | atEnd => exact ⟨hservice, rfl, [], rest, rfl, .refl _ _⟩
  | refuse | undecoded => exact ⟨hservice, rfl, [_], rest, rfl, .refl _ _⟩
  | @perform found _ _ next _ _ _ =>
    have hperforms := performs
      (e := { e with frames := { frame with cursor := next } :: rest }) hservice rfl found
    have habove := performs_above hperforms hservice rfl
    exact habove

/-- A step from above some frames does not touch them. -/
theorem Above.step {crypto : Crypto} {base : Stack Frame} (h : Above crypto base e)
    (hlength : base.length < e.frames.length) : Above crypto base e.step := by
  obtain ⟨hservice, rfl, upper, lower, hframes, hlower⟩ := h
  have hsame : base.length = lower.length := hlower.length_eq
  cases upper with
  | nil =>
    rw [hframes, List.nil_append] at hlength
    omega
  | cons top upper => exact (above_step hservice hframes).of_append.of_kept hlower

/-- A run that stays above some frames does not touch them. -/
theorem Above.steps {crypto : Crypto} {base : Stack Frame} (h : Above crypto base e) {n : Nat}
    (habove : ∀ m < n, base.length < (Engine.step^[m] e).frames.length) :
    Above crypto base (Engine.step^[n] e) := by
  induction n with
  | zero => exact h
  | succ n ih =>
    rw [Function.iterate_succ_apply']
    exact (ih fun m hm => habove m (Nat.lt_succ_of_lt hm)).step (habove n (Nat.lt_succ_self n))

/-! ### Calls and other instructions -/

/-- A call that succeeds puts a frame on top of the others. -/
theorem performs_of_isCall {found : Instruction} {last : Engine}
    (h : Performs e frame rest found (.ok () last)) (hcall : found.isCall = true)
    (hframes : e.frames = frame :: rest) :
    last.service = e.service ∧ last.crypto = e.crypto ∧
      ∃ new, last.frames = new :: frame :: rest := by
  cases h with
  | @work found _ _ hop _ =>
    cases found with
    | jump | invoke => cases hop
    | _ => cases hcall
  | @branch kind _ _ _ _ _ hkind _ | @skip kind _ _ _ hkind _ =>
    cases kind with
    | call => cases hkind
    | _ => cases hcall
  | move | tail | container | hash | leave => cases hcall
  | enter => exact ⟨rfl, rfl, _, rfl⟩
  | nested => exact ⟨rfl, rfl, _, congrArg (List.cons _) hframes⟩

/-- No other instruction leaves more frames than there were. -/
theorem performs_length_le {found : Instruction} {last : Engine}
    (h : Performs e frame rest found (.ok () last)) (hcall : found.isCall = false)
    (hframes : e.frames = frame :: rest) : last.frames.length ≤ rest.length + 1 := by
  have hlength : e.frames.length = rest.length + 1 := congrArg List.length hframes
  cases h with
  | work | skip | container => exact hlength.le
  | move | branch | tail => exact le_rfl
  | enter | nested => cases hcall
  | hash => exact (List.length_set ..).le
  | leave => exact Nat.le_succ _

theorem cursor_lt_of_decodeAt {script : Script} {cursor next : Nat} {found : Instruction}
    (h : Instruction.decodeAt script cursor = .ok found next) : cursor < script.size := by
  obtain ⟨byte, hbyte, -⟩ := Instruction.exists_opcode_of_decodeAt h
  exact hbyte.stop_le

/-- A step on a call faults, or puts a frame on top of the one that goes on behind the call. -/
theorem step_of_isCall (hlive : e.status.isTerminal = false) (hservice : e.service = .builtin)
    (hframes : e.frames = frame :: rest) {found : Instruction} {next : Nat}
    (hdecode : Instruction.decodeAt frame.script frame.cursor = .ok found next)
    (hcall : found.isCall = true) :
    e.step.status = .faulted ∨
      Above e.crypto ({ frame with cursor := next } :: rest) e.step := by
  have hcursor := cursor_lt_of_decodeAt hdecode
  rw [step_of_cons hlive hframes]
  have hadvances := advances hframes
  generalize advance e = result at hadvances ⊢
  cases hadvances with
  | atEnd hend =>
    rw [Frame.atEnd, decide_eq_true_eq] at hend
    omega
  | refuse => exact .inl rfl
  | undecoded hundecoded =>
    rw [hdecode] at hundecoded
    cases hundecoded
  | perform _ _ hfound =>
    rw [hdecode] at hfound
    cases hfound
    have hperforms := performs
      (e := { e with frames := { frame with cursor := next } :: rest }) hservice rfl found
    cases hrun : perform found { e with frames := { frame with cursor := next } :: rest } with
    | error fault last => exact .inl rfl
    | ok _ last =>
      rw [hrun] at hperforms
      obtain ⟨hservice', hcrypto, new, hlast⟩ := performs_of_isCall hperforms hcall rfl
      refine .inr ?_
      dsimp only
      split
      · exact ⟨hservice'.trans hservice, hcrypto, [new], _, hlast, .refl _ _⟩
      · exact ⟨hservice'.trans hservice, hcrypto, [new], _, hlast, .refl _ _⟩

/-- A step on any other instruction stops the engine or leaves no more frames than there were. -/
theorem step_of_not_isCall (hlive : e.status.isTerminal = false) (hservice : e.service = .builtin)
    (hframes : e.frames = frame :: rest)
    (hcall : ∀ found next, Instruction.decodeAt frame.script frame.cursor = .ok found next →
      found.isCall = false) :
    e.step.status.isStopped = true ∨ e.step.frames.length ≤ e.frames.length := by
  rw [step_of_cons hlive hframes, hframes, List.length_cons]
  have hok : ∀ last : Engine, last.frames.length ≤ rest.length + 1 →
      (if last.atBreakpoint = true then { last with status := .paused } else last).frames.length ≤
        rest.length + 1 := by
    intro last hlast
    split
    · exact hlast
    · exact hlast
  have hadvances := advances hframes
  generalize advance e = result at hadvances ⊢
  cases hadvances with
  | atEnd => exact .inr (hok _ (Nat.le_succ _))
  | refuse | undecoded => exact .inl rfl
  | @perform found _ _ next _ _ hdecode =>
    have hperforms := performs
      (e := { e with frames := { frame with cursor := next } :: rest }) hservice rfl found
    cases hrun : perform found { e with frames := { frame with cursor := next } :: rest } with
    | error fault last => exact .inl rfl
    | ok _ last =>
      rw [hrun] at hperforms
      exact .inr (hok last (performs_length_le hperforms (hcall found next hdecode) rfl))

/-! ### Runs of a debugger -/

/-- The least positive number of steps after which an engine is to be stopped at. -/
def FirstStop (stop : Engine → Prop) (e : Engine) (n : Nat) : Prop :=
  IsLeast {n | 0 < n ∧ stop (Engine.step^[n] e)} n

/-- A run that begins with a step. -/
theorem runUntil_step_iff {stop : Engine → Bool} {fuel : Nat} {last : Engine} :
    runUntil stop fuel e.step = some last ↔
      ∃ n ≤ fuel + 1, FirstStop (fun now => stop now = true) e n ∧ last = Engine.step^[n] e := by
  rw [runUntil_eq_some_iff]
  constructor
  · rintro ⟨n, hn, hstop, hbefore, rfl⟩
    refine ⟨n + 1, Nat.succ_le_succ hn, ⟨⟨Nat.succ_pos n, hstop⟩, ?_⟩, rfl⟩
    rintro m ⟨hm, hstop'⟩
    by_contra hlt
    obtain ⟨m, rfl⟩ := Nat.exists_eq_succ_of_ne_zero hm.ne'
    have hgoes := hbefore m (by omega)
    rw [← Function.iterate_succ_apply, hstop'] at hgoes
    cases hgoes
  · rintro ⟨n, hn, ⟨⟨hpos, hstop⟩, hleast⟩, rfl⟩
    obtain ⟨n, rfl⟩ := Nat.exists_eq_succ_of_ne_zero hpos.ne'
    refine ⟨n, Nat.le_of_succ_le_succ hn, hstop, fun m hm => ?_, rfl⟩
    by_contra hstop'
    have hle := hleast ⟨Nat.succ_pos m, Bool.eq_true_of_not_eq_false hstop'⟩
    omega

/-- An engine that is still running has reached what the run was for. -/
theorem FirstStop.reached {goal : Engine → Prop} {n : Nat}
    (h : FirstStop (fun now => now.status.isStopped = true ∨ goal now) e n)
    (hrunning : (Engine.step^[n] e).status = .running) : goal (Engine.step^[n] e) := by
  refine h.1.2.resolve_left fun hstopped => ?_
  rw [hrunning] at hstopped
  cases hstopped

/-- On its way it has not. -/
theorem FirstStop.not_reached {goal : Engine → Prop} {n m : Nat}
    (h : FirstStop (fun now => now.status.isStopped = true ∨ goal now) e n) (hpos : 0 < m)
    (hm : m < n) : ¬goal (Engine.step^[m] e) := fun hgoal =>
  absurd (h.2 ⟨hpos, .inr hgoal⟩) (Nat.not_le.mpr hm)

theorem resume_of_live (hlive : e.status.isTerminal = false) :
    e.resume = { e with status := .running } := by
  unfold resume
  split
  · rfl
  · rename_i hstatus
    have hrunning : e.status = .running := by
      cases h : e.status with
      | running => rfl
      | paused => exact absurd h hstatus
      | halted | faulted => rw [h] at hlive; cases hlive
    rw [← hrunning]

/-- Stepping over takes as many steps as lead back to the number of frames there were. -/
theorem stepOver_eq_some_iff (hlive : e.status.isTerminal = false) {fuel : Nat} {last : Engine} :
    e.stepOver fuel = some last ↔ ∃ n ≤ fuel + 1,
      FirstStop (fun now => now.status.isStopped = true ∨ now.frames.length ≤ e.frames.length)
        e.resume n ∧ last = Engine.step^[n] e.resume := by
  rw [stepOver, hlive, if_neg (by decide)]
  simp only [runUntil_step_iff, Stack.hasFewer_eq, Bool.or_eq_true, decide_eq_true_eq,
    Nat.lt_succ_iff]

/-- Stepping out takes as many steps as lead to fewer frames than there were. -/
theorem stepOut_eq_some_iff (hlive : e.status.isTerminal = false) {fuel : Nat} {last : Engine} :
    e.stepOut fuel = some last ↔ ∃ n ≤ fuel,
      FirstStop (fun now => now.status.isStopped = true ∨ now.frames.length < e.frames.length)
        e.resume n ∧ last = Engine.step^[n] e.resume := by
  have hstart : (e.resume.status.isStopped || Stack.hasFewer e.resume.frames e.frames.length) =
      false := by
    rw [resume_of_live hlive, Stack.hasFewer_eq]
    simp [Status.isStopped]
  unfold stepOut
  simp only
  cases fuel with
  | zero =>
    rw [runUntil, hstart, if_neg (by decide)]
    constructor
    · intro hnone
      cases hnone
    · rintro ⟨n, hn, hfirst, -⟩
      exact absurd hfirst.1.1 (by omega)
  | succ fuel =>
    rw [runUntil, hstart, if_neg (by decide), runUntil_step_iff]
    simp only [Stack.hasFewer_eq, Bool.or_eq_true, decide_eq_true_eq]

section Resumed

variable (hlive : e.status.isTerminal = false) (hservice : e.service = .builtin)
  (hframes : e.frames = frame :: rest)

include hlive hservice hframes

/-- Stepping over a call leaves the frames as they were, the top one behind the call. -/
theorem kept_of_stepOver {found : Instruction} {next : Nat}
    (hdecode : Instruction.decodeAt frame.script frame.cursor = .ok found next)
    (hcall : found.isCall = true) {fuel : Nat} {last : Engine} (hover : e.stepOver fuel = some last)
    (hrunning : last.status = .running) :
    KeptFrames e.crypto ({ frame with cursor := next } :: rest) last.frames := by
  have hlength : e.frames.length = rest.length + 1 := congrArg List.length hframes
  obtain ⟨n, -, hfirst, rfl⟩ := (stepOver_eq_some_iff hlive).mp hover
  obtain ⟨n, rfl⟩ := Nat.exists_eq_succ_of_ne_zero hfirst.1.1.ne'
  have hback := hfirst.reached hrunning
  rw [hlength] at hback
  rw [resume_of_live hlive] at hfirst hrunning hback ⊢
  rcases step_of_isCall (e := { e with status := .running }) rfl hservice hframes hdecode hcall with
    hfault | habove
  · have hterminal : { e with status := .running }.step.status.isTerminal = true := by
      rw [hfault]
      rfl
    rw [Function.iterate_succ_apply, steps_of_terminal hterminal, hfault] at hrunning
    cases hrunning
  · refine (habove.steps fun m hm => ?_).kept_of_length_le hback
    have hgoes := hfirst.not_reached (Nat.succ_pos m) (Nat.succ_lt_succ hm)
    rw [Nat.not_le, hlength] at hgoes
    exact hgoes

/-- Stepping over anything else is a single step. -/
theorem stepOver_of_not_isCall
    (hcall : ∀ found next, Instruction.decodeAt frame.script frame.cursor = .ok found next →
      found.isCall = false) (fuel : Nat) : e.stepOver fuel = some e.resume.step := by
  have hstep := step_of_not_isCall (e := { e with status := .running }) rfl hservice hframes hcall
  refine (stepOver_eq_some_iff hlive).mpr ⟨1, by omega, ⟨⟨Nat.one_pos, ?_⟩, fun m hm => hm.1⟩, rfl⟩
  rw [resume_of_live hlive]
  exact hstep

/-- Stepping out of a frame leaves the frames below it as they were. -/
theorem kept_of_stepOut {fuel : Nat} {last : Engine} (hout : e.stepOut fuel = some last)
    (hrunning : last.status = .running) : KeptFrames e.crypto rest last.frames := by
  have hlength : e.frames.length = rest.length + 1 := congrArg List.length hframes
  obtain ⟨n, -, hfirst, rfl⟩ := (stepOut_eq_some_iff hlive).mp hout
  have hback := hfirst.reached hrunning
  rw [hlength, Nat.lt_succ_iff] at hback
  rw [resume_of_live hlive] at hfirst hback ⊢
  have habove : Above e.crypto rest { e with status := .running } :=
    ⟨hservice, rfl, [frame], rest, hframes, .refl _ _⟩
  refine (habove.steps fun m hm => ?_).kept_of_length_le hback
  cases m with
  | zero => exact hlength ▸ Nat.lt_succ_self rest.length
  | succ m =>
    have hgoes := hfirst.not_reached (Nat.succ_pos m) hm
    rw [Nat.not_lt, hlength] at hgoes
    exact hgoes

end Resumed

/-- **Stepping keeps the callers.** Stepping over a call that comes back to a running engine leaves
the frames as they were, the top one behind the call. Stepping over anything else is a single step.
Stepping out of a frame that comes back to a running engine leaves the frames below it as they were.
Each takes the least positive number of steps after which the engine is stopped or the frames are no
more, or fewer, than before, and comes back if there is such a number. -/
theorem stepping_keeps_callers (e : Engine) (frame : Frame) (rest : Stack Frame)
    (hlive : e.status.isTerminal = false) (hservice : e.service = .builtin)
    (hframes : e.frames = frame :: rest) :
    (∀ found next, Instruction.decodeAt frame.script frame.cursor = .ok found next →
      found.isCall = true → ∀ fuel last, e.stepOver fuel = some last → last.status = .running →
        KeptFrames e.crypto ({ frame with cursor := next } :: rest) last.frames) ∧
    ((∀ found next, Instruction.decodeAt frame.script frame.cursor = .ok found next →
      found.isCall = false) → ∀ fuel, e.stepOver fuel = some e.resume.step) ∧
    (∀ fuel last, e.stepOut fuel = some last → last.status = .running →
      KeptFrames e.crypto rest last.frames) ∧
    (∀ fuel last, e.stepOver fuel = some last ↔ ∃ n ≤ fuel + 1,
      FirstStop (fun now => now.status.isStopped = true ∨ now.frames.length ≤ e.frames.length)
        e.resume n ∧ last = Engine.step^[n] e.resume) ∧
    ∀ fuel last, e.stepOut fuel = some last ↔ ∃ n ≤ fuel,
      FirstStop (fun now => now.status.isStopped = true ∨ now.frames.length < e.frames.length)
        e.resume n ∧ last = Engine.step^[n] e.resume := by
  refine ⟨?_, ?_, ?_, fun _ _ => stepOver_eq_some_iff hlive, fun _ _ => stepOut_eq_some_iff hlive⟩
  · intro found next hdecode hcall fuel last hover hrunning
    exact kept_of_stepOver hlive hservice hframes hdecode hcall hover hrunning
  · intro hcall fuel
    exact stepOver_of_not_isCall hlive hservice hframes hcall fuel
  · intro fuel last hout hrunning
    exact kept_of_stepOut hlive hservice hframes hout hrunning

/-- A frame with the script `CALL 4` `RET` `PUSH1` `RET`: the call pushes and comes back. -/
def pushByCall (cursor : Nat) : Frame where
  script := .ofBytes [0x65, 0x04, 0x00, 0x66, 0x51, 0x66]
  cursor
  breakpoints := 0

/-- A frame that waits for the one above it. -/
def waiting : Frame := { script := .ofBytes [0x61], breakpoints := 0 }

/-- An engine at a pause before that call, with a frame below. -/
def pausedAtCall : Engine :=
  { Engine.new .secp256k1 with frames := [pushByCall 0, waiting], status := .paused }

/-- It takes three steps over the call, and one more out of the frame. -/
theorem stepping_keeps_callers_pausedAtCall :
    ∃ behind outside, pausedAtCall.stepOver 9 = some behind ∧ behind.status = .running ∧
      KeptFrames pausedAtCall.crypto [pushByCall 3, waiting] behind.frames ∧
      pausedAtCall.stepOut 9 = some outside ∧ outside.status = .running ∧
      KeptFrames pausedAtCall.crypto [waiting] outside.frames ∧
      ∃ n ≤ 9, FirstStop (fun now => now.status.isStopped = true ∨ now.frames.length < 2)
        pausedAtCall.resume n ∧ outside = Engine.step^[n] pausedAtCall.resume := by
  let behind := pausedAtCall.resume.step.step.step
  let outside := behind.step
  have hover : pausedAtCall.stepOver 9 = some behind := rfl
  have hout : pausedAtCall.stepOut 9 = some outside := rfl
  have hdecode : Instruction.decodeAt (pushByCall 0).script (pushByCall 0).cursor =
      .ok (.jump .call 4) 3 := rfl
  obtain ⟨hcall, -, hleft, -, hleast⟩ :=
    stepping_keeps_callers pausedAtCall (pushByCall 0) [waiting] rfl rfl rfl
  exact ⟨behind, outside, hover, rfl, hcall _ _ hdecode rfl 9 behind hover rfl, hout, rfl,
    hleft 9 outside hout rfl, (hleast 9 outside).mp hout⟩

end Engine

end StackScript
