import StackScript.Proofs.Encoding
import StackScript.Proofs.Engine.Stepping
import StackScript.Proofs.Text

/-!
# What holds of every frame

The cursor of a frame is moved by every read, also by one that fails half way through an operand,
and by jumps, whose targets are computed with signs. The hash of its script is remembered once it
has been asked for, and a call copies it along with the frame. Still the cursor never leaves the
script, and a hash that is remembered is the hash of the script (`Frame.Sound`). So the host calls
that ask for a hash get that of the script in question, whether it was remembered or not.

Main statement: `Engine.frames_sound`.
-/

namespace StackScript

open Control

namespace Frame

/-- The cursor is within the script or at its end, and a hash that is remembered is the script's. -/
structure Sound (crypto : Crypto) (f : Frame) : Prop where
  cursor_le : f.cursor ≤ f.script.size
  hash? : f.hash? = none ∨ f.hash? = some (crypto.hash160 f.script.bytes)

variable {crypto : Crypto} {f : Frame}

theorem Sound.withCursor (h : f.Sound crypto) {cursor : Nat} (hcursor : cursor ≤ f.script.size) :
    { f with cursor }.Sound crypto := ⟨hcursor, h.hash?⟩

/-- The item that stands for the hash of the script. -/
def hashItem (crypto : Crypto) (f : Frame) : Item := .bytes (crypto.hash160 f.script.bytes).bytes

/-- Whether the hash is remembered makes no difference. -/
theorem Sound.hash_eq (h : f.Sound crypto) : f.hash crypto = crypto.hash160 f.script.bytes := by
  rw [Frame.hash]
  rcases h.hash? with hnone | hsome
  · rw [hnone, Option.getD_none]
  · rw [hsome, Option.getD_some]

theorem Sound.remember (h : f.Sound crypto) : (f.remember crypto).Sound crypto :=
  ⟨h.cursor_le, .inr (congrArg some h.hash_eq)⟩

end Frame

namespace Engine

variable {e : Engine} {crypto : Crypto} {frame : Frame} {rest : Stack Frame}

/-! ### Steps -/

/-- All frames are sound, and there are only the host calls that come with the machine. -/
structure FramesSound (crypto : Crypto) (e : Engine) : Prop where
  service : e.service = .builtin
  crypto_eq : e.crypto = crypto
  frames : ∀ f ∈ e.frames, f.Sound crypto

theorem FramesSound.load (h : e.FramesSound crypto) (script : Script) (pushOnly : Bool) :
    (e.load script pushOnly).FramesSound crypto := by
  refine ⟨h.service, h.crypto_eq, List.forall_mem_cons.mpr ⟨?_, h.frames⟩⟩
  exact ⟨Nat.zero_le _, .inl rfl⟩

/-- Whatever an instruction does, the frames stay sound. -/
theorem FramesSound.performs {found : Instruction} {result : EStateM.Result Fault Engine Unit}
    (h : e.FramesSound crypto) (hframes : e.frames = frame :: rest)
    (hp : Performs e frame rest found result) :
    Outcome (fun _ => FramesSound crypto) (fun _ => FramesSound crypto) result := by
  have hall := h.frames
  rw [hframes, List.forall_mem_cons] at hall
  obtain ⟨hframe, hrest⟩ := hall
  cases hp with
  | refuse => exact h
  | work | workFault | skip | branchFault | missing | container =>
    exact ⟨h.service, h.crypto_eq, h.frames⟩
  | move hleads | branch hleads =>
    exact ⟨h.service, h.crypto_eq,
      List.forall_mem_cons.mpr ⟨hframe.withCursor hleads.le_size, hrest⟩⟩
  | enter hleads =>
    -- The new frame has the hash of the one it was made from, and so has its script.
    refine ⟨h.service, h.crypto_eq, List.forall_mem_cons.mpr ⟨?_, ?_⟩⟩
    · exact hframe.withCursor hleads.le_size
    · exact List.forall_mem_cons.mpr ⟨hframe, hrest⟩
  | @nested hash table table' script _ _ =>
    have htable : { e with table := some table' }.FramesSound crypto :=
      ⟨h.service, h.crypto_eq, h.frames⟩
    exact htable.load script false
  | @tail hash table table' script _ _ =>
    have htable : { e with table := some table', frames := rest }.FramesSound crypto :=
      ⟨h.service, h.crypto_eq, hrest⟩
    exact htable.load script false
  | @hash name depth asked hasked =>
    refine ⟨h.service, h.crypto_eq, fun f hf => ?_⟩
    have hold : ∀ f ∈ frame :: rest, f.Sound crypto := hframes ▸ h.frames
    rcases List.mem_or_eq_of_mem_set hf with hf | rfl
    · exact hold f hf
    · rw [h.crypto_eq]
      exact (hold asked (List.mem_of_getElem? hasked)).remember
  | leave => exact ⟨h.service, h.crypto_eq, hrest⟩

/-- However far reading goes, the cursor stays within the script. -/
theorem FramesSound.advance (h : e.FramesSound crypto) (hframes : e.frames = frame :: rest) :
    Outcome (fun _ => FramesSound crypto) (fun _ => FramesSound crypto) (advance e) := by
  have hall := h.frames
  rw [hframes, List.forall_mem_cons] at hall
  obtain ⟨hframe, hrest⟩ := hall
  have hmoved : ∀ cursor ≤ frame.script.size,
      { e with frames := { frame with cursor } :: rest }.FramesSound crypto := fun cursor hcursor =>
    ⟨h.service, h.crypto_eq, List.forall_mem_cons.mpr ⟨hframe.withCursor hcursor, hrest⟩⟩
  have hdecoded := Instruction.decodeAt_bounds frame.script hframe.cursor_le
  have hadvances := advances hframes
  generalize Control.advance e = result at hadvances ⊢
  cases hadvances with
  | atEnd => exact ⟨h.service, h.crypto_eq, hrest⟩
  | refuse hbyte =>
    have hbounds := Reader.forward_byte frame.script frame.cursor hframe.cursor_le
    rw [hbyte] at hbounds
    exact hmoved _ hbounds.2
  | undecoded hdecode =>
    rw [hdecode] at hdecoded
    exact hmoved _ hdecoded.2
  | @perform found _ _ next _ _ hdecode =>
    rw [hdecode] at hdecoded
    have hnext := hmoved next hdecoded.2
    exact hnext.performs rfl (Control.performs hnext.service rfl found)

theorem FramesSound.step (h : e.FramesSound crypto) : e.step.FramesSound crypto := by
  apply step_of_advance h
  · intro e status reason h
    exact ⟨h.service, h.crypto_eq, h.frames⟩
  · intro frame rest hframes
    exact h.advance hframes

/-- What a host does that loads scripts and runs them step by step. -/
inductive DriveCall where
  | load (script : Script) (pushOnly : Bool)
  | step

/-- The engine after a call. -/
def DriveCall.run (e : Engine) : DriveCall → Engine
  | .load script pushOnly => e.load script pushOnly
  | .step => e.step

/-- The engine after calls in turn. -/
def drive (e : Engine) (calls : List DriveCall) : Engine := calls.foldl DriveCall.run e

theorem FramesSound.drive (h : e.FramesSound crypto) (calls : List DriveCall) :
    (e.drive calls).FramesSound crypto := by
  induction calls generalizing e with
  | nil => exact h
  | cons call rest ih =>
    apply ih
    cases call with
    | load script pushOnly => exact h.load script pushOnly
    | step => exact h.step

/-! ### Asking for hashes -/

/-- The engine is about to perform a host call of this name, in the top one of the frames
`frame :: rest`. -/
structure AtCall (e : Engine) (name : String) (frame : Frame) (rest : Stack Frame) : Prop where
  live : e.status.isTerminal = false
  frames : e.frames = frame :: rest
  allowed : frame.pushOnly = false
  decode : ∃ bytes next,
    Instruction.decodeAt frame.script frame.cursor = .ok (.syscall bytes) next ∧
      Text.Utf8.decodeLossy bytes = name

/-- The next step succeeds, and pushes an item and does nothing else to the stacks and the heap. -/
def Pushes (e : Engine) (item : Item) : Prop :=
  e.step.status ≠ .faulted ∧ e.step.work = { e.work with eval := item :: e.work.eval }

theorem call_eq_handle {bytes : Bytes} {name : String} {handler : Handler}
    (hname : Text.Utf8.decodeLossy bytes = name) (hascii : Text.Utf8.isAscii name = true)
    (hfind : e.service.find? name = some handler) : call bytes e = handle handler e := by
  unfold call
  simp only [hname, hascii, Bool.not_true, Bool.false_eq_true, if_false]
  rw [run_bind, run_get]
  simp only [hfind]

/-- A host call that comes with the machine is performed once it is read. -/
theorem AtCall.advance_eq {name : String} (h : e.AtCall name frame rest)
    (hservice : e.service = .builtin) {handler : Handler} (hascii : Text.Utf8.isAscii name = true)
    (hfind : Service.builtin.find? name = some handler) :
    ∃ next, advance e =
      handle handler { e with frames := { frame with cursor := next } :: rest } := by
  obtain ⟨bytes, next, hdecode, hname⟩ := h.decode
  refine ⟨next, ?_⟩
  rw [advance_of_decoded h.frames h.allowed (cursor_lt_of_decodeAt hdecode) hdecode]
  refine call_eq_handle hname hascii ?_
  exact (congrArg (Service.find? · name) hservice).trans hfind

/-- Asking for the hash of the frame at a depth pushes the hash of its script. -/
theorem AtCall.pushes {name : String} {handler : Handler} (h : e.AtCall name frame rest)
    (hsound : e.FramesSound crypto) (hascii : Text.Utf8.isAscii name = true)
    (hfind : Service.builtin.find? name = some handler) {depth : Nat} {missing : Fault}
    (hhandle : ∀ moved : Engine, moved.frames.length = e.frames.length →
      handle handler moved = pushHash depth missing moved)
    {asked : Frame} (hasked : (frame :: rest)[depth]? = some asked) :
    e.Pushes (asked.hashItem crypto) := by
  obtain ⟨next, hadvance⟩ := h.advance_eq hsound.service hascii hfind
  -- Reading the call has moved the cursor of the top frame, which does not change its hash.
  have hmoved : ∃ moved, ({ frame with cursor := next } :: rest)[depth]? = some moved ∧
      moved.hash e.crypto = crypto.hash160 asked.script.bytes := by
    have hold : asked ∈ e.frames := h.frames ▸ List.mem_of_getElem? hasked
    have hhash := (hsound.frames asked hold).hash_eq
    rw [hsound.crypto_eq]
    cases depth with
    | zero =>
      obtain rfl : frame = asked := Option.some.inj hasked
      exact ⟨_, rfl, hhash⟩
    | succ depth => exact ⟨asked, hasked, hhash⟩
  obtain ⟨moved, hmoved, hhash⟩ := hmoved
  rw [hhandle _ (by simp [h.frames]), pushHash_eq] at hadvance
  simp only [hmoved, hhash] at hadvance
  have hlive := Status.ne_faulted_of_not_isTerminal h.live
  rw [Pushes, step_of_cons h.live h.frames, hadvance]
  dsimp only
  split
  · exact ⟨by simp, rfl⟩
  · exact ⟨hlive, rfl⟩

theorem handle_entryHash (e : Engine) :
    handle .entryHash e = pushHash (e.frames.length - 1) .noCurrentFrame e := by
  rw [handle, run_bind, run_get]

/-- Asking for the hash of the calling frame fails if there is none. -/
theorem AtCall.faults_of_callingHash
    (h : e.AtCall "System.ExecutionEngine.GetCallingScriptHash" frame [])
    (hservice : e.service = .builtin) : e.step.FaultedWith .noCallingFrame := by
  have hfind : Service.builtin.find? "System.ExecutionEngine.GetCallingScriptHash" =
      some .callingHash := rfl
  obtain ⟨next, hadvance⟩ := h.advance_eq hservice (by decide) hfind
  rw [step_of_cons h.live h.frames, hadvance, handle, pushHash_eq]
  exact ⟨rfl, rfl⟩

/-- **Cursors and hashes of frames.** Whatever is loaded and however many steps are taken, the
cursor of every frame is within its script or at its end, and a hash that the frame remembers is
that of its script. So the host calls push the hash of the script of the top, the second and the
bottom frame, and the one for the second faults exactly when there is none. -/
theorem frames_sound (e : Engine) (hservice : e.service = .builtin) (hframes : e.frames = [])
    (calls : List DriveCall) :
    (∀ f ∈ (e.drive calls).frames, f.Sound e.crypto) ∧
    ∀ frame rest,
      ((e.drive calls).AtCall "System.ExecutionEngine.GetExecutingScriptHash" frame rest →
        (e.drive calls).Pushes (frame.hashItem e.crypto)) ∧
      ((e.drive calls).AtCall "System.ExecutionEngine.GetCallingScriptHash" frame rest →
        (∀ caller ∈ rest.head?, (e.drive calls).Pushes (caller.hashItem e.crypto)) ∧
        ((e.drive calls).step.FaultedWith .noCallingFrame ↔ rest = [])) ∧
      ((e.drive calls).AtCall "System.ExecutionEngine.GetEntryScriptHash" frame rest →
        (e.drive calls).Pushes
          (((frame :: rest).getLast (List.cons_ne_nil frame rest)).hashItem e.crypto)) := by
  have hsound : e.FramesSound e.crypto := ⟨hservice, rfl, by simp [hframes]⟩
  replace hsound := hsound.drive calls
  generalize e.drive calls = now at hsound
  refine ⟨hsound.frames, fun frame rest => ⟨fun h => ?_, fun h => ?_, fun h => ?_⟩⟩
  · have hfind : Service.builtin.find? "System.ExecutionEngine.GetExecutingScriptHash" =
        some .executingHash := rfl
    exact h.pushes hsound (by decide) hfind (fun _ _ => rfl) rfl
  · have hfind : Service.builtin.find? "System.ExecutionEngine.GetCallingScriptHash" =
        some .callingHash := rfl
    cases rest with
    | nil => exact ⟨by simp, by simp [h.faults_of_callingHash hsound.service]⟩
    | cons caller callers =>
      have hpushes : now.Pushes (caller.hashItem e.crypto) :=
        h.pushes hsound (by decide) hfind (fun _ _ => rfl) rfl
      exact ⟨by simpa using hpushes, fun hfault => absurd hfault.1 hpushes.1, by simp⟩
  · have hfind : Service.builtin.find? "System.ExecutionEngine.GetEntryScriptHash" =
        some .entryHash := rfl
    have hhandle : ∀ moved : Engine, moved.frames.length = now.frames.length →
        handle .entryHash moved = pushHash (now.frames.length - 1) .noCurrentFrame moved := by
      intro moved hmoved
      rw [handle_entryHash, hmoved]
    apply h.pushes hsound (by decide) hfind hhandle
    rw [h.frames, ← List.getLast?_eq_getElem?, List.getLast?_eq_some_getLast]

/-- A call of the host that asks for the hash of the calling script. -/
def askCalling : Instruction :=
  .syscall (Text.Utf8.ofString "System.ExecutionEngine.GetCallingScriptHash")

/-- A script that calls its own next instruction, which asks for the hash of the calling script. -/
def askingInCall : Script := .ofBytes ([0x65, 0x03, 0x00] ++ askCalling.encode)

/-- The caller is a frame of the same script, and so the script's own hash is pushed. -/
theorem frames_sound_askingInCall :
    ((Engine.new .secp256k1).drive [.load askingInCall false, .step]).Pushes
      (.bytes (Crypto.secp256k1.hash160 askingInCall.bytes).bytes) := by
  let frame : Frame := { script := askingInCall, cursor := 3, breakpoints := 0 }
  have hencodable : askCalling.Encodable := by
    have hlength : (Text.Utf8.ofString "System.ExecutionEngine.GetCallingScriptHash").length ≤
        maxNameLength := by decide +kernel
    exact hlength
  have hscript : askingInCall.bytes = [0x65, 0x03, 0x00] ++ askCalling.encode ++ [] :=
    (List.append_nil _).symm
  have hname : Text.Utf8.decodeLossy
      (Text.Utf8.ofString "System.ExecutionEngine.GetCallingScriptHash") =
        "System.ExecutionEngine.GetCallingScriptHash" := by
    have hascii : Text.Utf8.isAscii "System.ExecutionEngine.GetCallingScriptHash" = true := by decide
    apply Text.Utf8.decodeLossy_ofString
    simpa only [Text.Utf8.isAscii, List.all_eq_true, decide_eq_true_eq] using hascii
  have hframes : ((Engine.new .secp256k1).drive [.load askingInCall false, .step]).frames =
      [frame, frame] := rfl
  have hdecode := Instruction.decodeAt_encode hencodable hscript
  have hcall : ((Engine.new .secp256k1).drive [.load askingInCall false, .step]).AtCall
      "System.ExecutionEngine.GetCallingScriptHash" frame [frame] :=
    ⟨rfl, hframes, rfl, _, _, hdecode, hname⟩
  obtain ⟨-, hasked⟩ :=
    frames_sound (Engine.new .secp256k1) rfl rfl [.load askingInCall false, .step]
  obtain ⟨-, hcalling, -⟩ := hasked frame [frame]
  exact (hcalling hcall).1 frame rfl

end Engine

end StackScript
