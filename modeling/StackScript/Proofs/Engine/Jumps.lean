import StackScript.Proofs.Assembly.Labels
import StackScript.Proofs.Engine.Decoding

/-!
# Jumps reach their labels

The assembler writes the distance from a jump to its label, and the engine adds the distance to
where the jump begins, which it finds from where reading has ended. A jump that is taken therefore
puts the cursor at the label: the cursor of its frame, or of the new frame if it is a call.

Main statement: `Assembly.labels_resolved`.
-/

namespace StackScript

open Control

/-! ### Taking a jump -/

namespace Jump

/-- The jump is taken: if it has a condition, that has the value it asks for. -/
def Taken (kind : Jump) (work : Workspace) : Prop :=
  ∀ sense, kind.sense? = some sense → ∃ left, Operation.popBool work = .ok sense left

/-- What the jump makes of the frame it was read in: a call leaves it below a new one. -/
def landing (kind : Jump) (frame : Frame) (target : Nat) : Stack Frame :=
  match kind with
  | .call => [{ frame with cursor := target }, frame]
  | .always | .ifTrue | .ifFalse => [{ frame with cursor := target }]

end Jump

namespace Control

variable {e : Engine} {frame : Frame} {rest : Stack Frame}

theorem jumpTarget_of_leads (hframes : e.frames = frame :: rest) {offset : Int} {target : Nat}
    (h : Leads frame offset target) : jumpTarget offset e = .ok target e := by
  obtain ⟨found, hfound, htarget⟩ | ⟨fault, hrefuses, -⟩ :=
    jumpTarget_cases hframes .always offset
  · have heq := hfound.eq.trans h.eq.symm
    rw [htarget, Int.ofNat.inj heq]
  · have heq := h.eq
    have hle := h.le_size
    cases hrefuses with
    | target hoffset hout =>
      rw [hoffset, ← heq] at hout
      simp only [Int.ofNat_eq_natCast] at hout
      omega

theorem onWork_eq_ok {α : Type} {operation : Operation α} {a : α} {work : Workspace}
    (h : operation e.work = .ok a work) : onWork operation e = .ok a { e with work } := by
  simp [onWork, h]

/-- A jump that is taken changes the frames as it should. -/
theorem jump_of_taken (hframes : e.frames = frame :: rest) {kind : Jump} {offset : Int}
    {target : Nat} (hleads : Leads frame offset target) (htaken : kind.Taken e.work) :
    ∃ work, jump kind offset e =
      .ok () { e with work, frames := kind.landing frame target ++ rest } := by
  unfold jump
  rw [run_bind, jumpTarget_of_leads hframes hleads]
  cases kind with
  | always => exact ⟨e.work, moveTo_eq hframes target⟩
  | call =>
    refine ⟨e.work, ?_⟩
    simp only [enter, run_modify, hframes]
    rfl
  | ifTrue =>
    obtain ⟨left, hpop⟩ := htaken true rfl
    refine ⟨left, ?_⟩
    simp only [run_bind, onWork_eq_ok hpop]
    exact moveTo_eq (show { e with work := left }.frames = frame :: rest from hframes) target
  | ifFalse =>
    obtain ⟨left, hpop⟩ := htaken false rfl
    refine ⟨left, ?_⟩
    simp only [run_bind, onWork_eq_ok hpop]
    exact moveTo_eq (show { e with work := left }.frames = frame :: rest from hframes) target

end Control

namespace Engine

/-- An engine that takes the jump at an address of a script goes on at the target. -/
def Lands (script : Script) (kind : Jump) (address target : Nat) : Prop :=
  ∀ (e : Engine) (frame : Frame) (rest : Stack Frame), e.status.isTerminal = false →
    e.frames = frame :: rest → frame.script = script → frame.cursor = address →
    frame.pushOnly = false → kind.Taken e.work →
    e.step.status ≠ .faulted ∧
      e.step.frames = kind.landing { frame with cursor := address + 3 } target ++ rest

/-- **A jump lands by its distance from where it begins.** -/
theorem lands_of_decodeAt {script : Script} {kind : Jump} {address target : Nat} {distance : Int}
    (hdecode : Instruction.decodeAt script address = .ok (.jump kind distance) (address + 3))
    (hdistance : Int.ofNat address + distance = Int.ofNat target)
    (haddress : address < script.size) (htarget : target ≤ script.size) :
    Lands script kind address target := by
  rintro e frame rest hlive hframes rfl rfl hpush htaken
  have hleads : Leads { frame with cursor := frame.cursor + 3 } distance target := by
    refine ⟨?_, htarget⟩
    simp only [jumpSize, Int.ofNat_eq_natCast] at hdistance ⊢
    omega
  obtain ⟨moved, hmoved⟩ : ∃ moved : Engine,
      moved = { e with frames := { frame with cursor := frame.cursor + 3 } :: rest } := ⟨_, rfl⟩
  obtain ⟨work, hjump⟩ := jump_of_taken (e := moved) (by rw [hmoved]) hleads
    (by rw [hmoved]; exact htaken)
  rw [hmoved] at hjump
  rw [step_of_cons hlive hframes, advance_of_decoded hframes hpush haddress hdecode, perform, hjump]
  dsimp only
  split
  · exact ⟨by simp, rfl⟩
  · exact ⟨Status.ne_faulted_of_not_isTerminal hlive, rfl⟩

end Engine

/-! ### Assembled jumps -/

namespace Assembly

variable {script : Script} {founds : List Instruction}

/-- A script that instructions were written to decodes to them at their places. -/
theorem decodeAt_placed (hscript : script.bytes = founds.flatMap Instruction.encode) {number : Nat}
    {address : Nat} {found : Instruction}
    (h : (Instruction.placed 0 founds)[number]? = some (address, found))
    (hencodable : found.Encodable) :
    Instruction.decodeAt script address = .ok found (address + found.encode.length) ∧
      address + found.encode.length ≤ script.size := by
  rw [Instruction.getElem?_placed, Option.map_eq_some_iff] at h
  obtain ⟨found', hfound, heq⟩ := h
  simp only [Nat.zero_add, Prod.mk.injEq] at heq
  obtain ⟨rfl, rfl⟩ := heq
  have hsplit : script.bytes = (founds.take number).flatMap Instruction.encode ++ found'.encode ++
      (founds.drop (number + 1)).flatMap Instruction.encode := by
    obtain ⟨hlt, hget⟩ := List.getElem?_eq_some_iff.mp hfound
    rw [hscript, List.append_assoc, ← List.flatMap_cons, ← hget, ← List.drop_eq_getElem_cons hlt,
      ← List.flatMap_append, List.take_append_drop]
  refine ⟨Instruction.decodeAt_encode hencodable hsplit, ?_⟩
  rw [← Script.length_bytes, hsplit]
  simp

/-- **Labels are resolved.** In an assembled script every statement is written as what it stands
for. A label has the address of the statement behind it, or of the end of the script. A jump to a
label carries the distance to that address, and an engine that takes the jump goes on there. If the
first pass succeeds and the second does not, there is a jump to a label that is not defined or out
of range. -/
theorem labels_resolved (source : String) :
    (∀ script, assemble source = .ok script → ∃ table founds, layout source = .ok table ∧
      script.bytes = founds.flatMap Instruction.encode ∧
      List.Forall₂ (fun s entry => s.instruction table.defined entry.1 = .ok entry.2)
        (statements (entries source)) (Instruction.placed 0 founds) ∧
      (∀ name address, table.labels[name]? = some address ↔
        ∃ before after, entries source = before ++ .label name :: after ∧
          address = Instruction.startOf founds (statements before).length) ∧
      ∀ (number : Nat) (s : Statement) (kind : Jump) (label : String),
        (statements (entries source))[number]? = some s → s.JumpsTo kind label →
        ∃ address distance target,
          (Instruction.placed 0 founds)[number]? = some (address, .jump kind distance) ∧
          table.labels[label]? = some target ∧
          Int.ofNat address + distance = Int.ofNat target ∧
          Engine.Lands script kind address target) ∧
    ∀ table error, layout source = .ok table → assemble source = .error error →
      ∃ before s after kind label, entries source = before ++ .statement s :: after ∧
        s.JumpsTo kind label ∧
        (table.labels[label]? = none ∧ error = .statement s.position (.undefinedLabel label) ∨
          ∃ target, table.labels[label]? = some target ∧
            Number.TwosComplement.fits16 (Int.ofNat target - Int.ofNat (extent before)) = false ∧
            error = .statement s.position
              (.jumpRange (Int.ofNat target - Int.ofNat (extent before)))) := by
  constructor
  · intro script hscript
    obtain ⟨table, founds, htable, hbytes, hwritten⟩ := passes_of_assemble hscript
    have haddress := (covers_of_layout htable).address_eq hwritten
    refine ⟨table, founds, htable, hbytes, hwritten, haddress, ?_⟩
    intro number s kind label hs hjump
    obtain ⟨address, found, hentry, hfound⟩ := Layout.exists_written hwritten hs
    obtain ⟨target, distance, htarget, rfl, hfits, hdistance⟩ := hjump.distance hfound
    have hlabel := Layout.defined_eq_ok.mp htarget
    refine ⟨address, distance, target, hentry, hlabel, hdistance, ?_⟩
    obtain ⟨hdecode, hend⟩ := decodeAt_placed hbytes hentry hfits
    have hlength : (Instruction.jump kind distance).encode.length = 3 := by
      simp [Instruction.encode]
    rw [hlength] at hdecode hend
    refine Engine.lands_of_decodeAt hdecode hdistance (by omega) ?_
    obtain ⟨before, after, -, rfl⟩ := (haddress label target).mp hlabel
    rw [← Script.length_bytes, hbytes]
    exact Instruction.startOf_le founds _
  · intro table error htable herror
    refine (covers_of_layout htable).emit_eq_error ?_
    rw [assemble, htable] at herror
    exact herror

/-- A call of what follows it. -/
def callEnd : Statement := ⟨1, ⟨"CALL", 1⟩, [⟨"end", 6⟩]⟩

theorem callEnd_jumpsTo : callEnd.JumpsTo .call "end" := ⟨by decide +kernel, rfl, by decide +kernel⟩

/-- A jump to a label that is not known yet is measured all the same. -/
theorem Layout.addStatement_of_unknown {before : Layout} {s : Statement} {kind : Jump}
    {label : String} (h : s.JumpsTo kind label) (hnew : before.labels[label]? = none) :
    before.addStatement s =
      .ok { before with statements := s :: before.statements, size := before.size + 3 } := by
  have hself : s.instruction (before.known before.size) before.size = .ok (.jump kind 0) := by
    rw [h.instruction_eq, Layout.known, hnew]
    simp [jumpBy, bind, Except.bind, Number.TwosComplement.fits16]
  rw [Layout.addStatement_eq, hself]
  simp [Instruction.encode]

theorem layout_callEnd : layout "CALL end\nend:" =
    .ok { labels := ({} : Std.HashMap String Nat).insert "end" 3, statements := [callEnd], size := 3 } := by
  have hlines : (Text.lines "CALL end\nend:").zipIdx 1 =
      [("CALL end".toList, 1), ("end:".toList, 2)] := by decide +kernel
  have hcall (before : Layout) (hnew : before.labels["end"]? = none) :
      before.addLine ("CALL end".toList, 1) =
        .ok { before with statements := callEnd :: before.statements, size := before.size + 3 } := by
    have htokens : tokenize "CALL end".toList = .ok [⟨"CALL", 1⟩, ⟨"end", 6⟩] := rfl
    have hhead : Token.label? ⟨"CALL", 1⟩ = none := rfl
    unfold Layout.addLine
    dsimp only
    rw [htokens]
    simp only [Layout.defineLabels, hhead]
    exact Layout.addStatement_of_unknown callEnd_jumpsTo hnew
  have hend (before : Layout) (hnew : before.labels.contains "end" = false) :
      before.addLine ("end:".toList, 2) =
        .ok { before with labels := before.labels.insert "end" before.size } := by
    have htokens : tokenize "end:".toList = .ok [⟨"end:", 1⟩] := rfl
    have hname : Token.label? ⟨"end:", 1⟩ = some "end" := rfl
    unfold Layout.addLine
    dsimp only
    rw [htokens]
    simp only [Layout.defineLabels, hname, hnew]
    rfl
  unfold layout
  rw [hlines, List.foldlM_cons, hcall _ Std.HashMap.getElem?_empty]
  show (Layout.addLine _ _ >>= pure) = _
  rw [hend _ (by simp)]
  rfl

theorem assemble_callEnd : assemble "CALL end\nend:" = .ok (.ofBytes [0x65, 0x03, 0x00]) := by
  have hcall := callEnd_jumpsTo.instruction_eq
  rw [assemble, layout_callEnd]
  simp [Layout.emit, Layout.emitStatement_eq, hcall, bind, Except.bind, Layout.defined]
  rfl

/-- A call forward to the end of the script gets there. -/
theorem labels_resolved_callEnd :
    assemble "CALL end\nend:" = .ok (.ofBytes [0x65, 0x03, 0x00]) ∧
      Engine.Lands (.ofBytes [0x65, 0x03, 0x00]) .call 0 3 := by
  refine ⟨assemble_callEnd, ?_⟩
  obtain ⟨table, founds, htable, -, -, -, hjumps⟩ :=
    (labels_resolved "CALL end\nend:").1 _ assemble_callEnd
  obtain ⟨address, distance, target, hentry, hlabel, -, hlands⟩ :=
    hjumps 0 callEnd .call "end" rfl callEnd_jumpsTo
  obtain rfl : table = _ := Except.ok.inj (htable.symm.trans layout_callEnd)
  obtain rfl : 3 = target := by simpa using hlabel
  rw [Instruction.getElem?_placed, Option.map_eq_some_iff] at hentry
  obtain ⟨_, -, hfound⟩ := hentry
  obtain rfl : 0 = address := by simpa using congrArg Prod.fst hfound
  exact hlands

end Assembly

end StackScript
