import StackScript.Instruction
import StackScript.Proofs.Outcome

/-!
# Reading a script

What readers find in a script, one equation for each of the readers and for each way to put them
together. Proofs about decoding rewrite with these equations and do not open the readers.
-/

namespace StackScript

theorem Script.length_bytes (script : Script) : script.bytes.length = script.size :=
  Array.length_toList

theorem Script.length_of_slice? {script : Script} {start count : Nat} {bytes : Bytes}
    (h : script.slice? start count = some bytes) : bytes.length = count := by
  rw [Script.slice?_eq] at h
  split at h
  · rename_i hsize
    rw [← Option.some.inj h, Bytes.slice, List.length_take, List.length_drop]
    omega
  · cases h

namespace Reader

variable {α β : Type} (script : Script) (cursor : Nat)

theorem runAt_pure (a : α) : (pure a : Reader α).runAt script cursor = .ok a cursor := rfl

theorem runAt_get : (get : Reader Nat).runAt script cursor = .ok cursor cursor := rfl

theorem runAt_read : (read : Reader Script).runAt script cursor = .ok script cursor := rfl

theorem runAt_bind (m : Reader α) (f : α → Reader β) :
    (m >>= f).runAt script cursor = match m.runAt script cursor with
      | .ok a next => (f a).runAt script next
      | .error cause next => .error cause next := by
  change (m script >>= fun a => f a script) cursor = _
  rw [run_bind]
  unfold runAt
  cases m script cursor <;> rfl

theorem runAt_exact (count : Nat) :
    (exact count).runAt script cursor = match script.slice? cursor count with
      | some bytes => .ok bytes (cursor + count)
      | none => .error (.endOfScript cursor count (script.size - cursor)) cursor := by
  unfold exact
  rw [runAt_bind, runAt_read]
  simp only
  rw [runAt_bind, runAt_get]
  simp only
  cases script.slice? cursor count with
  | some bytes => rfl
  | none => rfl

end Reader

/-- The opcode is read first, and the operand after it. -/
theorem Instruction.decodeAt_eq (script : Script) (cursor : Nat) :
    decodeAt script cursor = match Reader.byte.runAt script cursor with
      | .ok byte behind => (readOperand byte cursor).runAt script behind
      | .error cause next => .error cause next := by
  unfold decodeAt Instruction.read
  rw [Reader.runAt_bind, Reader.runAt_get]
  simp only
  rw [Reader.runAt_bind]
  cases Reader.byte.runAt script cursor <;> rfl

end StackScript
