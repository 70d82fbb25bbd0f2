import StackScript.Proofs.Engine.Inversion
import StackScript.Proofs.Operation.Moves

/-!
# Stack operations at a depth

Some stack operations work at a fixed depth, others take the depth off the stack first. After that
they see the stack split in two: the items above the depth and those from the depth on. Each of them
is stated here by what it makes of the two parts, and the laws that tie them together are read off
from that. Only `ROLL` needs an induction: every turn brings the lowest item of a block to its top,
so a block comes round in as many turns as it has items (`Control.rolls_round`).

Main statement: `Control.depths_agree`.
-/

namespace StackScript

open Operation Number.TwosComplement

/-! ### Taking the depth off the stack -/

namespace Operation

variable {w : Workspace} {index : Item} {rest : Stack Item}

theorem popCount_eq (instruction : String) {n : Nat} (heval : w.eval = index :: rest)
    (hvalue : index.integer? = some (n : Int)) (hfits : fits32 n = true) :
    popCount instruction w = .ok n { w with eval := rest } := by
  refine (run_bind_ok (popInt32_eq instruction heval hvalue hfits)).trans ?_
  rw [if_neg (by omega)]
  rfl

theorem popCount_eq_negative (instruction : String) {n : Int} (heval : w.eval = index :: rest)
    (hvalue : index.integer? = some n) (hfits : fits32 n = true) (hneg : n < 0) :
    popCount instruction w = .error (.negative instruction n) { w with eval := rest } := by
  refine (run_bind_ok (popInt32_eq instruction heval hvalue hfits)).trans ?_
  rw [if_pos hneg]
  rfl

end Operation

namespace StackOp

/-- The operation on a depth that is pushed first. -/
def runAt (op : StackOp) (index : Item) : Operation Unit := do
  push index
  op.run

/-- An operation does at a fixed depth what another one does at the depth it is given. -/
inductive Abbreviates : StackOp → (depth : Int) → StackOp → Prop where
  | dup : Abbreviates .dup 0 .pick
  | «over» : Abbreviates .over 1 .pick
  | swap : Abbreviates .swap 1 .roll
  | rot : Abbreviates .rot 2 .roll
  | drop : Abbreviates .drop 0 .xdrop
  | nip : Abbreviates .nip 1 .xdrop
  | tuck : Abbreviates .tuck 2 .xtuck

/-- An operation that takes the depth it works at off the stack. -/
inductive IsIndexed : StackOp → Prop where
  | pick : IsIndexed .pick
  | roll : IsIndexed .roll
  | xdrop : IsIndexed .xdrop
  | xswap : IsIndexed .xswap
  | xtuck : IsIndexed .xtuck

/-- The depths at which an indexed operation succeeds on a stack of `size` items. -/
def Reaches (op : StackOp) (depth : Int) (size : Nat) : Prop :=
  match op with
  | .roll | .xswap => depth = 0 ∨ 0 < depth ∧ depth < size
  | .xtuck => 0 < depth ∧ depth ≤ size
  | _ => 0 ≤ depth ∧ depth < size

/-- With the depth on the stack, both operations come out alike, failures included. -/
theorem Abbreviates.runAt_eq {short op : StackOp} {depth : Int} (h : Abbreviates short depth op)
    {index : Item} (hvalue : index.integer? = some depth) : op.runAt index = short.run := by
  funext w
  cases h with
  | dup | «over» | swap | rot | drop | nip =>
    exact run_bind_ok (popCount_eq _ rfl hvalue (by decide))
  | tuck => exact run_bind_ok (popInt32_eq _ rfl hvalue (by decide))

/-! ### What is above the depth, and what is below -/

section Splitting

/-! The depth is the number of items above. -/

variable {w : Workspace} {index item top deep : Item} {above between below : Stack Item}

theorem getElem?_above : (above ++ item :: below)[above.length]? = some item := by
  rw [List.getElem?_append_right le_rfl, Nat.sub_self, List.getElem?_cons_zero]

theorem runAt_pick (hvalue : index.integer? = some (above.length : Int))
    (hfits : fits32 above.length = true) (heval : w.eval = above ++ item :: below) :
    pick.runAt index w = .ok () { w with eval := item :: w.eval } := by
  refine (run_bind_ok (popCount_eq _ rfl hvalue hfits)).trans ?_
  rw [run_bind, peek_eq, heval, getElem?_above]
  rfl

theorem runAt_xdrop (hvalue : index.integer? = some (above.length : Int))
    (hfits : fits32 above.length = true) (heval : w.eval = above ++ item :: below) :
    xdrop.runAt index w = .ok () { w with eval := above ++ below } := by
  refine (run_bind_ok (popCount_eq _ rfl hvalue hfits)).trans ?_
  rw [run_bind, remove_eq, heval, getElem?_above, List.eraseIdx_append_of_length_le le_rfl]
  simp only [Nat.sub_self, List.eraseIdx_cons_zero]
  rfl

theorem runAt_roll (hvalue : index.integer? = some (above.length : Int))
    (hfits : fits32 above.length = true) (heval : w.eval = above ++ item :: below) :
    roll.runAt index w = .ok () { w with eval := item :: (above ++ below) } := by
  refine (run_bind_ok (popCount_eq _ rfl hvalue hfits)).trans ?_
  by_cases hzero : above.length = 0
  · rw [if_pos hzero, heval, List.eq_nil_of_length_eq_zero hzero]
    rfl
  · rw [if_neg hzero, run_bind, remove_eq, heval, getElem?_above,
      List.eraseIdx_append_of_length_le le_rfl]
    simp only [Nat.sub_self, List.eraseIdx_cons_zero]
    rfl

theorem runAt_xswap (hvalue : index.integer? = some ((between.length + 1 : Nat) : Int))
    (hfits : fits32 (between.length + 1 : Nat) = true)
    (heval : w.eval = top :: (between ++ deep :: below)) :
    xswap.runAt index w = .ok () { w with eval := deep :: (between ++ top :: below) } := by
  have hdeep : peek (between.length + 1) w = .ok deep w := by
    rw [peek_eq, heval, List.getElem?_cons_succ, getElem?_above]
  have htop : peek 0 w = .ok top w := by
    rw [peek_eq, heval, List.getElem?_cons_zero]
  have hfirst : replace 0 deep w =
      .ok () { w with eval := deep :: (between ++ deep :: below) } := by
    rw [replace_eq, heval, if_neg (by simp), List.set_cons_zero]
  have hsecond : replace (between.length + 1) top
      { w with eval := deep :: (between ++ deep :: below) } =
        .ok () { w with eval := deep :: (between ++ top :: below) } := by
    rw [replace_eq, if_neg (by simp), List.set_cons_succ, List.set_append_right _ _ le_rfl,
      Nat.sub_self, List.set_cons_zero]
  refine (run_bind_ok (popCount_eq _ rfl hvalue hfits)).trans ?_
  rw [if_neg (by omega)]
  refine (run_bind_ok hdeep).trans ?_
  refine (run_bind_ok htop).trans ?_
  exact (run_bind_ok hfirst).trans hsecond

theorem runAt_xtuck (hvalue : index.integer? = some ((above.length + 1 : Nat) : Int))
    (hfits : fits32 (above.length + 1 : Nat) = true) (heval : w.eval = top :: (above ++ below)) :
    xtuck.runAt index w = .ok () { w with eval := top :: (above ++ top :: below) } := by
  have htop : peek 0 w = .ok top w := by
    rw [peek_eq, heval, List.getElem?_cons_zero]
  have hinsert : insert (above.length + 1) top w =
      .ok () { w with eval := top :: (above ++ top :: below) } := by
    have hplace : (above ++ below).insertIdx above.length top = above ++ top :: below :=
      List.modifyTailIdx_add (top :: ·) 0 above below
    rw [insert_eq, heval, if_neg (by simp), List.insertIdx_succ_cons, hplace]
  refine (run_bind_ok (popInt32_eq _ rfl hvalue hfits)).trans ?_
  rw [if_neg (by omega)]
  exact (run_bind_ok htop).trans hinsert

end Splitting

/-- A stack has an item at every depth less than its size. -/
theorem exists_split {items : Stack Item} {n : Int} (hnonneg : 0 ≤ n) (hlt : n < items.length) :
    ∃ above item below, items = above ++ item :: below ∧ n = above.length := by
  obtain ⟨depth, rfl⟩ := Int.eq_ofNat_of_zero_le hnonneg
  have hlt : depth < items.length := Int.ofNat_lt.mp hlt
  refine ⟨items.take depth, items[depth], items.drop (depth + 1), by simp, ?_⟩
  rw [List.length_take_of_le hlt.le]

/-! ### Depths out of reach -/

section Reach

variable {w w' : Workspace} {index item : Item} {n : Int} {depth : Nat}

/-- What succeeds with a count from the stack has found one that is not negative. -/
theorem exists_count {instruction : String} {f : Nat → Operation Unit}
    (hvalue : index.integer? = some n) (hfits : fits32 n = true)
    (h : (popCount instruction >>= f) { w with eval := index :: w.eval } = .ok () w') :
    ∃ depth : Nat, n = depth ∧ f depth w = .ok () w' := by
  by_cases hneg : n < 0
  · rw [run_bind, popCount_eq_negative instruction rfl hvalue hfits hneg] at h
    cases h
  · obtain ⟨depth, rfl⟩ := Int.eq_ofNat_of_zero_le (Int.not_lt.mp hneg)
    rw [run_bind_ok (popCount_eq instruction rfl hvalue hfits)] at h
    exact ⟨depth, rfl, h⟩

theorem lt_of_peek (h : peek depth w = .ok item w') : depth < w.eval.length ∧ w' = w := by
  by_cases hlt : depth < w.eval.length
  · rw [peek_eq, List.getElem?_eq_getElem hlt] at h
    cases h
    exact ⟨hlt, rfl⟩
  · rw [peek_eq, List.getElem?_eq_none (Nat.le_of_not_lt hlt)] at h
    cases h

theorem lt_of_remove (h : remove depth w = .ok item w') : depth < w.eval.length := by
  by_contra hout
  rw [remove_eq, List.getElem?_eq_none (Nat.le_of_not_lt hout)] at h
  cases h

theorem le_of_insert (h : insert depth item w = .ok () w') : depth ≤ w.eval.length := by
  by_contra hout
  rw [insert_eq, if_pos (Nat.lt_of_not_le hout)] at h
  cases h

/-- An operation that succeeds was given a depth that it reaches. -/
theorem reaches_of_runAt {op : StackOp} (hop : op.IsIndexed) (hvalue : index.integer? = some n)
    (hfits : fits32 n = true) (h : op.runAt index w = .ok () w') : op.Reaches n w.eval.length := by
  cases hop with
  | pick =>
    obtain ⟨depth, rfl, h⟩ := exists_count hvalue hfits h
    obtain ⟨item, w₁, hpeek, -⟩ := run_bind_eq_ok_iff.mp h
    exact ⟨Int.natCast_nonneg depth, Int.ofNat_lt.mpr (lt_of_peek hpeek).1⟩
  | xdrop =>
    obtain ⟨depth, rfl, h⟩ := exists_count hvalue hfits h
    obtain ⟨item, w₁, hremove, -⟩ := run_bind_eq_ok_iff.mp h
    exact ⟨Int.natCast_nonneg depth, Int.ofNat_lt.mpr (lt_of_remove hremove)⟩
  | roll =>
    obtain ⟨depth, rfl, h⟩ := exists_count hvalue hfits h
    by_cases hzero : depth = 0
    · exact .inl (congrArg Int.ofNat hzero)
    · rw [if_neg hzero] at h
      obtain ⟨item, w₁, hremove, -⟩ := run_bind_eq_ok_iff.mp h
      exact .inr ⟨Int.natCast_pos.mpr (Nat.pos_of_ne_zero hzero),
        Int.ofNat_lt.mpr (lt_of_remove hremove)⟩
  | xswap =>
    obtain ⟨depth, rfl, h⟩ := exists_count hvalue hfits h
    by_cases hzero : depth = 0
    · exact .inl (congrArg Int.ofNat hzero)
    · rw [if_neg hzero] at h
      obtain ⟨item, w₁, hpeek, -⟩ := run_bind_eq_ok_iff.mp h
      exact .inr ⟨Int.natCast_pos.mpr (Nat.pos_of_ne_zero hzero),
        Int.ofNat_lt.mpr (lt_of_peek hpeek).1⟩
  | xtuck =>
    have h := (run_bind_ok (popInt32_eq _ rfl hvalue hfits)).symm.trans h
    by_cases hn : n ≤ 0
    · rw [if_pos hn] at h
      cases h
    · rw [if_neg hn] at h
      obtain ⟨top, w₁, hpeek, hinsert⟩ := run_bind_eq_ok_iff.mp h
      obtain ⟨-, rfl⟩ := lt_of_peek hpeek
      have hle : n.toNat ≤ w.eval.length := le_of_insert hinsert
      exact ⟨Int.not_le.mp hn, by omega⟩

end Reach

/-! ### Going there and back -/

section Laws

variable {w : Workspace} {index again : Item} {n : Int} (hvalue : index.integer? = some n)
  (hagain : again.integer? = some n) (hfits : fits32 n = true)

include hvalue hfits

/-- A copy from any depth is dropped. -/
theorem drop_pick (hreach : pick.Reaches n w.eval.length) :
    ∃ w', pick.runAt index w = .ok () w' ∧ drop.run w' = .ok () w := by
  obtain ⟨hnonneg, hlt⟩ := hreach
  obtain ⟨above, item, below, heval, rfl⟩ := exists_split hnonneg hlt
  exact ⟨_, runAt_pick hvalue hfits heval, rfl⟩

theorem roll_succeeds (hreach : roll.Reaches n w.eval.length) :
    ∃ w', roll.runAt index w = .ok () w' := by
  obtain rfl | ⟨hpos, hlt⟩ := hreach
  · exact ⟨_, run_bind_ok (popCount_eq _ rfl hvalue hfits)⟩
  · obtain ⟨above, item, below, heval, rfl⟩ := exists_split (Int.le_of_lt hpos) hlt
    exact ⟨_, runAt_roll hvalue hfits heval⟩

theorem xdrop_succeeds (hreach : xdrop.Reaches n w.eval.length) :
    ∃ w', xdrop.runAt index w = .ok () w' := by
  obtain ⟨hnonneg, hlt⟩ := hreach
  obtain ⟨above, item, below, heval, rfl⟩ := exists_split hnonneg hlt
  exact ⟨_, runAt_xdrop hvalue hfits heval⟩

include hagain

/-- Two items that change places twice are where they were. -/
theorem xswap_xswap (hreach : xswap.Reaches n w.eval.length) :
    ∃ w', xswap.runAt index w = .ok () w' ∧ xswap.runAt again w' = .ok () w := by
  obtain rfl | ⟨hpos, hlt⟩ := hreach
  · exact ⟨w, run_bind_ok (popCount_eq _ rfl hvalue hfits),
      run_bind_ok (popCount_eq _ rfl hagain hfits)⟩
  · obtain ⟨above, deep, below, heval, rfl⟩ := exists_split (Int.le_of_lt hpos) hlt
    cases above with
    | nil => cases hpos
    | cons top between =>
      refine ⟨_, runAt_xswap hvalue hfits heval, ?_⟩
      refine (runAt_xswap hagain hfits rfl).trans ?_
      rw [← List.cons_append, ← heval]

/-- A copy of the top item, put in at any depth, is taken out there. -/
theorem xdrop_xtuck (hreach : xtuck.Reaches n w.eval.length) :
    ∃ w', xtuck.runAt index w = .ok () w' ∧ xdrop.runAt again w' = .ok () w := by
  obtain ⟨hpos, hle⟩ := hreach
  obtain ⟨depth, rfl⟩ : ∃ depth : Nat, n = (depth + 1 : Nat) := ⟨(n - 1).toNat, by omega⟩
  obtain ⟨top, rest, heval⟩ : ∃ top rest, w.eval = top :: rest := by
    refine List.exists_cons_of_ne_nil fun hnil => ?_
    rw [hnil, List.length_nil] at hle
    omega
  rw [heval, List.length_cons] at hle
  have hlength : (rest.take depth).length = depth := List.length_take_of_le (by omega)
  rw [← hlength] at hvalue hagain hfits
  rw [← List.take_append_drop depth rest] at heval
  refine ⟨_, runAt_xtuck hvalue hfits heval, ?_⟩
  -- What is above the copy is what was above its place, the top item included.
  have hdrop : xdrop.runAt again
      { w with eval := top :: (rest.take depth ++ top :: rest.drop depth) } =
        .ok () { w with eval := top :: rest.take depth ++ rest.drop depth } :=
    runAt_xdrop hagain hfits rfl
  refine hdrop.trans ?_
  rw [List.cons_append, ← heval]

end Laws

theorem succeeds_iff {op : StackOp} (hop : op.IsIndexed) {w : Workspace} {index : Item} {n : Int}
    (hvalue : index.integer? = some n) (hfits : fits32 n = true) :
    (∃ w', op.runAt index w = .ok () w') ↔ op.Reaches n w.eval.length := by
  refine ⟨fun ⟨w', h⟩ => reaches_of_runAt hop hvalue hfits h, fun hreach => ?_⟩
  cases hop with
  | pick => exact (drop_pick hvalue hfits hreach).imp fun _ h => h.1
  | roll => exact roll_succeeds hvalue hfits hreach
  | xdrop => exact xdrop_succeeds hvalue hfits hreach
  | xswap => exact (xswap_xswap hvalue hvalue hfits hreach).imp fun _ h => h.1
  | xtuck => exact (xdrop_xtuck hvalue hvalue hfits hreach).imp fun _ h => h.1

end StackOp

/-! ### Operations of the engine -/

namespace Control

/-- Pushes a depth and performs a stack operation. -/
def performAt (index : Item) (op : StackOp) : Control Unit := do
  onWork (push index)
  perform (.plain (.stack op))

variable {e : Engine} {index : Item} {op : StackOp}

theorem performAt_ok {work : Workspace} (h : op.runAt index e.work = .ok () work) :
    performAt index op e = .ok () { e with work } :=
  perform_plain_ok h

theorem exists_runAt_of_performAt {e' : Engine} (h : performAt index op e = .ok () e') :
    ∃ work, op.runAt index e.work = .ok () work := by
  cases hrun : op.runAt index e.work with
  | ok _ work => exact ⟨work, rfl⟩
  | error fault work =>
    have hfault : performAt index op e = .error fault { e with work } :=
      perform_plain_eq_error_iff.mpr ⟨work, hrun, rfl⟩
    rw [hfault] at h
    cases h

theorem performAt_of_abbreviates {short : StackOp} {depth : Int}
    (h : short.Abbreviates depth op) (hvalue : index.integer? = some depth) :
    performAt index op e = perform (.plain (.stack short)) e := by
  have hrun : op.run { e.work with eval := index :: e.work.eval } = short.run e.work :=
    congrFun (h.runAt_eq hvalue) e.work
  have hpush : performAt index op e = perform (.plain (.stack op))
      { e with work := { e.work with eval := index :: e.work.eval } } := rfl
  rw [hpush, perform_plain, perform_plain]
  simp only [Plain.run, hrun]

/-- Every turn brings the lowest item of a block to its top. After as many turns as the lower part
has items, that part stands on the upper part. -/
theorem rolls_part {n : Nat} (hfits : fits32 n = true) (indices : List Item)
    (hindices : ∀ index ∈ indices, index.integer? = some (n : Int)) (e : Engine)
    (upper lower below : Stack Item) (hlength : lower.length = indices.length)
    (hblock : upper.length + lower.length = n + 1) (heval : e.work.eval = upper ++ lower ++ below) :
    indices.forM (performAt · .roll) e =
      .ok () { e with work := { e.work with eval := lower ++ upper ++ below } } := by
  induction indices generalizing e upper lower with
  | nil =>
    obtain rfl := List.eq_nil_of_length_eq_zero hlength
    rw [List.append_nil] at heval
    rw [List.nil_append, ← heval]
    rfl
  | cons index indices ih =>
    obtain rfl | ⟨lower, item, rfl⟩ := lower.eq_nil_or_concat'
    · cases hlength
    rw [List.length_append, List.length_singleton] at hlength hblock
    obtain ⟨hindex, hindices⟩ := List.forall_mem_cons.mp hindices
    -- The item that comes up has the rest of the block above it.
    have habove : (upper ++ lower).length = n := by
      rw [List.length_append]
      omega
    have hroll : StackOp.roll.runAt index e.work =
        .ok () { e.work with eval := item :: (upper ++ lower ++ below) } := by
      refine StackOp.runAt_roll (by rw [habove]; exact hindex) (by rw [habove]; exact hfits) ?_
      rw [heval]
      simp
    refine (run_bind_ok (performAt_ok hroll)).trans ?_
    refine (ih hindices _ (item :: upper) lower (by simpa using hlength) ?_ ?_).trans ?_
    · rw [List.length_cons]
      omega
    · simp
    · simp

/-- A block comes round in as many turns as it has items. -/
theorem rolls_round {n : Int} (hfits : fits32 n = true)
    (hreach : StackOp.roll.Reaches n e.work.eval.length) {indices : List Item}
    (hindices : ∀ index ∈ indices, index.integer? = some n)
    (hlength : indices.length = n.toNat + 1) :
    indices.forM (performAt · .roll) e = .ok () e := by
  obtain rfl | ⟨hpos, hlt⟩ := hreach
  · -- A block of one item, which need not be there.
    obtain ⟨index, rfl⟩ := List.length_eq_one_iff.mp hlength
    have hvalue := hindices index List.mem_cons_self
    have hroll : StackOp.roll.runAt index e.work = .ok () e.work :=
      run_bind_ok (popCount_eq _ rfl hvalue hfits)
    exact run_bind_ok (performAt_ok hroll)
  · obtain ⟨above, item, below, heval, rfl⟩ := StackOp.exists_split (Int.le_of_lt hpos) hlt
    have hblock : (above ++ [item]).length = above.length + 1 := List.length_append
    have heval' : e.work.eval = [] ++ (above ++ [item]) ++ below := by
      rw [heval]
      simp
    refine (rolls_part hfits indices hindices e [] (above ++ [item]) below ?_ ?_ heval').trans ?_
    · rw [hblock, hlength, Int.toNat_natCast]
    · rw [hblock, List.length_nil, Nat.zero_add]
    · rw [List.append_nil, ← List.nil_append (above ++ [item]), ← heval']

/-- **Operations at a fixed depth agree with those at a given depth.** With the depth on the stack,
the indexed operation comes out as the short one does: with the same stacks, and with the same fault
if it fails. An indexed operation succeeds exactly at the depths it reaches. Then swapping twice,
rolling a block of `n + 1` items `n + 1` times, dropping what was picked and taking out what was
tucked in restore the engine, whichever items stand for the depth. -/
theorem depths_agree (e : Engine) :
    (∀ (short op : StackOp) (n : Int) (index : Item), short.Abbreviates n op →
      index.integer? = some n → performAt index op e = perform (.plain (.stack short)) e) ∧
    ∀ (n : Int) (index again : Item), fits32 n = true → index.integer? = some n →
      again.integer? = some n →
      (∀ op : StackOp, op.IsIndexed →
        ((∃ e', performAt index op e = .ok () e') ↔ op.Reaches n e.work.eval.length)) ∧
      (StackOp.xswap.Reaches n e.work.eval.length →
        (do performAt index .xswap; performAt again .xswap) e = .ok () e) ∧
      (StackOp.roll.Reaches n e.work.eval.length → ∀ indices : List Item,
        (∀ turn ∈ indices, turn.integer? = some n) → indices.length = n.toNat + 1 →
        indices.forM (performAt · .roll) e = .ok () e) ∧
      (StackOp.pick.Reaches n e.work.eval.length →
        (do performAt index .pick; perform (.plain (.stack .drop))) e = .ok () e) ∧
      (StackOp.xtuck.Reaches n e.work.eval.length →
        (do performAt index .xtuck; performAt again .xdrop) e = .ok () e) := by
  refine ⟨fun _ _ _ _ => performAt_of_abbreviates, ?_⟩
  intro n index again hfits hvalue hagain
  refine ⟨fun op hop => ?_, fun hreach => ?_, fun hreach indices => rolls_round hfits hreach,
    fun hreach => ?_, fun hreach => ?_⟩
  · rw [← StackOp.succeeds_iff hop hvalue hfits]
    constructor
    · rintro ⟨e', h⟩
      exact exists_runAt_of_performAt h
    · rintro ⟨work, h⟩
      exact ⟨_, performAt_ok h⟩
  · obtain ⟨work, hthere, hback⟩ := StackOp.xswap_xswap hvalue hagain hfits hreach
    exact (run_bind_ok (performAt_ok hthere)).trans (performAt_ok hback)
  · obtain ⟨work, hthere, hback⟩ := StackOp.drop_pick hvalue hfits hreach
    exact (run_bind_ok (performAt_ok hthere)).trans (perform_plain_ok hback)
  · obtain ⟨work, hthere, hback⟩ := StackOp.xdrop_xtuck hvalue hagain hfits hreach
    exact (run_bind_ok (performAt_ok hthere)).trans (performAt_ok hback)

/-- An engine with three items on the stack. -/
def threeItems : Engine :=
  { Engine.new .secp256k1 with work := { eval := [.integer 7, .boolean true, .bytes [0x05]] } }

/-- On three items, `ROT` is a roll at depth 2, whether the depth is an integer or a byte string,
and `TUCK` and a tuck at depth 2 come out alike. The laws hold at depth 2, and a tuck reaches
depth 3. -/
theorem depths_agree_threeItems :
    performAt (.bytes [0x02]) .roll threeItems = perform (.plain (.stack .rot)) threeItems ∧
    performAt (.integer 2) .xtuck threeItems = perform (.plain (.stack .tuck)) threeItems ∧
    (do performAt (.integer 2) .xswap; performAt (.bytes [0x02]) .xswap) threeItems =
      .ok () threeItems ∧
    [.integer 2, .bytes [0x02], .bytes [0x02, 0x00]].forM (performAt · .roll) threeItems =
      .ok () threeItems ∧
    (do performAt (.integer 2) .pick; perform (.plain (.stack .drop))) threeItems =
      .ok () threeItems ∧
    (do performAt (.integer 3) .xtuck; performAt (.bytes [0x03]) .xdrop) threeItems =
      .ok () threeItems ∧
    ¬ ∃ e', performAt (.integer 3) .xswap threeItems = .ok () e' := by
  obtain ⟨hshort, hlaws⟩ := depths_agree threeItems
  have htwo := hlaws 2 (.integer 2) (.bytes [0x02]) (by decide) rfl (by decide)
  have hthree := hlaws 3 (.integer 3) (.bytes [0x03]) (by decide) rfl (by decide)
  refine ⟨hshort _ _ _ _ .rot (by decide), hshort _ _ _ _ .tuck rfl, ?_, ?_, ?_, ?_, ?_⟩
  · exact htwo.2.1 (.inr ⟨by decide, by decide⟩)
  · exact htwo.2.2.1 (.inr ⟨by decide, by decide⟩) _ (by decide) rfl
  · exact htwo.2.2.2.1 ⟨by decide, by decide⟩
  · exact hthree.2.2.2.2 ⟨by decide, by decide⟩
  · rw [hthree.1 .xswap .xswap]
    rintro (h | ⟨-, h⟩)
    · cases h
    · exact absurd h (by decide)

end Control

end StackScript
