import StackScript.Proofs.Engine.Inversion
import StackScript.Proofs.Heap.DeepCopy
import StackScript.Proofs.Operation.Writes
import Mathlib.Data.List.Forall2

/-!
# Packing and unpacking

`PACK` takes items off the stack, as many as the count on top says, and puts a new array of them in
their place. `UNPACK` takes off a container and puts its elements in its place, with their number on
top. Structs are copied on the way into a container and not on the way out.

The copies are made in turn, each in the heap that the one before has left. None of them touches a
cell that was there at the start, so each is a copy of what its struct was at the start, whichever
structs the items share (`copyAll_stored`).

Main statement: `Control.pack_unpack_inverse`.
-/

namespace StackScript

/-! ### Copies in turn -/

namespace Heap

/-- What stands for an item of `heap` in `final`. -/
inductive StoredAs (heap final : Heap) : Item → Item → Prop where
  /-- Anything but a struct stands for itself. -/
  | shared {item : Item} (h : item.structCell? = none) : StoredAs heap final item item
  /-- A new struct that unfolds to the same tree stands for a struct. -/
  | copied {cell root : Nat} (hnew : heap.size ≤ root) (hlt : root < final.size)
      (hread : final.read (.container ⟨.struct, root⟩) = heap.read (.container ⟨.struct, cell⟩)) :
      StoredAs heap final (.container ⟨.struct, cell⟩) (.container ⟨.struct, root⟩)

/-- Copies that stand for items of `heap` in `final`, in the same order. -/
structure Stored (heap final : Heap) (items copies : List Item) : Prop where
  /-- No cell that was there has changed. -/
  elements_eq : ∀ c < heap.size, final.elements c = heap.elements c
  each : List.Forall₂ (heap.StoredAs final) items copies
  /-- No two copies are the same struct. -/
  nodup : (structCells copies).Nodup

theorem StoredAs.lt_size {heap final : Heap} {item copy : Item} (h : heap.StoredAs final item copy)
    {c : Nat} (hc : copy.structCell? = some c) : c < final.size := by
  cases h with
  | shared hother =>
    rw [hother] at hc
    cases hc
  | copied _ hlt _ =>
    obtain rfl := Option.some.inj hc
    exact hlt

/-- Later cells are not seen through a copy. -/
theorem StoredAs.extend {heap mid final : Heap} {item copy : Item}
    (h : heap.StoredAs mid item copy) (hclosed : mid.Closed mid.size) (hsize : mid.size ≤ final.size)
    (hsame : ∀ c < mid.size, final.elements c = mid.elements c) : heap.StoredAs final item copy := by
  cases h with
  | shared hother => exact .shared hother
  | @copied cell root hnew hlt hread =>
    refine .copied hnew (hlt.trans_le hsize) ?_
    rw [← hread]
    exact hclosed.read_eq hsame hlt

theorem Closed.grow {heap heap' : Heap} (h : heap.Closed heap.size) (hg : heap.Grows heap') :
    heap'.Closed heap'.size := by
  refine ⟨le_rfl, fun c _ d hd => ?_⟩
  by_cases hlt : c < heap.size
  · rw [hg.nested_eq hlt] at hd
    exact (h.2 c hlt d hd).trans_le hg.size_le
  · exact (hg.lt_nested c d (Nat.le_of_not_lt hlt) hd).2

theorem copyAllOnto_eq (heap : Heap) (done items : List Item) :
    heap.copyAllOnto done items =
      ((heap.copyAllOnto [] items).1 ++ done, (heap.copyAllOnto [] items).2) := by
  induction items generalizing heap done with
  | nil => rfl
  | cons item items ih =>
    simp only [copyAllOnto]
    rw [ih _ (_ :: done), ih _ [_], List.append_assoc, List.singleton_append]

theorem copyAll_cons (heap : Heap) (item : Item) (items : List Item) :
    heap.copyAll (item :: items) =
      ((heap.copy item).1 :: ((heap.copy item).2.copyAll items).1,
        ((heap.copy item).2.copyAll items).2) := by
  simp only [copyAll, copyAllOnto]
  rw [copyAllOnto_eq, List.reverse_append, List.reverse_singleton, List.singleton_append]

section CopyingInTurn

/-! The heap at the start is `heap₀`; some items have been copied already. -/

variable {heap₀ : Heap} (hclosed : heap₀.Closed heap₀.size) (hacyclic : heap₀.Acyclic)

include hclosed hacyclic

/-- A struct of the start can be copied later, and the copy is what it was at the start. -/
theorem copy_stored {heap : Heap} (hg : heap₀.Grows heap) {item : Item}
    (hitem : ∀ c, item.structCell? = some c → c < heap₀.size) :
    heap.Grows (heap.copy item).2 ∧
      heap₀.StoredAs (heap.copy item).2 item (heap.copy item).1 := by
  cases hcell : item.structCell? with
  | none =>
    rw [copy_of_other heap hcell]
    exact ⟨Grows.refl heap, .shared hcell⟩
  | some cell =>
    have hlt : cell < heap₀.size := hitem cell hcell
    obtain rfl := Item.structCell?_eq_some_iff.mp hcell
    have hends : CopiesTo heap [cell] (heap.copy (.container ⟨.struct, cell⟩)).2 :=
      hg.copyEnds hclosed (fun c hc => ⟨hitem c hc, hacyclic.acyclicFrom c⟩) cell rfl
    have hclosed' := hclosed.grow hg
    have hlt' := hlt.trans_le hg.size_le
    refine ⟨hends.grows hclosed' fun s hs => ?_, .copied hg.size_le hends.size_le ?_⟩
    · rwa [List.mem_singleton.mp hs]
    · exact (hends.deepCopy hclosed' hlt').read_eq.trans (hclosed.read_eq hg.elements_eq hlt)

/-- **Copies made in turn stand for what the items were at the start.** -/
theorem copyAll_stored {heap : Heap} (hg : heap₀.Grows heap) {items : List Item}
    (hitems : ∀ c ∈ structCells items, c < heap₀.size) :
    heap.Grows (heap.copyAll items).2 ∧
      List.Forall₂ (heap₀.StoredAs (heap.copyAll items).2) items (heap.copyAll items).1 ∧
      (∀ c ∈ structCells (heap.copyAll items).1, heap.size ≤ c) ∧
      (structCells (heap.copyAll items).1).Nodup := by
  induction items generalizing heap with
  | nil => exact ⟨Grows.refl heap, .nil, fun c hc => absurd hc List.not_mem_nil, List.nodup_nil⟩
  | cons item items ih =>
    have hitem : ∀ c, item.structCell? = some c → c < heap₀.size := fun c hc =>
      hitems c (List.mem_filterMap.mpr ⟨item, List.mem_cons_self, hc⟩)
    have hrest : ∀ c ∈ structCells items, c < heap₀.size := fun c hc =>
      hitems c (((List.sublist_cons_self item items).filterMap _).mem hc)
    obtain ⟨hfirst, hstored⟩ := copy_stored hclosed hacyclic hg hitem
    have hg' := hg.trans hfirst
    obtain ⟨hgrows, heach, hfresh, hnodup⟩ := ih hg' hrest
    have hcell : ∀ c, (heap.copy item).1.structCell? = some c → c = heap.size := by
      intro c hc
      rw [structCell?_copy, Option.map_eq_some_iff] at hc
      obtain ⟨_, _, hc⟩ := hc
      exact hc.symm
    have hfresh' : ∀ c ∈ structCells ((heap.copy item).2.copyAll items).1, heap.size ≤ c :=
      fun c hc => hfirst.size_le.trans (hfresh c hc)
    rw [copyAll_cons]
    refine ⟨hfirst.trans hgrows, .cons ?_ heach, ?_⟩
    · exact hstored.extend (hclosed.grow hg') hgrows.size_le hgrows.elements_eq
    · cases hcopy : (heap.copy item).1.structCell? with
      | none =>
        rw [structCells, List.filterMap_cons_none hcopy]
        exact ⟨hfresh', hnodup⟩
      | some c =>
        rw [structCells, List.filterMap_cons_some hcopy, List.nodup_cons, List.forall_mem_cons]
        refine ⟨⟨(hcell c hcopy).ge, hfresh'⟩, fun hmem => ?_, hnodup⟩
        exact ((hstored.lt_size hcopy).trans_le (hfresh c hmem)).false

/-- The copies of items are the elements of a new cell. -/
theorem stored_append_copyAll {items : List Item}
    (hitems : ∀ c ∈ structCells items, c < heap₀.size) :
    heap₀.size ≤ (heap₀.copyAll items).2.size ∧
      heap₀.Stored ((heap₀.copyAll items).2.append (heap₀.copyAll items).1.toArray) items
        (heap₀.copyAll items).1 := by
  obtain ⟨hgrows, heach, -, hnodup⟩ := copyAll_stored hclosed hacyclic (Grows.refl heap₀) hitems
  refine ⟨hgrows.size_le, fun c hc => ?_, heach.imp fun item copy hstored => ?_, hnodup⟩
  · rw [elements_append_of_lt _ _ (hc.trans_le hgrows.size_le), hgrows.elements_eq c hc]
  · refine hstored.extend (hclosed.grow hgrows) ?_ fun c hc => elements_append_of_lt _ _ hc
    rw [size_append]
    exact Nat.le_succ _

end CopyingInTurn

end Heap

/-! ### The two operations -/

open Operation Number.TwosComplement

namespace ContainerOp

variable {w : Workspace}

theorem run_pack {count : Item} {rest : Stack Item} {value : Int} (heval : w.eval = count :: rest)
    (hvalue : count.integer? = some value) (hfits : fits32 value = true) :
    pack.run w =
      if value < 0 ∨ (rest.length : Int) < value then
        .error (.argumentRange "PACK" value rest.length) { w with eval := rest }
      else
        let copied := w.heap.copyAll (rest.take value.toNat)
        .ok () { w with
          eval := .container ⟨.array, copied.2.size⟩ :: rest.drop value.toNat
          heap := copied.2.append copied.1.toArray } := by
  have hrange : (value < 0 ∨ Stack.hasFewer rest value.toNat = true) ↔
      (value < 0 ∨ (rest.length : Int) < value) := by
    rw [Stack.hasFewer_eq, decide_eq_true_eq]
    omega
  refine (run_bind_ok (popInt32_eq _ heval hvalue hfits)).trans ?_
  rw [run_bind, run_get]
  simp only [hrange]
  split_ifs with h
  · rfl
  · rfl

/-- With all items there, they make up a new array. -/
theorem run_pack_append {count : Item} {items rest : Stack Item}
    (heval : w.eval = count :: (items ++ rest)) (hvalue : count.integer? = some (items.length : Int))
    (hfits : fits32 items.length = true) :
    pack.run w = .ok () { w with
      eval := .container ⟨.array, (w.heap.copyAll items).2.size⟩ :: rest
      heap := (w.heap.copyAll items).2.append (w.heap.copyAll items).1.toArray } := by
  have hrange : ¬ ((items.length : Int) < 0 ∨ ((items ++ rest).length : Int) < items.length) := by
    rw [List.length_append]
    omega
  rw [run_pack heval hvalue hfits, if_neg hrange]
  simp only [Int.toNat_natCast, List.take_left, List.drop_left]

theorem run_unpack {ref : CellRef} {rest : Stack Item} (heval : w.eval = .container ref :: rest) :
    unpack.run w = .ok () { w with
      eval := .integer (w.heap.length ref.cell) :: (w.heap.elements ref.cell ++ rest) } := by
  have hpop : popContainer unpack.mnemonic w = .ok ref { w with eval := rest } := by
    rw [popContainer, run_bind, pop_eq, heval]
    rfl
  exact run_bind_ok hpop

/-- An operand that is missing, no integer or out of 32 bits is not reported as out of range. -/
theorem popInt32_ne_argumentRange (instruction : String) (w : Workspace) :
    Outcome (fun _ _ => True) (fun fault _ => ∀ name value max, fault ≠ .argumentRange name value max)
      (popInt32 instruction w) := by
  have hinteger : Outcome (fun _ _ => True)
      (fun fault _ => ∀ name value max, fault ≠ .argumentRange name value max)
      (popInteger instruction w) := by
    rw [popInteger, run_bind, pop_eq]
    cases w.eval with
    | nil => exact fun _ _ _ h => by cases h
    | cons item rest =>
      simp only
      cases item.integer? with
      | none => exact fun _ _ _ h => by cases h
      | some value => trivial
  refine hinteger.bind fun value w' _ => ?_
  cases fits32 value with
  | true => trivial
  | false => exact fun _ _ _ h => by cases h

/-- `PACK` reports a count of 32 bits that is negative or greater than the number of items. -/
theorem run_pack_eq_argumentRange_iff {name : String} {value : Int} {max : Nat} {w' : Workspace} :
    pack.run w = .error (.argumentRange name value max) w' ↔
      ∃ count rest, w.eval = count :: rest ∧ count.integer? = some value ∧ fits32 value = true ∧
        (value < 0 ∨ (rest.length : Int) < value) ∧
        name = "PACK" ∧ max = rest.length ∧ w' = { w with eval := rest } := by
  constructor
  · intro h
    have hpop := (popInt32_pops pack.mnemonic w).and (popInt32_ne_argumentRange pack.mnemonic w)
    cases hcount : popInt32 pack.mnemonic w with
    | error fault w₁ =>
      rw [hcount] at hpop
      have hfault : pack.run w = .error fault w₁ := by
        refine (run_bind ..).trans ?_
        rw [hcount]
      rw [hfault] at h
      cases h
      exact absurd rfl (hpop.2 name value max)
    | ok found w₁ =>
      rw [hcount] at hpop
      obtain ⟨⟨hfits, count, hvalue, heval⟩, -⟩ := hpop
      rw [run_pack heval hvalue hfits] at h
      split_ifs at h with hrange
      cases h
      exact ⟨count, w₁.eval, heval, hvalue, hfits, hrange, rfl, rfl, rfl⟩
  · rintro ⟨count, rest, heval, hvalue, hfits, hrange, rfl, rfl, rfl⟩
    rw [run_pack heval hvalue hfits, if_pos hrange]

end ContainerOp

/-! ### The main statement -/

namespace Control

open Heap

/-- **`PACK` and `UNPACK` undo each other**, in a heap without dangling structs in which no struct
is inside itself. Items that are packed and unpacked come back in their places under an integer with
their number, and a container that is unpacked and packed comes back as a new array, while its own
cell stays as it is. Either way all that differs is that structs are replaced by new ones that
unfold to the same trees. `PACK` finds its count out of range exactly if that is an integer of 32
bits and negative or greater than the number of items below it. -/
theorem pack_unpack_inverse (e : Engine) :
    (e.work.heap.Closed e.work.heap.size → e.work.heap.Acyclic →
      (∀ (count : Item) (items rest : Stack Item), e.work.eval = count :: (items ++ rest) →
        count.integer? = some (items.length : Int) → fits32 items.length = true →
        (∀ c ∈ structCells items, c < e.work.heap.size) →
        ∃ copies final,
          (do perform (.plain (.container .pack)); perform (.plain (.container .unpack))) e =
            .ok () { e with work := { e.work with
              eval := .integer items.length :: (copies ++ rest), heap := final } } ∧
          e.work.heap.Stored final items copies) ∧
      (∀ (ref : CellRef) (rest : Stack Item), e.work.eval = .container ref :: rest →
        ref.cell < e.work.heap.size → fits32 (e.work.heap.length ref.cell) = true →
        ∃ cell copies final,
          (do perform (.plain (.container .unpack)); perform (.plain (.container .pack))) e =
            .ok () { e with work := { e.work with
              eval := .container ⟨.array, cell⟩ :: rest, heap := final } } ∧
          e.work.heap.size ≤ cell ∧ cell < final.size ∧ final.elements cell = copies ∧
          e.work.heap.Stored final (e.work.heap.elements ref.cell) copies ∧
          final.elements ref.cell = e.work.heap.elements ref.cell)) ∧
    ∀ name value max e',
      perform (.plain (.container .pack)) e = .error (.argumentRange name value max) e' ↔
        ∃ count rest, e.work.eval = count :: rest ∧ count.integer? = some value ∧
          fits32 value = true ∧ (value < 0 ∨ (rest.length : Int) < value) ∧
          name = "PACK" ∧ max = rest.length ∧
          e' = { e with work := { e.work with eval := rest } } := by
  refine ⟨fun hclosed hacyclic => ⟨?_, ?_⟩, fun name value max e' => ?_⟩
  · intro count items rest heval hvalue hfits hitems
    obtain ⟨-, hstored⟩ := stored_append_copyAll hclosed hacyclic hitems
    have hlength : (e.work.heap.copyAll items).1.length = items.length := hstored.each.length_eq.symm
    refine ⟨(e.work.heap.copyAll items).1, _, ?_, hstored⟩
    have hpack : perform (.plain (.container .pack)) e = .ok () _ :=
      perform_plain_ok (ContainerOp.run_pack_append heval hvalue hfits)
    refine (run_bind_ok hpack).trans ?_
    refine Eq.trans (perform_plain_ok (ContainerOp.run_unpack rfl)) ?_
    simp only [← length_elements, elements_append_size, hlength]
  · intro ref rest heval hcell hfits
    have hitems : ∀ c ∈ structCells (e.work.heap.elements ref.cell), c < e.work.heap.size :=
      hclosed.2 ref.cell hcell
    obtain ⟨hsize, hstored⟩ := stored_append_copyAll hclosed hacyclic hitems
    refine ⟨_, _, _, ?_, hsize, ?_, elements_append_size .., hstored, hstored.elements_eq _ hcell⟩
    · have hunpack : perform (.plain (.container .unpack)) e = .ok () _ :=
        perform_plain_ok (ContainerOp.run_unpack heval)
      refine (run_bind_ok hunpack).trans ?_
      exact perform_plain_ok (ContainerOp.run_pack_append rfl rfl hfits)
    · rw [size_append]
      exact Nat.lt_succ_self _
  · refine perform_plain_eq_error_iff.trans ⟨?_, ?_⟩
    · rintro ⟨work, hrun, rfl⟩
      obtain ⟨count, rest, heval, hvalue, hfits, hrange, rfl, rfl, rfl⟩ :=
        ContainerOp.run_pack_eq_argumentRange_iff.mp hrun
      exact ⟨count, rest, heval, hvalue, hfits, hrange, rfl, rfl, rfl⟩
    · rintro ⟨count, rest, heval, hvalue, hfits, hrange, rfl, rfl, rfl⟩
      exact ⟨_, ContainerOp.run_pack_eq_argumentRange_iff.mpr
        ⟨count, rest, heval, hvalue, hfits, hrange, rfl, rfl, rfl⟩, rfl⟩

/-- An engine with the containers of `sharing`. -/
def withSharing (eval : Stack Item) : Engine :=
  { Engine.new .secp256k1 with work := { eval, heap := sharing } }

/-- A struct is packed twice, with an array in between that holds it, and comes back as two structs.
The array is unpacked and packed, and a count is refused. -/
theorem pack_unpack_inverse_sharing :
    sharing.Closed sharing.size ∧ sharing.Acyclic ∧
    (∃ copies final,
      (do perform (.plain (.container .pack)); perform (.plain (.container .unpack)))
          (withSharing [.bytes [0x03], .container ⟨.struct, 0⟩, .container ⟨.array, 2⟩,
            .container ⟨.struct, 0⟩, .boolean true]) =
        .ok () { withSharing [] with
          work := { eval := .integer 3 :: (copies ++ [.boolean true]), heap := final } } ∧
      sharing.Stored final
        [.container ⟨.struct, 0⟩, .container ⟨.array, 2⟩, .container ⟨.struct, 0⟩] copies) ∧
    (∃ cell copies final,
      (do perform (.plain (.container .unpack)); perform (.plain (.container .pack)))
          (withSharing [.container ⟨.array, 2⟩]) =
        .ok () { withSharing [] with
          work := { eval := [.container ⟨.array, cell⟩], heap := final } } ∧
      3 ≤ cell ∧ cell < final.size ∧ final.elements cell = copies ∧
      sharing.Stored final [.container ⟨.struct, 0⟩] copies) ∧
    perform (.plain (.container .pack)) (withSharing [.bytes [0x03], .boolean true]) =
      .error (.argumentRange "PACK" 3 1) (withSharing [.boolean true]) := by
  have hclosed : sharing.Closed sharing.size := ⟨le_rfl, by decide⟩
  refine ⟨hclosed, sharing_acyclic, ?_, ?_, ?_⟩
  · exact ((pack_unpack_inverse (withSharing _)).1 hclosed sharing_acyclic).1 _
      [.container ⟨.struct, 0⟩, .container ⟨.array, 2⟩, .container ⟨.struct, 0⟩] [.boolean true]
      rfl (by decide) (by decide) (by decide)
  · obtain ⟨cell, copies, final, hrun, hnew, hlt, helements, hstored, -⟩ :=
      ((pack_unpack_inverse (withSharing [.container ⟨.array, 2⟩])).1 hclosed sharing_acyclic).2 _ []
        rfl (by decide) (by decide)
    exact ⟨cell, copies, final, hrun, hnew, hlt, helements, hstored⟩
  · exact ((pack_unpack_inverse (withSharing _)).2 _ _ _ _).mpr
      ⟨.bytes [0x03], [.boolean true], rfl, by decide, by decide, by decide, rfl, rfl, rfl⟩

end Control

end StackScript
