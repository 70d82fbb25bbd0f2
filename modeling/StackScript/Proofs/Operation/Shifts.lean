import StackScript.Proofs.Engine.Inversion
import StackScript.Proofs.Operation.Moves
import Mathlib.Data.Rat.Floor
import Mathlib.Tactic.NormNum

/-!
# Shifts as scaling

A shift moves the row of bits of an integer; bits that leave on the right are lost. It scales the
integer by a power of two and rounds down. The direction is the sign of the exponent
(`Number.shift`), so a shift to the right is one to the left by the opposite amount, and the scaling
is exact where the exponent is not negative. The operations compare the opcode with the sign of the
amount instead and shift by its absolute value; the two come to the same (`shifted_eq`).

Operations on numbers take their operands off the stack as integers, whichever items they are.
`Control.performOn` puts the operands there first.

Main statement: `Control.shifts_scale`.
-/

namespace StackScript

open Operation Number Number.TwosComplement

/-! ### Scaling -/

namespace Number

variable (x n : Int)

/-- The row of bits moved left by `n` places, or right by `-n` where `n` is negative. -/
def shift (x n : Int) : Int :=
  match n with
  | .ofNat k => x <<< k
  | .negSucc k => x >>> (k + 1)

/-- **A shift is scaling, rounded down.** -/
theorem shift_eq_floor : shift x n = ⌊(x : ℚ) * 2 ^ n⌋ := by
  cases n with
  | ofNat k =>
    have hexact : (x : ℚ) * 2 ^ Int.ofNat k = ((x * 2 ^ k : Int) : ℚ) := by
      rw [Int.ofNat_eq_natCast, zpow_natCast]
      push_cast
      rfl
    rw [hexact, Int.floor_intCast, shift, Int.shiftLeft_eq]
  | negSucc k =>
    have hquotient : (x : ℚ) * 2 ^ Int.negSucc k = (x : ℚ) / ((2 ^ (k + 1) : Nat) : ℚ) := by
      rw [zpow_negSucc, div_eq_mul_inv]
      push_cast
      rfl
    rw [hquotient, Rat.floor_intCast_div_natCast, shift, Int.shiftRight_eq_div_pow]

/-- What was moved to the left is moved back. -/
theorem shift_neg_shift (hn : 0 ≤ n) : shift (shift x n) (-n) = x := by
  obtain ⟨k, rfl⟩ := Int.eq_ofNat_of_zero_le hn
  have hexact : ((shift x k : Int) : ℚ) = x * 2 ^ (k : Int) := by
    have hleft : shift x k = x * 2 ^ k := Int.shiftLeft_eq x k
    rw [hleft, zpow_natCast]
    push_cast
    rfl
  rw [shift_eq_floor, hexact, mul_assoc, ← zpow_add₀ two_ne_zero, Int.add_right_neg, zpow_zero,
    mul_one, Int.floor_intCast]

theorem shift_zero : shift x 0 = x := Int.shiftLeft_zero x

theorem shift_of_nonneg (hn : 0 ≤ n) : x <<< n.natAbs = shift x n := by
  obtain ⟨k, rfl⟩ := Int.eq_ofNat_of_zero_le hn
  rfl

theorem shift_neg_of_nonneg (hn : 0 ≤ n) : x >>> n.natAbs = shift x (-n) := by
  obtain ⟨k, rfl⟩ := Int.eq_ofNat_of_zero_le hn
  cases k with
  | zero => exact (Int.shiftRight_zero x).trans (shift_zero x).symm
  | succ k => rfl

/-- **The opcode and the sign of the amount give the direction, and the absolute value the
distance**: a shift to the left by the amount, or by its opposite. -/
theorem shifted_eq (isLeft : Bool) :
    (if isLeft == decide (0 ≤ n) then x <<< n.natAbs else x >>> n.natAbs) =
      shift x (if isLeft then n else -n) := by
  by_cases hn : 0 ≤ n
  · cases isLeft with
    | true => simpa [hn] using shift_of_nonneg x n hn
    | false => simpa [hn] using shift_neg_of_nonneg x n hn
  · -- the opposite of the amount has the same absolute value, and a sign that goes the other way
    have hopposite : 0 ≤ -n := by omega
    cases isLeft with
    | true => simpa [hn] using shift_neg_of_nonneg x (-n) hopposite
    | false => simpa [hn] using shift_of_nonneg x (-n) hopposite

/-- An integer that fits into 32 bits with a sign. -/
def InRange (n : Int) : Prop := -2 ^ 31 ≤ n ∧ n < 2 ^ 31

theorem fits32_iff {n : Int} : fits32 n = true ↔ InRange n := by
  simp [fits32, InRange]

end Number

/-! ### Operations on operands -/

/-- The engine with one more item on the evaluation stack. -/
def Engine.pushed (e : Engine) (item : Item) : Engine :=
  { e with work := { e.work with eval := item :: e.work.eval } }

namespace Operation

variable {w : Workspace} {item amount : Item} {rest : Stack Item} {x n : Int}

theorem shift_eq (op : NumberOp) (heval : w.eval = amount :: item :: rest)
    (hitem : item.integer? = some x) (hamount : amount.integer? = some n)
    (hfits : fits32 n = true) :
    shift op w = .ok ()
      { w with eval := .integer (Number.shift x (if op = .shl then n else -n)) :: rest } := by
  have hshifted := shifted_eq x n (decide (op = .shl))
  simp only [decide_eq_true_eq] at hshifted
  rw [← hshifted]
  refine (run_bind_ok (popInt32_eq op.mnemonic heval hamount hfits)).trans ?_
  exact run_bind_ok (popInteger_eq op.mnemonic rfl hitem)

/-- An amount of more than 32 bits is refused before the other operand is looked at. -/
theorem shift_eq_overflow (op : NumberOp) (heval : w.eval = amount :: rest)
    (hamount : amount.integer? = some n) (hfits : fits32 n = false) :
    shift op w = .error (.overflow op.mnemonic n) { w with eval := rest } := by
  have hpop : popInt32 op.mnemonic w =
      .error (.overflow op.mnemonic n) { w with eval := rest } := by
    refine (run_bind_ok (popInteger_eq op.mnemonic heval hamount)).trans ?_
    rw [hfits]
    rfl
  unfold shift
  rw [run_bind, hpop]

end Operation

namespace Control

/-- Pushes operands, the last one on top, and performs an operation on numbers. -/
def performOn (op : NumberOp) (operands : List Item) : Control Unit := do
  operands.forM fun item => onWork (push item)
  perform (.plain (.number op))

variable {e : Engine} {op : NumberOp} {operands : List Item}

/-- Operands are found in reverse, the last one on top. -/
theorem forM_push (operands : List Item) (e : Engine) :
    (operands.forM fun item => onWork (push item)) e =
      .ok () { e with work := { e.work with eval := operands.reverse ++ e.work.eval } } := by
  induction operands generalizing e with
  | nil => rfl
  | cons item operands ih =>
    have hpush : onWork (push item) e = .ok () (e.pushed item) := rfl
    refine (run_bind_ok hpush).trans ((ih (e.pushed item)).trans ?_)
    simp [Engine.pushed]

theorem performOn_cons (item : Item) :
    performOn op (item :: operands) e = performOn op operands (e.pushed item) := rfl

theorem performOn_ok {work : Workspace}
    (h : op.run { e.work with eval := operands.reverse ++ e.work.eval } = .ok () work) :
    performOn op operands e = .ok () { e with work } :=
  (run_bind_ok (forM_push operands e)).trans (perform_plain_ok h)

theorem performOn_error {work : Workspace} {fault : Fault}
    (h : op.run { e.work with eval := operands.reverse ++ e.work.eval } = .error fault work) :
    performOn op operands e = .error fault { e with work } :=
  (run_bind_ok (forM_push operands e)).trans (perform_plain_eq_error_iff.mpr ⟨work, h, rfl⟩)

section Shifts

variable {x n : Int} {item amount : Item} (hitem : item.integer? = some x)
  (hamount : amount.integer? = some n)

include hitem hamount

theorem performOn_shl (hn : InRange n) : performOn .shl [item, amount] e =
    .ok () (e.pushed (.integer ⌊(x : ℚ) * 2 ^ n⌋)) := by
  rw [← Number.shift_eq_floor]
  exact performOn_ok (shift_eq _ rfl hitem hamount (fits32_iff.mpr hn))

theorem performOn_shr (hn : InRange n) : performOn .shr [item, amount] e =
    .ok () (e.pushed (.integer ⌊(x : ℚ) * 2 ^ (-n)⌋)) := by
  rw [← Number.shift_eq_floor]
  exact performOn_ok (shift_eq _ rfl hitem hamount (fits32_iff.mpr hn))

end Shifts

/-- **Shifts scale.** An amount that fits into 32 bits multiplies by that power of two, or divides
by it, and what is pushed is rounded down. So a shift by an amount and the other shift by the
opposite amount come out alike, and a shift to the left is undone by the one to the right. An amount
that does not fit is refused by name. -/
theorem shifts_scale (e : Engine) {x n : Int} {item amount : Item}
    (hitem : item.integer? = some x) (hamount : amount.integer? = some n) :
    (InRange n →
      performOn .shl [item, amount] e = .ok () (e.pushed (.integer ⌊(x : ℚ) * 2 ^ n⌋)) ∧
      performOn .shr [item, amount] e = .ok () (e.pushed (.integer ⌊(x : ℚ) * 2 ^ (-n)⌋)) ∧
      (∀ opposite : Item, opposite.integer? = some (-n) → InRange (-n) →
        performOn .shl [item, amount] e = performOn .shr [item, opposite] e) ∧
      ∀ again : Item, again.integer? = some n → 0 ≤ n →
        (do performOn .shl [item, amount]; performOn .shr [again]) e =
          .ok () (e.pushed (.integer x))) ∧
    (¬ InRange n →
      performOn .shl [item, amount] e = .error (.overflow "SHL" n) (e.pushed item) ∧
      performOn .shr [item, amount] e = .error (.overflow "SHR" n) (e.pushed item)) := by
  constructor
  · intro hn
    have hleft : performOn .shl [item, amount] e = _ := performOn_shl hitem hamount hn
    refine ⟨hleft, performOn_shr hitem hamount hn, ?_, ?_⟩
    · intro opposite hopposite hneg
      rw [hleft, performOn_shr hitem hopposite hneg, neg_neg]
    · intro again hagain hnonneg
      refine (run_bind_ok hleft).trans ?_
      -- nothing has been rounded on the way there, so nothing is lost on the way back
      rw [← performOn_cons, performOn_shr rfl hagain hn, ← Number.shift_eq_floor,
        ← Number.shift_eq_floor, Number.shift_neg_shift x n hnonneg]
  · intro hn
    have hfits : fits32 n = false := by
      rw [← Bool.not_eq_true, fits32_iff]
      exact hn
    exact ⟨performOn_error (shift_eq_overflow _ rfl hamount hfits),
      performOn_error (shift_eq_overflow _ rfl hamount hfits)⟩

/-- Negative seven, as a byte string, is halved to negative four, whichever shift does it; a shift
there and back keeps it, at the greatest amount too; one more is refused. -/
theorem shifts_scale_negativeSeven :
    performOn .shl [.bytes [0xf9], .integer (-1)] (Engine.new .secp256k1) =
      .ok () ((Engine.new .secp256k1).pushed (.integer (-4))) ∧
    performOn .shr [.bytes [0xf9], .boolean true] (Engine.new .secp256k1) =
      .ok () ((Engine.new .secp256k1).pushed (.integer (-4))) ∧
    (do performOn .shl [.bytes [0xf9], .integer 2147483647]; performOn .shr [.integer 2147483647])
        (Engine.new .secp256k1) = .ok () ((Engine.new .secp256k1).pushed (.integer (-7))) ∧
    performOn .shr [.bytes [0xf9], .integer 2147483648] (Engine.new .secp256k1) =
      .error (.overflow "SHR" 2147483648) ((Engine.new .secp256k1).pushed (.bytes [0xf9])) := by
  have hseven : (Item.bytes [0xf9]).integer? = some (-7) := by decide
  have hhalf : ⌊((-7 : Int) : ℚ) * 2 ^ (-1 : Int)⌋ = -4 := by
    rw [Int.floor_eq_iff]
    norm_num
  have hone : (Item.integer (-1)).integer? = some (-1) := rfl
  have hmax : (Item.integer 2147483647).integer? = some 2147483647 := rfl
  have hbeyond : (Item.integer 2147483648).integer? = some 2147483648 := rfl
  have hback := (shifts_scale (Engine.new .secp256k1) hseven hone).1 ⟨by decide, by decide⟩
  have hgreatest := (shifts_scale (Engine.new .secp256k1) hseven hmax).1 ⟨by decide, by decide⟩
  have hover := (shifts_scale (Engine.new .secp256k1) hseven hbeyond).2 (by simp [InRange])
  rw [hhalf] at hback
  refine ⟨hback.1, ?_, hgreatest.2.2.2 _ hmax (by decide), hover.2⟩
  rw [← hback.1]
  exact (hback.2.2.1 (.boolean true) rfl ⟨by decide, by decide⟩).symm

end Control

end StackScript
