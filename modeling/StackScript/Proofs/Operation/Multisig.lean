import StackScript.Proofs.Engine.Inversion
import StackScript.Proofs.Operation.Moves
import Mathlib.Data.Fin.Tuple.Basic
import Mathlib.Data.List.Forall2
import Mathlib.Order.Fin.Basic

/-!
# Checks of several signatures

`CHECKMULTISIG` goes through the keys once and hands each signature the first key behind the one of
the signature before it that matches. It stops early when fewer keys than signatures are left, and
when a pair cannot be read.

`Verifier.Picks` is that walk without the early stop, which changes nothing: a walk cannot succeed
with fewer keys than signatures (`Verifier.matchSparing_iff_picks`). A walk that succeeds is an
assignment of signatures to keys that increases strictly and passes over no key but those that were
refused (`Verifier.picks_iff_exists_assigns`). If every pair can be read, the walk finds an
assignment whenever there is any increasing one (`Verifier.picks_iff_exists_inOrder`), so it does
not matter from which end the two lists are read (`Verifier.matchInOrder_reverse`).

Main statement: `Control.perform_checkMultiSig`.
-/

namespace StackScript

namespace Verifier

variable {check : Bytes → Bytes → Except CryptoError Bool} {signatures keys : List Bytes}
  {signature key : Bytes}

/-! ### The walk through the keys -/

/-- A walk through the keys that gives every signature a key. -/
inductive Picks (check : Bytes → Bytes → Except CryptoError Bool) : List Bytes → List Bytes → Prop
    where
  /-- All signatures have a key. -/
  | done (keys : List Bytes) : Picks check [] keys
  /-- The next signature takes the next key. -/
  | take {signature key : Bytes} {signatures keys : List Bytes} :
      check signature key = .ok true → Picks check signatures keys →
      Picks check (signature :: signatures) (key :: keys)
  /-- The next signature passes over the next key. -/
  | pass {signature key : Bytes} {signatures keys : List Bytes} :
      check signature key = .ok false → Picks check (signature :: signatures) keys →
      Picks check (signature :: signatures) (key :: keys)

theorem Picks.length_le (h : Picks check signatures keys) : signatures.length ≤ keys.length := by
  induction h with
  | done keys => exact Nat.zero_le _
  | take _ _ ih => exact Nat.succ_le_succ ih
  | pass _ _ ih => exact ih.trans (Nat.le_succ _)

theorem picks_cons_of_true (h : check signature key = .ok true) :
    Picks check (signature :: signatures) (key :: keys) ↔ Picks check signatures keys := by
  refine ⟨fun hpicks => ?_, .take h⟩
  cases hpicks with
  | take _ hrest => exact hrest
  | pass hfalse _ => rw [h] at hfalse; cases hfalse

theorem picks_cons_of_false (h : check signature key = .ok false) :
    Picks check (signature :: signatures) (key :: keys) ↔
      Picks check (signature :: signatures) keys := by
  refine ⟨fun hpicks => ?_, .pass h⟩
  cases hpicks with
  | take htrue _ => rw [h] at htrue; cases htrue
  | pass _ hrest => exact hrest

theorem not_picks_cons_of_error {cause : CryptoError} (h : check signature key = .error cause) :
    ¬ Picks check (signature :: signatures) (key :: keys) := by
  intro hpicks
  cases hpicks with
  | take htrue _ => rw [h] at htrue; cases htrue
  | pass hfalse _ => rw [h] at hfalse; cases hfalse

/-- **The early stop is right.** While as many keys can be spared as there are more keys than
signatures, stopping when none is left answers as the whole walk does. -/
theorem matchSparing_iff_picks {spare : Nat} (h : signatures.length + spare = keys.length) :
    matchSparing check spare signatures keys = true ↔ Picks check signatures keys := by
  fun_induction matchSparing check spare signatures keys with
  | case1 keys spare => exact ⟨fun _ => .done keys, fun _ => rfl⟩
  | case2 spare signature signatures => simp at h
  | case3 spare signature signatures key keys hcheck ih =>
    rw [picks_cons_of_true hcheck]
    exact ih (by simp only [List.length_cons] at h; omega)
  | case4 signature signatures key keys hcheck =>
    rw [picks_cons_of_false hcheck]
    refine ⟨fun hfalse => absurd hfalse Bool.false_ne_true, fun hpicks => ?_⟩
    have hle := hpicks.length_le
    simp only [List.length_cons] at h hle
    omega
  | case5 signature signatures key keys hcheck spare ih =>
    rw [picks_cons_of_false hcheck]
    exact ih (by simp only [List.length_cons] at h ⊢; omega)
  | case6 spare signature signatures key keys cause hcheck =>
    exact ⟨fun hfalse => absurd hfalse Bool.false_ne_true,
      fun hpicks => absurd hpicks (not_picks_cons_of_error hcheck)⟩

theorem matchInOrder_iff_picks (h : signatures.length ≤ keys.length) :
    matchInOrder check signatures keys = true ↔ Picks check signatures keys :=
  matchSparing_iff_picks (by omega)

/-! ### The walk as an assignment -/

/-- Every signature has a key that it matches, in order. -/
structure InOrder (check : Bytes → Bytes → Except CryptoError Bool) (signatures keys : List Bytes)
    (f : Fin signatures.length → Fin keys.length) : Prop where
  strictMono : StrictMono f
  matched : ∀ i, check (signatures.get i) (keys.get (f i)) = .ok true

/-- Moreover, every key between those of two signatures in a row, and before that of the first one,
was refused by the signature that passed over it. -/
structure Assigns (check : Bytes → Bytes → Except CryptoError Bool) (signatures keys : List Bytes)
    (f : Fin signatures.length → Fin keys.length) : Prop
    extends InOrder check signatures keys f where
  passed : ∀ i j, (∀ before : Fin signatures.length, before.val + 1 = i.val → f before < j) →
    j < f i → check (signatures.get i) (keys.get j) = .ok false

section Shifting

variable {m n : Nat}

theorem strictMono_succ_comp_iff {f : Fin m → Fin n} :
    StrictMono (Fin.succ ∘ f) ↔ StrictMono f :=
  ⟨fun h _ _ hlt => Fin.succ_lt_succ_iff.mp (h hlt), (Fin.strictMono_succ).comp⟩

/-- Places that leave out the first one are places one further on. -/
theorem exists_eq_succ_comp {f : Fin m → Fin (n + 1)} (h : ∀ i, f i ≠ 0) :
    ∃ g : Fin m → Fin n, f = Fin.succ ∘ g :=
  ⟨fun i => (f i).pred (h i), funext fun i => (Fin.succ_pred (f i) (h i)).symm⟩

end Shifting

/-- The first signature takes the first key. -/
theorem InOrder.cons (h : check signature key = .ok true)
    {f : Fin signatures.length → Fin keys.length} (hf : InOrder check signatures keys f) :
    InOrder check (signature :: signatures) (key :: keys) (Fin.cons 0 (Fin.succ ∘ f)) where
  strictMono := by
    intro i j hlt
    induction j using Fin.cases with
    | zero => exact absurd hlt (Fin.not_lt_zero i)
    | succ j =>
      induction i using Fin.cases with
      | zero => exact Fin.succ_pos _
      | succ i => exact Fin.succ_lt_succ_iff.mpr (hf.strictMono (Fin.succ_lt_succ_iff.mp hlt))
  matched := by
    intro i
    induction i using Fin.cases with
    | zero => exact h
    | succ i => exact hf.matched i

/-- The first key is left out. -/
theorem inOrder_succ_comp_iff {f : Fin signatures.length → Fin keys.length} :
    InOrder check signatures (key :: keys) (Fin.succ ∘ f) ↔ InOrder check signatures keys f :=
  ⟨fun h => ⟨strictMono_succ_comp_iff.mp h.strictMono, h.matched⟩,
    fun h => ⟨strictMono_succ_comp_iff.mpr h.strictMono, h.matched⟩⟩

/-- The signatures behind the first one have keys behind its key. -/
theorem InOrder.tail {f : Fin (signature :: signatures).length → Fin (key :: keys).length}
    (h : InOrder check (signature :: signatures) (key :: keys) f) :
    ∃ g, f ∘ Fin.succ = Fin.succ ∘ g ∧ InOrder check signatures keys g := by
  have hpos : ∀ i, (f ∘ Fin.succ) i ≠ 0 := fun i =>
    ((Fin.zero_le _).trans_lt (h.strictMono (Fin.succ_pos i))).ne'
  obtain ⟨g, hg⟩ := exists_eq_succ_comp hpos
  have htail : InOrder check signatures (key :: keys) (f ∘ Fin.succ) :=
    ⟨h.strictMono.comp Fin.strictMono_succ, fun i => h.matched i.succ⟩
  rw [hg] at htail
  exact ⟨g, hg, inOrder_succ_comp_iff.mp htail⟩

theorem Assigns.cons (h : check signature key = .ok true)
    {f : Fin signatures.length → Fin keys.length} (hf : Assigns check signatures keys f) :
    Assigns check (signature :: signatures) (key :: keys) (Fin.cons 0 (Fin.succ ∘ f)) where
  toInOrder := hf.toInOrder.cons h
  passed := by
    intro i j hbehind hbefore
    induction i using Fin.cases with
    | zero => exact absurd hbefore (Fin.not_lt_zero j)
    | succ i =>
      -- the key before is at least the first one
      have hpos : j ≠ 0 := ((Fin.zero_le _).trans_lt (hbehind i.castSucc rfl)).ne'
      obtain ⟨j, rfl⟩ := Fin.exists_succ_eq.mpr hpos
      refine hf.passed i j (fun before hi => ?_) (Fin.succ_lt_succ_iff.mp hbefore)
      exact Fin.succ_lt_succ_iff.mp (hbehind before.succ (congrArg (· + 1) hi))

/-- The first key is refused by the first signature. -/
theorem assigns_succ_comp_iff (h : check signature key = .ok false)
    {f : Fin (signature :: signatures).length → Fin keys.length} :
    Assigns check (signature :: signatures) (key :: keys) (Fin.succ ∘ f) ↔
      Assigns check (signature :: signatures) keys f := by
  constructor
  · intro hf
    refine ⟨inOrder_succ_comp_iff.mp hf.toInOrder, fun i j hbehind hbefore => ?_⟩
    refine hf.passed i j.succ (fun before hi => ?_) (Fin.succ_lt_succ_iff.mpr hbefore)
    exact Fin.succ_lt_succ_iff.mpr (hbehind before hi)
  · intro hf
    refine ⟨inOrder_succ_comp_iff.mpr hf.toInOrder, fun i j hbehind hbefore => ?_⟩
    induction j using Fin.cases with
    | zero =>
      -- only the first signature has no key before the first one
      induction i using Fin.cases with
      | zero => exact h
      | succ i => exact absurd (hbehind i.castSucc rfl) (Fin.not_lt_zero _)
    | succ j =>
      refine hf.passed i j (fun before hi => ?_) (Fin.succ_lt_succ_iff.mp hbefore)
      exact Fin.succ_lt_succ_iff.mp (hbehind before hi)

/-- If the first signature has the first key, the others have been assigned behind it. -/
theorem Assigns.tail {f : Fin (signature :: signatures).length → Fin (key :: keys).length}
    (h : Assigns check (signature :: signatures) (key :: keys) f) (hfirst : f 0 = 0) :
    ∃ g, Assigns check signatures keys g := by
  obtain ⟨g, hg, horder⟩ := h.toInOrder.tail
  have hsucc : ∀ i, f (Fin.succ i) = (g i).succ := congrFun hg
  refine ⟨g, horder, fun i j hbehind hbefore => ?_⟩
  refine h.passed i.succ j.succ (fun before hi => ?_) ?_
  · induction before using Fin.cases with
    | zero =>
      rw [hfirst]
      exact Fin.succ_pos j
    | succ before =>
      rw [hsucc]
      exact Fin.succ_lt_succ_iff.mpr (hbehind before (Nat.succ.inj hi))
  · rw [hsucc]
    exact Fin.succ_lt_succ_iff.mpr hbefore

/-- If the first signature has another key than the first one, the first one can be left out. -/
theorem InOrder.exists_succ_comp
    {f : Fin (signature :: signatures).length → Fin (key :: keys).length}
    (h : InOrder check (signature :: signatures) (key :: keys) f) (hfirst : f 0 ≠ 0) :
    ∃ g, f = Fin.succ ∘ g := by
  refine exists_eq_succ_comp fun i => ?_
  have hle : f 0 ≤ f i := h.strictMono.monotone (Fin.zero_le i)
  exact ((Fin.pos_iff_ne_zero.mpr hfirst).trans_le hle).ne'

/-- **A walk that succeeds is an assignment in order that passes over refused keys only.** -/
theorem picks_iff_exists_assigns :
    Picks check signatures keys ↔ ∃ f, Assigns check signatures keys f := by
  constructor
  · intro h
    induction h with
    | done keys =>
      exact ⟨fun i => i.elim0, ⟨fun i => i.elim0, fun i => i.elim0⟩, fun i => i.elim0⟩
    | take hcheck _ ih =>
      obtain ⟨f, hf⟩ := ih
      exact ⟨_, hf.cons hcheck⟩
    | pass hcheck _ ih =>
      obtain ⟨f, hf⟩ := ih
      exact ⟨_, (assigns_succ_comp_iff hcheck).mpr hf⟩
  · rintro ⟨f, hf⟩
    induction keys generalizing signatures with
    | nil =>
      cases signatures with
      | nil => exact .done []
      | cons signature signatures => exact (f 0).elim0
    | cons key keys ih =>
      cases signatures with
      | nil => exact .done _
      | cons signature signatures =>
        by_cases hfirst : f 0 = 0
        · obtain ⟨g, hg⟩ := hf.tail hfirst
          have hcheck := hf.matched 0
          rw [hfirst] at hcheck
          exact .take hcheck (ih g hg)
        · obtain ⟨g, rfl⟩ := hf.toInOrder.exists_succ_comp hfirst
          have hcheck : check signature key = .ok false :=
            hf.passed 0 0 (fun before hi => absurd hi (Nat.succ_ne_zero _))
              (Fin.pos_iff_ne_zero.mpr hfirst)
          exact .pass hcheck (ih g ((assigns_succ_comp_iff hcheck).mp hf))

/-! ### Pairs that can all be read -/

/-- Every pair of a signature and a key can be read. -/
def Readable (check : Bytes → Bytes → Except CryptoError Bool) (signatures keys : List Bytes) :
    Prop :=
  ∀ signature ∈ signatures, ∀ key ∈ keys, ∃ valid, check signature key = .ok valid

/-- **The walk loses no assignment.** Taking the first key that matches leaves most keys for the
signatures behind. -/
theorem picks_iff_exists_inOrder (hread : Readable check signatures keys) :
    Picks check signatures keys ↔ ∃ f, InOrder check signatures keys f := by
  constructor
  · intro h
    obtain ⟨f, hf⟩ := picks_iff_exists_assigns.mp h
    exact ⟨f, hf.toInOrder⟩
  · rintro ⟨f, hf⟩
    induction keys generalizing signatures with
    | nil =>
      cases signatures with
      | nil => exact .done []
      | cons signature signatures => exact (f 0).elim0
    | cons key keys ih =>
      cases signatures with
      | nil => exact .done _
      | cons signature signatures =>
        have hkeys : Readable check (signature :: signatures) keys := fun s hs k hk =>
          hread s hs k (List.mem_cons_of_mem _ hk)
        obtain ⟨valid, hcheck⟩ := hread signature List.mem_cons_self key List.mem_cons_self
        cases valid with
        | true =>
          obtain ⟨g, -, hg⟩ := hf.tail
          exact .take hcheck (ih (fun s hs => hkeys s (List.mem_cons_of_mem _ hs)) g hg)
        | false =>
          have hfirst : f 0 ≠ 0 := by
            intro hzero
            have htrue := hf.matched 0
            rw [hzero] at htrue
            exact absurd (hcheck.symm.trans htrue) (by simp)
          obtain ⟨g, rfl⟩ := hf.exists_succ_comp hfirst
          exact .pass hcheck (ih hkeys g (inOrder_succ_comp_iff.mp hf))

theorem get_reverse_eq (l : List Bytes) (i : Fin l.reverse.length) :
    l.reverse.get i = l.get (i.cast List.length_reverse).rev := by
  have hplace : l.length - 1 - i.val = (i.cast List.length_reverse).rev.val := by
    rw [Fin.val_rev, Fin.val_cast]
    omega
  simp only [List.get_eq_getElem, List.getElem_reverse, hplace]

/-- An assignment in order is one from the other end. -/
theorem InOrder.reverse {f : Fin signatures.length → Fin keys.length}
    (h : InOrder check signatures keys f) :
    ∃ g, InOrder check signatures.reverse keys.reverse g := by
  refine ⟨fun i => ((f (i.cast List.length_reverse).rev).rev).cast List.length_reverse.symm, ?_, ?_⟩
  · intro i j hlt
    have hrev : (j.cast List.length_reverse).rev < (i.cast List.length_reverse).rev :=
      Fin.rev_lt_rev.mpr hlt
    exact Fin.rev_lt_rev.mpr (h.strictMono hrev)
  · intro i
    rw [get_reverse_eq, get_reverse_eq, Fin.cast_cast, Fin.cast_eq_self, Fin.rev_rev]
    exact h.matched _

theorem Readable.reverse (h : Readable check signatures keys) :
    Readable check signatures.reverse keys.reverse := fun s hs k hk =>
  h s (List.mem_reverse.mp hs) k (List.mem_reverse.mp hk)

/-- If every pair can be read, both lists can be read from the other end. -/
theorem matchInOrder_reverse (hle : signatures.length ≤ keys.length)
    (hread : Readable check signatures keys) :
    matchInOrder check signatures.reverse keys.reverse = matchInOrder check signatures keys := by
  have hback : signatures.reverse.length ≤ keys.reverse.length := by simpa using hle
  rw [Bool.eq_iff_iff, matchInOrder_iff_picks hle, matchInOrder_iff_picks hback,
    picks_iff_exists_inOrder hread, picks_iff_exists_inOrder hread.reverse]
  constructor
  · rintro ⟨f, hf⟩
    have hagain := hf.reverse
    rwa [List.reverse_reverse, List.reverse_reverse] at hagain
  · rintro ⟨f, hf⟩
    exact hf.reverse

end Verifier

/-! ### The operands -/

/-- The items can be seen as the byte strings, one by one. -/
abbrev SeenAs (items : List Item) (data : List Bytes) : Prop :=
  List.Forall₂ (fun item bytes => item.bytes? = some bytes) items data

theorem Operation.popManyOnto_eq (instruction : String) {items : List Item} {data : List Bytes}
    (h : SeenAs items data) (done : List Bytes) {w : Workspace} {rest : Stack Item}
    (heval : w.eval = items ++ rest) :
    popManyOnto instruction done data.length w =
      .ok (done.reverse ++ data) { w with eval := rest } := by
  induction h generalizing done w with
  | nil =>
    rw [List.nil_append] at heval
    rw [← heval, List.append_nil]
    rfl
  | @cons item bytes items data hitem _ ih =>
    have hpop := popBytes_eq instruction heval hitem
    have hrest := ih (bytes :: done) (w := { w with eval := items ++ rest }) rfl
    rw [List.length_cons, popManyOnto, run_bind, hpop]
    simpa using hrest

theorem Operation.popMany_eq (instruction : String) {items : List Item} {data : List Bytes}
    (h : SeenAs items data) {w : Workspace} {rest : Stack Item} (heval : w.eval = items ++ rest) :
    popMany instruction data.length w = .ok data { w with eval := rest } :=
  popManyOnto_eq instruction h [] heval

/-- On top of a stack are the number of keys, the keys, the number of signatures and the signatures,
in the order in which they are taken off. -/
def MultisigOperands (signatures keys : List Bytes) (stack : Stack Item) : Prop :=
  ∃ keyCount keyItems signatureCount signatureItems rest,
    stack = keyCount :: (keyItems ++ signatureCount :: (signatureItems ++ rest)) ∧
    keyCount.integer? = some (keys.length : Int) ∧ SeenAs keyItems keys ∧
    signatureCount.integer? = some (signatures.length : Int) ∧ SeenAs signatureItems signatures

/-- The operands are taken off, and whether the signatures match the keys is put on top. -/
theorem CryptoOp.run_checkMultiSig (verifier : Verifier) {message : Bytes}
    (hmessage : verifier.message = some message) {signatures keys : List Bytes}
    (hpos : 1 ≤ signatures.length) (hle : signatures.length ≤ keys.length)
    (hfits : Number.TwosComplement.fits32 keys.length = true) {w : Workspace}
    (h : MultisigOperands signatures keys w.eval) :
    CryptoOp.checkMultiSig.run verifier w = .ok ()
      { w with eval :=
        .boolean (Verifier.matchInOrder (verifier.crypto.verify message) signatures keys) ::
          w.eval.drop (keys.length + signatures.length + 2) } := by
  obtain ⟨keyCount, keyItems, signatureCount, signatureItems, rest, heval, hkeyCount, hkeys,
    hsignatureCount, hsignatures⟩ := h
  have hfitsToo : Number.TwosComplement.fits32 signatures.length = true := by
    simp only [Number.TwosComplement.fits32, Bool.and_eq_true, decide_eq_true_eq] at hfits ⊢
    omega
  have hdrop : w.eval.drop (keys.length + signatures.length + 2) = rest := by
    have hcount : keys.length + signatures.length + 2 =
        (keyCount :: (keyItems ++ signatureCount :: signatureItems)).length := by
      simp [hkeys.length_eq, hsignatures.length_eq]
      omega
    rw [heval, hcount]
    simp
  have hn := Operation.popInt32_eq checkMultiSig.mnemonic heval hkeyCount hfits
  have hkeysPopped := Operation.popMany_eq checkMultiSig.mnemonic hkeys
    (w := { w with eval := keyItems ++ signatureCount :: (signatureItems ++ rest) }) rfl
  have hm := Operation.popInt32_eq checkMultiSig.mnemonic
    (w := { w with eval := signatureCount :: (signatureItems ++ rest) }) rfl hsignatureCount
    hfitsToo
  have hsignaturesPopped := Operation.popMany_eq checkMultiSig.mnemonic hsignatures
    (w := { w with eval := signatureItems ++ rest }) rfl
  have hasked : verifier.requireMessage { w with eval := rest } =
      .ok message { w with eval := rest } := by
    simp only [Verifier.requireMessage, hmessage]
    rfl
  have hkeyCount_ok : ¬ (keys.length : Int) < 1 := by omega
  have hsignatureCount_ok :
      ¬ ((signatures.length : Int) < 1 ∨ (signatures.length : Int) > keys.length) := by omega
  rw [hdrop]
  refine (run_bind_ok hn).trans ?_
  simp only [if_neg hkeyCount_ok, Int.toNat_natCast]
  refine (run_bind_ok hkeysPopped).trans ?_
  refine (run_bind_ok hm).trans ?_
  simp only [if_neg hsignatureCount_ok, Int.toNat_natCast]
  refine (run_bind_ok hsignaturesPopped).trans ?_
  exact run_bind_ok hasked

/-! ### The main statement -/

namespace Control

open Verifier

/-- **`CHECKMULTISIG` finds the signatures among the keys in order.** With `n` keys and `m`
signatures on the stack, `1 ≤ m ≤ n`, it takes off `n + m + 2` items and puts a truth value on top.
That is true exactly if the signatures can be assigned to keys in strictly increasing order, so that
each matches its key and refuses the keys it passes over. If every pair can be read, that is so
whenever there is any assignment in order, and the answer is the same for both lists the other way
round. -/
theorem perform_checkMultiSig (e : Engine) (container : ScriptContainer)
    (signatures keys : List Bytes)
    (hcontainer : e.container = some container) (hpos : 1 ≤ signatures.length)
    (hle : signatures.length ≤ keys.length)
    (hfits : Number.TwosComplement.fits32 keys.length = true)
    (hstack : MultisigOperands signatures keys e.work.eval) :
    ∃ valid : Bool,
      perform (.plain (.crypto .checkMultiSig)) e = .ok ()
        { e with work := { e.work with
          eval := .boolean valid :: e.work.eval.drop (keys.length + signatures.length + 2) } } ∧
      (valid = true ↔ ∃ f, Assigns (e.crypto.verify container.message) signatures keys f) ∧
      (Readable (e.crypto.verify container.message) signatures keys →
        (valid = true ↔ ∃ f, InOrder (e.crypto.verify container.message) signatures keys f) ∧
        ∀ stack, MultisigOperands signatures.reverse keys.reverse stack →
          perform (.plain (.crypto .checkMultiSig))
              { e with work := { e.work with eval := stack } } =
            .ok () { e with work := { e.work with
              eval := .boolean valid :: stack.drop (keys.length + signatures.length + 2) } }) := by
  have hmessage : e.container.map (·.message) = some container.message := by
    rw [hcontainer, Option.map_some]
  refine ⟨matchInOrder (e.crypto.verify container.message) signatures keys, ?_, ?_,
    fun hread => ⟨?_, ?_⟩⟩
  · exact perform_plain_ok (CryptoOp.run_checkMultiSig _ hmessage hpos hle hfits hstack)
  · rw [matchInOrder_iff_picks hle, picks_iff_exists_assigns]
  · rw [matchInOrder_iff_picks hle, picks_iff_exists_inOrder hread]
  · intro stack hback
    rw [← matchInOrder_reverse hle hread]
    have hrun := CryptoOp.run_checkMultiSig ⟨e.crypto, e.container.map (·.message)⟩ hmessage
      (by simpa using hpos) (by simpa using hle) (by simpa using hfits)
      (w := { e.work with eval := stack }) hback
    rw [List.length_reverse, List.length_reverse] at hrun
    exact perform_plain_ok hrun

/-- A host for which a signature is its key, and no key is empty. -/
def namingKeys : Crypto where
  hash160 _ := .zero
  hash256 := id
  verify _ signature key :=
    if key.isEmpty then .error .invalidPublicKey else .ok (signature == key)

/-- The first and the third of four keys are asked for, and the last key cannot be read. -/
def unreadableBehind : Engine :=
  { Engine.new namingKeys with
    container := some ⟨⟨0, "container", none⟩, []⟩
    work := { eval := [.integer 4, .bytes [0x0a], .bytes [0x0b], .bytes [0x0c], .bytes [],
      .integer 2, .bytes [0x0a], .bytes [0x0c], .boolean false] } }

/-- A key that cannot be read does no harm behind the last match. -/
theorem perform_checkMultiSig_unreadableBehind :
    MultisigOperands [[0x0a], [0x0c]] [[0x0a], [0x0b], [0x0c], []] unreadableBehind.work.eval ∧
    perform (.plain (.crypto .checkMultiSig)) unreadableBehind = .ok ()
      { unreadableBehind with work := { eval := [.boolean true, .boolean false] } } ∧
    ∃ f, Assigns (namingKeys.verify []) [[0x0a], [0x0c]] [[0x0a], [0x0b], [0x0c], []] f := by
  have hstack : MultisigOperands [[0x0a], [0x0c]] [[0x0a], [0x0b], [0x0c], []]
      unreadableBehind.work.eval :=
    ⟨.integer 4, [.bytes [0x0a], .bytes [0x0b], .bytes [0x0c], .bytes []], .integer 2,
      [.bytes [0x0a], .bytes [0x0c]], [.boolean false], rfl, rfl, by simp [SeenAs, Item.bytes?],
      rfl, by simp [SeenAs, Item.bytes?]⟩
  have hrun : perform (.plain (.crypto .checkMultiSig)) unreadableBehind = .ok ()
      { unreadableBehind with work := { eval := [.boolean true, .boolean false] } } := rfl
  obtain ⟨valid, hperform, hvalid, -⟩ := perform_checkMultiSig unreadableBehind _
    [[0x0a], [0x0c]] [[0x0a], [0x0b], [0x0c], []] rfl (by decide) (by decide) (by decide) hstack
  have htrue : valid = true := by
    rw [hrun] at hperform
    injection hperform with _ hengine
    have heval := congrArg (fun e => e.work.eval.head?) hengine
    simpa using heval.symm
  exact ⟨hstack, hrun, hvalid.mp htrue⟩

end Control

end StackScript
