import Mathlib.Tactic.Basic

/-!
# Outcomes

A computation on a state either succeeds with a value or fails with a cause, and leaves a state in
both cases. `Outcome post fails` says what is known of the result: `post` of value and state if it
is a success, `fails` of cause and state if it is a failure. Computations are taken apart by
`Outcome.bind`, one statement of a `do` block at a time.
-/

namespace StackScript

variable {ε σ α β : Type}

/-! ### Running a computation from a state -/

section Running

variable (s : σ)

theorem run_get : (get : EStateM ε σ σ) s = .ok s s := rfl

theorem run_modify (f : σ → σ) : (modify f : EStateM ε σ PUnit) s = .ok ⟨⟩ (f s) := rfl

theorem run_bind (m : EStateM ε σ α) (f : α → EStateM ε σ β) :
    (m >>= f) s = match m s with
      | .ok a s' => f a s'
      | .error e s' => .error e s' := rfl

/-- What comes after a computation that succeeds. -/
theorem run_bind_ok {m : EStateM ε σ α} {f : α → EStateM ε σ β} {s s' : σ} {a : α}
    (h : m s = .ok a s') : (m >>= f) s = f a s' := by
  rw [run_bind, h]

theorem run_bind_eq_ok_iff {m : EStateM ε σ α} {f : α → EStateM ε σ β} {s s' : σ} {b : β} :
    (m >>= f) s = .ok b s' ↔ ∃ a s₁, m s = .ok a s₁ ∧ f a s₁ = .ok b s' := by
  rw [run_bind]
  cases m s with
  | ok a s₁ =>
    constructor
    · exact fun h => ⟨a, s₁, rfl, h⟩
    · rintro ⟨_, _, ⟨⟩, h⟩
      exact h
  | error e s₁ =>
    constructor
    · intro h
      cases h
    · rintro ⟨_, _, ⟨⟩, _⟩

end Running

/-! ### What is known of a result -/

/-- The result is a success with `post` or a failure with `fails`. -/
def Outcome (post : α → σ → Prop) (fails : ε → σ → Prop) : EStateM.Result ε σ α → Prop
  | .ok a s => post a s
  | .error e s => fails e s

namespace Outcome

variable {post post' : α → σ → Prop} {fails fails' : ε → σ → Prop}

theorem mono {r : EStateM.Result ε σ α} (h : Outcome post fails r)
    (hpost : ∀ a s, post a s → post' a s) (hfails : ∀ e s, fails e s → fails' e s) :
    Outcome post' fails' r := by
  cases r with
  | ok a s => exact hpost a s h
  | error e s => exact hfails e s h

theorem and {r : EStateM.Result ε σ α} (h : Outcome post fails r) (h' : Outcome post' fails' r) :
    Outcome (fun a s => post a s ∧ post' a s) (fun e s => fails e s ∧ fails' e s) r := by
  cases r with
  | ok a s => exact ⟨h, h'⟩
  | error e s => exact ⟨h, h'⟩

/-- One computation after another: the second one starts from what is known of the first. -/
theorem bind {mid : α → σ → Prop} {last : β → σ → Prop} {m : EStateM ε σ α}
    {f : α → EStateM ε σ β} {s : σ} (h : Outcome mid fails (m s))
    (hf : ∀ a s', mid a s' → Outcome last fails (f a s')) :
    Outcome last fails ((m >>= f) s) := by
  rw [run_bind]
  cases hm : m s with
  | ok a s' =>
    rw [hm] at h
    exact hf a s' h
  | error e s' =>
    rw [hm] at h
    exact h

end Outcome

end StackScript
