import Mathlib

/-!
# Programs that can throw and keep their state

A program is an `EStateM ε σ α`: from a state it returns a value or throws an
error, and in both cases leaves a state behind. This is what a call of a
stateful language with exceptions does; nothing is rolled back unless the
program does so itself.

* `withDestructor`, `scopeExit` and `catching` are the three ways such a
  language runs code on the way out of a scope.
* `Agree` relates the results of two runs of (possibly different) programs:
  they end the same way, with equal values or related errors, in related
  states.
-/

namespace StateExcept

open EStateM

variable {ε σ σ₁ σ₂ α β : Type}

/-! ## Inverting a bind -/

theorem bind_of_ok {m : EStateM ε σ α} {f : α → EStateM ε σ β} {s s' : σ} {a : α}
    (h : m s = .ok a s') : (m >>= f) s = f a s' := by
  change EStateM.bind m f s = _
  simp [EStateM.bind, h]

theorem bind_of_error {m : EStateM ε σ α} {f : α → EStateM ε σ β} {s s' : σ} {e : ε}
    (h : m s = .error e s') : (m >>= f) s = .error e s' := by
  change EStateM.bind m f s = _
  simp [EStateM.bind, h]

theorem bind_eq_ok {m : EStateM ε σ α} {f : α → EStateM ε σ β} {s s'' : σ} {b : β} :
    (m >>= f) s = .ok b s'' ↔ ∃ a s', m s = .ok a s' ∧ f a s' = .ok b s'' := by
  cases h : m s with
  | ok a s' => simp [bind_of_ok h]
  | error e s' => simp [bind_of_error h]

theorem bind_eq_error {m : EStateM ε σ α} {f : α → EStateM ε σ β} {s s'' : σ} {e : ε} :
    (m >>= f) s = .error e s'' ↔
      m s = .error e s'' ∨ ∃ a s', m s = .ok a s' ∧ f a s' = .error e s'' := by
  cases h : m s with
  | ok a s' => simp [bind_of_ok h]
  | error e' s' => simp [bind_of_error h]

@[simp] theorem pure_apply (a : α) (s : σ) : (pure a : EStateM ε σ α) s = .ok a s := rfl

@[simp] theorem throw_apply (e : ε) (s : σ) : (throw e : EStateM ε σ α) s = .error e s := rfl

/-- The state a run leaves behind, however it ended. -/
def finalState : Result ε σ α → σ
  | .ok _ s => s
  | .error _ s => s

/-- Whether a run returned. -/
def returns : Result ε σ α → Bool
  | .ok _ _ => true
  | .error _ _ => false

theorem eq_ok_of_returns {r : Result ε σ Unit} (h : returns r = true) :
    r = .ok () (finalState r) := by
  cases r with
  | ok a s => rfl
  | error e s => cases h

/-! ## Leaving a scope -/

/-- Run `m`, then change the state by `onReturn` or, when `m` throws, by
`onThrow`; the error goes on. -/
def scopeExit (m : EStateM ε σ α) (onReturn onThrow : σ → σ) : EStateM ε σ α := fun s =>
  match m s with
  | .ok a s' => .ok a (onReturn s')
  | .error e s' => .error e (onThrow s')

/-- Run `m` and then the destructor `d`, on both ways out. -/
def withDestructor (m : EStateM ε σ α) (d : σ → σ) : EStateM ε σ α :=
  scopeExit m d d

/-- Run `m`; an error that `p` accepts is caught and replaced by `handler`. -/
def catching (p : ε → Bool) (m handler : EStateM ε σ α) : EStateM ε σ α := fun s =>
  match m s with
  | .ok a s' => .ok a s'
  | .error e s' => if p e then handler s' else .error e s'

theorem scopeExit_of_ok {m : EStateM ε σ α} {f g : σ → σ} {s s' : σ} {a : α}
    (h : m s = .ok a s') : scopeExit m f g s = .ok a (f s') := by
  simp [scopeExit, h]

theorem scopeExit_of_error {m : EStateM ε σ α} {f g : σ → σ} {s s' : σ} {e : ε}
    (h : m s = .error e s') : scopeExit m f g s = .error e (g s') := by
  simp [scopeExit, h]

theorem catching_of_ok {p : ε → Bool} {m handler : EStateM ε σ α} {s s' : σ} {a : α}
    (h : m s = .ok a s') : catching p m handler s = .ok a s' := by
  simp [catching, h]

theorem catching_of_caught {p : ε → Bool} {m handler : EStateM ε σ α} {s s' : σ} {e : ε}
    (h : m s = .error e s') (hp : p e = true) : catching p m handler s = handler s' := by
  simp [catching, h, hp]

theorem catching_of_uncaught {p : ε → Bool} {m handler : EStateM ε σ α} {s s' : σ} {e : ε}
    (h : m s = .error e s') (hp : p e = false) : catching p m handler s = .error e s' := by
  simp [catching, h, hp]

/-! ## Two runs in lockstep -/

/-- Two results agree: both return the same value in states related by `Q`, or
both throw, with errors and states related by `R`. -/
def Agree (Q : α → σ₁ → σ₂ → Prop) (R : ε → ε → σ₁ → σ₂ → Prop) :
    Result ε σ₁ α → Result ε σ₂ α → Prop
  | .ok a s₁, .ok b s₂ => a = b ∧ Q a s₁ s₂
  | .error e s₁, .error e' s₂ => R e e' s₁ s₂
  | _, _ => False

/-- The two runs return the same value or both throw. -/
theorem Agree.same_outcome {Q : α → σ₁ → σ₂ → Prop} {R : ε → ε → σ₁ → σ₂ → Prop}
    {r₁ : Result ε σ₁ α} {r₂ : Result ε σ₂ α} (h : Agree Q R r₁ r₂) :
    (∃ a s₁ s₂, r₁ = .ok a s₁ ∧ r₂ = .ok a s₂ ∧ Q a s₁ s₂) ∨
      ∃ e e' s₁ s₂, r₁ = .error e s₁ ∧ r₂ = .error e' s₂ ∧ R e e' s₁ s₂ := by
  cases r₁ <;> cases r₂
  · obtain ⟨rfl, hQ⟩ := h
    exact Or.inl ⟨_, _, _, rfl, rfl, hQ⟩
  · exact h.elim
  · exact h.elim
  · exact Or.inr ⟨_, _, _, _, rfl, rfl, h⟩

theorem Agree.mono {Q Q' : α → σ₁ → σ₂ → Prop} {R R' : ε → ε → σ₁ → σ₂ → Prop}
    {r₁ : Result ε σ₁ α} {r₂ : Result ε σ₂ α} (h : Agree Q R r₁ r₂)
    (hQ : ∀ a s₁ s₂, Q a s₁ s₂ → Q' a s₁ s₂)
    (hR : ∀ e e' s₁ s₂, R e e' s₁ s₂ → R' e e' s₁ s₂) : Agree Q' R' r₁ r₂ := by
  rcases h.same_outcome with ⟨a, s₁, s₂, rfl, rfl, hq⟩ | ⟨e, e', s₁, s₂, rfl, rfl, hr⟩
  · exact ⟨rfl, hQ a s₁ s₂ hq⟩
  · exact hR e e' s₁ s₂ hr

/-- Sequencing: the continuations agree from the states the first parts
return in, and the errors of the first parts are errors of the whole. -/
theorem Agree.bind {m₁ : EStateM ε σ₁ α} {m₂ : EStateM ε σ₂ α}
    {f₁ : α → EStateM ε σ₁ β} {f₂ : α → EStateM ε σ₂ β} {s₁ : σ₁} {s₂ : σ₂}
    {Q : α → σ₁ → σ₂ → Prop} {Q' : β → σ₁ → σ₂ → Prop} {R R' : ε → ε → σ₁ → σ₂ → Prop}
    (h : Agree Q R (m₁ s₁) (m₂ s₂))
    (hR : ∀ e e' t₁ t₂, R e e' t₁ t₂ → R' e e' t₁ t₂)
    (hf : ∀ a t₁ t₂, Q a t₁ t₂ → Agree Q' R' (f₁ a t₁) (f₂ a t₂)) :
    Agree Q' R' ((m₁ >>= f₁) s₁) ((m₂ >>= f₂) s₂) := by
  rcases h.same_outcome with ⟨a, t₁, t₂, h₁, h₂, hQ⟩ | ⟨e, e', t₁, t₂, h₁, h₂, hRe⟩
  · rw [bind_of_ok h₁, bind_of_ok h₂]
    exact hf a t₁ t₂ hQ
  · rw [bind_of_error h₁, bind_of_error h₂]
    exact hR e e' t₁ t₂ hRe

theorem Agree.scopeExit {m₁ : EStateM ε σ₁ α} {m₂ : EStateM ε σ₂ α} {s₁ : σ₁} {s₂ : σ₂}
    {f₁ g₁ : σ₁ → σ₁} {f₂ g₂ : σ₂ → σ₂}
    {Q Q' : α → σ₁ → σ₂ → Prop} {R R' : ε → ε → σ₁ → σ₂ → Prop}
    (h : Agree Q R (m₁ s₁) (m₂ s₂))
    (hQ : ∀ a t₁ t₂, Q a t₁ t₂ → Q' a (f₁ t₁) (f₂ t₂))
    (hR : ∀ e e' t₁ t₂, R e e' t₁ t₂ → R' e e' (g₁ t₁) (g₂ t₂)) :
    Agree Q' R' (StateExcept.scopeExit m₁ f₁ g₁ s₁) (StateExcept.scopeExit m₂ f₂ g₂ s₂) := by
  rcases h.same_outcome with ⟨a, t₁, t₂, h₁, h₂, hQa⟩ | ⟨e, e', t₁, t₂, h₁, h₂, hRe⟩
  · rw [scopeExit_of_ok h₁, scopeExit_of_ok h₂]
    exact ⟨rfl, hQ a t₁ t₂ hQa⟩
  · rw [scopeExit_of_error h₁, scopeExit_of_error h₂]
    exact hR e e' t₁ t₂ hRe

theorem Agree.catching {p : ε → Bool} {m₁ k₁ : EStateM ε σ₁ α} {m₂ k₂ : EStateM ε σ₂ α}
    {s₁ : σ₁} {s₂ : σ₂} {Q Q' : α → σ₁ → σ₂ → Prop} {R R' : ε → ε → σ₁ → σ₂ → Prop}
    (h : Agree Q R (m₁ s₁) (m₂ s₂))
    (hsame : ∀ e e' t₁ t₂, R e e' t₁ t₂ → p e = p e')
    (hQ : ∀ a t₁ t₂, Q a t₁ t₂ → Q' a t₁ t₂)
    (hcaught : ∀ e e' t₁ t₂, p e = true → R e e' t₁ t₂ → Agree Q' R' (k₁ t₁) (k₂ t₂))
    (hpass : ∀ e e' t₁ t₂, p e = false → R e e' t₁ t₂ → R' e e' t₁ t₂) :
    Agree Q' R' (StateExcept.catching p m₁ k₁ s₁) (StateExcept.catching p m₂ k₂ s₂) := by
  rcases h.same_outcome with ⟨a, t₁, t₂, h₁, h₂, hQa⟩ | ⟨e, e', t₁, t₂, h₁, h₂, hRe⟩
  · rw [catching_of_ok h₁, catching_of_ok h₂]
    exact ⟨rfl, hQ a t₁ t₂ hQa⟩
  · have hp' := hsame e e' t₁ t₂ hRe
    cases hp : p e with
    | true =>
        rw [catching_of_caught h₁ hp, catching_of_caught h₂ (hp' ▸ hp)]
        exact hcaught e e' t₁ t₂ hp hRe
    | false =>
        rw [catching_of_uncaught h₁ hp, catching_of_uncaught h₂ (hp' ▸ hp)]
        exact hpass e e' t₁ t₂ hp hRe

end StateExcept
