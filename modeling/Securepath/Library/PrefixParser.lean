import Mathlib

/-!
# Parsers that read from the front

A parser takes tokens off the front of a list and returns a value with the
rest, or fails. `short` is the error of a list that ends too early; every
other error is about tokens that are there.

`FrontRead` is the property that makes such parsers usable on a stream: what a
parser took decides its value whatever follows, and no later token repairs an
error other than `short`.
-/

namespace PrefixParser

variable {τ ε α β : Type}

abbrev Parser (τ ε α : Type) := StateT (List τ) (Except ε) α

theorem bind_apply (p : Parser τ ε α) (f : α → Parser τ ε β) (l : List τ) :
    (p >>= f) l = (p l).bind fun x => f x.1 x.2 := rfl

theorem bind_of_ok {p : Parser τ ε α} {f : α → Parser τ ε β} {l r : List τ} {a : α}
    (h : p l = .ok (a, r)) : (p >>= f) l = f a r := by
  rw [bind_apply, h]
  rfl

theorem bind_of_error {p : Parser τ ε α} {f : α → Parser τ ε β} {l : List τ} {e : ε}
    (h : p l = .error e) : (p >>= f) l = .error e := by
  rw [bind_apply, h]
  rfl

theorem bind_eq_ok {p : Parser τ ε α} {f : α → Parser τ ε β} {l r : List τ} {b : β} :
    (p >>= f) l = .ok (b, r) ↔ ∃ a r', p l = .ok (a, r') ∧ f a r' = .ok (b, r) := by
  cases h : p l with
  | error e => simp [bind_of_error h]
  | ok x =>
      obtain ⟨a, r'⟩ := x
      simp [bind_of_ok h]

theorem bind_eq_error {p : Parser τ ε α} {f : α → Parser τ ε β} {l : List τ} {e : ε} :
    (p >>= f) l = .error e ↔
      p l = .error e ∨ ∃ a r, p l = .ok (a, r) ∧ f a r = .error e := by
  cases h : p l with
  | error e' => simp [bind_of_error h]
  | ok x =>
      obtain ⟨a, r⟩ := x
      simp [bind_of_ok h]

@[simp] theorem pure_apply (a : α) (l : List τ) :
    (pure a : Parser τ ε α) l = .ok (a, l) := rfl

@[simp] theorem throw_apply (e : ε) (l : List τ) :
    (throw e : Parser τ ε α) l = .error e := rfl

/-- The first `n` tokens. -/
def take (short : ε) (n : Nat) : Parser τ ε (List τ) := fun l =>
  if n ≤ l.length then .ok (l.take n, l.drop n) else .error short

theorem take_eq_ok {short : ε} {n : Nat} {l u r : List τ} :
    take short n l = .ok (u, r) ↔ l = u ++ r ∧ u.length = n := by
  unfold take
  constructor
  · intro h
    split at h
    · simp only [Except.ok.injEq, Prod.mk.injEq] at h
      obtain ⟨rfl, rfl⟩ := h
      refine ⟨(List.take_append_drop n l).symm, ?_⟩
      rw [List.length_take]
      omega
    · simp at h
  · rintro ⟨rfl, rfl⟩
    simp

/-- `p` reads from the front of the list and looks at nothing behind. -/
structure FrontRead (short : ε) (p : Parser τ ε α) : Prop where
  ok : ∀ l a r, p l = .ok (a, r) → ∃ u, l = u ++ r ∧ ∀ r', p (u ++ r') = .ok (a, r')
  error : ∀ l e, p l = .error e → e = short ∨ ∀ x, p (l ++ x) = .error e

namespace FrontRead

variable {short : ε} {p : Parser τ ε α}

theorem pure (a : α) : FrontRead short (pure a : Parser τ ε α) where
  ok := by
    intro l a' r h
    simp only [pure_apply, Except.ok.injEq, Prod.mk.injEq] at h
    obtain ⟨rfl, rfl⟩ := h
    exact ⟨[], rfl, fun _ => rfl⟩
  error := by simp

theorem throw (e : ε) : FrontRead short (throw e : Parser τ ε α) where
  ok := by simp
  error := by
    intro l e' h
    exact Or.inr fun x => h

theorem take (n : Nat) : FrontRead short (take short n : Parser τ ε (List τ)) where
  ok := by
    intro l u r h
    obtain ⟨rfl, hlen⟩ := take_eq_ok.mp h
    exact ⟨u, rfl, fun r' => take_eq_ok.mpr ⟨rfl, hlen⟩⟩
  error := by
    intro l e h
    unfold PrefixParser.take at h
    split at h
    · cases h
    · exact Or.inl (Except.error.inj h).symm

theorem bind {f : α → Parser τ ε β} (hp : FrontRead short p)
    (hf : ∀ a, FrontRead short (f a)) : FrontRead short (p >>= f) where
  ok := by
    intro l b r h
    obtain ⟨a, r₁, h₁, h₂⟩ := bind_eq_ok.mp h
    obtain ⟨u₁, rfl, hu₁⟩ := hp.ok l a r₁ h₁
    obtain ⟨u₂, rfl, hu₂⟩ := (hf a).ok _ b r h₂
    refine ⟨u₁ ++ u₂, by simp, fun r' => ?_⟩
    rw [List.append_assoc, bind_of_ok (hu₁ (u₂ ++ r'))]
    exact hu₂ r'
  error := by
    intro l e h
    rcases bind_eq_error.mp h with h₁ | ⟨a, r, h₁, h₂⟩
    · refine (hp.error l e h₁).imp id fun hx x => ?_
      exact bind_of_error (hx x)
    · obtain ⟨u, rfl, hu⟩ := hp.ok l a r h₁
      refine ((hf a).error r e h₂).imp id fun hx x => ?_
      rw [List.append_assoc, bind_of_ok (hu (r ++ x))]
      exact hx x

/-- More tokens do not change a success. -/
theorem ok_append (hp : FrontRead short p) {l r : List τ} {a : α} (h : p l = .ok (a, r))
    (x : List τ) : p (l ++ x) = .ok (a, r ++ x) := by
  obtain ⟨u, rfl, hu⟩ := hp.ok l a r h
  rw [List.append_assoc]
  exact hu (r ++ x)

theorem length_le (hp : FrontRead short p) {l r : List τ} {a : α} (h : p l = .ok (a, r)) :
    r.length ≤ l.length := by
  obtain ⟨u, rfl, -⟩ := hp.ok l a r h
  simp

end FrontRead

end PrefixParser
