import Securepath.Library.StateExcept

/-!
# What a program keeps while errors are caught

Some errors of a program are caught and the others go through to the caller.
`Ends p Q` says of a result that `Q` holds of its state, unless an error that
`p` does not accept is on its way out. `Keeps p Q` says that a program ends in
`Q` when it starts in `Q`; this goes through sequencing, scopes and handlers.
-/

namespace StateExcept

open EStateM

variable {ε σ α β : Type} {p : ε → Bool} {Q Q' : σ → Prop}

/-- The state is in `Q`, unless an error that nobody catches goes out. -/
def Ends (p : ε → Bool) (Q : σ → Prop) : Result ε σ α → Prop
  | .ok _ s => Q s
  | .error e s => p e = true → Q s

theorem Ends.mono {r : Result ε σ α} (h : Ends p Q r) (hQ : ∀ s, Q s → Q' s) : Ends p Q' r := by
  cases r with
  | ok a s => exact hQ s h
  | error e s => exact fun he => hQ s (h he)

theorem Ends.of_finalState {r : Result ε σ α} (h : Q (finalState r)) : Ends p Q r := by
  cases r with
  | ok a s => exact h
  | error e s => exact fun _ => h

theorem Ends.bind {m : EStateM ε σ α} {f : α → EStateM ε σ β} {s : σ} (h : Ends p Q (m s))
    (hf : ∀ a t, m s = .ok a t → Q t → Ends p Q (f a t)) : Ends p Q ((m >>= f) s) := by
  cases hm : m s with
  | ok a t =>
      rw [bind_of_ok hm]
      rw [hm] at h
      exact hf a t hm h
  | error e t =>
      rw [bind_of_error hm]
      rw [hm] at h
      exact h

theorem Ends.scopeExit {m : EStateM ε σ α} {f g : σ → σ} {s : σ} (h : Ends p Q (m s))
    (hf : ∀ t, Q t → Q' (f t)) (hg : ∀ t, Q t → Q' (g t)) :
    Ends p Q' (scopeExit m f g s) := by
  cases hm : m s with
  | ok a t =>
      rw [scopeExit_of_ok hm]
      rw [hm] at h
      exact hf t h
  | error e t =>
      rw [scopeExit_of_error hm]
      rw [hm] at h
      exact fun he => hg t (h he)

theorem Ends.catching {m handler : EStateM ε σ α} {s : σ} (h : Ends p Q (m s))
    (hhandler : ∀ e t, m s = .error e t → Q t → Ends p Q (handler t)) :
    Ends p Q (catching p m handler s) := by
  cases hm : m s with
  | ok a t =>
      rw [catching_of_ok hm]
      rw [hm] at h
      exact h
  | error e t =>
      rw [hm] at h
      cases he : p e with
      | true =>
          rw [catching_of_caught hm he]
          exact hhandler e t hm (h he)
      | false =>
          rw [catching_of_uncaught hm he]
          intro he'
          rw [he] at he'
          cases he'

/-- From `Q` the program ends in `Q`. -/
def Keeps (p : ε → Bool) (Q : σ → Prop) (m : EStateM ε σ α) : Prop := ∀ s, Q s → Ends p Q (m s)

namespace Keeps

theorem pure (a : α) : Keeps p Q (pure a : EStateM ε σ α) := fun _ h => h

theorem throw (e : ε) : Keeps p Q (throw e : EStateM ε σ α) := fun _ h _ => h

theorem get : Keeps p Q (get : EStateM ε σ σ) := fun _ h => h

theorem bind {m : EStateM ε σ α} {f : α → EStateM ε σ β} (hm : Keeps p Q m)
    (hf : ∀ a, Keeps p Q (f a)) : Keeps p Q (m >>= f) :=
  fun s h => (hm s h).bind fun a t _ ht => hf a t ht

/-- A destructor that keeps `Q` may run on both ways out. -/
theorem withDestructor {m : EStateM ε σ α} {d : σ → σ} (hm : Keeps p Q m)
    (hd : ∀ s, Q s → Q (d s)) : Keeps p Q (withDestructor m d) :=
  fun s h => (hm s h).scopeExit hd hd

end Keeps

end StateExcept
