import Mathlib.Data.List.Basic

/-!
# Machines and their runs

A machine is a step function: an action that is enabled in a state gives the
next state. `run` follows a list of actions, `EachStep` is a condition on every
action of a run and the state before it. An invariant that every step under the
condition keeps holds behind every run that meets it.
-/

namespace Machine

variable {α σ : Type}

/-- The state behind the actions; `none` when one of them is not enabled. -/
def run (step : α → σ → Option σ) : List α → σ → Option σ
  | [], s => some s
  | a :: as, s => (step a s).bind (run step as)

/-- `Good` holds of each action of a run in the state before it. -/
def EachStep (step : α → σ → Option σ) (Good : α → σ → Prop) : List α → σ → Prop
  | [], _ => True
  | a :: as, s => Good a s ∧ ∀ s', step a s = some s' → EachStep step Good as s'

variable {step : α → σ → Option σ} {Good : α → σ → Prop}

theorem run_cons_eq_some {a : α} {as : List α} {s s' : σ} :
    run step (a :: as) s = some s' ↔ ∃ t, step a s = some t ∧ run step as t = some s' := by
  rw [run, Option.bind_eq_some_iff]

theorem EachStep.cons {a : α} {as : List α} {s t : σ} (hgood : Good a s) (hstep : step a s = some t)
    (hrest : EachStep step Good as t) : EachStep step Good (a :: as) s := by
  refine ⟨hgood, ?_⟩
  intro s' hs'
  rw [← Option.some.inj (hstep.symm.trans hs')]
  exact hrest

/-- What holds at first and is kept by every step holds behind every run. -/
theorem invariant {Inv : σ → Prop}
    (step_inv : ∀ a s s', Good a s → Inv s → step a s = some s' → Inv s')
    {as : List α} {s s' : σ} (hgood : EachStep step Good as s) (hinit : Inv s)
    (hrun : run step as s = some s') : Inv s' := by
  induction as generalizing s with
  | nil =>
      obtain rfl := Option.some.inj hrun
      exact hinit
  | cons a as ih =>
      obtain ⟨t, hstep, hrun'⟩ := run_cons_eq_some.mp hrun
      exact ih (hgood.2 t hstep) (step_inv a s t hgood.1 hinit hstep) hrun'

/-- The same for a condition on the actions alone. -/
theorem invariant_of_forall {Inv : σ → Prop} {Allowed : α → Prop}
    (step_inv : ∀ a s s', Allowed a → Inv s → step a s = some s' → Inv s')
    {as : List α} {s s' : σ} (hall : ∀ a ∈ as, Allowed a) (hinit : Inv s)
    (hrun : run step as s = some s') : Inv s' := by
  induction as generalizing s with
  | nil =>
      obtain rfl := Option.some.inj hrun
      exact hinit
  | cons a as ih =>
      obtain ⟨t, hstep, hrun'⟩ := run_cons_eq_some.mp hrun
      exact ih (fun b hb => hall b (List.mem_cons_of_mem _ hb))
        (step_inv a s t (hall a (List.mem_cons_self ..)) hinit hstep) hrun'

end Machine
