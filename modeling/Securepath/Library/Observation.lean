import Mathlib.Data.List.Basic

/-!
# Machines that answer

A machine whose steps never block and answer: `observe` is the list of the
answers along a list of actions, `Along` a condition on every action and the
state it meets. Two machines answer alike when a relation between their states is
kept by every step under the condition.
-/

namespace Observation

variable {α β σ τ : Type}

/-- The state behind the actions. -/
def after (step : α → σ → β × σ) : List α → σ → σ
  | [], s => s
  | a :: as, s => after step as (step a s).2

/-- The answers to the actions, in their order. -/
def observe (step : α → σ → β × σ) : List α → σ → List β
  | [], _ => []
  | a :: as, s => (step a s).1 :: observe step as (step a s).2

/-- `Good` holds of each action in the state it meets. -/
def Along (step : α → σ → β × σ) (Good : α → σ → Prop) : List α → σ → Prop
  | [], _ => True
  | a :: as, s => Good a s ∧ Along step Good as (step a s).2

variable {step : α → σ → β × σ} {step' : α → τ → β × τ} {Good : α → σ → Prop}

/-- What holds at first and is kept by every step holds behind the actions, and what
the steps answer under it holds of every answer. -/
theorem invariant {Inv : σ → Prop} {P : β → Prop}
    (step_inv : ∀ a s, Inv s → Inv (step a s).2 ∧ P (step a s).1)
    {s : σ} (hinit : Inv s) (as : List α) :
    Inv (after step as s) ∧ ∀ b ∈ observe step as s, P b := by
  induction as generalizing s with
  | nil => exact ⟨hinit, fun b hb => absurd hb List.not_mem_nil⟩
  | cons a as ih =>
      obtain ⟨hnext, hanswer⟩ := step_inv a s hinit
      obtain ⟨hafter, hrest⟩ := ih hnext
      refine ⟨hafter, ?_⟩
      intro b hb
      rcases List.mem_cons.mp hb with rfl | hb
      · exact hanswer
      · exact hrest b hb

/-- The simulation rule. -/
theorem observe_eq {R : σ → τ → Prop}
    (step_sim : ∀ a s t, Good a s → R s t →
      (step a s).1 = (step' a t).1 ∧ R (step a s).2 (step' a t).2)
    {as : List α} {s : σ} {t : τ} (hgood : Along step Good as s) (hinit : R s t) :
    observe step as s = observe step' as t := by
  induction as generalizing s t with
  | nil => rfl
  | cons a as ih =>
      obtain ⟨hanswer, hnext⟩ := step_sim a s t hgood.1 hinit
      have hrest := ih hgood.2 hnext
      rw [observe, observe, hanswer, hrest]

end Observation
