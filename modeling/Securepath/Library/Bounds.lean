import Mathlib.Data.List.Basic

/-!
# Accesses and bounds

What a piece of code touches as a list of accesses, each with the size of the
sequence it goes to. "In bounds" is then a statement about the list, which follows
the loops of the code.
-/

namespace Bounds

/-- Elements `first` up to `first + len` of a sequence of `size` elements. -/
structure Access where
  first : Nat
  len : Nat
  size : Nat
  deriving DecidableEq, Repr

def Access.InBounds (a : Access) : Prop := a.first + a.len ≤ a.size

instance (a : Access) : Decidable a.InBounds :=
  inferInstanceAs (Decidable (a.first + a.len ≤ a.size))

/-- All accesses of the list are in bounds. -/
def AllInBounds (as : List Access) : Prop := ∀ a ∈ as, a.InBounds

instance (as : List Access) : Decidable (AllInBounds as) :=
  inferInstanceAs (Decidable (∀ a ∈ as, a.InBounds))

variable {a : Access} {as bs : List Access}

@[simp] theorem allInBounds_nil : AllInBounds [] := by simp [AllInBounds]

@[simp] theorem allInBounds_cons : AllInBounds (a :: as) ↔ a.InBounds ∧ AllInBounds as := by
  simp [AllInBounds]

@[simp] theorem allInBounds_append :
    AllInBounds (as ++ bs) ↔ AllInBounds as ∧ AllInBounds bs := by
  simp only [AllInBounds, List.mem_append, or_imp, forall_and]

/-- A loop from 0 to `n`. -/
@[simp] theorem allInBounds_loop {n : Nat} {body : Nat → List Access} :
    AllInBounds ((List.range n).flatMap body) ↔ ∀ i < n, AllInBounds (body i) := by
  constructor
  · intro h i hi a ha
    exact h a (List.mem_flatMap.mpr ⟨i, List.mem_range.mpr hi, ha⟩)
  · intro h a ha
    obtain ⟨i, hi, ha⟩ := List.mem_flatMap.mp ha
    exact h i (List.mem_range.mp hi) a ha

end Bounds
