import Mathlib.Data.List.Basic
import Mathlib.Tactic

/-!
# Keystreams and buffers

A keystream is a sequence of octets, and a stream cipher combines the octets that
pass with those of the keystream from a running position on. Text that passes in
pieces comes out as it would in one piece, and what passes twice comes out as it
was.

`Memory` holds the buffers that the text passes between: one buffer to another
one apart from it, or to itself.
-/

namespace Keystream

variable (ks : Nat → UInt8)

/-- The text combined with the keystream from `pos` on. -/
def apply (pos : Nat) : List UInt8 → List UInt8
  | [] => []
  | d :: ds => (d ^^^ ks pos) :: apply (pos + 1) ds

@[simp] theorem apply_nil (pos : Nat) : apply ks pos [] = [] := rfl

@[simp] theorem length_apply (pos : Nat) (ds : List UInt8) :
    (apply ks pos ds).length = ds.length := by
  induction ds generalizing pos with
  | nil => rfl
  | cons d ds ih => rw [apply, List.length_cons, ih, List.length_cons]

/-- Text in pieces. -/
theorem apply_append (pos : Nat) (ds es : List UInt8) :
    apply ks pos (ds ++ es) = apply ks pos ds ++ apply ks (pos + ds.length) es := by
  induction ds generalizing pos with
  | nil => rfl
  | cons d ds ih =>
    rw [List.cons_append, apply, ih, apply, List.cons_append, List.length_cons, Nat.add_assoc,
      Nat.add_comm 1]

/-- Text that passes twice. -/
theorem apply_apply (pos : Nat) (ds : List UInt8) : apply ks pos (apply ks pos ds) = ds := by
  induction ds generalizing pos with
  | nil => rfl
  | cons d ds ih =>
    rw [apply, apply, ih, UInt8.xor_assoc, UInt8.xor_self, UInt8.xor_zero]

/-- A keystream without a zero changes every octet. -/
theorem apply_ne {ks : Nat → UInt8} (hks : ∀ i, ks i ≠ 0) {pos : Nat} {ds : List UInt8}
    (hds : ds ≠ []) : apply ks pos ds ≠ ds := by
  cases ds with
  | nil => exact absurd rfl hds
  | cons d ds =>
    intro h
    have hhead : d ^^^ ks pos = d ^^^ 0 := by
      rw [UInt8.xor_zero]
      exact (List.cons.inj h).1
    exact hks pos ((UInt8.xor_right_inj d).mp hhead)

/-! ## Buffers -/

/-- An octet at every address. -/
abbrev Memory := Nat → UInt8

namespace Memory

/-- The `size` octets from `p` on. -/
def read (m : Memory) (p size : Nat) : List UInt8 := (List.range size).map fun i => m (p + i)

/-- The memory with `data` from `p` on. -/
def write (m : Memory) (p : Nat) (data : List UInt8) : Memory := fun a =>
  if p ≤ a ∧ a < p + data.length then data.getD (a - p) 0 else m a

variable (m : Memory) {p q size : Nat} {data : List UInt8}

@[simp] theorem length_read : (m.read p size).length = size := by
  rw [read, List.length_map, List.length_range]

theorem write_apply {i : Nat} (hi : i < data.length) : m.write p data (p + i) = data[i] := by
  have hin : p ≤ p + i ∧ p + i < p + data.length := ⟨Nat.le_add_right _ _, by omega⟩
  unfold write
  rw [if_pos hin, Nat.add_sub_cancel_left, List.getD_eq_getElem?_getD, List.getElem?_eq_getElem hi]
  rfl

/-- What was written is read. -/
theorem read_write_same (p : Nat) (data : List UInt8) :
    (m.write p data).read p data.length = data := by
  apply List.ext_getElem (by simp)
  intro i hi hi'
  simp [read, write_apply m hi']

/-- The buffers have no octet in common. -/
def Apart (p q size : Nat) : Prop := p + size ≤ q ∨ q + size ≤ p

theorem read_write_apart (data : List UInt8) (h : Apart p q data.length) :
    (m.write q data).read p data.length = m.read p data.length := by
  apply List.map_congr_left
  intro i hi
  have hlt := List.mem_range.mp hi
  exact if_neg (by unfold Apart at h; omega)

end Memory

end Keystream
