import Mathlib.Data.Nat.Bitwise
import Mathlib.Tactic.Ring

/-!
# Little-endian numbers

The `n` lowest octets of a number, the least significant first, and the number
that octets denote. Reading takes the octets from the front of a list.
-/

namespace LittleEndian

/-- The `n` lowest octets of `v`. -/
def octets : Nat → Nat → List UInt8
  | 0, _ => []
  | n + 1, v => UInt8.ofNat (v % 256) :: octets n (v / 256)

/-- The number that the octets denote. -/
def value : List UInt8 → Nat
  | [] => 0
  | o :: os => o.toNat + 256 * value os

@[simp] theorem octets_length (n v : Nat) : (octets n v).length = n := by
  induction n generalizing v with
  | zero => rfl
  | succ n ih => simp [octets, ih]

theorem value_octets {n v : Nat} (h : v < 256 ^ n) : value (octets n v) = v := by
  induction n generalizing v with
  | zero =>
      rw [Nat.pow_zero] at h
      have hzero : v = 0 := by omega
      rw [hzero]
      rfl
  | succ n ih =>
      have hdigit : (UInt8.ofNat (v % 256)).toNat = v % 256 :=
        UInt8.toNat_ofNat_of_lt' (Nat.mod_lt v (by decide))
      have hrest : v / 256 < 256 ^ n := by
        apply Nat.div_lt_of_lt_mul
        rw [Nat.pow_succ] at h
        rwa [Nat.mul_comm]
      rw [octets, value, ih hrest, hdigit]
      exact Nat.mod_add_div v 256

theorem value_lt (os : List UInt8) : value os < 256 ^ os.length := by
  induction os with
  | nil => decide
  | cons o os ih =>
      have := o.toNat_lt
      rw [value, List.length_cons, Nat.pow_succ]
      omega

/-- The number in the first `n` octets and the octets behind it. -/
def get (n : Nat) (os : List UInt8) : Option (Nat × List UInt8) :=
  if n ≤ os.length then some (value (os.take n), os.drop n) else none

theorem get_octets {n v : Nat} (h : v < 256 ^ n) (rest : List UInt8) :
    get n (octets n v ++ rest) = some (v, rest) := by
  have hlen := octets_length n v
  rw [get, if_pos (by rw [List.length_append]; omega)]
  rw [List.take_append_of_le_length (by omega), List.take_of_length_le (by omega),
    List.drop_append_of_le_length (by omega), List.drop_of_length_le (by omega), value_octets h,
    List.nil_append]

theorem get_of_le {n : Nat} {os : List UInt8} (h : n ≤ os.length) :
    get n os = some (value (os.take n), os.drop n) := if_pos h

end LittleEndian
