import Mathlib

/-!
# Positional numbers, most significant digit first

`digits B n v` are the `n` lowest base-`B` digits of `v` and `value B l` is the
number a digit list denotes. `scan v n` is the number of bits of `v` below bit
`n`, found by scanning down from bit `n - 1`.
-/

namespace Positional

/-- The `n` lowest digits of `v` in base `B`, most significant first. -/
def digits (B : Nat) : Nat → Nat → List Nat
  | 0, _ => []
  | n + 1, v => (v / B ^ n % B) :: digits B n v

/-- The number denoted by a digit list that follows digits worth `acc`. -/
def valueFrom (B : Nat) (acc : Nat) (l : List Nat) : Nat :=
  l.foldl (fun a d => a * B + d) acc

/-- The number denoted by a digit list. -/
def value (B : Nat) (l : List Nat) : Nat := valueFrom B 0 l

@[simp] theorem digits_length (B n v : Nat) : (digits B n v).length = n := by
  induction n with
  | zero => rfl
  | succ n ih => simp [digits, ih]

theorem digits_lt {B : Nat} (hB : 0 < B) (n v : Nat) : ∀ d ∈ digits B n v, d < B := by
  induction n with
  | zero => simp [digits]
  | succ n ih =>
      intro d hd
      rcases List.mem_cons.mp hd with rfl | hd
      · exact Nat.mod_lt _ hB
      · exact ih d hd

@[simp] theorem valueFrom_nil (B acc : Nat) : valueFrom B acc [] = acc := rfl

@[simp] theorem valueFrom_cons (B acc d : Nat) (l : List Nat) :
    valueFrom B acc (d :: l) = valueFrom B (acc * B + d) l := rfl

/-- Reading the digits of `v` after `acc` appends its `n` lowest digits. -/
theorem valueFrom_digits {B : Nat} (acc n v : Nat) :
    valueFrom B acc (digits B n v) = acc * B ^ n + v % B ^ n := by
  induction n generalizing acc with
  | zero => simp [digits, Nat.mod_one]
  | succ n ih =>
      have hsplit : v % B ^ (n + 1) = v % B ^ n + B ^ n * (v / B ^ n % B) :=
        Nat.mod_pow_succ
      rw [digits, valueFrom_cons, ih, hsplit]
      ring

/-- A number below `B ^ n` is denoted by its `n` digits. -/
theorem value_digits {B n v : Nat} (h : v < B ^ n) : value B (digits B n v) = v := by
  rw [value, valueFrom_digits, Nat.zero_mul, Nat.zero_add, Nat.mod_eq_of_lt h]

/-! ## Counting bits -/

/-- One more than the highest bit of `v` that is set below bit `n`, or `0`. -/
def scan (v : Nat) : Nat → Nat
  | 0 => 0
  | n + 1 => if v.testBit n then n + 1 else scan v n

theorem scan_le (v n : Nat) : scan v n ≤ n := by
  induction n with
  | zero => simp [scan]
  | succ n ih =>
      rw [scan]
      split <;> omega

/-- Below `2 ^ n` the scan finds the size of the number. -/
theorem lt_two_pow_scan {v n : Nat} (h : v < 2 ^ n) : v < 2 ^ scan v n := by
  induction n with
  | zero => simpa [scan] using h
  | succ n ih =>
      rw [scan]
      split
      · exact h
      · rename_i hbit
        apply ih
        have hdiv : v / 2 ^ n % 2 = 0 := by
          simpa [Nat.testBit_eq_decide_div_mod_eq] using hbit
        have hlt : v / 2 ^ n < 2 := by
          rw [Nat.div_lt_iff_lt_mul (Nat.two_pow_pos n)]
          rw [pow_succ] at h
          omega
        have hzero : v / 2 ^ n = 0 := by
          generalize v / 2 ^ n = q at hdiv hlt ⊢
          omega
        rcases Nat.div_eq_zero_iff.mp hzero with hpow | hlt
        · exact absurd hpow (Nat.two_pow_pos n).ne'
        · exact hlt

/-- The highest bit that the scan finds is set. -/
theorem two_pow_le_of_scan {v n : Nat} (h : 0 < scan v n) : 2 ^ (scan v n - 1) ≤ v := by
  induction n with
  | zero => simp [scan] at h
  | succ n ih =>
      rw [scan] at h ⊢
      split
      · rename_i hbit
        simpa using Nat.ge_two_pow_of_testBit hbit
      · rename_i hbit
        rw [if_neg hbit] at h
        exact ih h

/-! ## The most significant digit -/

theorem valueFrom_eq (B acc : Nat) (l : List Nat) :
    valueFrom B acc l = acc * B ^ l.length + value B l := by
  induction l generalizing acc with
  | nil => simp [value]
  | cons d l ih =>
      have hvalue : value B (d :: l) = valueFrom B (0 * B + d) l := rfl
      rw [valueFrom_cons, ih, hvalue, ih (0 * B + d), List.length_cons, pow_succ]
      ring

theorem value_cons (B d : Nat) (l : List Nat) : value B (d :: l) = d * B ^ l.length + value B l := by
  rw [value, valueFrom_cons, Nat.zero_mul, Nat.zero_add, valueFrom_eq]

theorem value_lt {B : Nat} {l : List Nat} (h : ∀ d ∈ l, d < B) : value B l < B ^ l.length := by
  induction l with
  | nil => exact Nat.one_pos
  | cons d l ih =>
      have hd := h d (List.mem_cons_self ..)
      have hl := ih fun e he => h e (List.mem_cons_of_mem _ he)
      rw [value_cons, List.length_cons, pow_succ]
      have hle : (d + 1) * B ^ l.length ≤ B * B ^ l.length := Nat.mul_le_mul_right _ hd
      rw [Nat.add_mul, Nat.one_mul] at hle
      rw [Nat.mul_comm (B ^ l.length)]
      omega

end Positional
