import Securepath.Library.Positional
import Securepath.Serialisation.Types

/-!
# The integer arithmetic of the codec

The functions of `serialisation/codec/asn_der/util.hpp` that turn tags, lengths
and integers into octets and back. The loop of `highest_bit_block` scans down
for the highest set bit; everything else is shifts and masks, which the lemmas
of this file express as digits in base `2 ^ block`.
-/

namespace Securepath.Serialisation

open Positional

/-! ## Octets as numbers -/

theorem and_0x80_eq_zero (b : UInt8) : b &&& 0x80 = 0 ↔ b.toNat < 128 := by
  have h : ∀ n : Fin 256, (n.val &&& 128 = 0) ↔ n.val < 128 := by decide +kernel
  have := h ⟨b.toNat, b.toNat_lt⟩
  rw [← UInt8.toNat_inj]
  simpa using this

/-- Octets as base-256 digits. -/
def octetDigits (l : Octets) : List Nat := l.map UInt8.toNat

@[simp] theorem octetDigits_length (l : Octets) : (octetDigits l).length = l.length := by
  simp [octetDigits]

/-- Digits below 256 as octets. -/
def ofDigits (l : List Nat) : Octets := l.map UInt8.ofNat

@[simp] theorem ofDigits_length (l : List Nat) : (ofDigits l).length = l.length := by
  simp [ofDigits]

theorem octetDigits_ofDigits {l : List Nat} (h : ∀ d ∈ l, d < 256) :
    octetDigits (ofDigits l) = l := by
  simp only [octetDigits, ofDigits, List.map_map]
  conv_rhs => rw [← List.map_id l]
  apply List.map_congr_left
  intro d hd
  simpa using Nat.mod_eq_of_lt (h d hd)

/-! ## `util.hpp` -/

/-- `highest_bit_block`: the index of the `block`-bit group of the highest set
bit, seen from below `8 * sizeHint` bits. -/
def highestBitBlock (value : Nat) (treatAsSigned : Bool) (sizeHint : Nat) (block : Nat) : Nat :=
  -- `scan` is `bit + 1` after the loop of the source
  let bits := scan value (sizeHint * 8)
  let bits := if treatAsSigned ∧ bits % block = 0 then bits + 1 else bits
  (bits - 1) / block

/-- `bits_from_position`, for a type of `typeBits` bits. -/
def bitsFromPosition (value typeBits pos block : Nat) : Nat :=
  if pos < typeBits then (value >>> pos) % 2 ^ block else 0

/-- `encode_to_octets` into a buffer of `bufSize` octets. -/
def encodeToOctets (value typeBits bufSize sizeHint : Nat) (treatAsSigned : Bool)
    (block mask : Nat) : Except Error Octets :=
  let length := highestBitBlock value treatAsSigned sizeHint block + 1
  if bufSize < length then
    .error Error.illegalSize
  else
    .ok ((List.range length).map fun i =>
      UInt8.ofNat (bitsFromPosition value typeBits ((length - i - 1) * block) block ||| mask))

/-- `decode_from_octets` into a type of `typeBits` bits. -/
def decodeFromOctets (typeBits : Nat) (b : Octets) : Nat :=
  b.foldl (fun ret o => (ret <<< 8 ||| o.toNat) % 2 ^ typeBits) 0

/-- `translate_negative`: the two's complement of a negative value in the
fewest octets. -/
def translateNegative (value : Int) (sizeHint : Nat) : Nat :=
  let number := (-(value + 1)).toNat
  let octets := highestBitBlock number true sizeHint 8 + 1
  let mask := 2 ^ (octets * 8) - 1
  number ^^^ mask

/-- `encode_integer`. -/
def encodeInteger (value : Int) (typeBits bufSize sizeHint : Nat) : Except Error Octets :=
  if value < 0 then
    encodeToOctets (translateNegative value sizeHint) 64 bufSize sizeHint false 8 0
  else
    encodeToOctets value.toNat typeBits bufSize sizeHint true 8 0

/-- `decode_integer` of the `s` octets at `b`, for a type of `typeBits` bits. -/
def decodeInteger (typeBits : Nat) (b : Octets) (s sizeHint : Nat) : Int :=
  if b.headD 0 &&& 0x80 ≠ 0 then
    let value := decodeFromOctets 64 (b.take s)
    let octets := highestBitBlock value false sizeHint 8 + 1
    let mask := 2 ^ (octets * 8) - 1
    let translated : Int := (value ^^^ mask : Nat)
    Int.neg translated - 1
  else
    decodeFromOctets typeBits (b.take s)

/-! ## What the arithmetic means -/

theorem range_map_digits {α : Type} (f : Nat → α) (B n v : Nat) :
    ((List.range n).map fun i => f (v / B ^ (n - i - 1) % B)) = (digits B n v).map f := by
  induction n with
  | zero => rfl
  | succ n ih =>
      rw [List.range_succ_eq_map, List.map_cons, List.map_map, digits, List.map_cons, ← ih]
      congr 1
      apply List.map_congr_left
      intro i _
      simp only [Function.comp_apply, Nat.succ_eq_add_one]
      rw [show n + 1 - (i + 1) - 1 = n - i - 1 by omega]

theorem bitsFromPosition_eq {value typeBits : Nat} (h : value < 2 ^ typeBits) (pos block : Nat) :
    bitsFromPosition value typeBits pos block = value / 2 ^ pos % 2 ^ block := by
  rw [bitsFromPosition]
  split
  · rw [Nat.shiftRight_eq_div_pow]
  · rename_i hpos
    have hle : 2 ^ typeBits ≤ 2 ^ pos := Nat.pow_le_pow_right (by omega) (by omega)
    rw [Nat.div_eq_of_lt (by omega), Nat.zero_mod]

/-- The octets written are the digits of the value, each under the mask. -/
theorem encodeToOctets_eq {value typeBits bufSize sizeHint block mask : Nat}
    {treatAsSigned : Bool} (hvalue : value < 2 ^ typeBits)
    (hfit : highestBitBlock value treatAsSigned sizeHint block + 1 ≤ bufSize) :
    encodeToOctets value typeBits bufSize sizeHint treatAsSigned block mask =
      .ok ((digits (2 ^ block) (highestBitBlock value treatAsSigned sizeHint block + 1) value).map
        fun d => UInt8.ofNat (d ||| mask)) := by
  rw [encodeToOctets, if_neg (by omega), ← range_map_digits]
  simp only [bitsFromPosition_eq hvalue, ← pow_mul, Nat.mul_comm block]

theorem foldl_octets (typeBits acc : Nat) (b : Octets) :
    b.foldl (fun ret o => (ret <<< 8 ||| o.toNat) % 2 ^ typeBits) (acc % 2 ^ typeBits) =
      valueFrom 256 acc (octetDigits b) % 2 ^ typeBits := by
  induction b generalizing acc with
  | nil => rfl
  | cons o b ih =>
      simp only [List.foldl_cons, octetDigits, List.map_cons, valueFrom_cons]
      rw [← octetDigits, ← ih]
      congr 1
      have hor : (acc % 2 ^ typeBits) <<< 8 ||| o.toNat = acc % 2 ^ typeBits * 256 + o.toNat := by
        rw [← Nat.shiftLeft_add_eq_or_of_lt (by simpa using o.toNat_lt), Nat.shiftLeft_eq]
      rw [hor]
      exact ((Nat.mod_modEq acc _).mul_right 256).add_right _

/-- Octets are read as a base-256 number, modulo the size of the type. -/
theorem decodeFromOctets_eq (typeBits : Nat) (b : Octets) :
    decodeFromOctets typeBits b = value 256 (octetDigits b) % 2 ^ typeBits := by
  have := foldl_octets typeBits 0 b
  rwa [Nat.zero_mod] at this

theorem decodeFromOctets_digits {typeBits n v : Nat} (hn : v < 256 ^ n) (hv : v < 2 ^ typeBits) :
    decodeFromOctets typeBits (ofDigits (digits 256 n v)) = v := by
  rw [decodeFromOctets_eq, octetDigits_ofDigits (digits_lt (by omega) n v), value_digits hn,
    Nat.mod_eq_of_lt hv]

/-- The length of a value that keeps its top bit clear. -/
theorem highestBitBlock_signed (v sizeHint : Nat) :
    highestBitBlock v true sizeHint 8 = scan v (sizeHint * 8) / 8 := by
  simp only [highestBitBlock, true_and]
  split <;> omega

theorem highestBitBlock_unsigned (v sizeHint block : Nat) :
    highestBitBlock v false sizeHint block = (scan v (sizeHint * 8) - 1) / block := by
  simp [highestBitBlock]

theorem lt_of_highestBitBlock_unsigned {v sizeHint block : Nat} (hblock : 0 < block)
    (h : v < 2 ^ (sizeHint * 8)) :
    v < (2 ^ block) ^ (highestBitBlock v false sizeHint block + 1) := by
  rw [highestBitBlock_unsigned, ← pow_mul]
  refine lt_of_lt_of_le (lt_two_pow_scan h) (Nat.pow_le_pow_right (by omega) ?_)
  have hdiv := Nat.div_add_mod (scan v (sizeHint * 8) - 1) block
  have hmod := Nat.mod_lt (scan v (sizeHint * 8) - 1) hblock
  rw [Nat.mul_add, Nat.mul_one]
  omega

theorem xor_mask {v k : Nat} (h : v < 2 ^ k) : v ^^^ (2 ^ k - 1) = 2 ^ k - (v + 1) := by
  apply Nat.eq_of_testBit_eq
  intro i
  rw [Nat.testBit_xor, Nat.testBit_two_pow_sub_one, Nat.testBit_two_pow_sub_succ h]
  by_cases hi : i < k
  · simp [hi]
  · have : v.testBit i = false := by
      apply Nat.testBit_lt_two_pow
      exact lt_of_lt_of_le h (Nat.pow_le_pow_right (by omega) (by omega))
    simp [hi, this]

/-- A number with its top bit at `8 * o - 1` takes `o` octets. -/
theorem highestBitBlock_of_top {v o sizeHint : Nat} (ho : 0 < o) (hle : o ≤ sizeHint)
    (hlow : 2 ^ (o * 8 - 1) ≤ v) (hhigh : v < 2 ^ (o * 8)) :
    highestBitBlock v false sizeHint 8 + 1 = o := by
  have hfit : v < 2 ^ (sizeHint * 8) :=
    lt_of_lt_of_le hhigh (Nat.pow_le_pow_right (by omega) (by omega))
  have hup := lt_two_pow_scan hfit
  have hlt : o * 8 - 1 < scan v (sizeHint * 8) :=
    (Nat.pow_lt_pow_iff_right (by omega : 1 < 2)).mp (lt_of_le_of_lt hlow hup)
  have hdown := two_pow_le_of_scan (v := v) (n := sizeHint * 8) (by omega)
  have hlt' : scan v (sizeHint * 8) - 1 < o * 8 :=
    (Nat.pow_lt_pow_iff_right (by omega : 1 < 2)).mp (lt_of_le_of_lt hdown hhigh)
  rw [highestBitBlock_unsigned]
  omega

/-- The first octet of a number's digits. -/
theorem headD_ofDigits_digits {n v : Nat} (h : v < 256 ^ (n + 1)) :
    ((ofDigits (digits 256 (n + 1) v)).headD 0).toNat = v / 256 ^ n := by
  have hlt : v / 256 ^ n < 256 := by
    rw [Nat.div_lt_iff_lt_mul (by positivity)]
    rw [pow_succ] at h
    omega
  simp [ofDigits, digits, Nat.mod_eq_of_lt hlt]

/-! ## Fixed-width integers -/

/-- The sizes of the built-in integer types. -/
inductive IntWidth where
  | w8
  | w16
  | w32
  | w64
deriving DecidableEq, Repr

/-- `sizeof`. -/
def IntWidth.bytes : IntWidth → Nat
  | .w8 => 1
  | .w16 => 2
  | .w32 => 4
  | .w64 => 8

/-- A built-in integer type. -/
structure IntType where
  isSigned : Bool
  width : IntWidth
deriving DecidableEq, Repr

namespace IntType

def bytes (t : IntType) : Nat := t.width.bytes

def min (t : IntType) : Int := if t.isSigned then -2 ^ (8 * t.bytes - 1) else 0

def max (t : IntType) : Int :=
  if t.isSigned then 2 ^ (8 * t.bytes - 1) - 1 else 2 ^ (8 * t.bytes) - 1

theorem bytes_pos (t : IntType) : 0 < t.bytes := by
  rcases t with ⟨_, _ | _ | _ | _⟩ <;> simp [bytes, IntWidth.bytes]

theorem bytes_le (t : IntType) : t.bytes ≤ 8 := by
  rcases t with ⟨_, _ | _ | _ | _⟩ <;> simp [bytes, IntWidth.bytes]

end IntType

/-- A value of the integer type `t`. -/
def FixedInt (t : IntType) : Type := { z : Int // t.min ≤ z ∧ z ≤ t.max }

instance (t : IntType) : DecidableEq (FixedInt t) :=
  inferInstanceAs (DecidableEq { z : Int // t.min ≤ z ∧ z ≤ t.max })

/-- `static_cast` to the type `t`. -/
def FixedInt.cast (t : IntType) (z : Int) : FixedInt t :=
  ⟨if t.isSigned then Int.bmod z (2 ^ (8 * t.bytes)) else z % 2 ^ (8 * t.bytes), by
    rcases t with ⟨_ | _, _ | _ | _ | _⟩ <;>
      simp [Int.bmod, IntType.min, IntType.max, IntType.bytes, IntWidth.bytes] <;> omega⟩

theorem FixedInt.cast_val {t : IntType} (z : FixedInt t) : FixedInt.cast t z.val = z := by
  obtain ⟨z, hmin, hmax⟩ := z
  apply Subtype.ext
  rcases t with ⟨_ | _, _ | _ | _ | _⟩ <;>
    simp [IntType.min, IntType.max, IntType.bytes, IntWidth.bytes] at hmin hmax <;>
    simp [FixedInt.cast, Int.bmod, IntType.bytes, IntWidth.bytes] <;> omega

/-! ## Encoding and decoding an integer -/

/-- A value below `2 ^ (8 * sizeHint)` is written with its top bit clear. -/
theorem encodeInteger_nonneg {z : Int} (typeBits bufSize sizeHint : Nat) (hz : 0 ≤ z)
    (htype : sizeHint * 8 ≤ typeBits) (hbuf : sizeHint + 1 ≤ bufSize)
    (hlt : z < 2 ^ (sizeHint * 8)) :
    ∃ n, encodeInteger z typeBits bufSize sizeHint =
        .ok (ofDigits (digits 256 (n + 1) z.toNat)) ∧
      z.toNat < 2 ^ ((n + 1) * 8 - 1) ∧ n ≤ sizeHint ∧
      ∀ k, z < 2 ^ (k * 8 - 1) → 0 < k → n + 1 ≤ k := by
  have hv : z.toNat < 2 ^ (sizeHint * 8) := by
    have : (z.toNat : Int) < ((2 ^ (sizeHint * 8) : Nat) : Int) := by
      rw [Int.toNat_of_nonneg hz]
      exact_mod_cast hlt
    exact_mod_cast this
  have hscan := scan_le z.toNat (sizeHint * 8)
  have hblock := highestBitBlock_signed z.toNat sizeHint
  have htypeBits : z.toNat < 2 ^ typeBits :=
    lt_of_lt_of_le hv (Nat.pow_le_pow_right (by omega) htype)
  refine ⟨scan z.toNat (sizeHint * 8) / 8, ?_, ?_, by omega, fun k hsmall hpos => ?_⟩
  · rw [encodeInteger, if_neg (by omega), encodeToOctets_eq htypeBits (by omega), hblock]
    simp [ofDigits]
  · exact lt_of_lt_of_le (lt_two_pow_scan hv) (Nat.pow_le_pow_right (by omega) (by omega))
  · have hv' : z.toNat < 2 ^ (k * 8 - 1) := by
      have : (z.toNat : Int) < ((2 ^ (k * 8 - 1) : Nat) : Int) := by
        rw [Int.toNat_of_nonneg hz]
        exact_mod_cast hsmall
      exact_mod_cast this
    by_cases hscan0 : scan z.toNat (sizeHint * 8) = 0
    · omega
    · have hdown := two_pow_le_of_scan (v := z.toNat) (n := sizeHint * 8) (by omega)
      have : scan z.toNat (sizeHint * 8) - 1 < k * 8 - 1 :=
        (Nat.pow_lt_pow_iff_right (by omega : 1 < 2)).mp (lt_of_le_of_lt hdown hv')
      omega

/-- A negative value is written in two's complement, with its top bit set. -/
theorem encodeInteger_neg {z : Int} (typeBits bufSize sizeHint : Nat) (hz : z < 0)
    (hsize : sizeHint ≤ 8) (hbuf : sizeHint ≤ bufSize) (hpos : 0 < sizeHint)
    (hge : -2 ^ (sizeHint * 8 - 1) ≤ z) :
    ∃ n v, encodeInteger z typeBits bufSize sizeHint = .ok (ofDigits (digits 256 (n + 1) v)) ∧
      2 ^ ((n + 1) * 8 - 1) ≤ v ∧ v < 2 ^ ((n + 1) * 8) ∧ n + 1 ≤ sizeHint ∧
      z = (v : Int) - 2 ^ ((n + 1) * 8) := by
  obtain ⟨m, rfl⟩ : ∃ m : Nat, z = -(m + 1 : Int) := ⟨(-(z + 1)).toNat, by omega⟩
  have hm : m < 2 ^ (sizeHint * 8 - 1) := by
    have : (m : Int) < ((2 ^ (sizeHint * 8 - 1) : Nat) : Int) := by
      push_cast
      omega
    exact_mod_cast this
  have hm' : m < 2 ^ (sizeHint * 8) :=
    lt_of_lt_of_le hm (Nat.pow_le_pow_right (by omega) (by omega))
  have hnumber : (-(-(m + 1 : Int) + 1)).toNat = m := by omega
  have hblock := highestBitBlock_signed m sizeHint
  set n := scan m (sizeHint * 8) / 8 with hn
  have hlow : m < 2 ^ ((n + 1) * 8 - 1) :=
    lt_of_lt_of_le (lt_two_pow_scan hm') (Nat.pow_le_pow_right (by omega) (by omega))
  have hnle : n + 1 ≤ sizeHint := by
    by_cases hscan0 : scan m (sizeHint * 8) = 0
    · omega
    · have hdown := two_pow_le_of_scan (v := m) (n := sizeHint * 8) (by omega)
      have : scan m (sizeHint * 8) - 1 < sizeHint * 8 - 1 :=
        (Nat.pow_lt_pow_iff_right (by omega : 1 < 2)).mp (lt_of_le_of_lt hdown hm)
      omega
  have hdouble : 2 ^ ((n + 1) * 8) = 2 * 2 ^ ((n + 1) * 8 - 1) := by
    rw [← pow_succ']
    congr 1
  have htranslate : translateNegative (-(m + 1 : Int)) sizeHint =
      2 ^ ((n + 1) * 8) - (m + 1) := by
    simp only [translateNegative, hnumber, hblock]
    exact xor_mask (by omega)
  have htop : highestBitBlock (2 ^ ((n + 1) * 8) - (m + 1)) false sizeHint 8 + 1 = n + 1 :=
    highestBitBlock_of_top (by omega) hnle (by omega) (by omega)
  have htypeBits : 2 ^ ((n + 1) * 8) - (m + 1) < 2 ^ 64 := by
    have : 2 ^ ((n + 1) * 8) ≤ 2 ^ 64 := Nat.pow_le_pow_right (by omega) (by omega)
    omega
  refine ⟨n, 2 ^ ((n + 1) * 8) - (m + 1), ?_, by omega, by omega, hnle, ?_⟩
  · rw [encodeInteger, if_pos hz, htranslate, encodeToOctets_eq htypeBits (by omega), htop]
    simp [ofDigits]
  · rw [Nat.cast_sub (by omega)]
    push_cast
    ring

theorem take_ofDigits_digits (n v : Nat) :
    (ofDigits (digits 256 n v)).take n = ofDigits (digits 256 n v) :=
  List.take_of_length_le (by simp)

theorem decodeInteger_nonneg {n v sizeHint : Nat} (hv : v < 2 ^ ((n + 1) * 8 - 1))
    (hbits : v < 2 ^ 64) :
    decodeInteger 64 (ofDigits (digits 256 (n + 1) v)) (n + 1) sizeHint = v := by
  have hpow : (256 : Nat) ^ (n + 1) = 2 ^ ((n + 1) * 8) := by
    rw [show (256 : Nat) = 2 ^ 8 by norm_num, ← pow_mul, Nat.mul_comm]
  have hdouble : 2 ^ ((n + 1) * 8) = 2 * 2 ^ ((n + 1) * 8 - 1) := by
    rw [← pow_succ']
    congr 1
  have hlt : v < 256 ^ (n + 1) := by omega
  have htop : v / 256 ^ n < 128 := by
    rw [Nat.div_lt_iff_lt_mul (by positivity)]
    rw [pow_succ] at hpow
    omega
  have hclear : (ofDigits (digits 256 (n + 1) v)).headD 0 &&& 0x80 = 0 := by
    rw [and_0x80_eq_zero, headD_ofDigits_digits hlt]
    exact htop
  rw [decodeInteger, if_neg (not_not.mpr hclear), take_ofDigits_digits,
    decodeFromOctets_digits hlt hbits]

theorem decodeInteger_neg {n v sizeHint : Nat} (hlow : 2 ^ ((n + 1) * 8 - 1) ≤ v)
    (hhigh : v < 2 ^ ((n + 1) * 8)) (hn : n + 1 ≤ sizeHint) (hsize : sizeHint ≤ 8) :
    decodeInteger 64 (ofDigits (digits 256 (n + 1) v)) (n + 1) sizeHint =
      (v : Int) - 2 ^ ((n + 1) * 8) := by
  have hpow : (256 : Nat) ^ (n + 1) = 2 ^ ((n + 1) * 8) := by
    rw [show (256 : Nat) = 2 ^ 8 by norm_num, ← pow_mul, Nat.mul_comm]
  have hdouble : 2 ^ ((n + 1) * 8) = 2 * 2 ^ ((n + 1) * 8 - 1) := by
    rw [← pow_succ']
    congr 1
  have hlt : v < 256 ^ (n + 1) := by omega
  have hbits : v < 2 ^ 64 :=
    lt_of_lt_of_le hhigh (Nat.pow_le_pow_right (by omega) (by omega))
  have htop : 128 ≤ v / 256 ^ n := by
    rw [Nat.le_div_iff_mul_le (by positivity)]
    rw [pow_succ] at hpow
    omega
  have hset : (ofDigits (digits 256 (n + 1) v)).headD 0 &&& 0x80 ≠ 0 := by
    rw [ne_eq, and_0x80_eq_zero, headD_ofDigits_digits hlt]
    omega
  have hblock := highestBitBlock_of_top (by omega) hn hlow hhigh
  rw [decodeInteger, if_pos hset, take_ofDigits_digits, decodeFromOctets_digits hlt hbits]
  simp only [hblock, xor_mask hhigh]
  change -((2 ^ ((n + 1) * 8) - (v + 1) : Nat) : Int) - 1 = _
  rw [Nat.cast_sub (by omega)]
  push_cast
  ring

/-- The content octets that `encode_integer` writes for a value of a built-in
type are at least one and at most one more than the type has, do not look
negative for an unsigned type, and are read back as the value. -/
theorem encodeInteger_spec {t : IntType} (z : FixedInt t) :
    ∃ b, encodeInteger z.val 64 9 t.bytes = .ok b ∧ b ≠ [] ∧
      b.length ≤ t.bytes + (if t.isSigned then 0 else 1) ∧
      (t.isSigned = false → b.headD 0 &&& 0x80 = 0) ∧
      decodeInteger 64 b b.length t.bytes = z.val := by
  obtain ⟨z, hmin, hmax⟩ := z
  have hbytes := t.bytes_pos
  have hbytes8 := t.bytes_le
  simp only [IntType.min, IntType.max, Nat.mul_comm 8] at hmin hmax
  have hdouble : (2 : Int) ^ (t.bytes * 8) = 2 * 2 ^ (t.bytes * 8 - 1) := by
    rw [← pow_succ']
    congr 1
    omega
  have hpospow : (0 : Int) < 2 ^ (t.bytes * 8 - 1) := by positivity
  by_cases hz : z < 0
  · have hsigned : t.isSigned = true := by
      by_contra hun
      simp only [hun] at hmin
      simp at hmin
      omega
    simp only [hsigned, if_true] at hmin hmax
    obtain ⟨n, v, hrun, hlow, hhigh, hn, hval⟩ :=
      encodeInteger_neg 64 9 t.bytes hz hbytes8 (by omega) hbytes hmin
    refine ⟨_, hrun, ?_, ?_, by simp [hsigned], ?_⟩
    · simp [ofDigits, digits]
    · simp [hsigned]
      omega
    · rw [ofDigits_length, digits_length, decodeInteger_neg hlow hhigh hn hbytes8]
      exact hval.symm
  · have hlt : z < 2 ^ (t.bytes * 8) := by
      cases hs : t.isSigned <;> simp only [hs] at hmax <;> simp at hmax <;> omega
    obtain ⟨n, hrun, hlow, hn, hshort⟩ :=
      encodeInteger_nonneg 64 9 t.bytes (by omega) (by omega) (by omega) hlt
    have hbits : z.toNat < 2 ^ 64 := by
      have hle : (2 : Nat) ^ (t.bytes * 8) ≤ 2 ^ 64 := Nat.pow_le_pow_right (by omega) (by omega)
      have : (z.toNat : Int) < ((2 ^ (t.bytes * 8) : Nat) : Int) := by
        rw [Int.toNat_of_nonneg (by omega)]
        exact_mod_cast hlt
      have : z.toNat < 2 ^ (t.bytes * 8) := by exact_mod_cast this
      omega
    have hpow : (256 : Nat) ^ (n + 1) = 2 ^ ((n + 1) * 8) := by
      rw [show (256 : Nat) = 2 ^ 8 by norm_num, ← pow_mul, Nat.mul_comm]
    have hdouble' : 2 ^ ((n + 1) * 8) = 2 * 2 ^ ((n + 1) * 8 - 1) := by
      rw [← pow_succ']
      congr 1
    have hlt256 : z.toNat < 256 ^ (n + 1) := by omega
    refine ⟨_, hrun, ?_, ?_, fun _ => ?_, ?_⟩
    · simp [ofDigits, digits]
    · cases hs : t.isSigned with
      | true =>
          simp only [hs, if_true] at hmax
          have := hshort t.bytes (by omega) hbytes
          simp
          omega
      | false =>
          simp
          omega
    · rw [and_0x80_eq_zero, headD_ofDigits_digits hlt256,
        Nat.div_lt_iff_lt_mul (by positivity)]
      rw [pow_succ] at hpow
      omega
    · rw [ofDigits_length, digits_length, decodeInteger_nonneg hlow hbits]
      exact Int.toNat_of_nonneg (by omega)

end Securepath.Serialisation
