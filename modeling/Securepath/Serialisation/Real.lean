import Securepath.Serialisation.Integers

/-!
# Floating point values

`float` and `double` as exact binary numbers, and the functions of
`serialisation/codec/asn_der/util.hpp` that turn a `double` into the content
octets of a DER real and back. The C++ code scales, truncates and adds doubles;
`Ieee.round` is the one rounding step (to nearest, ties to even) that such an
operation makes.
-/

namespace Securepath.Serialisation

open Positional

/-! ## IEEE 754 values -/

inductive FloatFormat where
  | single
  | double
deriving DecidableEq, Repr

namespace FloatFormat

/-- Bits of a full significand. -/
def precision : FloatFormat → Nat
  | single => 24
  | double => 53

/-- The exponent of the least positive value. -/
def minExponent : FloatFormat → Int
  | single => -149
  | double => -1074

/-- The exponent of the greatest finite value. -/
def maxExponent : FloatFormat → Int
  | single => 104
  | double => 971

/-- `m * 2 ^ e` is a value of the format in its one representation. -/
def Canonical (f : FloatFormat) (m : Nat) (e : Int) : Prop :=
  m < 2 ^ f.precision ∧ f.minExponent ≤ e ∧ e ≤ f.maxExponent ∧
    (m < 2 ^ (f.precision - 1) → e = f.minExponent)

instance (f : FloatFormat) (m : Nat) (e : Int) : Decidable (f.Canonical m e) :=
  inferInstanceAs (Decidable (_ ∧ _ ∧ _ ∧ _))

end FloatFormat

inductive Ieee (f : FloatFormat) where
  | nan
  | infinite (negative : Bool)
  | finite (negative : Bool) (significand : Nat) (exponent : Int)
      (canonical : f.Canonical significand exponent)
deriving DecidableEq, Repr

namespace Ieee

variable {f : FloatFormat}

/-- Zero of either sign. -/
def zero (f : FloatFormat) (negative : Bool) : Ieee f :=
  .finite negative 0 f.minExponent (by cases f <;> decide)

/-- `m / 2 ^ k` to the nearest integer, ties to even. -/
def roundShift (m k : Nat) : Nat :=
  let q := m / 2 ^ k
  let r := m % 2 ^ k
  if 2 * r < 2 ^ k ∨ (2 * r = 2 ^ k ∧ q % 2 = 0) then q else q + 1

/-- The value nearest to `m * 2 ^ e`; too large a value is infinite. -/
def round (f : FloatFormat) (negative : Bool) (m : Nat) (e : Int) : Ieee f :=
  if m = 0 then zero f negative
  else
    let e' := max (e + (m.log2 + 1) - f.precision) f.minExponent
    let m' := if e' ≤ e then m <<< (e - e').toNat else roundShift m (e' - e).toNat
    -- rounding up can need one bit more
    let (m', e') := if m' = 2 ^ f.precision then (2 ^ (f.precision - 1), e' + 1) else (m', e')
    if h : f.Canonical m' e' then .finite negative m' e' h else .infinite negative

/-- `static_cast` between the formats. -/
def cast (g : FloatFormat) : Ieee f → Ieee g
  | nan => nan
  | infinite negative => infinite negative
  | finite negative m e _ => round g negative m e

/-- Unary minus. -/
def neg : Ieee f → Ieee f
  | nan => nan
  | infinite negative => infinite (!negative)
  | finite negative m e h => finite (!negative) m e h

/-- `std::ldexp`. -/
def ldexp (x : Ieee f) (k : Int) : Ieee f :=
  match x with
  | finite negative m e _ => round f negative m (e + k)
  | x => x

/-- `256 * x + o` for a value that is not negative. -/
def mulAddOctet (x : Ieee f) (o : UInt8) : Ieee f :=
  match x with
  | finite _ m e _ =>
      if 0 ≤ e + 8 then round f false (m <<< (e + 8).toNat + o.toNat) 0
      else round f false (m + o.toNat <<< (-(e + 8)).toNat) (e + 8)
  | x => x

end Ieee

/-! ## Encoding -/

namespace Error

def notSpecialReal : Error := .serialisationError "not a special real value"
def invalidSpecialReal : Error := .serialisationError "invalid special real value"
def realNotBinary : Error := .serialisationError "only binary encoding supported with real"
def realNotBase2 : Error := .serialisationError "only base 2 is supported with real"
def realScaled : Error := .serialisationError "only 0 scale factor is supported with real"
def invalidReal : Error := .serialisationError "invalid real encoding"

end Error

/-- The loop of `export_mantissa`: `n` octets of the fraction `m / 2 ^ 53`. -/
def exportOctets : Nat → Nat → Octets
  | 0, _ => []
  | n + 1, m => UInt8.ofNat (m * 256 / 2 ^ 53) :: exportOctets n (m * 256 % 2 ^ 53)

/-- `export_mantissa`: up to the last octet that is not zero. -/
def exportMantissa (m : Nat) : Octets := (exportOctets 8 m).rdropWhile (· == 0)

/-- The place of the lowest bit that is set, or 8. -/
def leastSigBit (b : UInt8) : Nat :=
  ((List.range 8).find? fun i => (1 <<< UInt8.ofNat i) &&& b != 0).getD 8

/-- Shift a whole buffer right by `k` bits. -/
def shiftRightOctets (k : Nat) (b : Octets) : Octets :=
  List.zipWith (fun high low =>
    (low >>> UInt8.ofNat k) |||
      ((high &&& ((1 <<< UInt8.ofNat k) - 1)) <<< UInt8.ofNat (8 - k))) (0 :: b) b

/-- `normalise_mantissa`: shift until the mantissa is odd; the shift made. -/
def normaliseMantissa (b : Octets) : Nat × Octets :=
  let k := leastSigBit (b.getLastD 0)
  (k, if k ≠ 0 then shiftRightOctets k b else b)

/-- The first octet of a normal real with `expLength` exponent octets. -/
def realFirstOctet (negative : Bool) (expLength : Nat) : UInt8 :=
  (if expLength > 3 then 0x03 else UInt8.ofNat (expLength - 1)) |||
    (0x80 ||| if negative then 0x40 else 0x00)

/-- `encode_normal_real`. -/
def encodeNormalReal (negative : Bool) (m : Nat) (e : Int) : Except Error Octets := do
  -- `frexp` gives the mantissa `m / 2 ^ 53` and the exponent `e + 53`
  let mantissa := exportMantissa m
  let (leastSigBit, mantissa) := normaliseMantissa mantissa
  let exponent := e + 53 - (mantissa.length * 8 - leastSigBit)
  let exp ← encodeInteger exponent 32 5 4
  return realFirstOctet negative exp.length ::
    ((if exp.length > 3 then [UInt8.ofNat exp.length] else []) ++ exp ++ mantissa)

/-- `encode_real`: a value that is neither normal nor special is refused. -/
def encodeReal : Ieee .double → Except Error Octets
  | .nan => .ok [0x40 ||| 0x02]
  | .infinite negative => .ok [0x40 ||| if negative then 0x01 else 0x00]
  | .finite negative m e _ =>
      if 2 ^ 52 ≤ m then encodeNormalReal negative m e
      else if m = 0 then .ok (if negative then [0x40 ||| 0x02 ||| 0x01] else [])
      else .error Error.notSpecialReal

/-! ## Decoding -/

/-- `decode_special_real`. -/
def decodeSpecialReal (data : UInt8) : Except Error (Ieee .double) :=
  if data = 0x40 ||| 0x02 then .ok .nan
  else if data = 0x40 then .ok (.infinite false)
  else if data = 0x40 ||| 0x01 then .ok (.infinite true)
  else if data = 0x40 ||| 0x02 ||| 0x01 then .ok (.zero .double true)
  else .error Error.invalidSpecialReal

/-- `check_to_decode_normal_real`: the sign, the length of the exponent and
what is behind. -/
def checkToDecodeNormalReal (buffer : Octets) : Except Error (Bool × Nat × Octets) :=
  let b := buffer.headD 0
  if b &&& 0x80 = 0 then .error Error.realNotBinary
  else if b &&& 0x20 ≠ 0 ∨ b &&& 0x10 ≠ 0 then .error Error.realNotBase2
  else if b &&& 0x08 ≠ 0 ∨ b &&& 0x04 ≠ 0 then .error Error.realScaled
  else if b &&& 0x02 ≠ 0 ∧ b &&& 0x01 ≠ 0 then
    .ok (b &&& 0x40 ≠ 0, ((buffer.drop 1).headD 0).toNat, buffer.drop 2)
  else
    .ok (b &&& 0x40 ≠ 0, (b &&& 0x03).toNat + 1, buffer.drop 1)

/-- `decode_normal_real`. -/
def decodeNormalReal (buffer : Octets) : Except Error (Ieee .double) := do
  let (sign, expLength, buf) ← checkToDecodeNormalReal buffer
  if buf.length < expLength + 1 then
    throw Error.invalidReal
  else
    let exponent := Int.bmod (decodeInteger 32 buf expLength 4) (2 ^ 32)
    let mantissa := (buf.drop expLength).foldl Ieee.mulAddOctet (.zero .double false)
    let value := mantissa.ldexp exponent
    return if sign then value.neg else value

/-- `decode_real`. -/
def decodeReal (buffer : Octets) : Except Error (Ieee .double) :=
  match buffer with
  | [] => .ok (.zero .double false)
  | [data] => decodeSpecialReal data
  | buffer => decodeNormalReal buffer

/-! ## What is encoded can be decoded -/

theorem exportOctets_length (n m : Nat) : (exportOctets n m).length = n := by
  induction n generalizing m with
  | zero => rfl
  | succ n ih => simp [exportOctets, ih]

/-- A normal significand has octets that are not zero. -/
theorem exportMantissa_ne_nil {m : Nat} (hlow : 2 ^ 52 ≤ m) (hhigh : m < 2 ^ 53) :
    exportMantissa m ≠ [] := by
  intro hnil
  have hall := List.rdropWhile_eq_nil_iff.mp hnil
  have hfirst := hall (UInt8.ofNat (m * 256 / 2 ^ 53)) (by simp [exportOctets])
  have hzero : UInt8.ofNat (m * 256 / 2 ^ 53) = 0 := by simpa using hfirst
  have hnat := congrArg UInt8.toNat hzero
  simp only [UInt8.toNat_ofNat', UInt8.toNat_zero] at hnat
  omega

theorem exportMantissa_length_le (m : Nat) : (exportMantissa m).length ≤ 8 := by
  have := (List.rdropWhile_prefix (fun x : UInt8 => x == 0) (l := exportOctets 8 m)).length_le
  rwa [exportOctets_length] at this

theorem normaliseMantissa_length (b : Octets) : (normaliseMantissa b).2.length = b.length := by
  simp only [normaliseMantissa]
  split
  · simp [shiftRightOctets]
  · rfl

theorem leastSigBit_le (b : UInt8) : leastSigBit b ≤ 8 := by
  simp only [leastSigBit]
  cases h : (List.range 8).find? fun i => (1 <<< UInt8.ofNat i) &&& b != 0 with
  | none => simp
  | some i =>
      have := List.mem_range.mp (List.mem_of_find?_eq_some h)
      simp
      omega

/-- The exponent of a double takes one to four octets. -/
theorem encodeInteger_exponent {z : Int} (hlow : -2 ^ 31 ≤ z) (hhigh : z < 2 ^ 31) :
    ∃ b, encodeInteger z 32 5 4 = .ok b ∧ 0 < b.length ∧ b.length ≤ 4 := by
  by_cases hz : z < 0
  · obtain ⟨n, v, hrun, -, -, hn, -⟩ := encodeInteger_neg 32 5 4 hz (by omega) (by omega)
      (by omega) (by simpa using hlow)
    exact ⟨_, hrun, by simp, by simpa using hn⟩
  · have hwide : z < 2 ^ (4 * 8) := lt_trans hhigh (by norm_num)
    obtain ⟨n, hrun, -, -, hn⟩ := encodeInteger_nonneg 32 5 4 (by omega) (by omega)
      (by omega) hwide
    exact ⟨_, hrun, by simp, by simpa using hn 4 hhigh (by omega)⟩

theorem checkToDecodeNormalReal_encode (negative : Bool) {n : Nat} (hpos : 0 < n) (hle : n ≤ 4)
    (rest : Octets) :
    checkToDecodeNormalReal (realFirstOctet negative n ::
        ((if n > 3 then [UInt8.ofNat n] else []) ++ rest)) = .ok (negative, n, rest) := by
  obtain rfl | rfl | rfl | rfl : n = 1 ∨ n = 2 ∨ n = 3 ∨ n = 4 := by omega
  all_goals cases negative <;> simp +decide [checkToDecodeNormalReal, realFirstOctet]

/-- The content octets of a normal real. -/
def normalReal (negative : Bool) (exp mantissa : Octets) : Octets :=
  realFirstOctet negative exp.length ::
    ((if exp.length > 3 then [UInt8.ofNat exp.length] else []) ++ (exp ++ mantissa))

theorem normalReal_length_le (negative : Bool) {exp mantissa : Octets} (hexp : exp.length ≤ 4)
    (hmantissa : mantissa.length ≤ 8) : (normalReal negative exp mantissa).length ≤ 14 := by
  unfold normalReal
  rw [List.length_cons, List.length_append, List.length_append]
  split
  · rw [List.length_singleton]
    omega
  · rw [List.length_nil]
    omega

/-- A normal value is written by `encode_normal_real`. -/
theorem encodeReal_normal {negative : Bool} {m : Nat} {e : Int} {exp : Octets}
    (h : FloatFormat.double.Canonical m e) (hnormal : 2 ^ 52 ≤ m)
    (hexp : encodeInteger (e + 53 - ((normaliseMantissa (exportMantissa m)).2.length * 8 -
      (normaliseMantissa (exportMantissa m)).1)) 32 5 4 = .ok exp) :
    encodeReal (.finite negative m e h) =
      .ok (normalReal negative exp (normaliseMantissa (exportMantissa m)).2) := by
  show (if 2 ^ 52 ≤ m then encodeNormalReal negative m e else _) = _
  rw [if_pos hnormal]
  unfold encodeNormalReal
  simp only [hexp]
  show Except.ok (_ :: (_ ++ exp ++ _)) = Except.ok _
  rw [List.append_assoc]
  rfl

/-- With an exponent there is more than one octet. -/
theorem decodeReal_normal (negative : Bool) {exp mantissa : Octets} (hpos : 0 < exp.length) :
    decodeReal (normalReal negative exp mantissa) =
      decodeNormalReal (normalReal negative exp mantissa) := by
  unfold normalReal
  cases hrest : (if exp.length > 3 then [UInt8.ofNat exp.length] else []) ++ (exp ++ mantissa) with
  | nil =>
      have hnone := congrArg List.length hrest
      rw [List.length_append, List.length_append, List.length_nil] at hnone
      omega
  | cons o rest => rfl

/-- The content octets of every double that is not refused are at most as many
as the decoder takes, and it decodes them. -/
theorem encodeReal_accepted {x : Ieee .double} {b : Octets} (h : encodeReal x = .ok b) :
    b.length ≤ 14 ∧ ∃ y, decodeReal b = .ok y := by
  cases x with
  | nan =>
      cases h
      exact ⟨by simp, _, rfl⟩
  | infinite negative =>
      cases h
      exact ⟨by simp, by cases negative <;> exact ⟨_, rfl⟩⟩
  | finite negative m e hc =>
      by_cases hm : 2 ^ 52 ≤ m
      · obtain ⟨hlt, hmin, hmax, -⟩ := id hc
        simp only [FloatFormat.precision, FloatFormat.minExponent, FloatFormat.maxExponent]
          at hlt hmin hmax
        have hlen := exportMantissa_length_le m
        have hnorm := normaliseMantissa_length (exportMantissa m)
        have hbit : (normaliseMantissa (exportMantissa m)).1 ≤ 8 := leastSigBit_le _
        obtain ⟨exp, hexp, hpos, hle⟩ := encodeInteger_exponent
          (z := e + 53 - ((normaliseMantissa (exportMantissa m)).2.length * 8 -
            (normaliseMantissa (exportMantissa m)).1)) (by omega) (by omega)
        obtain rfl := Except.ok.inj ((encodeReal_normal hc hm hexp).symm.trans h)
        refine ⟨normalReal_length_le negative hle (hnorm ▸ hlen), ?_⟩
        have hcheck := checkToDecodeNormalReal_encode negative hpos hle
          (exp ++ (normaliseMantissa (exportMantissa m)).2)
        have hmantissa : 0 < (normaliseMantissa (exportMantissa m)).2.length := by
          rw [hnorm]
          exact List.length_pos_iff.mpr (exportMantissa_ne_nil hm hlt)
        rw [decodeReal_normal negative hpos, decodeNormalReal, normalReal, hcheck]
        refine ⟨_, if_neg ?_⟩
        rw [List.length_append]
        omega
      · change (if 2 ^ 52 ≤ m then encodeNormalReal negative m e else if m = 0 then
          Except.ok (if negative then [0x40 ||| 0x02 ||| 0x01] else []) else
          .error Error.notSpecialReal) = Except.ok b at h
        rw [if_neg hm] at h
        split at h
        · cases h
          exact ⟨by split <;> simp, by cases negative <;> exact ⟨_, rfl⟩⟩
        · cases h

end Securepath.Serialisation
