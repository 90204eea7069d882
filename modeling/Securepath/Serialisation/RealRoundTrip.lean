import Securepath.Serialisation.ExactIntegers

/-!
# Doubles come back

What `encode_real` makes of a double, `decode_real` turns back. The octets of the mantissa
are the significand without its trailing zero bits, the exponent makes up for what was
shifted away, and no step of the decoder has to round. `encode_real` sends a double that is
subnormal to `encode_special_real`, which refuses it.
-/

namespace Securepath.Serialisation

open Positional

/-! ## Exact steps -/

namespace Ieee

/-- `round` has nothing to round where the number is a normal value. -/
theorem round_exact {negative : Bool} {m m₀ : Nat} {e e₀ : Int}
    (hcanonical : FloatFormat.double.Canonical m₀ e₀) (hnormal : 2 ^ 52 ≤ m₀)
    (hvalue : (m : ℚ) * 2 ^ e = m₀ * 2 ^ e₀) :
    round .double negative m e = .finite negative m₀ e₀ hcanonical := by
  have hlt : m₀ < 2 ^ 53 := hcanonical.1
  have hmin : -1074 ≤ e₀ := hcanonical.2.1
  have hpow : ∀ z : Int, (0 : ℚ) < 2 ^ z := fun z => by positivity
  -- one exponent is below the other by the shift that makes up for it
  have hshift : (∃ d : Nat, e₀ = e + d ∧ m = m₀ * 2 ^ d) ∨ ∃ d : Nat, e = e₀ + d ∧ m * 2 ^ d = m₀ := by
    rcases le_total e e₀ with hle | hle
    · left
      obtain ⟨d, hd⟩ := Int.le.dest hle
      refine ⟨d, hd.symm, ?_⟩
      rw [← hd, zpow_add₀ (by norm_num), zpow_natCast, mul_comm (2 ^ e) (2 ^ d : ℚ),
        ← mul_assoc] at hvalue
      exact_mod_cast mul_right_cancel₀ (hpow e).ne' hvalue
    · right
      obtain ⟨d, hd⟩ := Int.le.dest hle
      refine ⟨d, hd.symm, ?_⟩
      rw [← hd, zpow_add₀ (by norm_num), zpow_natCast, mul_comm (2 ^ e₀) (2 ^ d : ℚ),
        ← mul_assoc] at hvalue
      exact_mod_cast mul_right_cancel₀ (hpow e₀).ne' hvalue
  have hspec : m ≠ 0 ∧ max (e + ((m.log2 : Int) + 1) - FloatFormat.double.precision)
      FloatFormat.double.minExponent = e₀ ∧
      (if e₀ ≤ e then m <<< (e - e₀).toNat else roundShift m (e₀ - e).toNat) = m₀ := by
    rcases hshift with ⟨d, rfl, rfl⟩ | ⟨d, rfl, rfl⟩
    · have hm : m₀ * 2 ^ d ≠ 0 := Nat.mul_ne_zero (by omega) (Nat.two_pow_pos d).ne'
      have hlog : (m₀ * 2 ^ d).log2 = 52 + d := by
        rw [Nat.log2_eq_iff hm, pow_add, show 52 + d + 1 = 53 + d by omega, pow_add]
        exact ⟨Nat.mul_le_mul_right _ hnormal,
          (Nat.mul_lt_mul_right (Nat.two_pow_pos d)).mpr hlt⟩
      refine ⟨hm, ?_, ?_⟩
      · show max (e + (((m₀ * 2 ^ d).log2 : Int) + 1) - (53 : Nat)) (-1074) = e + d
        rw [hlog]
        push_cast
        omega
      · split
        · next hle =>
          obtain rfl : d = 0 := by omega
          simp
        · rw [show (e + d - e).toNat = d by omega]
          simp [roundShift, Nat.mul_div_cancel _ (Nat.two_pow_pos d)]
    · have hm : m ≠ 0 := by
        rintro rfl
        rw [Nat.zero_mul] at hnormal
        exact absurd hnormal (by norm_num)
      have hlog : m.log2 + d = 52 := by
        have hfull : (m * 2 ^ d).log2 = 52 := by
          rw [Nat.log2_eq_iff (by omega)]
          exact ⟨hnormal, hlt⟩
        have hsum : (m * 2 ^ d).log2 = m.log2 + d := by
          rw [Nat.log2_eq_iff (by omega), pow_add, show m.log2 + d + 1 = m.log2 + 1 + d by omega,
            pow_add _ (m.log2 + 1)]
          exact ⟨Nat.mul_le_mul_right _ (Nat.log2_self_le hm),
            (Nat.mul_lt_mul_right (Nat.two_pow_pos d)).mpr Nat.lt_log2_self⟩
        omega
      refine ⟨hm, ?_, ?_⟩
      · show max (e₀ + d + ((m.log2 : Int) + 1) - (53 : Nat)) (-1074) = e₀
        omega
      rw [if_pos (by omega), show (e₀ + d - e₀).toNat = d by omega, Nat.shiftLeft_eq]
  obtain ⟨hm, hexponent, hsignificand⟩ := hspec
  unfold round
  rw [if_neg hm]
  dsimp only
  rw [hexponent, hsignificand, if_neg (show ¬ m₀ = 2 ^ FloatFormat.double.precision from hlt.ne)]
  exact dif_pos hcanonical

/-- The value is the number `v`, exactly. -/
def Is (x : Ieee .double) (v : Nat) : Prop :=
  ∃ m e h, x = .finite false m e h ∧ (m : ℚ) * 2 ^ e = v

theorem zero_is : (zero .double false).Is 0 := ⟨0, _, _, rfl, by simp⟩

/-- Numbers of 53 bits are exact. -/
theorem round_is {a w : Nat} {e : Int} (hvalue : (a : ℚ) * 2 ^ e = w) (hw : w < 2 ^ 53) :
    (round .double false a e).Is w := by
  rcases Nat.eq_zero_or_pos w with rfl | hpos
  · have ha : a = 0 := by
      have hpow : (0 : ℚ) < 2 ^ e := by positivity
      have hzero : (a : ℚ) = 0 := by
        rw [Nat.cast_zero, mul_eq_zero] at hvalue
        exact hvalue.resolve_right hpow.ne'
      exact_mod_cast hzero
    subst ha
    exact zero_is
  · have hlog : w.log2 ≤ 52 := by
      have := (Nat.log2_lt hpos.ne').mpr hw
      omega
    have hlow := Nat.log2_self_le hpos.ne'
    have hhigh : w < 2 ^ (w.log2 + 1) := Nat.lt_log2_self
    have hsplit : ∀ k, k ≤ 52 → (2 : Nat) ^ k * 2 ^ (52 - k) = 2 ^ 52 := by
      intro k hk
      rw [← pow_add]
      congr 1
      omega
    have hnormal : 2 ^ 52 ≤ w * 2 ^ (52 - w.log2) := by
      rw [← hsplit w.log2 hlog]
      exact Nat.mul_le_mul_right _ hlow
    have hlt : w * 2 ^ (52 - w.log2) < 2 ^ 53 := by
      have h := (Nat.mul_lt_mul_right (Nat.two_pow_pos (52 - w.log2))).mpr hhigh
      rw [pow_succ, Nat.mul_right_comm, hsplit w.log2 hlog] at h
      exact h
    have hcanonical : FloatFormat.double.Canonical (w * 2 ^ (52 - w.log2)) (w.log2 - 52) := by
      refine ⟨hlt, ?_, ?_, fun h => absurd h (not_lt.mpr hnormal)⟩
      · show (-1074 : Int) ≤ _
        omega
      · show _ ≤ (971 : Int)
        omega
    have hexact : ((w * 2 ^ (52 - w.log2) : Nat) : ℚ) * 2 ^ ((w.log2 : Int) - 52) = w := by
      rw [Nat.cast_mul, Nat.cast_pow, Nat.cast_ofNat, mul_assoc, ← zpow_natCast,
        ← zpow_add₀ (by norm_num), show ((52 - w.log2 : Nat) : Int) + (w.log2 - 52) = 0 by omega,
        zpow_zero, mul_one]
    exact ⟨_, _, hcanonical, round_exact hcanonical hnormal (hvalue.trans hexact.symm), hexact⟩

/-- One octet more of the mantissa. -/
theorem Is.mulAddOctet {x : Ieee .double} {v : Nat} (hx : x.Is v) (o : UInt8)
    (hlt : v * 256 + o.toNat < 2 ^ 53) : (x.mulAddOctet o).Is (v * 256 + o.toNat) := by
  obtain ⟨m, e, h, rfl, hvalue⟩ := hx
  have hscaled : (m : ℚ) * 2 ^ (e + 8) = v * 256 := by
    rw [zpow_add₀ (by norm_num), ← mul_assoc, hvalue]
    norm_num
  show (if 0 ≤ e + 8 then _ else _ : Ieee .double).Is _
  split
  · next hle =>
    apply round_is _ hlt
    obtain ⟨d, hd⟩ := Int.eq_ofNat_of_zero_le hle
    rw [hd, Int.toNat_natCast, Nat.shiftLeft_eq]
    rw [hd, zpow_natCast] at hscaled
    push_cast
    rw [hscaled, mul_one]
  · next hlt' =>
    apply round_is _ hlt
    obtain ⟨d, hd⟩ : ∃ d : Nat, e + 8 = -(d : Int) := ⟨(-(e + 8)).toNat, by omega⟩
    rw [hd, neg_neg, Int.toNat_natCast, Nat.shiftLeft_eq]
    rw [hd] at hscaled
    push_cast
    rw [add_mul, hscaled, mul_assoc, ← zpow_natCast, ← zpow_add₀ (by norm_num), add_neg_cancel,
      zpow_zero, mul_one]

/-- The octets of a mantissa of 53 bits are read exactly. -/
theorem Is.foldl_mulAddOctet {x : Ieee .double} {v : Nat} (hx : x.Is v) (b : Octets)
    (hlt : valueFrom 256 v (octetDigits b) < 2 ^ 53) :
    (b.foldl Ieee.mulAddOctet x).Is (valueFrom 256 v (octetDigits b)) := by
  induction b generalizing x v with
  | nil => exact hx
  | cons o b ih =>
    have hstep : v * 256 + o.toNat < 2 ^ 53 := by
      refine lt_of_le_of_lt ?_ hlt
      show _ ≤ valueFrom 256 (v * 256 + o.toNat) (octetDigits b)
      rw [valueFrom_eq]
      exact (Nat.le_mul_of_pos_right _ (by positivity)).trans (Nat.le_add_right _ _)
    exact ih (hx.mulAddOctet o hstep) hlt

/-- Scaling to a normal value is exact. -/
theorem Is.ldexp {x : Ieee .double} {v m₀ : Nat} {k e₀ : Int} (hx : x.Is v)
    (hcanonical : FloatFormat.double.Canonical m₀ e₀) (hnormal : 2 ^ 52 ≤ m₀)
    (hvalue : (v : ℚ) * 2 ^ k = m₀ * 2 ^ e₀) :
    x.ldexp k = .finite false m₀ e₀ hcanonical := by
  obtain ⟨m, e, h, rfl, hm⟩ := hx
  apply round_exact hcanonical hnormal
  rw [zpow_add₀ (by norm_num), ← mul_assoc, hm, hvalue]

end Ieee

/-! ## The mantissa -/

/-- The octets are the digits of the fraction. -/
theorem value_exportOctets (n : Nat) {m : Nat} (hm : m < 2 ^ 53) :
    value 256 (octetDigits (exportOctets n m)) = m * 256 ^ n / 2 ^ 53 := by
  induction n generalizing m with
  | zero =>
    rw [pow_zero, Nat.mul_one, Nat.div_eq_of_lt hm]
    rfl
  | succ n ih =>
    have hrest := ih (Nat.mod_lt (m * 256) (Nat.two_pow_pos 53))
    have hdigit : (UInt8.ofNat (m * 256 / 2 ^ 53)).toNat = m * 256 / 2 ^ 53 := by
      rw [UInt8.toNat_ofNat']
      exact Nat.mod_eq_of_lt (by omega)
    rw [exportOctets, value_octets_cons, hdigit, exportOctets_length, hrest]
    have hsplit : m * 256 ^ (n + 1) =
        2 ^ 53 * (m * 256 / 2 ^ 53 * 256 ^ n) + m * 256 % 2 ^ 53 * 256 ^ n := by
      rw [← Nat.mul_assoc, ← Nat.add_mul, Nat.div_add_mod, pow_succ]
      ring
    rw [hsplit, Nat.mul_add_div (Nat.two_pow_pos 53)]

theorem value_append (a b : Octets) : value 256 (octetDigits (a ++ b)) =
    value 256 (octetDigits a) * 256 ^ b.length + value 256 (octetDigits b) := by
  have h := valueFrom_eq 256 (value 256 (octetDigits a)) (octetDigits b)
  rw [octetDigits_length] at h
  rw [← h]
  unfold value valueFrom octetDigits
  rw [List.map_append, List.foldl_append]

theorem value_zeros {b : Octets} (h : ∀ o ∈ b, o = 0) : value 256 (octetDigits b) = 0 := by
  induction b with
  | nil => rfl
  | cons o b ih =>
    rw [value_octets_cons, h o List.mem_cons_self, ih fun x hx => h x (List.mem_cons_of_mem _ hx),
      UInt8.toNat_zero, Nat.zero_mul]

/-- `export_mantissa` leaves out zeros only, and its last octet is not zero. -/
theorem exportMantissa_spec {m : Nat} (hlow : 2 ^ 52 ≤ m) (hhigh : m < 2 ^ 53) :
    ∃ init last k, exportMantissa m = init ++ [last] ∧ last ≠ 0 ∧
      (exportMantissa m).length + k = 8 ∧
      value 256 (octetDigits (exportMantissa m)) * 256 ^ k = m * 2 ^ 11 := by
  have hne := exportMantissa_ne_nil hlow hhigh
  have hsplit := List.rdropWhile_append_rtakeWhile (p := fun x : UInt8 => x == 0)
    (l := exportOctets 8 m)
  have hlength := congrArg List.length hsplit
  rw [List.length_append, exportOctets_length] at hlength
  refine ⟨(exportMantissa m).dropLast, (exportMantissa m).getLast hne, _,
    (List.dropLast_append_getLast hne).symm, ?_, hlength, ?_⟩
  · have hlast := List.rdropWhile_last_not (fun x : UInt8 => x == 0) (exportOctets 8 m) hne
    intro hzero
    rw [show (List.rdropWhile (fun x : UInt8 => x == 0) (exportOctets 8 m)).getLast hne = 0
      from hzero] at hlast
    exact absurd hlast (by decide)
  · have hvalue := value_exportOctets 8 hhigh
    have hzeros : value 256 (octetDigits ((exportOctets 8 m).rtakeWhile fun x => x == 0)) = 0 :=
      value_zeros fun o ho => by simpa using List.mem_rtakeWhile_imp ho
    rw [← hsplit, value_append, hzeros, Nat.add_zero] at hvalue
    refine hvalue.trans ?_
    rw [show m * 256 ^ 8 = 2 ^ 53 * (m * 2 ^ 11) by ring]
    exact Nat.mul_div_cancel_left _ (Nat.two_pow_pos 53)

/-! ## The shift -/

theorem leastSigBit_spec (b : UInt8) (hb : b ≠ 0) : leastSigBit b ≤ 7 ∧
    b.toNat % 2 ^ leastSigBit b = 0 ∧ b.toNat / 2 ^ leastSigBit b % 2 = 1 := by
  revert b
  decide +kernel

/-- One octet of `normalise_mantissa`: its high bits, below the low bits of the octet in
front of it. -/
theorem shifted_octet (k : Nat) (hpos : 0 < k) (hle : k ≤ 7) (high low : UInt8) :
    ((low >>> UInt8.ofNat k) |||
      ((high &&& ((1 <<< UInt8.ofNat k) - 1)) <<< UInt8.ofNat (8 - k))).toNat =
      low.toNat / 2 ^ k + high.toNat % 2 ^ k * 2 ^ (8 - k) := by
  have hlow := low.toNat_lt
  have hbelow : low.toNat / 2 ^ k < 2 ^ (8 - k) := by
    rw [Nat.div_lt_iff_lt_mul (Nat.two_pow_pos k), ← pow_add, show 8 - k + k = 8 by omega]
    exact hlow
  have hcarry : high.toNat % 2 ^ k * 2 ^ (8 - k) < 2 ^ 8 := by
    have hlt := (Nat.mul_lt_mul_right (Nat.two_pow_pos (8 - k))).mpr
      (Nat.mod_lt high.toNat (Nat.two_pow_pos k))
    rwa [← pow_add, show k + (8 - k) = 8 by omega] at hlt
  have hmask : ((1 <<< UInt8.ofNat k : UInt8) - 1).toNat = 2 ^ k - 1 := by
    interval_cases k <;> rfl
  have hk : (UInt8.ofNat k).toNat % 8 = k := by
    interval_cases k <;> rfl
  have hk' : (UInt8.ofNat (8 - k)).toNat % 8 = 8 - k := by
    interval_cases k <;> rfl
  rw [UInt8.toNat_or, UInt8.toNat_shiftRight, UInt8.toNat_shiftLeft, UInt8.toNat_and, hmask, hk,
    hk', Nat.and_two_pow_sub_one_eq_mod, Nat.shiftRight_eq_div_pow, Nat.shiftLeft_eq,
    Nat.mod_eq_of_lt hcarry, ← Nat.shiftLeft_eq, Nat.or_comm,
    ← Nat.shiftLeft_add_eq_or_of_lt hbelow, Nat.add_comm]

/-- A buffer that is shifted to the right, with what comes in from the left. -/
theorem value_shifted {k : Nat} (hpos : 0 < k) (hle : k ≤ 7) (carry : UInt8) (b : Octets) :
    value 256 (octetDigits (List.zipWith (fun high low =>
      (low >>> UInt8.ofNat k) |||
        ((high &&& ((1 <<< UInt8.ofNat k) - 1)) <<< UInt8.ofNat (8 - k))) (carry :: b) b)) =
      (carry.toNat % 2 ^ k * 256 ^ b.length + value 256 (octetDigits b)) / 2 ^ k := by
  induction b generalizing carry with
  | nil =>
    show 0 = (carry.toNat % 2 ^ k * 1 + 0) / 2 ^ k
    rw [Nat.add_zero, Nat.mul_one, Nat.div_eq_of_lt (Nat.mod_lt _ (Nat.two_pow_pos k))]
  | cons o b ih =>
    have hlength : (List.zipWith (fun high low : UInt8 => (low >>> UInt8.ofNat k) |||
        ((high &&& ((1 <<< UInt8.ofNat k) - 1)) <<< UInt8.ofNat (8 - k))) (o :: b) b).length =
        b.length := by
      rw [List.length_zipWith, List.length_cons]
      omega
    have hbase : (256 : Nat) = 2 ^ k * 2 ^ (8 - k) := by
      rw [← pow_add, show k + (8 - k) = 8 by omega]
      norm_num
    rw [List.zipWith_cons_cons, value_octets_cons, ih, hlength, shifted_octet k hpos hle,
      value_octets_cons, List.length_cons]
    -- the quotient by the shift comes out of the first octet
    have hsplit : carry.toNat % 2 ^ k * 256 ^ (b.length + 1) +
        (o.toNat * 256 ^ b.length + value 256 (octetDigits b)) =
        2 ^ k * ((o.toNat / 2 ^ k + carry.toNat % 2 ^ k * 2 ^ (8 - k)) * 256 ^ b.length) +
          (o.toNat % 2 ^ k * 256 ^ b.length + value 256 (octetDigits b)) := by
      have ho : o.toNat * 256 ^ b.length = (2 ^ k * (o.toNat / 2 ^ k) + o.toNat % 2 ^ k) *
          256 ^ b.length := by rw [Nat.div_add_mod]
      rw [ho, pow_succ, show 256 ^ b.length * 256 = 256 ^ b.length * (2 ^ k * 2 ^ (8 - k)) by
        rw [← hbase]]
      ring
    rw [hsplit, Nat.mul_add_div (Nat.two_pow_pos k)]

/-- `normalise_mantissa` shifts out zeros until the mantissa is odd. -/
theorem normaliseMantissa_spec (init : Octets) {last : UInt8} (hlast : last ≠ 0) :
    let r := normaliseMantissa (init ++ [last])
    r.1 ≤ 7 ∧ value 256 (octetDigits r.2) * 2 ^ r.1 = value 256 (octetDigits (init ++ [last])) ∧
      value 256 (octetDigits r.2) % 2 = 1 := by
  obtain ⟨hle, hzero, hodd⟩ := leastSigBit_spec last hlast
  have hget : (init ++ [last]).getLastD 0 = last := by simp
  have hvalue : value 256 (octetDigits (init ++ [last])) =
      value 256 (octetDigits init) * 256 + last.toNat := by
    rw [value_append, List.length_singleton, pow_one, value_octets_cons]
    show _ + (last.toNat * 1 + 0) = _
    rw [Nat.mul_one, Nat.add_zero]
  have hdigit : last.toNat = 2 ^ leastSigBit last * (last.toNat / 2 ^ leastSigBit last) := by
    have h := Nat.div_add_mod last.toNat (2 ^ leastSigBit last)
    rw [hzero, Nat.add_zero] at h
    exact h.symm
  generalize last.toNat / 2 ^ leastSigBit last = q at hdigit hodd
  have hbase : (256 : Nat) = 2 ^ leastSigBit last * 2 ^ (8 - leastSigBit last) := by
    rw [← pow_add, show leastSigBit last + (8 - leastSigBit last) = 8 by omega]
    norm_num
  have htotal : value 256 (octetDigits (init ++ [last])) = 2 ^ leastSigBit last *
      (value 256 (octetDigits init) * 2 ^ (8 - leastSigBit last) + q) := by
    rw [hvalue, hdigit, show value 256 (octetDigits init) * 256 = value 256 (octetDigits init) *
      (2 ^ leastSigBit last * 2 ^ (8 - leastSigBit last)) by rw [← hbase]]
    ring
  have hshifted : value 256 (octetDigits (normaliseMantissa (init ++ [last])).2) =
      value 256 (octetDigits init) * 2 ^ (8 - leastSigBit last) + q := by
    unfold normaliseMantissa
    rw [hget]
    show value 256 (octetDigits (if leastSigBit last ≠ 0 then _ else _)) = _
    split
    · next hshift =>
      unfold shiftRightOctets
      rw [value_shifted (Nat.pos_of_ne_zero hshift) hle, htotal]
      show (0 % 2 ^ leastSigBit last * _ + _) / _ = _
      rw [Nat.zero_mod, Nat.zero_mul, Nat.zero_add]
      exact Nat.mul_div_cancel_left _ (Nat.two_pow_pos _)
    · next hnone =>
      rw [htotal, not_not.mp hnone, pow_zero, Nat.one_mul]
  have hfirst : (normaliseMantissa (init ++ [last])).1 = leastSigBit last := by
    unfold normaliseMantissa
    rw [hget]
  refine ⟨hfirst ▸ hle, ?_, ?_⟩
  · rw [hshifted, hfirst, htotal, Nat.mul_comm]
  · rw [hshifted]
    -- what the octets in front add is even
    have heven : 2 ^ (8 - leastSigBit last) = 2 * 2 ^ (7 - leastSigBit last) := by
      rw [← pow_succ']
      congr 1
      omega
    rw [heven]
    have hassoc : value 256 (octetDigits init) * (2 * 2 ^ (7 - leastSigBit last)) =
        2 * (value 256 (octetDigits init) * 2 ^ (7 - leastSigBit last)) := by ring
    omega

/-! ## The exponent -/

/-- What is behind the octets of an integer is not looked at. -/
theorem decodeInteger_append (typeBits sizeHint : Nat) {b : Octets} (hb : b ≠ []) (rest : Octets) :
    decodeInteger typeBits (b ++ rest) b.length sizeHint =
      decodeInteger typeBits b b.length sizeHint := by
  obtain ⟨o, b, rfl⟩ := List.exists_cons_of_ne_nil hb
  unfold decodeInteger
  rw [List.take_left, List.take_length]
  rfl

/-- Four octets fit into an `int`. -/
theorem decodeInteger_int (sizeHint : Nat) {b : Octets} (hlength : b.length ≤ 4) :
    decodeInteger 32 b b.length sizeHint = decodeInteger 64 b b.length sizeHint := by
  have hlt := value_octets_lt b
  have hint : 256 ^ b.length ≤ 2 ^ 32 := by
    rw [pow_256]
    exact Nat.pow_le_pow_right (by omega) (by omega)
  unfold decodeInteger
  split
  · rfl
  · rw [List.take_length, decodeFromOctets_eq, decodeFromOctets_eq,
      Nat.mod_eq_of_lt (hlt.trans_le hint),
      Nat.mod_eq_of_lt (hlt.trans_le (hint.trans (by norm_num)))]

theorem exponent_comes_back {z : Int} (hlow : -2 ^ 31 ≤ z) (hhigh : z < 2 ^ 31) :
    ∃ exp, encodeInteger z 32 5 4 = .ok exp ∧ 0 < exp.length ∧ exp.length ≤ 4 ∧
      ∀ rest, Int.bmod (decodeInteger 32 (exp ++ rest) exp.length 4) (2 ^ 32) = z := by
  have hwhole : ∃ exp, encodeInteger z 32 5 4 = .ok exp ∧ 0 < exp.length ∧ exp.length ≤ 4 ∧
      decodeInteger 64 exp exp.length 4 = z := by
    by_cases hz : z < 0
    · obtain ⟨n, v, hrun, hv, hv', hn, hvalue⟩ := encodeInteger_neg 32 5 4 hz (by omega) (by omega)
        (by omega) (by simpa using hlow)
      refine ⟨_, hrun, by simp, by simpa using hn, ?_⟩
      rw [ofDigits_length, digits_length, decodeInteger_neg hv hv' hn (by omega), hvalue]
    · have hwide : z < 2 ^ (4 * 8) := lt_trans hhigh (by norm_num)
      obtain ⟨n, hrun, hv, -, hn⟩ := encodeInteger_nonneg 32 5 4 (by omega) (by omega)
        (by omega) hwide
      have hn4 := hn 4 hhigh (by omega)
      refine ⟨_, hrun, by simp, by simpa using hn4, ?_⟩
      have hbits : z.toNat < 2 ^ 64 :=
        hv.trans_le (Nat.pow_le_pow_right (by omega) (by omega))
      rw [ofDigits_length, digits_length, decodeInteger_nonneg hv hbits]
      omega
  obtain ⟨exp, hrun, hpos, hle, hdecode⟩ := hwhole
  refine ⟨exp, hrun, hpos, hle, ?_⟩
  intro rest
  rw [decodeInteger_append 32 4 (List.length_pos_iff.mp hpos), decodeInteger_int 4 hle, hdecode]
  exact Int.bmod_eq_of_le (by omega) (by omega)

/-! ## The round trip -/

/-- The number that the mantissa octets of a normal real stand for. -/
def encodedMantissa (b : Octets) : Option Nat :=
  match checkToDecodeNormalReal b with
  | .ok (_, expLength, buf) => some (value 256 (octetDigits (buf.drop expLength)))
  | .error _ => none

namespace Ieee

def isFinite {f : FloatFormat} : Ieee f → Bool
  | finite _ _ _ _ => true
  | _ => false

/-- A finite value that is neither zero nor `std::isnormal`. -/
def isSubnormal : Ieee .double → Bool
  | finite _ m _ _ => m ≠ 0 ∧ m < 2 ^ 52
  | _ => false

/-- `encode_real` succeeds within its buffer, with an odd mantissa where there is one, and
`decode_real` gives the value back. -/
def ComesBack (x : Ieee .double) : Prop :=
  ∃ b, encodeReal x = .ok b ∧ b.length ≤ 8 + 4 + 2 ∧
    ((∃ negative, x = zero .double negative) ∨ ∃ m, encodedMantissa b = some m ∧ m % 2 = 1) ∧
    decodeReal b = .ok x

end Ieee

/-- The mantissa and the exponent that are written stand for the value. -/
theorem written_value {m : Nat} (e : Int) (hlow : 2 ^ 52 ≤ m) (hhigh : m < 2 ^ 53) :
    let r := normaliseMantissa (exportMantissa m)
    value 256 (octetDigits r.2) % 2 = 1 ∧ value 256 (octetDigits r.2) < 2 ^ 53 ∧
      0 < r.2.length ∧ r.2.length ≤ 8 ∧ r.1 ≤ 7 ∧
      (value 256 (octetDigits r.2) : ℚ) * 2 ^ (e + 53 - (r.2.length * 8 - r.1)) = m * 2 ^ e := by
  intro r
  obtain ⟨init, last, k, hexport, hlast, hlength, hvalue⟩ := exportMantissa_spec hlow hhigh
  obtain ⟨hle, hshifted, hodd⟩ := normaliseMantissa_spec init hlast
  rw [← hexport] at hle hshifted hodd
  have hlen : r.2.length = (exportMantissa m).length := normaliseMantissa_length _
  have hpos : 0 < (exportMantissa m).length := by
    rw [hexport, List.length_append]
    exact Nat.succ_pos _
  -- all that was shifted away
  have htotal : value 256 (octetDigits r.2) * 2 ^ (r.1 + 8 * k) = m * 2 ^ 11 := by
    rw [pow_add, ← Nat.mul_assoc, pow_mul]
    exact (congrArg (· * 256 ^ k) hshifted).trans hvalue
  have hshift : 11 ≤ r.1 + 8 * k := by
    by_contra hless
    have heven : value 256 (octetDigits r.2) = m * 2 ^ (10 - (r.1 + 8 * k)) * 2 := by
      apply Nat.eq_of_mul_eq_mul_right (Nat.two_pow_pos (r.1 + 8 * k))
      rw [htotal, Nat.mul_assoc, Nat.mul_assoc, ← pow_succ', ← pow_add]
      congr 2
      omega
    have hodd' : value 256 (octetDigits r.2) % 2 = 1 := hodd
    omega
  refine ⟨hodd, ?_, by omega, by omega, hle, ?_⟩
  · refine lt_of_le_of_lt ?_ hhigh
    apply Nat.le_of_mul_le_mul_right _ (Nat.two_pow_pos 11)
    rw [← htotal]
    exact Nat.mul_le_mul_left _ (Nat.pow_le_pow_right (by omega) hshift)
  · have hexponent : e + 53 - ((r.2.length : Int) * 8 - r.1) =
        ((r.1 + 8 * k : Nat) : Int) + (e - 11) := by
      push_cast
      omega
    have htotal' : (value 256 (octetDigits r.2) : ℚ) * 2 ^ (r.1 + 8 * k) = m * 2 ^ 11 := by
      exact_mod_cast htotal
    rw [hexponent, zpow_add₀ (by norm_num), zpow_natCast, ← mul_assoc, htotal', mul_assoc,
      ← zpow_natCast, ← zpow_add₀ (by norm_num), show ((11 : Nat) : Int) + (e - 11) = e by omega]

theorem normal_comes_back {negative : Bool} {m : Nat} {e : Int}
    (h : FloatFormat.double.Canonical m e) (hnormal : 2 ^ 52 ≤ m) :
    (Ieee.finite negative m e h).ComesBack := by
  have hhigh : m < 2 ^ 53 := h.1
  have hmin : -1074 ≤ e := h.2.1
  have hmax : e ≤ 971 := h.2.2.1
  obtain ⟨hodd, hlt, hpos, hle, hbit, hvalue⟩ := written_value e hnormal hhigh
  generalize hr : normaliseMantissa (exportMantissa m) = r at hodd hlt hpos hle hbit hvalue
  obtain ⟨exp, hexp, hexpPos, hexpLe, hdecode⟩ := exponent_comes_back
    (z := e + 53 - (r.2.length * 8 - r.1)) (by omega) (by omega)
  have hencode : encodeReal (.finite negative m e h) = .ok (normalReal negative exp r.2) := by
    rw [← hr] at hexp ⊢
    exact encodeReal_normal h hnormal hexp
  have hcheck : checkToDecodeNormalReal (normalReal negative exp r.2) =
      .ok (negative, exp.length, exp ++ r.2) :=
    checkToDecodeNormalReal_encode negative hexpPos hexpLe (exp ++ r.2)
  refine ⟨_, hencode, normalReal_length_le negative hexpLe hle, .inr ⟨_, ?_, hodd⟩, ?_⟩
  · unfold encodedMantissa
    rw [hcheck]
    show some _ = some _
    rw [List.drop_left]
  · rw [decodeReal_normal negative hexpPos, decodeNormalReal, hcheck]
    refine (if_neg ?_).trans ?_
    · rw [List.length_append]
      omega
    -- neither the octets nor the scaling are rounded
    · have hmantissa := Ieee.zero_is.foldl_mulAddOctet r.2 hlt
      have hscaled := hmantissa.ldexp h hnormal hvalue
      rw [hdecode, List.drop_left, hscaled]
      cases negative with
      | false => rfl
      | true => rfl

/-- A double comes back, unless it is subnormal. -/
theorem real_comes_back_iff (x : Ieee .double) :
    (x.isFinite = true → x.ComesBack) ↔ x.isSubnormal = false := by
  cases x with
  | nan => exact iff_of_true nofun rfl
  | infinite negative => exact iff_of_true nofun rfl
  | finite negative m e h =>
    show (true = true → _) ↔ decide (m ≠ 0 ∧ m < 2 ^ 52) = false
    rw [decide_eq_false_iff_not]
    by_cases hnormal : 2 ^ 52 ≤ m
    · exact iff_of_true (fun _ => normal_comes_back h hnormal) (by omega)
    · by_cases hzero : m = 0
      · subst hzero
        obtain rfl : e = -1074 := h.2.2.2 (by decide)
        refine iff_of_true (fun _ => ?_) (by omega)
        cases negative with
        | false => exact ⟨[], rfl, Nat.zero_le _, .inl ⟨false, rfl⟩, rfl⟩
        | true => exact ⟨[0x43], rfl, by decide, .inl ⟨true, rfl⟩, rfl⟩
      · -- neither normal nor special
        refine iff_of_false ?_ (by omega)
        intro hback
        obtain ⟨b, hencode, -⟩ := hback rfl
        change (if 2 ^ 52 ≤ m then encodeNormalReal negative m e else if m = 0 then _ else
          .error Error.notSpecialReal) = Except.ok b at hencode
        rw [if_neg hnormal, if_neg hzero] at hencode
        cases hencode

/-- The least positive double. -/
def leastPositive : Ieee .double := .finite false 1 (-1074) (by decide)

/-- It is finite, and refused. -/
theorem real_lost : ¬ (leastPositive.isFinite = true → leastPositive.ComesBack) := by
  intro h
  obtain ⟨b, hencode, -⟩ := h rfl
  cases hencode

end Securepath.Serialisation
