import Securepath.Serialisation.Deserialiser

/-!
# Exact integers

What the octets of an INTEGER stand for, and when the decoder finds it: always, but for an
unsigned type and one octet more than the type has, which has to be 0 and is not looked at.
-/

namespace Securepath.Serialisation

open StateExcept BufferedStream Positional

/-! ## Two's complement -/

/-- The number that the content octets stand for. -/
def twosComplement (b : Octets) : Int :=
  if (b.headD 0).toNat < 128 then value 256 (octetDigits b)
  else value 256 (octetDigits b) - 256 ^ b.length

theorem value_octets_lt (b : Octets) : value 256 (octetDigits b) < 256 ^ b.length := by
  have h : ∀ d ∈ octetDigits b, d < 256 := by
    intro d hd
    obtain ⟨o, -, rfl⟩ := List.mem_map.mp hd
    exact o.toNat_lt
  simpa using value_lt h

theorem value_octets_cons (o : UInt8) (b : Octets) :
    value 256 (octetDigits (o :: b)) = o.toNat * 256 ^ b.length + value 256 (octetDigits b) := by
  have h := value_cons 256 o.toNat (octetDigits b)
  rwa [octetDigits_length] at h

theorem pow_256 (n : Nat) : (256 : Nat) ^ n = 2 ^ (n * 8) := by
  rw [show (256 : Nat) = 2 ^ 8 by norm_num, ← pow_mul, Nat.mul_comm]

/-- The first octet tells which half of the numbers of its length a number is in. -/
theorem value_lt_half_iff {b : Octets} (hb : b ≠ []) :
    value 256 (octetDigits b) < 2 ^ (b.length * 8 - 1) ↔ (b.headD 0).toNat < 128 := by
  obtain ⟨o, b, rfl⟩ := List.exists_cons_of_ne_nil hb
  have hrest := value_octets_lt b
  have hhalf : (2 : Nat) ^ ((b.length + 1) * 8 - 1) = 128 * 256 ^ b.length := by
    rw [pow_256, show (128 : Nat) = 2 ^ 7 by norm_num, ← pow_add]
    congr 1
    omega
  rw [value_octets_cons, List.length_cons, List.headD_cons, hhalf]
  constructor
  · intro h
    by_contra hlarge
    have hle : 128 * 256 ^ b.length ≤ o.toNat * 256 ^ b.length :=
      Nat.mul_le_mul_right _ (by omega)
    omega
  · intro h
    have hle : (o.toNat + 1) * 256 ^ b.length ≤ 128 * 256 ^ b.length :=
      Nat.mul_le_mul_right _ (by omega)
    rw [Nat.add_mul, Nat.one_mul] at hle
    omega

theorem top_clear_iff (b : Octets) : b.headD 0 &&& 0x80 ≠ 0 ↔ ¬ (b.headD 0).toNat < 128 :=
  not_congr (and_0x80_eq_zero _)

/-- A number with its top bit set is read as a negative one. -/
theorem decodeInteger_of_top {b : Octets} {sizeHint : Nat} (hb : b ≠ [])
    (htop : ¬ (b.headD 0).toNat < 128) (hle : b.length ≤ sizeHint) (hsize : sizeHint ≤ 8) :
    decodeInteger 64 b b.length sizeHint = twosComplement b := by
  have hpos := List.length_pos_of_ne_nil hb
  have hlow : 2 ^ (b.length * 8 - 1) ≤ value 256 (octetDigits b) :=
    not_lt.mp ((value_lt_half_iff hb).not.mpr htop)
  have hhigh : value 256 (octetDigits b) < 2 ^ (b.length * 8) := by
    rw [← pow_256]
    exact value_octets_lt b
  have hbits : value 256 (octetDigits b) < 2 ^ 64 :=
    lt_of_lt_of_le hhigh (Nat.pow_le_pow_right (by omega) (by omega))
  have hblock := highestBitBlock_of_top hpos hle hlow hhigh
  rw [decodeInteger, if_pos ((top_clear_iff b).mpr htop), List.take_length, decodeFromOctets_eq,
    Nat.mod_eq_of_lt hbits, twosComplement, if_neg htop]
  simp only [hblock, xor_mask hhigh]
  change -((2 ^ (b.length * 8) - (value 256 (octetDigits b) + 1) : Nat) : Int) - 1 = _
  have hpow : (256 : Int) ^ b.length = ((2 ^ (b.length * 8) : Nat) : Int) := by
    exact_mod_cast pow_256 b.length
  rw [Nat.cast_sub (by omega), hpow]
  push_cast
  ring

/-- A number with its top bit clear is read modulo `2 ^ 64`. -/
theorem decodeInteger_of_clear {b : Octets} (sizeHint : Nat) (hclear : (b.headD 0).toNat < 128) :
    decodeInteger 64 b b.length sizeHint = (value 256 (octetDigits b) % 2 ^ 64 : Nat) := by
  rw [decodeInteger, if_neg ((top_clear_iff b).not.mpr (not_not.mpr hclear)), List.take_length,
    decodeFromOctets_eq]

/-! ## Built-in types -/

theorem FixedInt.cast_of_range {t : IntType} {z : Int} (hmin : t.min ≤ z) (hmax : z ≤ t.max) :
    (FixedInt.cast t z).val = z :=
  congrArg Subtype.val (FixedInt.cast_val ⟨z, hmin, hmax⟩)

/-- A signed type has room for every number of its length. -/
theorem twosComplement_in_range {t : IntType} {b : Octets} (hsigned : t.isSigned = true)
    (hb : b ≠ []) (hle : b.length ≤ t.bytes) :
    t.min ≤ twosComplement b ∧ twosComplement b ≤ t.max := by
  have hpos := List.length_pos_of_ne_nil hb
  have hmono : (2 : Nat) ^ (b.length * 8 - 1) ≤ 2 ^ (8 * t.bytes - 1) :=
    Nat.pow_le_pow_right (by omega) (by omega)
  have hmono' : (2 : Int) ^ (b.length * 8 - 1) ≤ 2 ^ (8 * t.bytes - 1) := by exact_mod_cast hmono
  have hpow : (256 : Int) ^ b.length = 2 * 2 ^ (b.length * 8 - 1) := by
    rw [← pow_succ']
    have h := pow_256 b.length
    have hlen : b.length * 8 - 1 + 1 = b.length * 8 := by omega
    rw [hlen]
    exact_mod_cast h
  have hlt : (value 256 (octetDigits b) : Int) < 256 ^ b.length := by
    exact_mod_cast value_octets_lt b
  have hhalf := value_lt_half_iff hb
  unfold IntType.min IntType.max twosComplement
  rw [if_pos hsigned, if_pos hsigned]
  by_cases hclear : (b.headD 0).toNat < 128
  · have hval : (value 256 (octetDigits b) : Int) < 2 ^ (b.length * 8 - 1) := by
      exact_mod_cast hhalf.mpr hclear
    rw [if_pos hclear]
    omega
  · have hval : (2 : Int) ^ (b.length * 8 - 1) ≤ value 256 (octetDigits b) := by
      exact_mod_cast not_lt.mp (hhalf.not.mpr hclear)
    rw [if_neg hclear]
    omega

/-- An unsigned type with one octet more than it has, which is neither 0 nor a sign. -/
def OverlongUnsigned (t : IntType) (b : Octets) : Prop :=
  t.isSigned = false ∧ b.length = t.bytes + 1 ∧ b.headD 0 ≠ 0 ∧ (b.headD 0).toNat < 128

/-- A number fits into an unsigned type but for one octet too many that is not 0. -/
theorem value_fits_iff {t : IntType} {b : Octets} (hunsigned : t.isSigned = false) (hb : b ≠ [])
    (hle : b.length ≤ t.bytes + 1) (hclear : (b.headD 0).toNat < 128) :
    value 256 (octetDigits b) < 256 ^ t.bytes ↔ ¬ OverlongUnsigned t b := by
  obtain ⟨o, b, rfl⟩ := List.exists_cons_of_ne_nil hb
  have hrest := value_octets_lt b
  rw [List.headD_cons] at hclear
  rw [List.length_cons] at hle
  unfold OverlongUnsigned
  rw [value_octets_cons, List.headD_cons, List.length_cons]
  rcases Nat.lt_or_eq_of_le (Nat.le_of_succ_le_succ hle) with hshort | hlong
  · refine iff_of_true ?_ (fun h => by omega)
    have hbound : (o.toNat + 1) * 256 ^ b.length ≤ 256 * 256 ^ b.length :=
      Nat.mul_le_mul_right _ (by omega)
    have hpow : 256 * 256 ^ b.length ≤ 256 ^ t.bytes := by
      rw [← pow_succ']
      exact Nat.pow_le_pow_right (by omega) hshort
    rw [Nat.add_mul, Nat.one_mul] at hbound
    omega
  · rw [← hlong]
    constructor
    · rintro h ⟨-, -, hne, -⟩
      have hpos : 1 ≤ o.toNat := by
        rw [Nat.one_le_iff_ne_zero]
        exact fun h0 => hne (UInt8.toNat_inj.mp h0)
      have hbig : 1 * 256 ^ b.length ≤ o.toNat * 256 ^ b.length := Nat.mul_le_mul_right _ hpos
      omega
    · intro h
      have hzero : o = 0 := by
        by_contra hne
        exact h ⟨hunsigned, rfl, hne, hclear⟩
      rw [hzero]
      simpa using hrest

/-- What is made of the content octets of an INTEGER. -/
theorem ofContent_int {t : IntType} {b : Octets}
    (hsign : ¬ (b.headD 0 &&& 0x80 ≠ 0 ∧ t.isSigned = false)) :
    (Prim.int t).ofContent b = .ok (FixedInt.cast t (decodeInteger 64 b b.length t.bytes)) := by
  simp only [Prim.ofContent]
  exact if_neg hsign

/-- Content of a length that the type allows, and not negative for an unsigned one, is decoded to
its number unless there is one octet too many. -/
theorem cast_decodeInteger_eq_iff {t : IntType} {b : Octets} (hb : b ≠ [])
    (hle : b.length ≤ t.bytes + if t.isSigned then 0 else 1)
    (hsign : ¬ (b.headD 0 &&& 0x80 ≠ 0 ∧ t.isSigned = false)) :
    (FixedInt.cast t (decodeInteger 64 b b.length t.bytes)).val = twosComplement b ↔
      ¬ OverlongUnsigned t b := by
  have hbytes := t.bytes_le
  cases hsigned : t.isSigned with
  | true =>
      refine iff_of_true ?_ (fun h => by rw [h.1] at hsigned; cases hsigned)
      rw [hsigned, if_pos rfl, Nat.add_zero] at hle
      obtain ⟨hmin, hmax⟩ := twosComplement_in_range hsigned hb hle
      suffices hval : decodeInteger 64 b b.length t.bytes = twosComplement b by
        rw [hval]
        exact FixedInt.cast_of_range hmin hmax
      by_cases hclear : (b.headD 0).toNat < 128
      · have hlt : value 256 (octetDigits b) < 2 ^ 64 :=
          lt_of_lt_of_le ((value_lt_half_iff hb).mpr hclear)
            (Nat.pow_le_pow_right (by omega) (by omega))
        rw [decodeInteger_of_clear _ hclear, Nat.mod_eq_of_lt hlt, twosComplement, if_pos hclear]
      · exact decodeInteger_of_top hb hclear hle hbytes
  | false =>
      have hclear : (b.headD 0).toNat < 128 := by
        by_contra h
        exact hsign ⟨(top_clear_iff b).mpr h, hsigned⟩
      rw [hsigned, if_neg Bool.false_ne_true] at hle
      rw [← value_fits_iff hsigned hb hle hclear, decodeInteger_of_clear _ hclear, twosComplement,
        if_pos hclear]
      have hcast : (FixedInt.cast t (value 256 (octetDigits b) % 2 ^ 64 : Nat)).val =
          ((value 256 (octetDigits b) % 256 ^ t.bytes : Nat) : Int) := by
        have hdvd : (256 : Nat) ^ t.bytes ∣ 2 ^ 64 := by
          rw [pow_256]
          exact Nat.pow_dvd_pow 2 (by omega)
        simp only [FixedInt.cast, hsigned, if_neg Bool.false_ne_true]
        rw [← Nat.mod_mod_of_dvd (value 256 (octetDigits b)) hdvd, pow_256, Nat.mul_comm]
        push_cast
        rfl
      rw [hcast]
      have hpos : 0 < 256 ^ t.bytes := by positivity
      constructor
      · intro h
        have heq : value 256 (octetDigits b) % 256 ^ t.bytes = value 256 (octetDigits b) := by
          exact_mod_cast h
        rw [← heq]
        exact Nat.mod_lt _ hpos
      · intro h
        rw [Nat.mod_eq_of_lt h]

/-! ## Decoding -/

theorem checkLength_int_eq_ok_iff {t : IntType} {n : Nat} :
    (Prim.int t).checkLength n = .ok () ↔
      n ≤ t.bytes + (if t.isSigned then 0 else 1) ∧ n ≠ 0 := by
  simp only [Prim.checkLength, Prim.checkLength.fixed]
  by_cases hlarge : t.bytes + (if t.isSigned then 0 else 1) < n
  · rw [if_pos hlarge]
    exact iff_of_false nofun (fun h => by omega)
  · rw [if_neg hlarge]
    by_cases hzero : n = 0
    · rw [if_pos hzero]
      exact iff_of_false nofun (fun h => h.2 hzero)
    · rw [if_neg hzero]
      exact iff_of_true rfl ⟨by omega, hzero⟩

variable {saved : List Peek} {data : Octets} {d : Deserialiser} {tag : Option TagInfo}
  {header : AsnHeader} {content rest : Octets}

/-- Decoding a primitive element that is all there: the check of its length, and its content. -/
theorem decode_prim (p : Prim) (hrep : Represents saved data d.s) (hpresent : ¬ d.Absent data)
    (hparse : parseHeader (data.drop d.pos) = .ok (header, content ++ rest))
    (hlength : header.length = content.length)
    (hident : header.ident = getIdent tag p.defaultTag) :
    (∃ s, ∀ e, p.checkLength content.length = .error e →
      p.decode tag d = .error e { d with s := s }) ∧
    (∃ s, p.checkLength content.length = .ok () →
      p.decode tag d = liftExcept (p.ofContent content) { d with s := s }) := by
  obtain ⟨s, hrep', hdrop, hrun⟩ :=
    decodeHeaderOf_of_ok hrep hpresent hparse (getIdent tag p.defaultTag)
  rw [if_pos hident] at hrun
  have hfit : ({ d with s := s } : Deserialiser).pos + content.length ≤ data.length := by
    have hlen := congrArg List.length hdrop
    rw [List.length_drop, List.length_append] at hlen
    have hle := hrep'.pos_le
    simp only [Deserialiser.pos]
    omega
  obtain ⟨s', hread, -⟩ := readOctets_of_le (d := { d with s := s }) hrep' hfit
  have htake : (data.drop ({ d with s := s } : Deserialiser).pos).take content.length =
      content := by
    simp only [Deserialiser.pos, hdrop]
    exact List.take_left ..
  rw [htake] at hread
  refine ⟨⟨s, fun e hcheck => ?_⟩, ⟨s', fun hcheck => ?_⟩⟩
  · rw [Prim.decode, bind_of_ok hrun, hlength, hcheck]
    rfl
  · have hunit : liftExcept (.ok () : Except Error Unit) { d with s := s } =
        .ok () { d with s := s } := rfl
    rw [Prim.decode, bind_of_ok hrun, hlength, hcheck, bind_of_ok hunit, bind_of_ok hread]

/-- An INTEGER is decoded to the number that its content stands for, or refused, exactly if it is
not one of those with one octet too many for an unsigned type. -/
theorem decode_int_exact_iff (t : IntType) (hrep : Represents saved data d.s)
    (hpresent : ¬ d.Absent data)
    (hparse : parseHeader (data.drop d.pos) = .ok (header, content ++ rest))
    (hlength : header.length = content.length)
    (hident : header.ident = getIdent tag AsnTag.integer) :
    (∀ z d', (Prim.int t).decode tag d = .ok z d' → z.val = twosComplement content) ↔
      ¬ (t.isSigned = false ∧ content.length = t.bytes + 1 ∧ content.headD 0 ≠ 0 ∧
        (content.headD 0).toNat < 128) := by
  change _ ↔ ¬ OverlongUnsigned t content
  obtain ⟨⟨s, hrefused⟩, ⟨s', hread⟩⟩ :=
    decode_prim (.int t) hrep hpresent hparse hlength hident
  cases hcheck : (Prim.int t).checkLength content.length with
  | error e =>
      refine iff_of_true ?_ ?_
      · intro z d' hrun
        rw [hrefused e hcheck] at hrun
        cases hrun
      · rintro ⟨hunsigned, hlong, -⟩
        have hok : (Prim.int t).checkLength content.length = .ok () := by
          rw [checkLength_int_eq_ok_iff, hunsigned, if_neg Bool.false_ne_true]
          omega
        rw [hok] at hcheck
        cases hcheck
  | ok u =>
      obtain ⟨hle, hne⟩ := checkLength_int_eq_ok_iff.mp hcheck
      have hcontent : content ≠ [] := fun h => hne (h ▸ rfl)
      rw [hread hcheck]
      by_cases hsign : content.headD 0 &&& 0x80 ≠ 0 ∧ t.isSigned = false
      · have hmismatch : (Prim.int t).ofContent content = .error Error.signMismatch := by
          simp only [Prim.ofContent]
          exact if_pos hsign
        rw [hmismatch]
        refine iff_of_true (fun _ _ hrun => by cases hrun) ?_
        rintro ⟨-, -, -, hclear⟩
        exact (top_clear_iff content).mp hsign.1 hclear
      · rw [ofContent_int hsign, ← cast_decodeInteger_eq_iff hcontent hle hsign]
        constructor
        · intro h
          exact h _ _ rfl
        · intro h z d' hrun
          cases hrun
          exact h

/-! ## One octet too many -/

/-- An unsigned integer of two octets, its value in the type. -/
theorem decode_int_exact_example :
    (∀ z d', (Prim.int ⟨false, .w8⟩).decode none (.ofOctets [0x02, 0x02, 0x00, 0xff]) = .ok z d' →
      z.val = twosComplement [0x00, 0xff]) ↔
      ¬ ((⟨false, .w8⟩ : IntType).isSigned = false ∧
        ([0x00, 0xff] : Octets).length = (⟨false, .w8⟩ : IntType).bytes + 1 ∧
        ([0x00, 0xff] : Octets).headD 0 ≠ 0 ∧ (([0x00, 0xff] : Octets).headD 0).toNat < 128) := by
  have hpresent : ¬ (Deserialiser.ofOctets [0x02, 0x02, 0x00, 0xff]).Absent
      [0x02, 0x02, 0x00, 0xff] := by
    rintro (h | ⟨-, h⟩)
    · cases h
    · cases h
  have hparse : parseHeader [0x02, 0x02, 0x00, 0xff] =
      .ok (⟨.universal, 2, 2, false⟩, [0x00, 0xff] ++ []) := by rfl
  exact decode_int_exact_iff ⟨false, .w8⟩ (represents_ofOctets _) hpresent hparse rfl rfl

/-- 256 as an unsigned integer of one octet. -/
theorem decode_int_exact_fails :
    ¬ (∀ z d', (Prim.int ⟨false, .w8⟩).decode none (.ofOctets [0x02, 0x02, 0x01, 0x00]) =
      .ok z d' → z.val = twosComplement [0x01, 0x00]) := by
  intro h
  have hzero := h (.cast _ 0) _ rfl
  revert hzero
  decide

end Securepath.Serialisation
