import Securepath.Util.Sanitiser

/-!
# Resynchronisation

Behind malformed UTF-8 `decode_utf8` is to go on at the next octet, says the
comment above it: `referenceCodePoints` is the decoder that does. `decode_utf8`
itself goes on behind the whole sequence where the lead octet and the continuation
octets are in order and only what they spell is no code point. There are four
kinds of these (`Impossible`), and without them the two decoders agree.
-/

namespace Securepath.Util

open Serialisation (Octets)

/-! ## The reference decoder -/

theorem utf8_ne_nil {cp : Nat} (h : validCodePoint cp = true) : utf8 cp ≠ [] := by
  obtain ⟨c, ccs, heq, -⟩ := decodeUtf8_utf8 h []
  rw [heq]
  exact List.cons_ne_nil c ccs

theorem validCodePoint_toNat (ch : Char) : validCodePoint ch.toNat = true :=
  validCodePoint_iff_isValidChar.mpr ch.valid

theorem utf8EncodeChar_length_pos (ch : Char) : 0 < (String.utf8EncodeChar ch).length := by
  rw [← utf8_eq_utf8EncodeChar]
  exact List.length_pos_iff.mpr (utf8_ne_nil (validCodePoint_toNat ch))

/-- A well-formed sequence starts the octets. -/
def StartsWell (str : Octets) : Prop := ∃ ch : Char, String.utf8EncodeChar ch <+: str

open Classical in
/-- The well-formed sequence at each position, or else the replacement character
for one octet. -/
noncomputable def referenceCodePoints : Octets → List Nat
  | [] => []
  | c :: rest =>
      if h : StartsWell (c :: rest) then
        h.choose.toNat ::
          referenceCodePoints ((c :: rest).drop (String.utf8EncodeChar h.choose).length)
      else
        replacementChar :: referenceCodePoints rest
termination_by str => str.length
decreasing_by
  · have := utf8EncodeChar_length_pos h.choose
    simp only [List.length_drop, List.length_cons]
    omega
  · simp only [List.length_cons]
    omega

/-- What the reference decoder makes of the octets. -/
noncomputable def referenceWstring (w : WcharWidth) (str : Octets) : WString w :=
  (referenceCodePoints str).flatMap (wide w)

theorem startsWell_iff {str : Octets} :
    StartsWell str ↔ ∃ cp, validCodePoint cp = true ∧ utf8 cp <+: str := by
  constructor
  · rintro ⟨ch, hch⟩
    exact ⟨ch.toNat, validCodePoint_toNat ch, by rwa [utf8_eq_utf8EncodeChar]⟩
  · rintro ⟨cp, hvalid, hcp⟩
    refine ⟨Char.ofNatAux cp (validCodePoint_iff_isValidChar.mp hvalid), ?_⟩
    rw [← utf8_eq_utf8EncodeChar]
    exact hcp

/-- A sequence that starts the octets is what is decoded. -/
theorem decodeUtf8_of_starts {cp : Nat} {c : UInt8} {rest : Octets}
    (hvalid : validCodePoint cp = true) (hstarts : utf8 cp <+: c :: rest) :
    decodeUtf8 c rest = (cp, (c :: rest).drop (utf8 cp).length) := by
  obtain ⟨tail, htail⟩ := hstarts
  obtain ⟨c', ccs, heq, hread⟩ := decodeUtf8_utf8 hvalid tail
  rw [heq, List.cons_append] at htail
  obtain ⟨rfl, rfl⟩ := List.cons.inj htail
  rw [hread, heq, List.length_cons, List.drop_succ_cons, List.drop_left]

theorem referenceCodePoints_of_prefix {cp : Nat} {c : UInt8} {rest : Octets}
    (hvalid : validCodePoint cp = true) (hstarts : utf8 cp <+: c :: rest) :
    referenceCodePoints (c :: rest) =
      cp :: referenceCodePoints ((c :: rest).drop (utf8 cp).length) := by
  have h : StartsWell (c :: rest) := startsWell_iff.mpr ⟨cp, hvalid, hstarts⟩
  have hchosen := h.choose_spec
  rw [← utf8_eq_utf8EncodeChar] at hchosen
  have hdecoded := decodeUtf8_of_starts (validCodePoint_toNat h.choose) hchosen
  rw [decodeUtf8_of_starts hvalid hstarts] at hdecoded
  -- the sequence is unique
  have hsame : h.choose.toNat = cp := (congrArg Prod.fst hdecoded).symm
  rw [referenceCodePoints, dif_pos h, ← utf8_eq_utf8EncodeChar, hsame]

theorem referenceCodePoints_of_not {c : UInt8} {rest : Octets} (h : ¬ StartsWell (c :: rest)) :
    referenceCodePoints (c :: rest) = replacementChar :: referenceCodePoints rest := by
  rw [referenceCodePoints, dif_neg h]

/-! ## Impossible sequences -/

/-- A continuation octet. -/
def IsContinuation (c : UInt8) : Prop := 0x80 ≤ c.toNat ∧ c.toNat < 0xc0

instance (c : UInt8) : Decidable (IsContinuation c) :=
  inferInstanceAs (Decidable (0x80 ≤ c.toNat ∧ c.toNat < 0xc0))

/-- The octets start with a sequence whose octets are in order and that spells no
code point: an overlong form of three or four octets, a surrogate, or what is out
of range. -/
inductive Impossible : Octets → Prop where
  | overlongThree {c₂ c₃ : UInt8} (rest : Octets) (h₂ : IsContinuation c₂) (hlow : c₂.toNat < 0xa0)
      (h₃ : IsContinuation c₃) : Impossible (0xe0 :: c₂ :: c₃ :: rest)
  | surrogate {c₂ c₃ : UInt8} (rest : Octets) (h₂ : IsContinuation c₂) (hhigh : 0xa0 ≤ c₂.toNat)
      (h₃ : IsContinuation c₃) : Impossible (0xed :: c₂ :: c₃ :: rest)
  | overlongFour {c₂ c₃ c₄ : UInt8} (rest : Octets) (h₂ : IsContinuation c₂)
      (hlow : c₂.toNat < 0x90) (h₃ : IsContinuation c₃) (h₄ : IsContinuation c₄) :
      Impossible (0xf0 :: c₂ :: c₃ :: c₄ :: rest)
  | outOfRange {c₂ c₃ c₄ : UInt8} (rest : Octets) (h₂ : IsContinuation c₂)
      (hhigh : 0x90 ≤ c₂.toNat) (h₃ : IsContinuation c₃) (h₄ : IsContinuation c₄) :
      Impossible (0xf4 :: c₂ :: c₃ :: c₄ :: rest)

/-- The test of `decode_utf8`. -/
theorem marker_iff {n : Nat} (h : n < 256) : n &&& 0xc0 = 0x80 ↔ 0x80 ≤ n ∧ n < 0xc0 := by
  revert n
  decide +kernel

theorem decodeContinuation_cons_eq {cp : Nat} {c : UInt8} (h : IsContinuation c) (ccs : Octets) :
    decodeContinuation cp (c :: ccs) =
      decodeContinuation (cp * 64 + (c.toNat - 0x80)) ccs := by
  obtain ⟨hlow, hhigh⟩ := h
  have hc : c = UInt8.ofNat (0x80 + (c.toNat - 0x80)) := by
    rw [show 0x80 + (c.toNat - 0x80) = c.toNat by omega, UInt8.ofNat_toNat]
  conv_lhs => rw [hc]
  exact decodeContinuation_cons (by omega) ccs

theorem decodeContinuation_cons_eq_none {cp : Nat} {c : UInt8} (h : ¬ IsContinuation c)
    (ccs : Octets) : decodeContinuation cp (c :: ccs) = none := by
  rw [decodeContinuation, if_pos]
  intro hmarker
  exact h ((marker_iff c.toNat_lt).mp hmarker)

theorem decodeContinuation_eq_none {ccs : Octets} (h : ∃ c ∈ ccs, ¬ IsContinuation c) (cp : Nat) :
    decodeContinuation cp ccs = none := by
  induction ccs generalizing cp with
  | nil =>
      obtain ⟨c, hc, -⟩ := h
      exact absurd hc List.not_mem_nil
  | cons c ccs ih =>
      by_cases hcont : IsContinuation c
      · rw [decodeContinuation_cons_eq hcont]
        apply ih
        obtain ⟨c', hc', hbad⟩ := h
        rcases List.mem_cons.mp hc' with rfl | hc'
        · exact absurd hcont hbad
        · exact ⟨c', hc', hbad⟩
      · exact decodeContinuation_cons_eq_none hcont ccs

/-! ## The four lengths -/

theorem sequenceLength_cases (c : Nat) :
    sequenceLength c = 0 ∨ (sequenceLength c = 1 ∧ c < 0x80) ∨
      (sequenceLength c = 2 ∧ 0xc2 ≤ c ∧ c < 0xe0) ∨
      (sequenceLength c = 3 ∧ 0xe0 ≤ c ∧ c < 0xf0) ∨
      (sequenceLength c = 4 ∧ 0xf0 ≤ c ∧ c < 0xf5) := by
  unfold sequenceLength
  split
  · omega
  · split
    · omega
    · split
      · omega
      · split
        · omega
        · split
          · omega
          · omega

section

variable {c c₂ c₃ c₄ : UInt8} {rest : Octets}

/-- A bad lead octet, or too few octets behind it. -/
theorem decodeUtf8_of_short
    (h : sequenceLength c.toNat = 0 ∨ rest.length + 1 < sequenceLength c.toNat) :
    decodeUtf8 c rest = (replacementChar, rest) := by
  unfold decodeUtf8
  dsimp only
  rw [if_pos h]

/-- An octet that is no continuation octet where one is due. -/
theorem decodeUtf8_of_bad
    (h : ∃ x ∈ rest.take (sequenceLength c.toNat - 1), ¬ IsContinuation x) :
    decodeUtf8 c rest = (replacementChar, rest) := by
  unfold decodeUtf8
  dsimp only
  split
  · rfl
  · rw [decodeContinuation_eq_none h]

/-- What two octets in order spell. -/
def spellTwo (c c₂ : UInt8) : Nat := (c.toNat - 0xc0) * 64 + (c₂.toNat - 0x80)

def spellThree (c c₂ c₃ : UInt8) : Nat :=
  ((c.toNat - 0xe0) * 64 + (c₂.toNat - 0x80)) * 64 + (c₃.toNat - 0x80)

def spellFour (c c₂ c₃ c₄ : UInt8) : Nat :=
  (((c.toNat - 0xf0) * 64 + (c₂.toNat - 0x80)) * 64 + (c₃.toNat - 0x80)) * 64 +
    (c₄.toNat - 0x80)

theorem decodeUtf8_three (hlow : 0xe0 ≤ c.toNat) (hhigh : c.toNat < 0xf0)
    (h₂ : IsContinuation c₂) (h₃ : IsContinuation c₃) :
    decodeUtf8 c (c₂ :: c₃ :: rest) =
      (if validCodePoint (spellThree c c₂ c₃) ∧ 0x800 ≤ spellThree c c₂ c₃
        then spellThree c c₂ c₃ else replacementChar, rest) := by
  have hlen : sequenceLength c.toNat = 3 := by
    rw [sequenceLength_eq (by omega) (by omega), if_neg (by omega), if_pos hhigh]
  have hlead : c.toNat &&& 0x7f >>> 3 = c.toNat - 0xe0 := by
    have := and_lead_three (x := c.toNat - 0xe0) (by omega)
    rwa [show 0xe0 + (c.toNat - 0xe0) = c.toNat by omega] at this
  unfold decodeUtf8
  simp only [hlen, hlead, List.length_cons, List.take_succ_cons, List.take_zero,
    decodeContinuation_cons_eq h₂, decodeContinuation_cons_eq h₃]
  rw [if_neg (by omega), if_neg (by omega)]
  rfl

theorem decodeUtf8_four (hlow : 0xf0 ≤ c.toNat) (hhigh : c.toNat < 0xf5)
    (h₂ : IsContinuation c₂) (h₃ : IsContinuation c₃) (h₄ : IsContinuation c₄) :
    decodeUtf8 c (c₂ :: c₃ :: c₄ :: rest) =
      (if validCodePoint (spellFour c c₂ c₃ c₄) ∧ 0x10000 ≤ spellFour c c₂ c₃ c₄
        then spellFour c c₂ c₃ c₄ else replacementChar, rest) := by
  have hlen : sequenceLength c.toNat = 4 := by
    rw [sequenceLength_eq (by omega) (by omega), if_neg (by omega), if_neg (by omega)]
  have hlead : c.toNat &&& 0x7f >>> 4 = c.toNat - 0xf0 := by
    have := and_lead_four (x := c.toNat - 0xf0) (by omega)
    rwa [show 0xf0 + (c.toNat - 0xf0) = c.toNat by omega] at this
  unfold decodeUtf8
  simp only [hlen, hlead, List.length_cons, List.take_succ_cons, List.take_zero,
    decodeContinuation_cons_eq h₂, decodeContinuation_cons_eq h₃, decodeContinuation_cons_eq h₄]
  rw [if_neg (by omega), if_neg (by omega)]
  rfl

/-- An octet is the one with its number. -/
theorem ofNat_eq_of_toNat {n : Nat} (h : n = c.toNat) : UInt8.ofNat n = c := by
  rw [h, UInt8.ofNat_toNat]

theorem startsWell_one (h : c.toNat < 0x80) : StartsWell (c :: rest) := by
  have hvalid : validCodePoint c.toNat = true := validCodePoint_iff.mpr (by omega)
  refine startsWell_iff.mpr ⟨c.toNat, hvalid, ?_⟩
  rw [utf8_eq hvalid, if_pos h, UInt8.ofNat_toNat]
  exact ⟨rest, rfl⟩

theorem startsWell_two (hlow : 0xc2 ≤ c.toNat) (hhigh : c.toNat < 0xe0)
    (h₂ : IsContinuation c₂) : StartsWell (c :: c₂ :: rest) := by
  obtain ⟨hlow₂, hhigh₂⟩ := h₂
  have hcp : spellTwo c c₂ = (c.toNat - 0xc0) * 64 + (c₂.toNat - 0x80) := rfl
  have hvalid : validCodePoint (spellTwo c c₂) = true := validCodePoint_iff.mpr (by omega)
  refine startsWell_iff.mpr ⟨spellTwo c c₂, hvalid, ?_⟩
  rw [utf8_eq hvalid, if_neg (by omega), if_pos (by omega)]
  rw [ofNat_eq_of_toNat (c := c) (by omega), ofNat_eq_of_toNat (c := c₂) (by omega)]
  exact ⟨rest, rfl⟩

theorem startsWell_three (h₂ : IsContinuation c₂) (h₃ : IsContinuation c₃)
    (hlow : 0xe0 ≤ c.toNat) (hhigh : c.toNat < 0xf0) (hmin : c.toNat = 0xe0 → 0xa0 ≤ c₂.toNat)
    (hsurrogate : c.toNat = 0xed → c₂.toNat < 0xa0) : StartsWell (c :: c₂ :: c₃ :: rest) := by
  obtain ⟨hlow₂, hhigh₂⟩ := h₂
  obtain ⟨hlow₃, hhigh₃⟩ := h₃
  have hcp : spellThree c c₂ c₃ =
      ((c.toNat - 0xe0) * 64 + (c₂.toNat - 0x80)) * 64 + (c₃.toNat - 0x80) := rfl
  have hvalid : validCodePoint (spellThree c c₂ c₃) = true := validCodePoint_iff.mpr (by omega)
  refine startsWell_iff.mpr ⟨spellThree c c₂ c₃, hvalid, ?_⟩
  rw [utf8_eq hvalid, if_neg (by omega), if_neg (by omega), if_pos (by omega)]
  rw [ofNat_eq_of_toNat (c := c) (by omega), ofNat_eq_of_toNat (c := c₂) (by omega),
    ofNat_eq_of_toNat (c := c₃) (by omega)]
  exact ⟨rest, rfl⟩

theorem startsWell_four (h₂ : IsContinuation c₂) (h₃ : IsContinuation c₃) (h₄ : IsContinuation c₄)
    (hlow : 0xf0 ≤ c.toNat) (hhigh : c.toNat < 0xf5) (hmin : c.toNat = 0xf0 → 0x90 ≤ c₂.toNat)
    (hmax : c.toNat = 0xf4 → c₂.toNat < 0x90) : StartsWell (c :: c₂ :: c₃ :: c₄ :: rest) := by
  obtain ⟨hlow₂, hhigh₂⟩ := h₂
  obtain ⟨hlow₃, hhigh₃⟩ := h₃
  obtain ⟨hlow₄, hhigh₄⟩ := h₄
  have hcp : spellFour c c₂ c₃ c₄ =
      (((c.toNat - 0xf0) * 64 + (c₂.toNat - 0x80)) * 64 + (c₃.toNat - 0x80)) * 64 +
        (c₄.toNat - 0x80) := rfl
  have hvalid : validCodePoint (spellFour c c₂ c₃ c₄) = true := validCodePoint_iff.mpr (by omega)
  refine startsWell_iff.mpr ⟨spellFour c c₂ c₃ c₄, hvalid, ?_⟩
  rw [utf8_eq hvalid, if_neg (by omega), if_neg (by omega), if_neg (by omega)]
  rw [ofNat_eq_of_toNat (c := c) (by omega), ofNat_eq_of_toNat (c := c₂) (by omega),
    ofNat_eq_of_toNat (c := c₃) (by omega), ofNat_eq_of_toNat (c := c₄) (by omega)]
  exact ⟨rest, rfl⟩

end

/-! ## One step of both decoders -/

section

variable {c : UInt8} {rest : Octets}

/-- An impossible sequence is consumed as a whole. -/
theorem decodeUtf8_of_impossible (h : Impossible (c :: rest)) :
    ∃ ccs tail, rest = ccs ++ tail ∧ ccs ≠ [] ∧ (∀ x ∈ ccs, IsContinuation x) ∧
      decodeUtf8 c rest = (replacementChar, tail) := by
  cases h with
  | @overlongThree c₂ c₃ tail h₂ hlow h₃ =>
      refine ⟨[c₂, c₃], tail, rfl, by simp, by simp [h₂, h₃], ?_⟩
      -- below what three octets are for
      have hsmall : spellThree 0xe0 c₂ c₃ < 0x800 := by
        have : spellThree 0xe0 c₂ c₃ = (c₂.toNat - 0x80) * 64 + (c₃.toNat - 0x80) := by
          have hlead : (0xe0 : UInt8).toNat = 0xe0 := by decide
          unfold spellThree
          rw [hlead]
          omega
        have := h₃.2
        omega
      rw [decodeUtf8_three (by decide) (by decide) h₂ h₃, if_neg]
      rintro ⟨-, hmin⟩
      omega
  | @surrogate c₂ c₃ tail h₂ hhigh h₃ =>
      refine ⟨[c₂, c₃], tail, rfl, by simp, by simp [h₂, h₃], ?_⟩
      have hcp : spellThree 0xed c₂ c₃ =
          (13 * 64 + (c₂.toNat - 0x80)) * 64 + (c₃.toNat - 0x80) := by
        have hlead : (0xed : UInt8).toNat = 0xed := by decide
        unfold spellThree
        rw [hlead]
      have := h₂.2
      have := h₃.2
      rw [decodeUtf8_three (by decide) (by decide) h₂ h₃, if_neg]
      rintro ⟨hvalid, -⟩
      have := validCodePoint_iff.mp hvalid
      omega
  | @overlongFour c₂ c₃ c₄ tail h₂ hlow h₃ h₄ =>
      refine ⟨[c₂, c₃, c₄], tail, rfl, by simp, by simp [h₂, h₃, h₄], ?_⟩
      have hsmall : spellFour 0xf0 c₂ c₃ c₄ < 0x10000 := by
        have : spellFour 0xf0 c₂ c₃ c₄ =
            ((c₂.toNat - 0x80) * 64 + (c₃.toNat - 0x80)) * 64 + (c₄.toNat - 0x80) := by
          have hlead : (0xf0 : UInt8).toNat = 0xf0 := by decide
          unfold spellFour
          rw [hlead]
          omega
        have := h₃.2
        have := h₄.2
        omega
      rw [decodeUtf8_four (by decide) (by decide) h₂ h₃ h₄, if_neg]
      rintro ⟨-, hmin⟩
      omega
  | @outOfRange c₂ c₃ c₄ tail h₂ hhigh h₃ h₄ =>
      refine ⟨[c₂, c₃, c₄], tail, rfl, by simp, by simp [h₂, h₃, h₄], ?_⟩
      have hcp : spellFour 0xf4 c₂ c₃ c₄ =
          ((4 * 64 + (c₂.toNat - 0x80)) * 64 + (c₃.toNat - 0x80)) * 64 + (c₄.toNat - 0x80) := by
        have hlead : (0xf4 : UInt8).toNat = 0xf4 := by decide
        unfold spellFour
        rw [hlead]
      rw [decodeUtf8_four (by decide) (by decide) h₂ h₃ h₄, if_neg]
      rintro ⟨hvalid, -⟩
      have := validCodePoint_iff.mp hvalid
      omega

/-- The lead octet of an impossible sequence. -/
theorem Impossible.lead (h : Impossible (c :: rest)) :
    c = 0xe0 ∨ c = 0xed ∨ c = 0xf0 ∨ c = 0xf4 := by
  cases h with
  | overlongThree => simp
  | surrogate => simp
  | overlongFour => simp
  | outOfRange => simp

theorem Impossible.not_isContinuation (h : Impossible (c :: rest)) : ¬ IsContinuation c := by
  rcases h.lead with rfl | rfl | rfl | rfl
  · exact fun hc => absurd hc.2 (by decide)
  · exact fun hc => absurd hc.2 (by decide)
  · exact fun hc => absurd hc.2 (by decide)
  · exact fun hc => absurd hc.2 (by decide)

/-- Octets that start with neither kind of sequence are passed one at a time. -/
theorem decodeUtf8_of_not (hwell : ¬ StartsWell (c :: rest)) (himp : ¬ Impossible (c :: rest)) :
    decodeUtf8 c rest = (replacementChar, rest) := by
  -- by the length that the lead octet announces: a missing octet, one that does not
  -- continue, or a sequence that is well-formed or impossible after all
  rcases sequenceLength_cases c.toNat with hlen | ⟨hlen, hlt⟩ | ⟨hlen, hlow, hhigh⟩ |
    ⟨hlen, hlow, hhigh⟩ | ⟨hlen, hlow, hhigh⟩
  · exact decodeUtf8_of_short (Or.inl hlen)
  · exact absurd (startsWell_one hlt) hwell
  · rcases rest with _ | ⟨c₂, rest⟩
    · exact decodeUtf8_of_short (Or.inr (by rw [hlen]; decide))
    · by_cases h₂ : IsContinuation c₂
      · exact absurd (startsWell_two hlow hhigh h₂) hwell
      · exact decodeUtf8_of_bad ⟨c₂, by simp [hlen], h₂⟩
  · rcases rest with _ | ⟨c₂, _ | ⟨c₃, rest⟩⟩
    · exact decodeUtf8_of_short (Or.inr (by rw [hlen]; decide))
    · exact decodeUtf8_of_short (Or.inr (by simp [hlen]))
    · by_cases h₂ : IsContinuation c₂
      · by_cases h₃ : IsContinuation c₃
        · exfalso
          apply hwell
          apply startsWell_three h₂ h₃ hlow hhigh
          · intro hc
            by_contra hsmall
            apply himp
            obtain rfl : c = 0xe0 := UInt8.toNat_inj.mp hc
            exact Impossible.overlongThree rest h₂ (by omega) h₃
          · intro hc
            by_contra hlarge
            apply himp
            obtain rfl : c = 0xed := UInt8.toNat_inj.mp hc
            exact Impossible.surrogate rest h₂ (by omega) h₃
        · exact decodeUtf8_of_bad ⟨c₃, by simp [hlen], h₃⟩
      · exact decodeUtf8_of_bad ⟨c₂, by simp [hlen], h₂⟩
  · rcases rest with _ | ⟨c₂, _ | ⟨c₃, _ | ⟨c₄, rest⟩⟩⟩
    · exact decodeUtf8_of_short (Or.inr (by rw [hlen]; decide))
    · exact decodeUtf8_of_short (Or.inr (by simp [hlen]))
    · exact decodeUtf8_of_short (Or.inr (by simp [hlen]))
    · by_cases h₂ : IsContinuation c₂
      · by_cases h₃ : IsContinuation c₃
        · by_cases h₄ : IsContinuation c₄
          · exfalso
            apply hwell
            apply startsWell_four h₂ h₃ h₄ hlow hhigh
            · intro hc
              by_contra hsmall
              apply himp
              obtain rfl : c = 0xf0 := UInt8.toNat_inj.mp hc
              exact Impossible.overlongFour rest h₂ (by omega) h₃ h₄
            · intro hc
              by_contra hlarge
              apply himp
              obtain rfl : c = 0xf4 := UInt8.toNat_inj.mp hc
              exact Impossible.outOfRange rest h₂ (by omega) h₃ h₄
          · exact decodeUtf8_of_bad ⟨c₄, by simp [hlen], h₄⟩
        · exact decodeUtf8_of_bad ⟨c₃, by simp [hlen], h₃⟩
      · exact decodeUtf8_of_bad ⟨c₂, by simp [hlen], h₂⟩

/-- A continuation octet starts nothing. -/
theorem not_startsWell_of_isContinuation (h : IsContinuation c) : ¬ StartsWell (c :: rest) := by
  intro hwell
  obtain ⟨cp, hvalid, hstarts⟩ := startsWell_iff.mp hwell
  obtain ⟨hlow, hhigh⟩ := h
  have hlen : sequenceLength c.toNat = 0 := by
    rcases sequenceLength_cases c.toNat with hlen | ⟨-, hc⟩ | ⟨-, hc⟩ | ⟨-, hc⟩ | ⟨-, hc⟩
    · exact hlen
    · omega
    · omega
    · omega
    · omega
  have hdecoded := decodeUtf8_of_starts hvalid hstarts
  rw [decodeUtf8_of_short (Or.inl hlen)] at hdecoded
  obtain ⟨hcp, htail⟩ := Prod.mk.inj hdecoded
  -- the replacement character has three octets
  subst hcp
  have hlength := congrArg List.length htail
  have hthree : (utf8 replacementChar).length = 3 := rfl
  have hfits := hstarts.length_le
  simp only [hthree, List.length_drop, List.length_cons] at hlength hfits
  omega

/-- Nor does an impossible sequence start well. -/
theorem Impossible.not_startsWell (h : Impossible (c :: rest)) : ¬ StartsWell (c :: rest) := by
  intro hwell
  obtain ⟨cp, hvalid, hstarts⟩ := startsWell_iff.mp hwell
  obtain ⟨ccs, tail, -, -, -, hread⟩ := decodeUtf8_of_impossible h
  have hdecoded := decodeUtf8_of_starts hvalid hstarts
  rw [hread] at hdecoded
  have hcp := (Prod.mk.inj hdecoded).1
  subst hcp
  -- the replacement character has another lead octet
  obtain ⟨tail', htail'⟩ := hstarts
  have hlead : c = 0xef := (List.cons.inj htail').1.symm
  rcases h.lead with hc | hc | hc | hc
  · exact absurd (hc.symm.trans hlead) (by decide)
  · exact absurd (hc.symm.trans hlead) (by decide)
  · exact absurd (hc.symm.trans hlead) (by decide)
  · exact absurd (hc.symm.trans hlead) (by decide)

end

/-! ## Both decoders -/

/-- Somewhere in the octets there is an impossible sequence. -/
def HasImpossible (str : Octets) : Prop := ∃ s, s <:+ str ∧ Impossible s

theorem hasImpossible_cons {c : UInt8} {rest : Octets} :
    HasImpossible (c :: rest) ↔ Impossible (c :: rest) ∨ HasImpossible rest := by
  constructor
  · rintro ⟨s, hsuffix, himp⟩
    rcases List.suffix_cons_iff.mp hsuffix with rfl | hsuffix
    · exact Or.inl himp
    · exact Or.inr ⟨s, hsuffix, himp⟩
  · rintro (himp | ⟨s, hsuffix, himp⟩)
    · exact ⟨_, List.suffix_refl _, himp⟩
    · exact ⟨s, hsuffix.trans (List.suffix_cons c rest), himp⟩

theorem not_hasImpossible_nil : ¬ HasImpossible [] := by
  rintro ⟨s, hsuffix, himp⟩
  rw [List.suffix_nil.mp hsuffix] at himp
  cases himp

/-- No impossible sequence starts among continuation octets. -/
theorem hasImpossible_append {ccs tail : Octets} (hccs : ∀ x ∈ ccs, IsContinuation x) :
    HasImpossible (ccs ++ tail) ↔ HasImpossible tail := by
  induction ccs with
  | nil => rfl
  | cons c ccs ih =>
      obtain ⟨hc, hccs'⟩ := List.forall_mem_cons.mp hccs
      rw [List.cons_append, hasImpossible_cons, ih hccs']
      constructor
      · rintro (himp | hrest)
        · exact absurd hc himp.not_isContinuation
        · exact hrest
      · exact Or.inr

/-- The reference decoder passes continuation octets one at a time. -/
theorem referenceCodePoints_append {ccs : Octets} (hccs : ∀ x ∈ ccs, IsContinuation x)
    (tail : Octets) : referenceCodePoints (ccs ++ tail) =
      List.replicate ccs.length replacementChar ++ referenceCodePoints tail := by
  induction ccs with
  | nil => rfl
  | cons c ccs ih =>
      obtain ⟨hc, hccs'⟩ := List.forall_mem_cons.mp hccs
      rw [List.cons_append, referenceCodePoints_of_not (not_startsWell_of_isContinuation hc),
        ih hccs', List.length_cons, List.replicate_succ, List.cons_append]

/-- The octets behind the lead octet of a code point are continuation octets. -/
theorem utf8_tail {cp : Nat} (hvalid : validCodePoint cp = true) {c : UInt8} {ccs : Octets}
    (heq : utf8 cp = c :: ccs) : ∀ x ∈ ccs, IsContinuation x := by
  have hmax := (validCodePoint_iff.mp hvalid).1
  have hoctet : ∀ n, IsContinuation (UInt8.ofNat (0x80 + n % 64)) := by
    intro n
    have : n % 64 < 64 := Nat.mod_lt n (by decide)
    rw [IsContinuation, UInt8.toNat_ofNat_of_lt' (by show _ < 256; omega)]
    omega
  rw [utf8_eq hvalid] at heq
  split at heq
  · obtain ⟨-, rfl⟩ := List.cons.inj heq
    exact List.forall_mem_nil _
  · split at heq
    · obtain ⟨-, rfl⟩ := List.cons.inj heq
      exact List.forall_mem_singleton.mpr (hoctet _)
    · split at heq
      · obtain ⟨-, rfl⟩ := List.cons.inj heq
        exact List.forall_mem_cons.mpr ⟨hoctet _, List.forall_mem_singleton.mpr (hoctet _)⟩
      · obtain ⟨-, rfl⟩ := List.cons.inj heq
        exact List.forall_mem_cons.mpr ⟨hoctet _, List.forall_mem_cons.mpr
          ⟨hoctet _, List.forall_mem_singleton.mpr (hoctet _)⟩⟩

/-- A well-formed sequence is read alike, and no impossible one starts in it. -/
theorem step_of_startsWell {c : UInt8} {rest : Octets} (h : StartsWell (c :: rest)) :
    ∃ cp tail, tail.length ≤ rest.length ∧ decodeUtf8 c rest = (cp, tail) ∧
      referenceCodePoints (c :: rest) = cp :: referenceCodePoints tail ∧
      (HasImpossible (c :: rest) ↔ HasImpossible tail) := by
  obtain ⟨cp, hvalid, hstarts⟩ := startsWell_iff.mp h
  have hread := decodeUtf8_of_starts hvalid hstarts
  refine ⟨cp, _, ?_, hread, referenceCodePoints_of_prefix hvalid hstarts, ?_⟩
  · have := decodeUtf8_length_le c rest
    rwa [hread] at this
  · obtain ⟨tail, htail⟩ := hstarts
    cases hutf8 : utf8 cp with
    | nil => exact absurd hutf8 (utf8_ne_nil hvalid)
    | cons c' ccs =>
        rw [hutf8, List.cons_append] at htail
        obtain ⟨rfl, rfl⟩ := List.cons.inj htail
        rw [List.length_cons, List.drop_succ_cons, List.drop_left, hasImpossible_cons,
          hasImpossible_append (utf8_tail hvalid hutf8)]
        constructor
        · rintro (himp | htail)
          · exact absurd h himp.not_startsWell
          · exact htail
        · exact Or.inr

theorem wide_replacementChar_length (w : WcharWidth) : (wide w replacementChar).length = 1 := by
  cases w with
  | utf16 => rfl
  | utf32 => rfl

variable (w : WcharWidth)

theorem referenceWstring_cons {cp : Nat} {str tail : Octets}
    (h : referenceCodePoints str = cp :: referenceCodePoints tail) :
    referenceWstring w str = wide w cp ++ referenceWstring w tail := by
  rw [referenceWstring, h, List.flatMap_cons]
  rfl

theorem toWstring_cons {c : UInt8} {rest tail : Octets} {cp : Nat}
    (h : decodeUtf8 c rest = (cp, tail)) :
    toWstring w (c :: rest) = wide w cp ++ toWstring w tail := by
  rw [toWstring, toWstringLoop_eq, codePoints, h, List.flatMap_cons, toWstring, toWstringLoop_eq]
  simp only [List.nil_append]

/-- Without impossible sequences the decoders agree; each one makes the result of
`to_wstring` shorter. -/
theorem toWstring_vs_reference (str : Octets) :
    (¬ HasImpossible str → toWstring w str = referenceWstring w str) ∧
      (toWstring w str).length ≤ (referenceWstring w str).length ∧
      (HasImpossible str → (toWstring w str).length < (referenceWstring w str).length) := by
  -- the induction is on how many octets are left
  induction hn : str.length using Nat.strong_induction_on generalizing str with
  | _ n ih =>
    cases str with
    | nil =>
        have hcode : toWstring w [] = [] := by simp [toWstring, toWstringLoop]
        have href : referenceWstring w [] = [] := by simp [referenceWstring, referenceCodePoints]
        rw [hcode, href]
        exact ⟨fun _ => rfl, le_refl _, fun h => absurd h not_hasImpossible_nil⟩
    | cons c rest =>
        rw [List.length_cons] at hn
        by_cases hwell : StartsWell (c :: rest)
        · obtain ⟨cp, tail, hle, hread, href, hiff⟩ := step_of_startsWell hwell
          obtain ⟨hsame, hshort, hless⟩ := ih tail.length (by omega) tail rfl
          rw [toWstring_cons w hread, referenceWstring_cons w href, hiff]
          refine ⟨fun h => by rw [hsame h], ?_, ?_⟩
          · simp only [List.length_append]
            omega
          · intro h
            have := hless h
            simp only [List.length_append]
            omega
        · have href := referenceCodePoints_of_not hwell
          by_cases himp : Impossible (c :: rest)
          · -- one replacement character stands for all octets of the sequence
            obtain ⟨ccs, tail, rfl, hne, hccs, hread⟩ := decodeUtf8_of_impossible himp
            have hlen : 0 < ccs.length := List.length_pos_iff.mpr hne
            rw [List.length_append] at hn
            obtain ⟨-, hshort, -⟩ := ih tail.length (by omega) tail rfl
            have hlonger : (referenceWstring w (c :: (ccs ++ tail))).length =
                1 + (ccs.length + (referenceWstring w tail).length) := by
              rw [referenceWstring_cons w href, List.length_append, wide_replacementChar_length,
                referenceWstring, referenceCodePoints_append hccs, List.flatMap_append,
                List.length_append]
              congr 2
              simp [List.length_flatMap, wide_replacementChar_length]
            have hcode : (toWstring w (c :: (ccs ++ tail))).length =
                1 + (toWstring w tail).length := by
              rw [toWstring_cons w hread, List.length_append, wide_replacementChar_length]
            refine ⟨fun h => absurd (hasImpossible_cons.mpr (Or.inl himp)) h, ?_, ?_⟩
            · omega
            · intro _
              omega
          · have hread := decodeUtf8_of_not hwell himp
            obtain ⟨hsame, hshort, hless⟩ := ih rest.length (by omega) rest rfl
            have hiff : HasImpossible (c :: rest) ↔ HasImpossible rest := by
              rw [hasImpossible_cons]
              exact ⟨fun h => h.resolve_left himp, Or.inr⟩
            rw [toWstring_cons w hread, referenceWstring_cons w href, hiff]
            refine ⟨fun h => by rw [hsame h], ?_, ?_⟩
            · simp only [List.length_append]
              omega
            · intro h
              have := hless h
              simp only [List.length_append]
              omega

/-- `to_wstring` is the reference decoder exactly on the octets without an
impossible sequence. -/
theorem toWstring_eq_reference_iff (str : Octets) :
    toWstring w str = referenceWstring w str ↔ ¬ HasImpossible str := by
  obtain ⟨hsame, -, hless⟩ := toWstring_vs_reference w str
  constructor
  · intro heq himp
    have := hless himp
    rw [heq] at this
    exact absurd this (lt_irrefl _)
  · exact hsame

/-- An overlong form of three octets gives one replacement character and not
three. -/
theorem toWstring_overlong :
    toWstring .utf32 [0xe0, 0x80, 0x80] ≠ referenceWstring .utf32 [0xe0, 0x80, 0x80] := by
  intro heq
  have himp : Impossible [0xe0, 0x80, 0x80] :=
    Impossible.overlongThree [] (by decide) (by decide) (by decide)
  have hless := (toWstring_vs_reference .utf32 [0xe0, 0x80, 0x80]).2.2
    ⟨_, List.suffix_refl _, himp⟩
  rw [heq] at hless
  exact absurd hless (lt_irrefl _)

end Securepath.Util
