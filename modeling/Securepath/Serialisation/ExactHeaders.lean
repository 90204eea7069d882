import Securepath.Serialisation.RoundTrip

/-!
# The numbers of a header

`decode_tag` and `decode_length` against the numbers that the identifier and
length octets denote: the long form of a tag is a number in base 128, of any
length. `decode_long_tag` shifts it into a word, and what it bounds is how many
octets there are; ten octets hold more bits than the word.
-/

namespace Securepath.Serialisation

open Positional BufferedStream StateExcept EStateM

/-! ## What the octets denote -/

/-- The octets of a long form up to the one without a continuation bit. -/
def longForm : Octets → Option Octets
  | [] => none
  | b :: l => if b.toNat < 128 then some [b] else (longForm l).map (b :: ·)

/-- The digits of a long form. -/
def septets (l : Octets) : List Nat := l.map fun b => b.toNat % 128

/-- The tag number that identifier octets denote. -/
def tagNumber : Octets → Option Nat
  | [] => none
  | b :: l =>
      if b.toNat % 32 = 31 then (longForm l).map fun bs => value 128 (septets bs)
      else some (b.toNat % 32)

/-- The length that length octets denote. -/
def lengthNumber : Octets → Option Nat
  | [] => none
  | b :: l =>
      if b.toNat < 128 then some b.toNat
      else if b.toNat = 128 ∨ l.length < b.toNat - 128 then none
      else some (value 256 (octetDigits (l.take (b.toNat - 128))))

/-- A long form that passes the bound on its octets is a number of 64 bits. -/
def FitsWord : Octets → Prop
  | [] => True
  | b :: l => b.toNat % 32 = 31 → ∀ bs, longForm l = some bs → bs.length ≤ 10 →
      value 128 (septets bs) < 2 ^ 64

/-! ## The loop of `decode_long_tag` -/

theorem continuation_iff (b : UInt8) : b &&& 0x80 = 0 ↔ b.toNat < 128 := by
  revert b
  decide +kernel

theorem septet_eq (b : UInt8) : (b &&& 0x7f).toNat = b.toNat % 128 := by
  rw [UInt8.toNat_and]
  exact Nat.and_two_pow_sub_one_eq_mod b.toNat 7

/-- Seven more bits, and the seven highest ones drop out. -/
theorem shift_septet {ret : UInt64} {acc : Nat} {b : UInt8} (h : ret.toNat = acc % 2 ^ 64) :
    ((ret <<< 7) ||| (b &&& 0x7f).toUInt64).toNat = (acc * 128 + b.toNat % 128) % 2 ^ 64 := by
  have hlow : b.toNat % 128 < 2 ^ 7 := Nat.mod_lt _ (by decide)
  rw [UInt64.toNat_or, UInt64.toNat_shiftLeft, UInt8.toNat_toUInt64, septet_eq, h]
  have hshift : (acc % 2 ^ 64) <<< ((7 : UInt64).toNat % 64) % 2 ^ 64 =
      2 ^ 7 * (acc % 2 ^ 57) := by
    rw [show (7 : UInt64).toNat % 64 = 7 from rfl, Nat.shiftLeft_eq]
    omega
  rw [hshift, ← Nat.two_pow_add_eq_or_of_lt hlow]
  omega

/-- The last octet has no bit to mask. -/
theorem shift_last {ret : UInt64} {acc : Nat} {b : UInt8} (h : ret.toNat = acc % 2 ^ 64)
    (hb : b.toNat < 128) :
    ((ret <<< 7) ||| b.toUInt64).toNat = (acc * 128 + b.toNat % 128) % 2 ^ 64 := by
  have hmask : b &&& 0x7f = b := by
    apply UInt8.toNat_inj.mp
    rw [septet_eq, Nat.mod_eq_of_lt hb]
  rw [← shift_septet h, hmask]

/-- The loop reads the long form, if it has not too many octets, modulo the word. -/
theorem decodeLongTagFrom_eq (left : Nat) (ret : UInt64) (acc : Nat) (b : UInt8) (l : Octets)
    (h : ret.toNat = acc % 2 ^ 64) :
    (∃ bs t r, longForm (b :: l) = some bs ∧ bs.length ≤ left + 1 ∧
      (decodeLongTagFrom left ret b : HeaderParser UInt64) l = .ok (t, r) ∧
      t.toNat = valueFrom 128 acc (septets bs) % 2 ^ 64) ∨
    (∃ e, (decodeLongTagFrom left ret b : HeaderParser UInt64) l = .error e) ∧
      ∀ bs, longForm (b :: l) = some bs → left + 1 < bs.length := by
  induction left generalizing ret acc b l with
  | zero =>
    unfold decodeLongTagFrom longForm
    by_cases hb : b.toNat < 128
    · left
      refine ⟨[b], _, l, if_pos hb, Nat.le_refl 1, ?_, shift_last h hb⟩
      rw [if_pos ((continuation_iff b).mpr hb)]
      rfl
    · right
      refine ⟨⟨Error.tagTooLong, ?_⟩, ?_⟩
      · rw [if_neg (mt (continuation_iff b).mp hb)]
        rfl
      · intro bs hbs
        rw [if_neg hb, Option.map_eq_some_iff] at hbs
        obtain ⟨bs, hl, rfl⟩ := hbs
        have hne : bs ≠ [] := by
          rintro rfl
          cases l with
          | nil => cases hl
          | cons c l =>
            unfold longForm at hl
            split at hl
            · cases hl
            · obtain ⟨_, -, hcons⟩ := Option.map_eq_some_iff.mp hl
              cases hcons
        have hpos := List.length_pos_iff.mpr hne
        rw [List.length_cons]
        omega
  | succ left ih =>
    by_cases hb : b.toNat < 128
    · left
      refine ⟨[b], _, l, if_pos hb, by simp, ?_, shift_last h hb⟩
      unfold decodeLongTagFrom
      rw [if_pos ((continuation_iff b).mpr hb)]
      rfl
    · have hlong : longForm (b :: l) = (longForm l).map (b :: ·) := if_neg hb
      have hloop : (decodeLongTagFrom (left + 1) ret b : HeaderParser UInt64) =
          readOctet >>= fun b' =>
            decodeLongTagFrom left ((ret <<< 7) ||| (b &&& 0x7f).toUInt64) b' := by
        rw [decodeLongTagFrom.eq_def]
        exact if_neg (mt (continuation_iff b).mp hb)
      rw [hloop, hlong]
      cases l with
      | nil =>
        right
        refine ⟨⟨Error.endOfStream, rfl⟩, fun bs hbs => by cases hbs⟩
      | cons c l =>
        have hread : (readOctet : HeaderParser UInt8) (c :: l) = .ok (c, l) := rfl
        rw [PrefixParser.bind_of_ok hread]
        rcases ih _ _ c l (shift_septet h) with ⟨bs, t, r, hbs, hlen, hok, ht⟩ | ⟨⟨e, he⟩, hbs⟩
        · left
          refine ⟨b :: bs, t, r, by rw [hbs]; rfl, ?_, hok, ht⟩
          rw [List.length_cons]
          omega
        · right
          refine ⟨⟨e, he⟩, ?_⟩
          intro bs hmap
          obtain ⟨bs, hl, rfl⟩ := Option.map_eq_some_iff.mp hmap
          have := hbs bs hl
          rw [List.length_cons]
          omega

/-! ## Headers -/

theorem low_five (b : UInt8) : (b &&& 0x1f).toUInt64.toNat = b.toNat % 32 := by
  rw [UInt8.toNat_toUInt64, UInt8.toNat_and]
  exact Nat.and_two_pow_sub_one_eq_mod b.toNat 5

theorem long_tag_iff (b : UInt8) : b &&& 0x1f = 0x1f ↔ b.toNat % 32 = 31 := by
  revert b
  decide +kernel

theorem decodeTag_cons (b : UInt8) (l : Octets) :
    (decodeTag : HeaderParser AsnHeader) (b :: l) = (decodeTagNumber b >>= fun tag =>
      pure { isConstructed := b &&& 0x20 ≠ 0, asnClass := AsnClass.ofBits (b >>> 6).toNat,
             tag := tag, length := 0 } : HeaderParser AsnHeader) l := rfl

/-- `decode_tag` gives the tag number modulo the word. -/
theorem decodeTag_eq_ok {l r : Octets} {h : AsnHeader}
    (hok : (decodeTag : HeaderParser AsnHeader) l = .ok (h, r)) :
    ∃ v, tagNumber l = some v ∧ h.tag.toNat = v % 2 ^ 64 ∧ (FitsWord l → v < 2 ^ 64) := by
  cases l with
  | nil => cases hok
  | cons b l =>
    rw [decodeTag_cons] at hok
    obtain ⟨tag, r', htag, hpure⟩ := PrefixParser.bind_eq_ok.mp hok
    obtain rfl : _ = h := congrArg Prod.fst (Except.ok.inj hpure)
    show ∃ v, _ ∧ tag.toNat = v % 2 ^ 64 ∧ _
    unfold decodeTagNumber at htag
    by_cases hlong : b.toNat % 32 = 31
    · rw [if_pos ((long_tag_iff b).mpr hlong)] at htag
      cases l with
      | nil => cases htag
      | cons c l =>
        rcases decodeLongTagFrom_eq 9 0 0 c l rfl with
          ⟨bs, t, r'', hbs, hlen, hrun, ht⟩ | ⟨⟨e, he⟩, -⟩
        · obtain ⟨rfl, rfl⟩ := Prod.mk.inj (Except.ok.inj (hrun.symm.trans htag))
          refine ⟨value 128 (septets bs), ?_, ht, fun hfits => hfits hlong bs hbs hlen⟩
          rw [tagNumber, if_pos hlong, hbs]
          rfl
        · exact absurd (he.symm.trans htag) (by simp)
    · rw [if_neg (mt (long_tag_iff b).mp hlong)] at htag
      obtain ⟨rfl, rfl⟩ := Prod.mk.inj (Except.ok.inj htag)
      have hlt : b.toNat % 32 < 2 ^ 64 := (Nat.mod_lt _ (by decide)).trans (by decide)
      refine ⟨b.toNat % 32, if_neg hlong, ?_, fun _ => hlt⟩
      rw [low_five, Nat.mod_eq_of_lt hlt]

/-- A long form within the bound on its octets is read. -/
theorem decodeTag_of_longForm {b : UInt8} {l bs : Octets} (hlong : b.toNat % 32 = 31)
    (hbs : longForm l = some bs) (hlen : bs.length ≤ 10) :
    ∃ h r, (decodeTag : HeaderParser AsnHeader) (b :: l) = .ok (h, r) := by
  cases l with
  | nil => cases hbs
  | cons c l =>
    rcases decodeLongTagFrom_eq 9 0 0 c l rfl with
      ⟨bs', t, r, -, -, hrun, -⟩ | ⟨-, hlong'⟩
    · rw [decodeTag_cons]
      have htag : (decodeTagNumber b : HeaderParser UInt64) (c :: l) = .ok (t, r) := by
        unfold decodeTagNumber
        rw [if_pos ((long_tag_iff b).mpr hlong)]
        exact hrun
      exact ⟨_, r, PrefixParser.bind_of_ok htag⟩
    · have := hlong' bs hbs
      omega

/-- `decode_length` is exact. -/
theorem decodeLength_eq_ok {l r : Octets} {n : Nat}
    (hok : (decodeLength : HeaderParser Nat) l = .ok (n, r)) : lengthNumber l = some n := by
  cases l with
  | nil => cases hok
  | cons b l =>
    change (if b &&& 0x80 ≠ 0 then decodeLongLength b
      else pure (b &&& 0x7f).toNat : HeaderParser Nat) l = _ at hok
    rw [lengthNumber]
    by_cases hb : b.toNat < 128
    · rw [if_neg (not_not.mpr ((continuation_iff b).mpr hb))] at hok
      obtain ⟨rfl, rfl⟩ := Prod.mk.inj (Except.ok.inj hok)
      rw [if_pos hb, septet_eq, Nat.mod_eq_of_lt hb]
    · have hsize : b.toNat % 128 = b.toNat - 128 := by
        have := b.toNat_lt
        omega
      rw [if_pos (mt (continuation_iff b).mp hb)] at hok
      unfold decodeLongLength at hok
      rw [septet_eq, hsize] at hok
      by_cases hillegal : b.toNat - 128 > 8 ∨ b.toNat - 128 = 0
      · rw [if_pos hillegal] at hok
        cases hok
      · rw [if_neg hillegal] at hok
        obtain ⟨buf, r', hread, hpure⟩ := PrefixParser.bind_eq_ok.mp hok
        obtain ⟨rfl, rfl⟩ := Prod.mk.inj (Except.ok.inj hpure)
        obtain ⟨rfl, hlen⟩ := PrefixParser.take_eq_ok.mp hread
        -- the octets are the digits of the length
        rw [if_neg hb, if_neg (by rw [List.length_append]; omega), ← hlen, List.take_left,
          decodeFromOctets_eq, Nat.mod_eq_of_lt]
        -- at most eight octets
        calc value 256 (octetDigits buf) < 256 ^ (octetDigits buf).length :=
              value_lt fun d hd => by
                obtain ⟨o, -, rfl⟩ := List.mem_map.mp hd
                exact o.toNat_lt
          _ = 2 ^ (8 * buf.length) := by
              rw [octetDigits_length, show (256 : Nat) = 2 ^ 8 from rfl, ← pow_mul]
          _ ≤ 2 ^ 64 := Nat.pow_le_pow_right (by decide) (by omega)

/-! ## Choices -/

/-- The tag of the alternative that a value is of. -/
def Schema.chosenTag : {k : Kind} → (T : Schema k) → T.Val → Option UInt64
  | _, .alternative tag _ rest, v =>
      match v with
      | .inl _ => some tag
      | .inr v => rest.chosenTag v
  | _, _, _ => none

variable {saved : List Peek} {data : Octets} {d : Deserialiser}

/-- What the decoder returns is what the parser returns for the octets ahead. -/
theorem Mirrors.eq_ok {α : Type} {m : Dec α} {p : HeaderParser α} (hm : Mirrors m p)
    (hrep : Represents saved data d.s) {a : α} {d' : Deserialiser} (h : m d = .ok a d') :
    ∃ r, p (data.drop d.pos) = .ok (a, r) := by
  obtain ⟨hok, herr⟩ := hm saved data d hrep
  cases hp : p (data.drop d.pos) with
  | error e =>
    obtain ⟨s, hrun⟩ := herr e hp
    rw [hrun] at h
    cases h
  | ok x =>
    obtain ⟨s, hrun, -⟩ := hok x.1 x.2 hp
    rw [hrun] at h
    obtain ⟨rfl, -⟩ := Result.ok.inj h
    exact ⟨x.2, rfl⟩

/-- A tag that was peeked is the one of the header ahead. -/
theorem nextTag_eq_ok (hrep : Represents saved data d.s) {t : TagInfo} {d' : Deserialiser}
    (h : nextTag d = .ok t d') :
    ∃ hd r, (decodeTag : HeaderParser AsnHeader) (data.drop d.pos) = .ok (hd, r) ∧
      t.tag = hd.tag := by
  obtain ⟨hd, d₁, hnext, hpure⟩ := bind_eq_ok.mp h
  obtain ⟨rfl, -⟩ := Result.ok.inj hpure
  obtain ⟨hrep', hpos⟩ := startPeek_spec hrep
  have hpeek : ∃ d₂, (decodeHeader : Dec AsnHeader) { d with s := d.s.startPeek.2 } = .ok hd d₂ := by
    cases hrun : (decodeHeader : Dec AsnHeader) { d with s := d.s.startPeek.2 } with
    | error e d₂ =>
      have hguard : nextHeader d = .error e _ := scopeExit_of_error hrun
      rw [hguard] at hnext
      cases hnext
    | ok x d₂ =>
      have hguard : nextHeader d = .ok x _ := scopeExit_of_ok hrun
      rw [hguard] at hnext
      obtain ⟨rfl, -⟩ := Result.ok.inj hnext
      exact ⟨d₂, rfl⟩
  obtain ⟨d₂, hrun⟩ := hpeek
  obtain ⟨r, hparse⟩ := Mirrors.decodeHeader.eq_ok hrep' hrun
  rw [show ({ d with s := d.s.startPeek.2 } : Deserialiser).pos = d.pos from hpos] at hparse
  -- the header begins with its tag
  obtain ⟨hd', r', htag, hrest⟩ := PrefixParser.bind_eq_ok.mp hparse
  obtain ⟨n, r'', -, hlast⟩ := PrefixParser.bind_eq_ok.mp hrest
  split at hlast
  · cases hlast
  · obtain ⟨rfl, -⟩ := Prod.mk.inj (Except.ok.inj hlast)
    exact ⟨hd', r', htag, rfl⟩

theorem chosenTag_visit [KeyOrder] {k : Kind} (T : Schema k) :
    match k, T with
    | .type, _ => True
    | .alternatives, T => ∀ (t : TagInfo) (v : T.Val) (d d' : Deserialiser),
        T.deserialise t d = .ok v d' → T.chosenTag v = some t.tag := by
  induction T with
  | noAlternative =>
    intro t v
    exact v.elim
  | alternative tag T rest _ ih =>
    intro t v d d' h
    by_cases htag : tag = t.tag
    · have hrun : (Schema.alternative tag T rest).deserialise t = (do
          let v ← amp (handleTag .implicitTag ⟨none, tag⟩ (amp (T.deserialise ())))
          return .inl v) := if_pos htag
      rw [hrun] at h
      obtain ⟨w, d₁, -, hpure⟩ := bind_eq_ok.mp h
      obtain ⟨rfl, -⟩ := Result.ok.inj hpure
      exact congrArg some htag
    · have hrun : (Schema.alternative tag T rest).deserialise t = (do
          let v ← rest.deserialise t
          return .inr v) := if_neg htag
      rw [hrun] at h
      obtain ⟨w, d₁, hrest, hpure⟩ := bind_eq_ok.mp h
      obtain ⟨rfl, -⟩ := Result.ok.inj hpure
      exact ih t w d d₁ hrest
  | _ => trivial

/-- The header ahead is read exactly: its tag, its length, its tag against those of
other headers, and the alternative of a choice. -/
structure ReadsExactly [KeyOrder] (ahead : Octets) (d : Deserialiser) : Prop where
  tag : ∀ h d', (decodeTag : Dec AsnHeader) d = .ok h d' → tagNumber ahead = some h.tag.toNat
  length : ∀ n d', (decodeLength : Dec Nat) d = .ok n d' → lengthNumber ahead = some n
  different : ∀ (other : Octets) h d' h' r', FitsWord other →
    (decodeTag : Dec AsnHeader) d = .ok h d' →
    (decodeTag : HeaderParser AsnHeader) other = .ok (h', r') →
    tagNumber ahead ≠ tagNumber other → h.tag ≠ h'.tag
  choice : ∀ (alts : Schema .alternatives) v d',
    (Schema.choice alts).deserialise () d = .ok v d' →
    tagNumber ahead = (alts.chosenTag v).map UInt64.toNat

/-- Identifier and length octets are read exactly, wherever they stand, unless they
hold a tag that does not fit into 64 bits and is not refused. -/
theorem header_exact_iff [KeyOrder] (hrep : Represents saved data d.s) :
    ReadsExactly (data.drop d.pos) d ↔ FitsWord (data.drop d.pos) := by
  constructor
  · intro h
    cases hahead : data.drop d.pos with
    | nil => trivial
    | cons b l =>
      intro hlong bs hbs hlen
      -- the tag that is read fits into a word, so the number does
      obtain ⟨hd, r, hparse⟩ := decodeTag_of_longForm hlong hbs hlen
      rw [← hahead] at hparse
      obtain ⟨s, hrun, -⟩ := (Mirrors.decodeTag saved data d hrep).1 hd r hparse
      have hexact := h.tag hd _ hrun
      have hnumber : tagNumber (data.drop d.pos) = some (value 128 (septets bs)) := by
        rw [hahead, tagNumber, if_pos hlong, hbs]
        rfl
      rw [Option.some.inj (hnumber.symm.trans hexact)]
      exact hd.tag.toNat_lt
  · intro hfits
    have htag : ∀ h r, (decodeTag : HeaderParser AsnHeader) (data.drop d.pos) = .ok (h, r) →
        tagNumber (data.drop d.pos) = some h.tag.toNat := by
      intro h r hparse
      obtain ⟨v, hv, hmod, hlt⟩ := decodeTag_eq_ok hparse
      rw [hv, hmod, Nat.mod_eq_of_lt (hlt hfits)]
    refine ⟨?_, ?_, ?_, ?_⟩
    · intro h d' hrun
      obtain ⟨r, hparse⟩ := Mirrors.decodeTag.eq_ok hrep hrun
      exact htag h r hparse
    · intro n d' hrun
      obtain ⟨r, hparse⟩ := Mirrors.decodeLength.eq_ok hrep hrun
      exact decodeLength_eq_ok hparse
    · intro other h d' h' r' hother hrun hparse' hne heq
      obtain ⟨r, hparse⟩ := Mirrors.decodeTag.eq_ok hrep hrun
      obtain ⟨v, hv, hmod, hlt⟩ := decodeTag_eq_ok hparse'
      apply hne
      rw [htag h r hparse, hv, heq, hmod, Nat.mod_eq_of_lt (hlt hother)]
    · intro alts v d' hrun
      obtain ⟨t, d₁, hnext, hvisit⟩ := bind_eq_ok.mp hrun
      obtain ⟨hd, r, hparse, ht⟩ := nextTag_eq_ok hrep hnext
      rw [chosenTag_visit alts t v d₁ d' hvisit, htag hd r hparse, ht]
      rfl

/-! ## Ten octets -/

/-- The long form of the tag 2^64 + 5. -/
def overlongTag : Octets := [0x1f, 0x82, 0x80, 0x80, 0x80, 0x80, 0x80, 0x80, 0x80, 0x80, 0x05]

/-- It is read as the tag 5. -/
theorem overlongTag_not_exact : ¬ ∀ (data : Octets) (h : AsnHeader) (d' : Deserialiser),
    (decodeTag : Dec AsnHeader) (.ofOctets data) = .ok h d' →
      tagNumber data = some h.tag.toNat := by
  intro hclaim
  have hread : (match (decodeTag : Dec AsnHeader) (.ofOctets overlongTag) with
      | .ok h _ => decide (h.tag = 5)
      | .error _ _ => false) = true := by decide +kernel
  cases hrun : (decodeTag : Dec AsnHeader) (.ofOctets overlongTag) with
  | error e d' =>
    rw [hrun] at hread
    cases hread
  | ok h d' =>
    rw [hrun] at hread
    have hexact := hclaim overlongTag h d' hrun
    rw [of_decide_eq_true hread] at hexact
    exact absurd hexact (by decide)

theorem shortTag_exact :
    letI : KeyOrder := .unordered
    ReadsExactly [0x1f, 0x81, 0x00] (.ofOctets [0x1f, 0x81, 0x00]) :=
  letI : KeyOrder := .unordered
  (header_exact_iff (d := .ofOctets [0x1f, 0x81, 0x00]) (represents_ofOctets _)).mpr
    (fun _ bs hbs _ => by
      obtain rfl : [0x81, 0x00] = bs := Option.some.inj hbs
      decide)

end Securepath.Serialisation
