import Securepath.Serialisation.Deserialiser
import Securepath.Serialisation.Serialiser

/-!
# Decoding what was encoded

`After` describes what stands behind a value. `Accepts m P n b after t t'` says
that `m`, where `b` and then `after` are ahead, the tag `t` is pending and `n`
more levels of nesting may be entered, decodes exactly `b`, gives a value with
`P` and leaves the tag `t'` pending; `Rejects` that it throws an error that no
optional catches. Each construct of the decoder has a rule for both.
-/

namespace Securepath.Serialisation

open StateExcept BufferedStream

variable {α β : Type} {saved : List Peek} {data : Octets} {d : Deserialiser}

/-! ## What stands behind a value -/

inductive Behind where
  | endOfSequence
  | endOfOctets
  | anything
deriving DecidableEq

/-- The octets known to be behind a value in the same sequence, and what is
behind them. -/
structure After where
  octets : Octets
  behind : Behind

/-- The end of the enclosing element. -/
def After.endOfSequence : After := ⟨[], .endOfSequence⟩

/-- Nothing follows, or an element with another class or tag than `ident`. -/
def After.Differs (after : After) (ident : Ident) : Prop :=
  (after.octets = [] ∧ after.behind ≠ .anything) ∨
    ∃ h c, after.octets = headerOctets h ++ c ∧ h.length < 2 ^ 64 ∧ h.ident ≠ ident

/-- A header at the front of `b` does not declare more than a decoder accepts. -/
def HeaderFits (b : Octets) : Prop :=
  ∀ h c, b = headerOctets h ++ c → h.length < 2 ^ 64 → h.length ≤ h.maxSize

theorem headerFits_of_ok {b : Octets} {r : AsnHeader × Octets} (h : parseHeader b = .ok r) :
    HeaderFits b := by
  rintro hd c rfl hlen
  rw [parseHeader_headerOctets hlen] at h
  split at h
  · assumption
  · cases h

theorem headerFits_nil : HeaderFits [] := by
  intro h c hnil
  have : tagOctets h ≠ [] := by
    rw [tagOctets]
    split <;> simp
  simp [headerOctets, this] at hnil

/-- `d` stands before `b` and then `after`. -/
structure Ready (saved : List Peek) (data : Octets) (d : Deserialiser) (b : Octets)
    (after : After) : Prop where
  represents : Represents saved data d.s
  ex : d.ex = none
  ahead : ∃ rest, data.drop d.pos = b ++ (after.octets ++ rest) ∧
    match after.behind with
    | .endOfSequence => ∃ es, d.seqPos = (d.pos + b.length + after.octets.length) :: es
    | .endOfOctets => d.seqPos = [] ∧ rest = []
    | .anything => d.seqPos = []

/-- `m` decodes `b`. -/
def Accepts (m : Dec α) (P : α → Prop) (n : Nat) (b : Octets) (after : After)
    (t t' : Option TagInfo) : Prop :=
  ∀ saved data d, Ready saved data d b after → d.currentTag = t →
    d.seqPos.length + n = maxStructureDepth →
    ∃ v s, m d = .ok v { d with s := s, currentTag := t' } ∧ Represents saved data s ∧
      s.pos = d.pos + b.length ∧ P v

/-- `m` refuses `b`, and no optional takes that for an absent value. -/
def Rejects (m : Dec α) (n : Nat) (b : Octets) (after : After) (t : Option TagInfo) : Prop :=
  ∀ saved data d, Ready saved data d b after → d.currentTag = t →
    d.seqPos.length + n = maxStructureDepth →
    ∃ e d', m d = .error e d' ∧ e.isElementNotPresent = false

namespace Ready

variable {b b₁ b₂ : Octets} {after : After}

theorem length_eq (h : Ready saved data d b after) :
    ∃ rest, data.drop d.pos = b ++ (after.octets ++ rest) ∧
      data.length = d.pos + b.length + after.octets.length + rest.length := by
  obtain ⟨rest, hrest, -⟩ := h.ahead
  refine ⟨rest, hrest, ?_⟩
  have hlen := congrArg List.length hrest
  have := h.represents.pos_le
  simp only [List.length_drop, List.length_append, Deserialiser.pos] at *
  omega

/-- The first part of what is ahead. -/
theorem first (h : Ready saved data d (b₁ ++ b₂) after) :
    Ready saved data d b₁ ⟨b₂ ++ after.octets, after.behind⟩ := by
  obtain ⟨rest, hrest, hbehind⟩ := h.ahead
  refine ⟨h.represents, h.ex, rest, by simpa using hrest, ?_⟩
  cases hb : after.behind <;> simp only [hb] at hbehind ⊢
  · simpa [Nat.add_assoc] using hbehind
  · exact hbehind
  · exact hbehind

/-- Behind the first part the second is ahead. -/
theorem second (h : Ready saved data d (b₁ ++ b₂) after) {s : BufferedStream}
    (hrep : Represents saved data s) (hpos : s.pos = d.pos + b₁.length) (t : Option TagInfo) :
    Ready saved data { d with s := s, currentTag := t } b₂ after := by
  obtain ⟨rest, hrest, hbehind⟩ := h.ahead
  have hpos' : ({ d with s := s, currentTag := t } : Deserialiser).pos = d.pos + b₁.length := hpos
  refine ⟨hrep, h.ex, rest, ?_, ?_⟩
  · rw [hpos', ← List.drop_drop, hrest, List.append_assoc, List.drop_left]
  · rw [hpos']
    cases hb : after.behind <;> simp only [hb] at hbehind ⊢
    · simpa [Nat.add_assoc] using hbehind
    · exact hbehind
    · exact hbehind

/-- With octets ahead an element can start. -/
theorem not_absent (h : Ready saved data d b after) (hb : b ≠ []) : ¬ d.Absent data := by
  obtain ⟨rest, -, hlen⟩ := h.length_eq
  obtain ⟨rest', -, hbehind⟩ := h.ahead
  have hpos : 0 < b.length := List.length_pos_iff.mpr hb
  rintro (hend | ⟨hempty, hend⟩)
  · cases hbh : after.behind <;> simp only [hbh] at hbehind
    · obtain ⟨es, hes⟩ := hbehind
      simp only [Deserialiser.isEndOfSequence, hes, decide_eq_true_eq] at hend
      omega
    · simp [Deserialiser.isEndOfSequence, hbehind.1] at hend
    · simp [Deserialiser.isEndOfSequence, hbehind] at hend
  · omega

theorem withTag (h : Ready saved data d b after) (t : Option TagInfo) :
    Ready saved data { d with currentTag := t } b after :=
  ⟨h.represents, h.ex, h.ahead⟩

end Ready

/-! ## Rules -/

theorem amp_of_ok {m : Dec α} {d d' : Deserialiser} {v : α} (h : m d = .ok v d')
    (hex : d'.ex = none) : amp m d = .ok v d' := by
  have hre : rethrow d' = .ok () d' := by simp only [rethrow, hex]
  rw [amp, bind_of_ok h, bind_of_ok hre]
  rfl

theorem amp_of_error {m : Dec α} {d d' : Deserialiser} {e : Error} (h : m d = .error e d') :
    amp m d = .error e d' := by
  rw [amp, bind_of_error h]

theorem useCurrentTag_apply (d : Deserialiser) :
    useCurrentTag d = .ok d.currentTag { d with currentTag := none } := rfl

namespace Accepts

variable {m : Dec α} {P : α → Prop} {n : Nat} {b b₁ b₂ : Octets} {after : After}
  {t t' t₁ : Option TagInfo}

theorem mono (h : Accepts m P n b after t t') {Q : α → Prop} (hPQ : ∀ v, P v → Q v) :
    Accepts m Q n b after t t' := by
  intro saved data d hready htag hdepth
  obtain ⟨v, s, hrun, hrep, hpos, hP⟩ := h saved data d hready htag hdepth
  exact ⟨v, s, hrun, hrep, hpos, hPQ v hP⟩

theorem amp (h : Accepts m P n b after t t') : Accepts (amp m) P n b after t t' := by
  intro saved data d hready htag hdepth
  obtain ⟨v, s, hrun, hrep, hpos, hP⟩ := h saved data d hready htag hdepth
  exact ⟨v, s, amp_of_ok hrun hready.ex, hrep, hpos, hP⟩

theorem pure {v : α} (hv : P v) : Accepts (pure v) P n [] after t t := by
  intro saved data d hready htag hdepth
  exact ⟨v, d.s, by rw [← htag]; rfl, hready.represents, rfl, hv⟩

theorem bind (h₁ : Accepts m P n b₁ ⟨b₂ ++ after.octets, after.behind⟩ t t₁)
    {f : α → Dec β} {Q : β → Prop} (h₂ : ∀ v, P v → Accepts (f v) Q n b₂ after t₁ t') :
    Accepts (m >>= f) Q n (b₁ ++ b₂) after t t' := by
  intro saved data d hready htag hdepth
  obtain ⟨v, s, hrun, hrep, hpos, hP⟩ := h₁ saved data d hready.first htag hdepth
  obtain ⟨v', s', hrun', hrep', hpos', hQ⟩ := h₂ v hP saved data _
    (hready.second hrep hpos t₁) rfl hdepth
  refine ⟨v', s', by rw [bind_of_ok hrun, hrun'], hrep', ?_, hQ⟩
  simp only [Deserialiser.pos, List.length_append] at *
  omega

end Accepts

namespace Rejects

variable {m : Dec α} {P : α → Prop} {n : Nat} {b b₁ b₂ : Octets} {after : After}
  {t t₁ : Option TagInfo}

theorem amp (h : Rejects m n b after t) : Rejects (amp m) n b after t := by
  intro saved data d hready htag hdepth
  obtain ⟨e, d', hrun, he⟩ := h saved data d hready htag hdepth
  exact ⟨e, d', amp_of_error hrun, he⟩

theorem bind_left (h : Rejects m n b₁ ⟨b₂ ++ after.octets, after.behind⟩ t) (f : α → Dec β) :
    Rejects (m >>= f) n (b₁ ++ b₂) after t := by
  intro saved data d hready htag hdepth
  obtain ⟨e, d', hrun, he⟩ := h saved data d hready.first htag hdepth
  exact ⟨e, d', bind_of_error hrun, he⟩

theorem bind_right (h₁ : Accepts m P n b₁ ⟨b₂ ++ after.octets, after.behind⟩ t t₁)
    {f : α → Dec β} (h₂ : ∀ v, P v → Rejects (f v) n b₂ after t₁) :
    Rejects (m >>= f) n (b₁ ++ b₂) after t := by
  intro saved data d hready htag hdepth
  obtain ⟨v, s, hrun, hrep, hpos, hP⟩ := h₁ saved data d hready.first htag hdepth
  obtain ⟨e, d', hrun', he⟩ := h₂ v hP saved data _ (hready.second hrep hpos t₁) rfl hdepth
  exact ⟨e, d', by rw [bind_of_ok hrun, hrun'], he⟩

end Rejects

/-! ### Headers -/

theorem headerOctets_ne_nil (h : AsnHeader) : headerOctets h ≠ [] := by
  rw [headerOctets, tagOctets]
  split <;> simp

/-- The header of the element ahead is read, or refused for its length. -/
theorem decodeHeaderOf_ready (ident : Ident) {h : AsnHeader} (hident : h.ident = ident)
    {c : Octets} {after : After} (hready : Ready saved data d (headerOctets h ++ c) after)
    (hlen : h.length < 2 ^ 64) :
    (h.maxSize < h.length ∧ ∃ d', decodeHeaderOf ident d = .error Error.structureTooBig d') ∨
    (h.length ≤ h.maxSize ∧ ∃ s, decodeHeaderOf ident d = .ok h { d with s := s } ∧
      Represents saved data s ∧ s.pos = d.pos + (headerOctets h).length) := by
  subst hident
  obtain ⟨rest, hrest, hdata⟩ := hready.length_eq
  have hparse := parseHeader_headerOctets hlen (c ++ (after.octets ++ rest))
  rw [← List.append_assoc, ← hrest] at hparse
  have hpresent := hready.not_absent (by simp [headerOctets_ne_nil])
  by_cases hfit : h.length ≤ h.maxSize
  · rw [if_pos hfit] at hparse
    obtain ⟨s, hrep, hr, hrun⟩ :=
      decodeHeaderOf_of_ok hready.represents hpresent hparse h.ident
    rw [if_pos rfl] at hrun
    refine Or.inr ⟨hfit, s, hrun, hrep, ?_⟩
    have hle := hrep.pos_le
    have := congrArg List.length hr
    simp only [List.length_drop, List.length_append] at this hdata
    omega
  · rw [if_neg hfit] at hparse
    obtain ⟨s, hrun⟩ := decodeHeaderOf_of_error hready.represents hpresent hparse h.ident
    exact Or.inl ⟨by omega, _, hrun⟩

/-- The header of the element behind: it is another element's, or there is none. -/
theorem decodeHeaderOf_differs {after : After} {ident : Ident}
    (hready : Ready saved data d [] after) (hdiffers : after.Differs ident) :
    (HeaderFits after.octets ∧ ∃ e s, decodeHeaderOf ident d = .error e { d with s := s } ∧
      Represents saved data s ∧ e.isElementNotPresent = true) ∨
    (¬ HeaderFits after.octets ∧
      ∃ d', decodeHeaderOf ident d = .error Error.structureTooBig d') := by
  obtain ⟨rest, hrest, hbehind⟩ := hready.ahead
  rcases hdiffers with ⟨hnil, hend⟩ | ⟨h, c, hoctets, hlen, hne⟩
  · have hfits : HeaderFits after.octets := hnil ▸ headerFits_nil
    have habsent : d.Absent data := by
      rw [hnil] at hrest hbehind
      cases hb : after.behind <;> simp only [hb] at hbehind
      · obtain ⟨es, hes⟩ := hbehind
        exact Or.inl (by simp [Deserialiser.isEndOfSequence, hes])
      · have hle := hready.represents.pos_le
        have := congrArg List.length hrest
        simp only [List.length_drop, hbehind.2, List.append_nil, List.length_nil] at this
        exact Or.inr ⟨hbehind.1, by simp only [Deserialiser.pos] at *; omega⟩
      · exact absurd hb hend
    obtain ⟨s, hrun, hrep, -⟩ := decodeHeaderOf_of_absent hready.represents habsent ident
    exact Or.inl ⟨hfits, _, s, hrun, hrep, rfl⟩
  · have hparse := parseHeader_headerOctets hlen (c ++ rest)
    have hfront : data.drop d.pos = headerOctets h ++ (c ++ rest) := by
      rw [hrest, hoctets, List.nil_append, List.append_assoc]
    have hpresent : ¬ d.Absent data := by
      have hready' : Ready saved data d after.octets ⟨[], after.behind⟩ := by
        refine ⟨hready.represents, hready.ex, rest, by simpa using hrest, ?_⟩
        cases hb : after.behind <;> simp only [hb] at hbehind ⊢ <;> simpa using hbehind
      exact hready'.not_absent (by simp [hoctets, headerOctets_ne_nil])
    rw [← hfront] at hparse
    by_cases hfit : h.length ≤ h.maxSize
    · rw [if_pos hfit] at hparse
      obtain ⟨s, hrep, -, hrun⟩ := decodeHeaderOf_of_ok hready.represents hpresent hparse ident
      rw [if_neg hne] at hrun
      refine Or.inl ⟨?_, _, s, hrun, hrep, rfl⟩
      rw [hoctets]
      exact headerFits_of_ok ((parseHeader_headerOctets hlen c).trans (if_pos hfit))
    · rw [if_neg hfit] at hparse
      obtain ⟨s, hrun⟩ := decodeHeaderOf_of_error hready.represents hpresent hparse ident
      exact Or.inr ⟨fun hfits => hfit (hfits h c hoctets hlen), _, hrun⟩

/-! ### Primitive elements -/

/-- The content has a length and a form that the decoder accepts. -/
def Prim.Loadable : (p : Prim) → p.Val → Prop
  | .integer, v => v ≠ [] ∧ v.length ≤ maxStructureSize
  | .string, v => v.length ≤ maxStructureSize
  | .octets, v => v.length ≤ maxStructureSize
  | .time, v => toTimeT v ≠ -1
  | _, _ => True

/-- The encoding of a value determines it. -/
def Prim.IsExact : Prim → Prop
  | .real _ => False
  | .time => False
  | _ => True

theorem Prim.text_eq_ok {v c : Octets} : Prim.content.text v = .ok c ↔
    v.length ≤ maxStructureSize ∧ v = c := by
  rw [content.text]
  split
  · simp only [reduceCtorEq, false_iff, not_and]
    omega
  · simp only [Except.ok.injEq, iff_and_self]
    omega

theorem Prim.checkLength_fixed {sizeHint length : Nat} {isSigned : Bool} (hpos : 0 < length)
    (hle : length ≤ sizeHint + if isSigned then 0 else 1) :
    checkLength.fixed length sizeHint isSigned = .ok () := by
  rw [checkLength.fixed, if_neg (by omega), if_neg (by omega)]

theorem Prim.content_bool (v : Bool) : content .bool v = .ok [if v then 1 else 0] := by
  cases v <;> decide +kernel

/-- The decoder accepts what the encoder makes of a loadable value. -/
theorem Prim.content_accepted {p : Prim} {v : p.Val} {c : Octets} (hc : p.content v = .ok c)
    (hv : p.Loadable v) :
    c.length ≤ maxStructureSize ∧ p.checkLength c.length = .ok () ∧
      ∃ v', p.ofContent c = .ok v' ∧ (p.IsExact → v' = v) := by
  cases p with
  | bool =>
      rw [content_bool] at hc
      cases hc
      exact ⟨by simp [maxStructureSize], rfl, v, by cases v <;> decide +kernel, fun _ => rfl⟩
  | int t =>
      obtain ⟨b, hb, hne, hlen, hsign, hback⟩ := encodeInteger_spec v
      have hbytes := t.bytes_le
      rw [content, hb] at hc
      cases hc
      refine ⟨?_, checkLength_fixed (List.length_pos_iff.mpr hne) hlen, v, ?_, fun _ => rfl⟩
      · have : t.bytes + (if t.isSigned then 0 else 1) ≤ maxStructureSize := by
          simp only [maxStructureSize]
          split <;> omega
        omega
      · have hpass : ¬(c.headD 0 &&& 0x80 ≠ 0 ∧ t.isSigned = false) := fun ⟨h, hu⟩ => h (hsign hu)
        rw [ofContent, if_neg hpass, hback, FixedInt.cast_val]
  | integer =>
      cases hc
      obtain ⟨hne, hle⟩ := hv
      have hpos : ¬ c.length = 0 := by simpa using hne
      exact ⟨hle, by rw [checkLength, if_neg hpos], c, rfl, fun _ => rfl⟩
  | string =>
      obtain ⟨hle, rfl⟩ := text_eq_ok.mp hc
      exact ⟨hle, rfl, v, rfl, fun _ => rfl⟩
  | octets =>
      obtain ⟨hle, rfl⟩ := text_eq_ok.mp hc
      exact ⟨hle, rfl, v, rfl, fun _ => rfl⟩
  | real f =>
      obtain ⟨hle, y, hy⟩ := encodeReal_accepted hc
      refine ⟨?_, ?_, Ieee.cast f y, ?_, fun h => h.elim⟩
      · simp only [maxStructureSize]
        omega
      · rw [checkLength, if_neg (by omega)]
      · rw [ofContent, hy]
        rfl
  | time =>
      obtain ⟨hle, rfl⟩ := text_eq_ok.mp hc
      obtain ⟨t, ht⟩ := (decodeTime_encodeTime v).mpr hv
      exact ⟨hle, rfl, t, ht, fun h => h.elim⟩

theorem decodeTime_error {c : Octets} {e : Error} (h : decodeTime c = .error e) :
    e.isElementNotPresent = false := by
  rw [decodeTime] at h
  split at h
  · cases h
    rfl
  · split at h
    · cases h
      rfl
    · cases hf : scanFractions (c.drop 14) with
      | error e' =>
          rw [hf] at h
          cases h
          rw [scanFractions] at hf
          grind [Error.isElementNotPresent, Error.illegalTimeFractions, Error.illegalTime]
      | ok millis =>
          rw [hf] at h
          simp only [bind, Except.bind] at h
          split at h
          · cases h
            rfl
          · cases h

/-- It refuses what the encoder makes of any other value. -/
theorem Prim.content_rejected {p : Prim} {v : p.Val} {c : Octets} (hc : p.content v = .ok c)
    (hv : ¬ p.Loadable v) :
    maxStructureSize < c.length ∨
      (∃ e, p.checkLength c.length = .error e ∧ e.isElementNotPresent = false) ∨
      p.checkLength c.length = .ok () ∧
        ∃ e, p.ofContent c = .error e ∧ e.isElementNotPresent = false := by
  cases p with
  | integer =>
      cases hc
      by_cases hnil : c = []
      · exact Or.inr (Or.inl ⟨Error.integerEmpty, by simp [hnil, checkLength], rfl⟩)
      · exact Or.inl (by simpa [Loadable, hnil] using hv)
  | string => exact absurd (text_eq_ok.mp hc).1 hv
  | octets => exact absurd (text_eq_ok.mp hc).1 hv
  | time =>
      obtain ⟨-, rfl⟩ := text_eq_ok.mp hc
      have hnone := mt (decodeTime_encodeTime v).mp hv
      cases hd : decodeTime (encodeTime v) with
      | ok t => exact absurd ⟨t, hd⟩ hnone
      | error e => exact Or.inr (Or.inr ⟨rfl, e, hd, decodeTime_error hd⟩)
  | bool => exact absurd trivial hv
  | int t => exact absurd trivial hv
  | real f => exact absurd trivial hv

/-- Behind the header of the element ahead is its content. -/
theorem Ready.content {b₁ c : Octets} {after : After} {s : BufferedStream}
    (hready : Ready saved data d (b₁ ++ c) after) (hrep : Represents saved data s)
    (hpos : s.pos = d.pos + b₁.length) (t : Option TagInfo) :
    ∃ s', (OctetReader.read c.length : Dec Octets) { d with s := s, currentTag := t } =
        .ok c { d with s := s', currentTag := t } ∧
      Represents saved data s' ∧ s'.pos = d.pos + (b₁ ++ c).length := by
  obtain ⟨rest, hrest, hlen⟩ := (hready.second hrep hpos t).length_eq
  have hpos' : ({ d with s := s, currentTag := t } : Deserialiser).pos = d.pos + b₁.length := hpos
  obtain ⟨s', hrun, hrep', hend⟩ := readOctets_of_le (d := { d with s := s, currentTag := t }) hrep
    (n := c.length) (by omega)
  rw [hrest, List.take_left] at hrun
  exact ⟨s', hrun, hrep', by rw [hend, hpos', List.length_append, Nat.add_assoc]⟩

section Primitive

variable {p : Prim} {v : p.Val} {c : Octets} {n : Nat} {after : After} {t : Option TagInfo}

/-- An element whose content the decoder accepts, whatever wrote it. -/
theorem Accepts.content {v' : p.Val} (hle : c.length ≤ maxStructureSize)
    (hcheck : p.checkLength c.length = .ok ()) (hcontent : p.ofContent c = .ok v') :
    Accepts (do let tag ← useCurrentTag; p.decode tag) (· = v') n
      (element (getIdent t p.defaultTag) false c) after t none := by
  intro saved data d hready htag _
  have hsize : sizeOf64 c = c.length := by
    refine sizeOf64_eq ?_
    simp only [maxStructureSize] at hle
    omega
  rw [element, hsize] at hready ⊢
  rcases decodeHeaderOf_ready (getIdent t p.defaultTag) rfl (hready.withTag none)
    (by rw [← hsize]; exact sizeOf64_lt c) with
    ⟨hbig, -⟩ | ⟨-, s, hrun, hrep, hpos⟩
  · exact absurd hbig (Nat.not_lt.mpr hle)
  · obtain ⟨s', hread, hrep', hend⟩ := hready.content hrep hpos none
    refine ⟨v', s', ?_, hrep', hend, rfl⟩
    rw [bind_of_ok (useCurrentTag_apply d), htag, Prim.decode]
    rw [bind_of_ok hrun]
    simp only [hcheck, liftExcept, pure_bind]
    rw [bind_of_ok hread]
    simp only [hcontent]
    rfl

/-- An element whose content the decoder refuses. -/
theorem Rejects.content (hlen : c.length < 2 ^ 64)
    (h : maxStructureSize < c.length ∨
      (∃ e, p.checkLength c.length = .error e ∧ e.isElementNotPresent = false) ∨
      p.checkLength c.length = .ok () ∧
        ∃ e, p.ofContent c = .error e ∧ e.isElementNotPresent = false) :
    Rejects (do let tag ← useCurrentTag; p.decode tag) n
      (element (getIdent t p.defaultTag) false c) after t := by
  intro saved data d hready htag _
  rw [bind_of_ok (useCurrentTag_apply d), htag, Prim.decode]
  rw [element, sizeOf64_eq hlen] at hready
  rcases decodeHeaderOf_ready (getIdent t p.defaultTag) rfl (hready.withTag none) hlen with
    ⟨-, d', hrun⟩ | ⟨hfit, s, hrun, hrep, hpos⟩
  · exact ⟨_, d', bind_of_error hrun, rfl⟩
  · rw [bind_of_ok hrun]
    rcases h with hbig | ⟨e, hcheck, he⟩ | ⟨hcheck, e, hcontent, he⟩
    · exact absurd hfit (Nat.not_le.mpr hbig)
    · exact ⟨e, _, bind_of_error (by rw [hcheck]; rfl), he⟩
    · obtain ⟨s', hread, -, -⟩ := hready.content hrep hpos none
      simp only [hcheck, liftExcept, pure_bind]
      rw [bind_of_ok hread]
      simp only [hcontent]
      exact ⟨e, _, rfl, he⟩

theorem Accepts.prim (hc : p.content v = .ok c) (hv : p.Loadable v) :
    Accepts (do let tag ← useCurrentTag; p.decode tag) (fun v' => p.IsExact → v' = v) n
      (element (getIdent t p.defaultTag) false c) after t none := by
  obtain ⟨hle, hcheck, v', hcontent, hexact⟩ := Prim.content_accepted hc hv
  exact (Accepts.content hle hcheck hcontent).mono fun w hw hp => hw.trans (hexact hp)

theorem Rejects.prim (hc : p.content v = .ok c) (hv : ¬ p.Loadable v) (hlen : c.length < 2 ^ 64) :
    Rejects (do let tag ← useCurrentTag; p.decode tag) n
      (element (getIdent t p.defaultTag) false c) after t :=
  Rejects.content hlen (Prim.content_rejected hc hv)

end Primitive

/-! ### Constructed elements -/

section Constructed

variable {ident : Ident} (notConstructed : Error) {c : Octets} {n : Nat} {after : After}
  {t t' : Option TagInfo} {body : Dec α} {P : α → Prop}

/-- What entering the constructed element ahead does. -/
theorem startConstructed_ready (hready : Ready saved data d (element ident true c) after)
    (hlen : c.length < 2 ^ 64) :
    ((maxConstructedSize < c.length ∨ maxStructureDepth ≤ d.seqPos.length) ∧
      ∃ e d', startConstructed ident notConstructed d = .error e d' ∧
        e.isElementNotPresent = false) ∨
    (c.length ≤ maxConstructedSize ∧ d.seqPos.length < maxStructureDepth ∧
      ∃ s, startConstructed ident notConstructed d =
          .ok () { d with s := s, seqPos := (d.pos + (element ident true c).length) :: d.seqPos } ∧
        Ready saved data
          { d with s := s, seqPos := (d.pos + (element ident true c).length) :: d.seqPos } c
          .endOfSequence) := by
  rw [element, sizeOf64_eq hlen] at hready ⊢
  rw [startConstructed]
  rcases decodeHeaderOf_ready ident rfl hready hlen with ⟨hbig, d', hrun⟩ | ⟨hfit, s, hrun, hrep, hpos⟩
  · exact Or.inl ⟨Or.inl hbig, _, d', bind_of_error hrun, rfl⟩
  · rw [bind_of_ok hrun]
    simp only [if_true]
    by_cases hdepth : maxStructureDepth ≤ d.seqPos.length
    · refine Or.inl ⟨Or.inr hdepth, Error.nestingTooDeep, { d with s := s }, ?_, rfl⟩
      rw [push, if_pos hdepth]
    · obtain ⟨rest, hrest, -⟩ := (hready.second hrep hpos d.currentTag).ahead
      have hend : ({ d with s := s } : Deserialiser).pos + c.length =
          d.pos + (headerOctets ⟨ident.1, ident.2, c.length, true⟩ ++ c).length := by
        simp only [Deserialiser.pos, hpos, List.length_append, Nat.add_assoc]
      refine Or.inr ⟨hfit, by omega, s, ?_, hrep, hready.ex, after.octets ++ rest, hrest, ?_⟩
      · rw [push, if_neg hdepth, hend]
      · exact ⟨d.seqPos, by rw [← hend]; rfl⟩

/-- Entering an element, decoding its content and leaving it. -/
theorem Accepts.enter (hbody : Accepts body P n c .endOfSequence t t')
    (hc : c.length ≤ maxConstructedSize)
    (hready : Ready saved data d (element ident true c) after) (htag : d.currentTag = t)
    (hdepth : d.seqPos.length + (n + 1) = maxStructureDepth) :
    ∃ d₁ v d₂ s, startConstructed ident notConstructed d = .ok () d₁ ∧ body d₁ = .ok v d₂ ∧
      P v ∧ pop d₂ = .ok () { d with s := s, currentTag := t' } ∧ Represents saved data s ∧
      s.pos = d.pos + (element ident true c).length := by
  have hlen : c.length < 2 ^ 64 := by
    simp only [maxConstructedSize] at hc
    omega
  rcases startConstructed_ready notConstructed hready hlen with
    ⟨hbad, -⟩ | ⟨-, -, s, hstart, hready₁⟩
  · omega
  · obtain ⟨v, s₂, hrun, hrep₂, hpos₂, hP⟩ := hbody saved data _ hready₁ htag
      (by simp only [List.length_cons]; omega)
    obtain ⟨rest, hrest, -⟩ := hready₁.ahead
    obtain ⟨es, hes⟩ : ∃ es, (d.pos + (element ident true c).length) :: d.seqPos =
        (s.pos + c.length + 0) :: es := by
      obtain ⟨rest', -, hbehind⟩ := hready₁.ahead
      exact hbehind
    have hend : d.pos + (element ident true c).length = s.pos + c.length := by
      have := (List.cons.inj hes).1
      omega
    have hle := hrep₂.pos_le
    have hpos₂' : s₂.pos = s.pos + c.length := hpos₂
    obtain ⟨s₃, hpop, hrep₃, hpos₃⟩ := pop_of_le
      (d := { d with s := s₂, seqPos := (d.pos + (element ident true c).length) :: d.seqPos
                     currentTag := t' }) hrep₂ rfl (by omega)
    refine ⟨_, v, _, s₃, hstart, hrun, hP, hpop, hrep₃, ?_⟩
    rw [hpos₃]
    simp only [Deserialiser.pos] at *
    omega

/-- An element that is too large, too deep or has a refused content. -/
theorem Rejects.enter (hlen : c.length < 2 ^ 64)
    (h : maxConstructedSize < c.length ∨ n = 0 ∨ ∃ m, n = m + 1 ∧
      Rejects body m c .endOfSequence t)
    (hready : Ready saved data d (element ident true c) after) (htag : d.currentTag = t)
    (hdepth : d.seqPos.length + n = maxStructureDepth) :
    (∃ e d', startConstructed ident notConstructed d = .error e d' ∧
      e.isElementNotPresent = false) ∨
    ∃ d₁ e d', startConstructed ident notConstructed d = .ok () d₁ ∧ body d₁ = .error e d' ∧
      e.isElementNotPresent = false := by
  rcases startConstructed_ready notConstructed hready hlen with
    ⟨-, hrun⟩ | ⟨hfit, hroom, s, hstart, hready₁⟩
  · exact Or.inl hrun
  · rcases h with hbig | rfl | ⟨m, rfl, hbody⟩
    · omega
    · omega
    · obtain ⟨e, d', hrun, he⟩ := hbody saved data _ hready₁ htag
        (by simp only [List.length_cons]; omega)
      exact Or.inr ⟨_, e, d', hstart, hrun, he⟩

theorem Accepts.inSequence (hbody : Accepts body P n c .endOfSequence none t')
    (hc : c.length ≤ maxConstructedSize) :
    Accepts (inSequence body) P (n + 1) (element (getIdent t AsnTag.sequence) true c) after
      t t' := by
  intro saved data d hready htag hdepth
  obtain ⟨d₁, v, d₂, s, hstart, hrun, hP, hpop, hrep, hpos⟩ := hbody.enter
    Error.invalidSequence hc (hready.withTag none) rfl hdepth
  refine ⟨v, s, ?_, hrep, hpos, hP⟩
  rw [Serialisation.inSequence, bind_of_ok (useCurrentTag_apply d), htag, startSequence,
    bind_of_ok hstart, withDestructor, scopeExit_of_ok hrun, endSequence, hpop]

theorem Rejects.inSequence (hlen : c.length < 2 ^ 64)
    (h : maxConstructedSize < c.length ∨ n = 0 ∨ ∃ m, n = m + 1 ∧
      Rejects body m c .endOfSequence none) :
    Rejects (inSequence body) n (element (getIdent t AsnTag.sequence) true c) after t := by
  intro saved data d hready htag hdepth
  rw [Serialisation.inSequence, bind_of_ok (useCurrentTag_apply d), htag, startSequence]
  rcases Rejects.enter Error.invalidSequence hlen h (hready.withTag none)
    rfl hdepth with ⟨e, d', hrun, he⟩ | ⟨d₁, e, d', hstart, hrun, he⟩
  · exact ⟨e, d', bind_of_error hrun, he⟩
  · rw [bind_of_ok hstart, withDestructor, scopeExit_of_error hrun]
    exact ⟨e, _, rfl, he⟩

/-- An explicit tag around `body`; `f` is what is made of its value. -/
theorem Accepts.explicitTag {tag : TagInfo} {f : α → β} {Q : β → Prop}
    (hbody : Accepts body P n c .endOfSequence t t') (hc : c.length ≤ maxConstructedSize)
    (hf : ∀ v, P v → Q (f v)) :
    Accepts (do startExplicitTag tag; let v ← body; endExplicitTag; return f v) Q (n + 1)
      (element tag.ident true c) after t t' := by
  intro saved data d hready htag hdepth
  obtain ⟨d₁, v, d₂, s, hstart, hrun, hP, hpop, hrep, hpos⟩ := hbody.enter
    Error.invalidExplicitTag hc hready htag hdepth
  refine ⟨f v, s, ?_, hrep, hpos, hf v hP⟩
  rw [startExplicitTag, bind_of_ok hstart, bind_of_ok hrun, endExplicitTag, bind_of_ok hpop]
  rfl

theorem Rejects.explicitTag {tag : TagInfo} {f : α → β} (hlen : c.length < 2 ^ 64)
    (h : maxConstructedSize < c.length ∨ n = 0 ∨ ∃ m, n = m + 1 ∧
      Rejects body m c .endOfSequence t) :
    Rejects (do startExplicitTag tag; let v ← body; endExplicitTag; return f v) n
      (element tag.ident true c) after t := by
  intro saved data d hready htag hdepth
  rw [startExplicitTag]
  rcases Rejects.enter Error.invalidExplicitTag hlen h hready htag hdepth with
    ⟨e, d', hrun, he⟩ | ⟨d₁, e, d', hstart, hrun, he⟩
  · exact ⟨e, d', bind_of_error hrun, he⟩
  · rw [bind_of_ok hstart]
    exact ⟨e, d', bind_of_error hrun, he⟩

end Constructed

/-! ### Optionals -/

section Optional

variable {n : Nat} {b c : Octets} {after : After} {t t' : Option TagInfo} {temp : Dec α}
  {P : α → Prop} {ident : Ident}

theorem Accepts.peekGuard {m : Dec α} (h : Accepts m P n b after t t') :
    Accepts (peekGuard m) P n b after t t' := by
  intro saved data d hready htag hdepth
  obtain ⟨hrep, hpos⟩ := startPeek_spec hready.represents
  obtain ⟨v, s, hrun, hrep', hpos', hP⟩ := h _ data { d with s := d.s.startPeek.2 }
    ⟨hrep, hready.ex, hready.ahead⟩ htag hdepth
  obtain ⟨hrep'', hpos''⟩ := endPeek_commit hrep'
  exact ⟨v, s.endPeek d.s.startPeek.1 true, scopeExit_of_ok hrun, hrep'',
    hpos''.trans hpos', hP⟩

theorem Rejects.peekGuard {m : Dec α} (h : Rejects m n b after t) :
    Rejects (peekGuard m) n b after t := by
  intro saved data d hready htag hdepth
  obtain ⟨hrep, hpos⟩ := startPeek_spec hready.represents
  obtain ⟨e, d', hrun, he⟩ := h _ data { d with s := d.s.startPeek.2 }
    ⟨hrep, hready.ex, hready.ahead⟩ htag hdepth
  exact ⟨e, _, scopeExit_of_error hrun, he⟩

theorem Accepts.catching {p : Error → Bool} {m handler : Dec α} (h : Accepts m P n b after t t') :
    Accepts (catching p m handler) P n b after t t' := by
  intro saved data d hready htag hdepth
  obtain ⟨v, s, hrun, hrest⟩ := h saved data d hready htag hdepth
  exact ⟨v, s, catching_of_ok hrun, hrest⟩

theorem Rejects.catching {m handler : Dec α} (h : Rejects m n b after t) :
    Rejects (catching Error.isElementNotPresent m handler) n b after t := by
  intro saved data d hready htag hdepth
  obtain ⟨e, d', hrun, he⟩ := h saved data d hready htag hdepth
  exact ⟨e, d', catching_of_uncaught hrun he, he⟩

theorem Accepts.optional (h : Accepts temp P n b after t t') {Q : Option α → Prop}
    (hQ : ∀ v, P v → Q (some v)) : Accepts (handleOptional none temp) Q n b after t t' := by
  refine .catching (.peekGuard ?_)
  rw [← b.append_nil]
  refine .bind (P := P) ?_ fun v hv => .pure (hQ v hv)
  simpa using h

theorem Rejects.optional (h : Rejects temp n b after t) :
    Rejects (handleOptional none temp) n b after t := by
  refine .catching (.peekGuard ?_)
  rw [← b.append_nil]
  refine .bind_left ?_ _
  simpa using h

theorem Accepts.explicitOptional {tag : TagInfo} (h : Accepts temp P n c .endOfSequence t t')
    (hc : c.length ≤ maxConstructedSize) {Q : Option α → Prop} (hQ : ∀ v, P v → Q (some v)) :
    Accepts (handleOptional (some tag) temp) Q (n + 1) (element tag.ident true c) after t t' :=
  .catching (.peekGuard (h.explicitTag hc hQ))

theorem Rejects.explicitOptional {tag : TagInfo} (hlen : c.length < 2 ^ 64)
    (h : maxConstructedSize < c.length ∨ n = 0 ∨ ∃ m, n = m + 1 ∧
      Rejects temp m c .endOfSequence t) :
    Rejects (handleOptional (some tag) temp) n (element tag.ident true c) after t :=
  .catching (.peekGuard (.explicitTag hlen h))

/-- From `t`, the first thing `m` does is to read the header of the element
`ident`, with the tag `t'` pending. -/
def StartsWith (m : Dec α) (ident : Ident) (t t' : Option TagInfo) : Prop :=
  ∀ d e d', d.currentTag = t →
    decodeHeaderOf ident { d with currentTag := t' } = .error e d' → m d = .error e d'

namespace StartsWith

variable {m : Dec α} {t₁ : Option TagInfo}

theorem bind (h : StartsWith m ident t t') (f : α → Dec β) : StartsWith (m >>= f) ident t t' :=
  fun d e d' htag hrun => bind_of_error (h d e d' htag hrun)

theorem amp (h : StartsWith m ident t t') : StartsWith (amp m) ident t t' :=
  h.bind _

theorem startConstructed (ident : Ident) (notConstructed : Error) (t : Option TagInfo) :
    StartsWith (startConstructed ident notConstructed) ident t t := by
  intro d e d' htag hrun
  rw [← htag] at hrun
  exact bind_of_error hrun

theorem useCurrentTag {f : Option TagInfo → Dec α} (h : StartsWith (f t) ident none none) :
    StartsWith (do let tag ← useCurrentTag; f tag) ident t none := by
  intro d e d' htag hrun
  rw [bind_of_ok (useCurrentTag_apply d), htag]
  exact h _ e d' rfl hrun

theorem prim (p : Prim) (t : Option TagInfo) :
    StartsWith (do let tag ← Serialisation.useCurrentTag; p.decode tag)
      (getIdent t p.defaultTag) t none :=
  useCurrentTag fun _ _ _ htag hrun => bind_of_error (by rw [← hrun, ← htag])

theorem inSequence (body : Dec α) (t : Option TagInfo) :
    StartsWith (inSequence body) (getIdent t AsnTag.sequence) t none :=
  useCurrentTag ((startConstructed _ _ _).bind _)

/-- The value of an optional is noticed to be absent, or the header behind is
refused for its length. -/
theorem absent {m : Dec (Option α)} (h : StartsWith m ident t t')
    (hdiffers : after.Differs ident) :
    (HeaderFits after.octets ∧ Accepts (catching Error.isElementNotPresent (peekGuard m)
      (return none)) (· = none) n [] after t t') ∨
    (¬ HeaderFits after.octets ∧ Rejects (catching Error.isElementNotPresent (peekGuard m)
      (return none)) n [] after t) := by
  by_cases hfits : HeaderFits after.octets
  · refine Or.inl ⟨hfits, ?_⟩
    intro saved data d hready htag _
    obtain ⟨hrep, hpos⟩ := startPeek_spec hready.represents
    have hready' : Ready _ data { d with s := d.s.startPeek.2, currentTag := t' } [] after :=
      ⟨hrep, hready.ex, hready.ahead⟩
    rcases decodeHeaderOf_differs hready' hdiffers with ⟨-, e, s, hrun, hrep', he⟩ | ⟨hnot, -⟩
    · have hbody := h { d with s := d.s.startPeek.2 } e _ htag hrun
      obtain ⟨hrep'', hpos'⟩ := endPeek_restore hrep'
      exact ⟨none, s.endPeek d.s.startPeek.1 false,
        catching_of_caught (scopeExit_of_error hbody) he, hrep'', hpos', rfl⟩
    · exact absurd hfits hnot
  · refine Or.inr ⟨hfits, .catching (.peekGuard ?_)⟩
    intro saved data d hready htag _
    rcases decodeHeaderOf_differs (hready.withTag t') hdiffers with ⟨hyes, -⟩ | ⟨-, d', hrun⟩
    · exact absurd hyes hfits
    · exact ⟨_, d', h d _ d' htag hrun, rfl⟩

end StartsWith

end Optional

/-! ### Trailing data, choices and containers -/

section Rest

variable {n : Nat} {b c : Octets} {after : After} {t t' : Option TagInfo} {P : α → Prop}

theorem decodeTrailing_of_cons {e : Nat} {es : List Nat} (h : d.seqPos = e :: es) :
    decodeTrailing d =
      (if d.pos < e then OctetReader.read (e - d.pos) else pure [] : Dec Octets) d := by
  have hget : (get : Dec Deserialiser) d = .ok d d := rfl
  rw [decodeTrailing, bind_of_ok hget]
  simp only [h]

theorem Accepts.trailing (hn : n < maxStructureDepth)
    (hlast : after.behind = .endOfSequence → after.octets = []) :
    Accepts decodeTrailing (· = b) n b after t t := by
  intro saved data d hready htag hdepth
  obtain ⟨rest, hrest, hbehind⟩ := hready.ahead
  obtain ⟨rest', -, hlen⟩ := hready.length_eq
  have hseq : d.seqPos ≠ [] := by
    intro hnil
    rw [hnil, List.length_nil] at hdepth
    omega
  obtain ⟨es, hes⟩ : ∃ es, d.seqPos = (d.pos + b.length) :: es := by
    cases hb : after.behind <;> simp only [hb] at hbehind
    · obtain ⟨es, hes⟩ := hbehind
      exact ⟨es, by simpa [hlast hb] using hes⟩
    · exact absurd hbehind.1 hseq
    · exact absurd hbehind hseq
  rw [decodeTrailing_of_cons hes, ← htag]
  by_cases hb : b = []
  · rw [if_neg (by simp [hb])]
    exact ⟨[], d.s, rfl, hready.represents, by simp [hb, Deserialiser.pos], hb.symm⟩
  · have hpos : 0 < b.length := List.length_pos_iff.mpr hb
    obtain ⟨s, hrun, hrep, hend⟩ := readOctets_of_le hready.represents (n := b.length) (by omega)
    rw [if_pos (by omega), show d.pos + b.length - d.pos = b.length by omega, hrun, hrest,
      List.take_left]
    exact ⟨b, s, rfl, hrep, hend, rfl⟩

theorem Rejects.trailing (hn : ¬ n < maxStructureDepth) : Rejects decodeTrailing n b after t := by
  intro saved data d hready _ hdepth
  have hempty : d.seqPos = [] := List.length_eq_zero_iff.mp (by omega)
  have hget : (get : Dec Deserialiser) d = .ok d d := rfl
  refine ⟨Error.trailingOutsideSequence, d, ?_, rfl⟩
  rw [decodeTrailing, bind_of_ok hget]
  simp only [hempty]
  rfl

/-- The tag that a choice peeks is the one of the header ahead. -/
theorem nextTag_ready {h : AsnHeader} (hready : Ready saved data d (headerOctets h ++ c) after)
    (hlen : h.length < 2 ^ 64) :
    (h.maxSize < h.length ∧ ∃ d', nextTag d = .error Error.structureTooBig d') ∨
    (h.length ≤ h.maxSize ∧ ∃ s, nextTag d = .ok ⟨some h.asnClass, h.tag⟩ { d with s := s } ∧
      Ready saved data { d with s := s } (headerOctets h ++ c) after ∧ s.pos = d.pos) := by
  obtain ⟨rest, hrest, hbehind⟩ := hready.ahead
  obtain ⟨hrep, hpos⟩ := startPeek_spec hready.represents
  have hparse := parseHeader_headerOctets hlen (c ++ (after.octets ++ rest))
  rw [← List.append_assoc, ← hrest] at hparse
  obtain ⟨hok, herr⟩ := Mirrors.decodeHeader _ data { d with s := d.s.startPeek.2 } hrep
  have hpos' : ({ d with s := d.s.startPeek.2 } : Deserialiser).pos = d.pos := hpos
  rw [hpos'] at hok herr
  by_cases hfit : h.length ≤ h.maxSize
  · rw [if_pos hfit] at hparse
    obtain ⟨s, hrun, hrep', -⟩ := hok h _ hparse
    obtain ⟨hrep'', hpos''⟩ := endPeek_restore hrep'
    have hpeek : nextHeader d = .ok h { d with s := s.endPeek d.s.startPeek.1 false } :=
      scopeExit_of_ok hrun
    have hend : ({ d with s := s.endPeek d.s.startPeek.1 false } : Deserialiser).pos = d.pos :=
      hpos''
    refine Or.inr ⟨hfit, s.endPeek d.s.startPeek.1 false, bind_of_ok hpeek,
      ⟨hrep'', hready.ex, rest, by rw [hend, hrest], ?_⟩, hend⟩
    rw [hend]
    exact hbehind
  · rw [if_neg hfit] at hparse
    obtain ⟨s, hrun⟩ := herr _ hparse
    have hpeek : nextHeader d = .error Error.structureTooBig
        { d with s := s.endPeek d.s.startPeek.1 false } := scopeExit_of_error hrun
    exact Or.inl ⟨by omega, _, bind_of_error hpeek⟩

theorem Accepts.choice {h : AsnHeader} {f : TagInfo → Dec α} (hlen : h.length < 2 ^ 64)
    (hfit : h.length ≤ h.maxSize)
    (hf : Accepts (f ⟨some h.asnClass, h.tag⟩) P n (headerOctets h ++ c) after t t') :
    Accepts (do let tag ← nextTag; f tag) P n (headerOctets h ++ c) after t t' := by
  intro saved data d hready htag hdepth
  rcases nextTag_ready hready hlen with ⟨hbig, -⟩ | ⟨-, s, hrun, hready', hpos⟩
  · omega
  · obtain ⟨v, s', hrun', hrep, hpos', hP⟩ := hf saved data _ hready' htag hdepth
    refine ⟨v, s', by rw [bind_of_ok hrun, hrun'], hrep, ?_, hP⟩
    rw [hpos']
    exact congrArg (· + _) hpos

theorem Rejects.choice {h : AsnHeader} {f : TagInfo → Dec α} (hlen : h.length < 2 ^ 64)
    (hf : h.length ≤ h.maxSize →
      Rejects (f ⟨some h.asnClass, h.tag⟩) n (headerOctets h ++ c) after t) :
    Rejects (do let tag ← nextTag; f tag) n (headerOctets h ++ c) after t := by
  intro saved data d hready htag hdepth
  rcases nextTag_ready hready hlen with ⟨-, d', hrun⟩ | ⟨hfit, s, hrun, hready', -⟩
  · exact ⟨_, d', bind_of_error hrun, rfl⟩
  · obtain ⟨e, d', hrun', he⟩ := hf hfit saved data _ hready' htag hdepth
    exact ⟨e, d', by rw [bind_of_ok hrun, hrun'], he⟩

variable {elem : Dec α} {insert : List α → α → List α} {Q : List α → Prop} {rounds : Nat}
  {acc : List α}

/-- The loop over a container stops at the end of the sequence. -/
theorem Accepts.loop_nil (hQ : Q acc) :
    Accepts (containerLoop elem insert (rounds + 1) acc) Q n [] .endOfSequence t t := by
  intro saved data d hready htag _
  obtain ⟨_, -, es, hes⟩ := hready.ahead
  have hget : (get : Dec Deserialiser) d = .ok d d := rfl
  have hend : d.isEndOfSequence = true := by
    simp [Deserialiser.isEndOfSequence, hes, After.endOfSequence]
  refine ⟨acc, d.s, ?_, hready.represents, rfl, hQ⟩
  rw [containerLoop, bind_of_ok hget, if_pos hend, ← htag]
  rfl

/-- One round of the loop. -/
theorem containerLoop_ready (hready : Ready saved data d b after) (hb : b ≠ []) :
    containerLoop elem insert (rounds + 1) acc d =
      (do
        let temp ← elem
        let after ← get
        if after.pos = d.pos then throw Error.noProgress
        else containerLoop elem insert rounds (insert acc temp) : Dec (List α)) d := by
  have hget : (get : Dec Deserialiser) d = .ok d d := rfl
  have hend : ¬ d.isEndOfSequence = true := fun h => hready.not_absent hb (Or.inl h)
  rw [containerLoop, bind_of_ok hget, if_neg hend]

theorem Accepts.loop_cons {t₁ : Option TagInfo} (hb : b ≠ [])
    (helem : Accepts elem P n b ⟨c, .endOfSequence⟩ t t₁)
    (hrest : ∀ v, P v → Accepts (containerLoop elem insert rounds (insert acc v)) Q n c
      .endOfSequence t₁ t') :
    Accepts (containerLoop elem insert (rounds + 1) acc) Q n (b ++ c) .endOfSequence t t' := by
  intro saved data d hready htag hdepth
  have hpositive : 0 < b.length := List.length_pos_iff.mpr hb
  obtain ⟨v, s, hrun, hrep, hpos, hP⟩ :=
    helem saved data d (by simpa [After.endOfSequence] using hready.first) htag hdepth
  obtain ⟨v', s', hrun', hrep', hpos', hQ⟩ := hrest v hP saved data _
    (hready.second hrep hpos t₁) rfl hdepth
  have hget : (get : Dec Deserialiser) { d with s := s, currentTag := t₁ } =
    .ok { d with s := s, currentTag := t₁ } { d with s := s, currentTag := t₁ } := rfl
  simp only [Deserialiser.pos] at hpos hpos'
  refine ⟨v', s', ?_, hrep', ?_, hQ⟩
  · rw [containerLoop_ready hready (by simp [hb]), bind_of_ok hrun, bind_of_ok hget,
      if_neg (by simp only [Deserialiser.pos]; omega), hrun']
  · simp only [Deserialiser.pos, List.length_append]
    omega

theorem Rejects.loop_head (hb : b ≠ []) (helem : Rejects elem n b ⟨c, .endOfSequence⟩ t) :
    Rejects (containerLoop elem insert (rounds + 1) acc) n (b ++ c) .endOfSequence t := by
  intro saved data d hready htag hdepth
  obtain ⟨e, d', hrun, he⟩ :=
    helem saved data d (by simpa [After.endOfSequence] using hready.first) htag hdepth
  exact ⟨e, d', by rw [containerLoop_ready hready (by simp [hb]), bind_of_error hrun], he⟩

theorem Rejects.loop_tail {t₁ : Option TagInfo} (hb : b ≠ [])
    (helem : Accepts elem P n b ⟨c, .endOfSequence⟩ t t₁)
    (hrest : ∀ v, P v → Rejects (containerLoop elem insert rounds (insert acc v)) n c
      .endOfSequence t₁) :
    Rejects (containerLoop elem insert (rounds + 1) acc) n (b ++ c) .endOfSequence t := by
  intro saved data d hready htag hdepth
  have hpositive : 0 < b.length := List.length_pos_iff.mpr hb
  obtain ⟨v, s, hrun, hrep, hpos, hP⟩ :=
    helem saved data d (by simpa [After.endOfSequence] using hready.first) htag hdepth
  obtain ⟨e, d', hrun', he⟩ := hrest v hP saved data _ (hready.second hrep hpos t₁) rfl hdepth
  have hget : (get : Dec Deserialiser) { d with s := s, currentTag := t₁ } =
    .ok { d with s := s, currentTag := t₁ } { d with s := s, currentTag := t₁ } := rfl
  simp only [Deserialiser.pos] at hpos
  refine ⟨e, d', ?_, he⟩
  rw [containerLoop_ready hready (by simp [hb]), bind_of_ok hrun, bind_of_ok hget,
    if_neg (by simp only [Deserialiser.pos]; omega), hrun']

/-- The loop is given enough rounds. -/
theorem Accepts.enoughRounds {f : Nat → Dec α} (h : ∀ rounds, c.length < rounds →
    Accepts (f rounds) P n c after t t') :
    Accepts (do let d ← get; f (d.s.unread.length + 1)) P n c after t t' := by
  intro saved data d hready htag hdepth
  obtain ⟨rest, -, hlen⟩ := hready.length_eq
  have hunread := hready.represents.length_unread
  have hget : (get : Dec Deserialiser) d = .ok d d := rfl
  rw [bind_of_ok hget]
  refine h _ ?_ saved data d hready htag hdepth
  simp only [Deserialiser.pos] at hlen
  omega

theorem Rejects.enoughRounds {f : Nat → Dec α} (h : ∀ rounds, c.length < rounds →
    Rejects (f rounds) n c after t) :
    Rejects (do let d ← get; f (d.s.unread.length + 1)) n c after t := by
  intro saved data d hready htag hdepth
  obtain ⟨rest, -, hlen⟩ := hready.length_eq
  have hunread := hready.represents.length_unread
  have hget : (get : Dec Deserialiser) d = .ok d d := rfl
  rw [bind_of_ok hget]
  refine h _ ?_ saved data d hready htag hdepth
  simp only [Deserialiser.pos] at hlen
  omega

end Rest

end Securepath.Serialisation
