import Securepath.Serialisation.RoundTrip

/-!
# Encodings that determine their value

What a signature is made over is written and never read back, so what counts is
that different values have different octets. An encoding delimits its value when
this holds whatever stands behind it. Trailing data delimits itself only at the
end of a sequence.
-/

namespace Securepath.Serialisation

variable {α : Type}

/-! ## Elements -/

theorem tagOctets_append_inj {h h' : AsnHeader} {l l' : Octets}
    (heq : tagOctets h ++ l = tagOctets h' ++ l') :
    { h with length := 0 } = { h' with length := 0 } ∧ l = l' := by
  have hp := parse_tag h l
  rw [heq, parse_tag h' l'] at hp
  simpa [eq_comm] using hp

theorem lengthOctets_append_inj {n n' : Nat} {l l' : Octets} (hn : n < 2 ^ 64) (hn' : n' < 2 ^ 64)
    (heq : lengthOctets n ++ l = lengthOctets n' ++ l') : n = n' ∧ l = l' := by
  have hp := parse_length hn l
  rw [heq, parse_length hn' l'] at hp
  simpa [eq_comm] using hp

/-- An element says where its content ends. -/
theorem element_append_inj {ident ident' : Ident} {k k' : Bool} {c c' r r' : Octets}
    (heq : element ident k c ++ r = element ident' k' c' ++ r')
    (hlen : (element ident k c ++ r).length < 2 ^ 64) : ident = ident' ∧ k = k' ∧ c = c' ∧ r = r' := by
  have hlen' := hlen
  rw [heq] at hlen'
  simp only [element, headerOctets, List.length_append] at hlen hlen'
  have hc : sizeOf64 c = c.length := sizeOf64_eq (by omega)
  have hc' : sizeOf64 c' = c'.length := sizeOf64_eq (by omega)
  simp only [element, headerOctets, hc, hc', List.append_assoc] at heq
  rcases tagOctets_append_inj heq with ⟨hheader, hrest⟩
  rcases lengthOctets_append_inj (by omega) (by omega) hrest with ⟨hlength, hcontent⟩
  simp only [AsnHeader.mk.injEq, true_and] at hheader
  rcases List.append_inj hcontent hlength with ⟨rfl, rfl⟩
  exact ⟨Prod.ext hheader.1 hheader.2.1, hheader.2.2, rfl, rfl⟩

theorem element_ne_nil (ident : Ident) (k : Bool) (c : Octets) : element ident k c ≠ [] := by
  intro h
  have hp := parse_tag ⟨ident.1, ident.2, sizeOf64 c, k⟩ (lengthOctets (sizeOf64 c) ++ c)
  simp only [element, headerOctets, List.append_assoc] at h
  rw [h] at hp
  cases hp

/-- A header has at most twenty octets. -/
theorem element_length_le (ident : Ident) (k : Bool) (c : Octets) :
    (element ident k c).length ≤ 20 + c.length := by
  have htag := highestBitBlock_le ident.2.toNat 7 (by omega : 0 < 8)
  have hlength := highestBitBlock_le (sizeOf64 c) 8 (by omega : 0 < 8)
  have htags : (tagOctets ⟨ident.1, ident.2, sizeOf64 c, k⟩).length ≤ 11 := by
    unfold tagOctets
    split
    · simp [longTagOctets]
      omega
    · simp
  have hlengths : (lengthOctets (sizeOf64 c)).length ≤ 9 := by
    unfold lengthOctets
    split
    · simp
      omega
    · simp
  simp only [element, headerOctets, List.length_append]
  omega

/-- The content octets of an integer or a string determine it. -/
theorem Prim.content_inj {p : Prim} {v w : p.Val} {c : Octets} (hp : p.IsExact)
    (hv : p.content v = .ok c) (hw : p.content w = .ok c) : v = w := by
  cases p with
  | bool =>
      simp only [content_bool, Except.ok.injEq] at hv hw
      have hbits : (if v then 1 else 0 : UInt8) = if w then 1 else 0 :=
        (List.cons.inj (hv.trans hw.symm)).1
      cases v <;> cases w <;> first | rfl | exact absurd hbits (by decide)
  | int t =>
      obtain ⟨b, hb, -, -, -, hback⟩ := encodeInteger_spec v
      obtain ⟨b', hb', -, -, -, hback'⟩ := encodeInteger_spec w
      rw [content, hb] at hv
      rw [content, hb'] at hw
      cases hv
      cases hw
      exact Subtype.ext (hback.symm.trans hback')
  | integer =>
      cases hv
      cases hw
      rfl
  | string => exact (text_eq_ok.mp hv).2.trans (text_eq_ok.mp hw).2.symm
  | octets => exact (text_eq_ok.mp hv).2.trans (text_eq_ok.mp hw).2.symm
  | real f => exact hp.elim
  | time => exact hp.elim

/-! ## Values -/

/-- Equal octets, and equal ones behind, come of equal values; where `last` is
set nothing stands behind. -/
def Encoding.Delimits (enc : α → Encoding) (last : Bool) : Prop :=
  ∀ v w t b c t₁ t₂ r s, enc v t = .ok (b, t₁) → enc w t = .ok (c, t₂) → b ++ r = c ++ s →
    (b ++ r).length < 2 ^ 64 → (last = true → r = [] ∧ s = []) → v = w ∧ r = s ∧ t₁ = t₂

/-- The encoding of a value is never empty. -/
def Encoding.Writes (enc : α → Encoding) : Prop := ∀ v t t', enc v t ≠ .ok ([], t')

/-- Elements that delimit themselves make up a list that does, up to its end. -/
theorem Encoding.Delimits.elements {enc : α → Encoding} (h : Delimits enc false)
    (hwrites : Writes enc) : Delimits (elements enc) true := by
  intro vs
  induction vs with
  | nil =>
      intro ws t b c t₁ t₂ r s hv hw heq _ hlast
      cases hv
      cases ws with
      | nil =>
          cases hw
          exact ⟨rfl, heq, rfl⟩
      | cons w ws =>
          obtain ⟨b₁, u, b₂, hb, -, rfl⟩ := Encoding.seq_eq_ok.mp hw
          obtain ⟨rfl, rfl⟩ := hlast rfl
          have : b₁ = [] := by simp at heq; exact heq.1
          exact absurd (this ▸ hb) (hwrites w t u)
  | cons v vs ih =>
      intro ws t b c t₁ t₂ r s hv hw heq hlen hlast
      obtain ⟨b₁, u, b₂, hb, hbs, rfl⟩ := Encoding.seq_eq_ok.mp hv
      cases ws with
      | nil =>
          cases hw
          obtain ⟨rfl, rfl⟩ := hlast rfl
          have : b₁ = [] := by simp at heq; exact heq.1
          exact absurd (this ▸ hb) (hwrites v t u)
      | cons w ws =>
          obtain ⟨c₁, u', c₂, hc, hcs, rfl⟩ := Encoding.seq_eq_ok.mp hw
          simp only [List.append_assoc] at heq hlen
          obtain ⟨rfl, hrest, rfl⟩ := h v w t b₁ c₁ u u' _ _ hb hc heq hlen nofun
          rw [List.length_append] at hlen
          obtain ⟨rfl, hend, ht⟩ := ih ws u b₂ c₂ t₁ t₂ r s hbs hcs hrest (by omega) hlast
          exact ⟨rfl, hend, ht⟩

/-- A constructed element delimits what its content delimits up to the end. -/
theorem Encoding.Delimits.sequence {enc : α → Encoding} (h : Delimits enc true) (last : Bool) :
    Delimits (fun v => .sequence (enc v)) last := by
  intro v w t b c t₁ t₂ r s hv hw heq hlen _
  obtain ⟨x, hx, rfl⟩ := Encoding.sequence_eq_ok.mp hv
  obtain ⟨y, hy, rfl⟩ := Encoding.sequence_eq_ok.mp hw
  have hsize : x.length < 2 ^ 64 := by
    simp only [element, List.length_append] at hlen
    omega
  obtain ⟨-, -, rfl, rfl⟩ := element_append_inj heq hlen
  obtain ⟨hvw, -, ht⟩ := h v w none x x t₁ t₂ [] [] hx hy rfl (by simpa using hsize)
    fun _ => ⟨rfl, rfl⟩
  exact ⟨hvw, rfl, ht⟩

theorem encoding_of_asnDerSerialise {T : Schema .type} {v : T.Val} {b : Octets}
    (h : asnDerSerialise T v = .ok b) : ∃ t, T.encoding v none = .ok (b, t) := by
  rw [asnDerSerialise_eq] at h
  cases henc : T.encoding v none with
  | error e => simp [henc, Except.map] at h
  | ok r =>
      rw [henc] at h
      cases h
      exact ⟨r.2, rfl⟩

namespace Schema

/-- Types that are written as one element. -/
def isElement : {k : Kind} → Schema k → Bool
  | _, prim _ => true
  | _, sequence _ => true
  | _, container _ _ => true
  | _, _ => false

def isNothing : {k : Kind} → Schema k → Bool
  | _, nothing => true
  | _, _ => false

/-- Types whose encoding determines the value: no optionals, tags and choices,
and trailing data at the end of a sequence only. -/
def Delimits : {k : Kind} → Schema k → Bool → Prop
  | _, prim p, _ => p.IsExact
  | _, trailing, last => last = true
  | _, nothing, _ => True
  | _, fields a b, last =>
      a.Delimits false ∧ b.Delimits last ∨ a.Delimits last ∧ b.isNothing = true
  | _, sequence body, _ => body.Delimits true
  | _, container _ elem, _ => elem.Delimits false ∧ elem.isElement = true
  | _, _, _ => False

theorem writes_of_isElement {T : Schema .type} (h : T.isElement = true) :
    Encoding.Writes T.encoding := by
  intro v t t' hnil
  cases T with
  | prim p =>
      simp only [encoding, Prim.encoding] at hnil
      split at hnil
      · cases hnil
      · simp only [Except.ok.injEq, Prod.mk.injEq] at hnil
        exact element_ne_nil _ _ _ hnil.1
  | sequence body =>
      obtain ⟨c, -, hb⟩ := Encoding.sequence_eq_ok.mp hnil
      exact element_ne_nil _ _ _ hb.symm
  | container c elem =>
      obtain ⟨c, -, hb⟩ := Encoding.sequence_eq_ok.mp hnil
      exact element_ne_nil _ _ _ hb.symm
  | _ => cases h

/-- The encoding of such a type determines the value. -/
theorem encoding_delimits {k : Kind} (T : Schema k) {last : Bool} (h : T.Delimits last) :
    Encoding.Delimits T.encoding last := by
  induction T generalizing last with
  | prim p =>
      intro v w t b c t₁ t₂ r s hv hw heq hlen _
      simp only [encoding, Prim.encoding] at hv hw
      split at hv
      · cases hv
      · rename_i x hx
        split at hw
        · cases hw
        · rename_i y hy
          cases hv
          cases hw
          obtain ⟨-, -, rfl, rfl⟩ := element_append_inj heq hlen
          exact ⟨Prim.content_inj h hx hy, rfl, rfl⟩
  | trailing =>
      intro v w t b c t₁ t₂ r s hv hw heq _ hlast
      cases hv
      cases hw
      obtain ⟨rfl, rfl⟩ := hlast h
      exact ⟨by simpa using heq, rfl, rfl⟩
  | nothing =>
      intro v w t b c t₁ t₂ r s hv hw heq _ _
      cases hv
      cases hw
      exact ⟨rfl, heq, rfl⟩
  | fields x y ihx ihy =>
      intro v w t b c t₁ t₂ r s hv hw heq hlen hlast
      obtain ⟨b₁, u, b₂, hb, hb', rfl⟩ := Encoding.seq_eq_ok.mp hv
      obtain ⟨c₁, u', c₂, hc, hc', rfl⟩ := Encoding.seq_eq_ok.mp hw
      simp only [List.append_assoc] at heq hlen
      rcases h with ⟨hx, hy⟩ | ⟨hx, hy⟩
      · obtain ⟨hfst, hrest, rfl⟩ := ihx hx v.1 w.1 t b₁ c₁ u u' _ _ hb hc heq hlen
          fun h => absurd h Bool.false_ne_true
        rw [List.length_append] at hlen
        obtain ⟨hsnd, hend, ht⟩ := ihy hy v.2 w.2 u b₂ c₂ t₁ t₂ r s hb' hc' hrest (by omega) hlast
        exact ⟨Prod.ext hfst hsnd, hend, ht⟩
      · cases y with
        | nothing =>
            cases hb'
            cases hc'
            obtain ⟨hfst, hend, ht⟩ := ihx hx v.1 w.1 t b₁ c₁ _ _ r s hb hc heq hlen hlast
            exact ⟨Prod.ext hfst rfl, hend, ht⟩
        | _ => cases hy
  | sequence body ih => exact (ih h).sequence last
  | container c elem ih =>
      exact ((ih h.1).elements (writes_of_isElement h.2)).sequence last
  | optional => exact h.elim
  | tagged => exact h.elim
  | choice => exact h.elim
  | noAlternative => exact h.elim
  | alternative => exact h.elim

/-- `asn_der_serialise` gives different octets for different values. -/
theorem asnDerSerialise_inj {T : Schema .type} (h : T.Delimits true) {v w : T.Val} {b : Octets}
    (hv : asnDerSerialise T v = .ok b) (hw : asnDerSerialise T w = .ok b)
    (hlen : b.length < 2 ^ 64) : v = w := by
  obtain ⟨t₁, hv'⟩ := encoding_of_asnDerSerialise hv
  obtain ⟨t₂, hw'⟩ := encoding_of_asnDerSerialise hw
  exact (encoding_delimits T h v w none b b t₁ t₂ [] [] hv' hw' rfl (by simpa using hlen)
    fun _ => ⟨rfl, rfl⟩).1

/-! ## Encodings that exist -/

/-- Every primitive value in `v` can be encoded; the types have no tags and no
choices. -/
def Savable : {k : Kind} → (T : Schema k) → T.Val → Prop
  | _, prim p, v => ∃ c, p.content v = .ok c
  | _, trailing, _ => True
  | _, nothing, _ => True
  | _, fields a b, v => a.Savable v.1 ∧ b.Savable v.2
  | _, sequence body, v => body.Savable v
  | _, container _ elem, v => ∀ e ∈ (v : List elem.Val), elem.Savable e
  | _, optional T, v => ∀ e ∈ (v : Option T.Val), T.Savable e
  | _, _, _ => False

theorem encoding_of_savable {k : Kind} (T : Schema k) {v : T.Val} (h : T.Savable v)
    (t : Option TagInfo) : ∃ b t', T.encoding v t = .ok (b, t') := by
  induction T generalizing t with
  | prim p =>
      obtain ⟨c, hc⟩ := h
      exact ⟨_, none, by simp only [encoding, Prim.encoding, hc]; rfl⟩
  | trailing => exact ⟨v, t, rfl⟩
  | nothing => exact ⟨[], t, rfl⟩
  | fields x y ihx ihy =>
      obtain ⟨b₁, t₁, h₁⟩ := ihx h.1 t
      obtain ⟨b₂, t₂, h₂⟩ := ihy h.2 t₁
      exact ⟨b₁ ++ b₂, t₂, Encoding.seq_eq_ok.mpr ⟨b₁, t₁, b₂, h₁, h₂, rfl⟩⟩
  | sequence body ih =>
      obtain ⟨c, t', hc⟩ := ih h none
      exact ⟨_, t', Encoding.sequence_eq_ok.mpr ⟨c, hc, rfl⟩⟩
  | container c elem ih =>
      have hall : ∀ (vs : List elem.Val) t, (∀ e ∈ vs, elem.Savable e) →
          ∃ b t', Encoding.elements elem.encoding vs t = .ok (b, t') := by
        intro vs
        induction vs with
        | nil => exact fun t _ => ⟨[], t, rfl⟩
        | cons e es ihes =>
            intro t hes
            obtain ⟨b₁, t₁, h₁⟩ := ih (hes e (List.mem_cons_self ..)) t
            obtain ⟨b₂, t₂, h₂⟩ := ihes t₁ fun e he => hes e (List.mem_cons_of_mem _ he)
            exact ⟨b₁ ++ b₂, t₂, Encoding.seq_eq_ok.mpr ⟨b₁, t₁, b₂, h₁, h₂, rfl⟩⟩
      obtain ⟨content, t', hc⟩ := hall v none h
      exact ⟨_, t', Encoding.sequence_eq_ok.mpr ⟨content, hc, rfl⟩⟩
  | optional T ih =>
      cases v with
      | none => exact ⟨[], t, rfl⟩
      | some v => exact ih (h v rfl) t
  | tagged => exact h.elim
  | choice => exact h.elim
  | noAlternative => exact h.elim
  | alternative => exact h.elim

theorem asnDerSerialise_of_savable {T : Schema .type} {v : T.Val} (h : T.Savable v) :
    ∃ b, asnDerSerialise T v = .ok b := by
  obtain ⟨b, t, hb⟩ := encoding_of_savable T h none
  exact ⟨b, by rw [asnDerSerialise_eq, hb]; rfl⟩

theorem savable_int {t : IntType} (v : FixedInt t) : (prim (.int t)).Savable v := by
  obtain ⟨b, hb, -⟩ := encodeInteger_spec v
  exact ⟨b, hb⟩

theorem savable_octets {v : Octets} (h : v.length ≤ maxStructureSize) :
    (prim .octets).Savable v :=
  ⟨v, Prim.text_eq_ok.mpr ⟨h, rfl⟩⟩

end Schema

end Securepath.Serialisation
