import Securepath.Serialisation.Allocation

/-!
# Elements and what stands behind them

The decoder asks for the ends of the elements it entered in front of a header and where an element
is left, and nowhere else: a string is read by its own length. Two decoders whose octets are the
same up to the end of an element stay together as long as nothing in it goes further than what is
around it.
-/

namespace Securepath.Serialisation

open StateExcept BufferedStream

variable {α β : Type} {b : Octets} {d d' d₁ d₂ : Deserialiser}

/-! ## What goes too far -/

/-- The end of the innermost element that was entered, or that of the octets. -/
def Deserialiser.limit (b : Octets) (d : Deserialiser) : Nat := d.seqPos.headD b.length

/-- What is left in front of it. -/
def Deserialiser.inside (b : Octets) (d : Deserialiser) : Octets := (b.take (d.limit b)).drop d.pos

/-- No whole header is left. -/
def Deserialiser.HeaderCut (b : Octets) (d : Deserialiser) : Prop :=
  parseHeader (d.inside b) = .error Error.endOfStream

/-- In front of a whole header there is something left. -/
theorem Deserialiser.lt_limit (hcut : ¬ d.HeaderCut b) : d.pos < d.limit b := by
  by_contra hle
  have hnil : d.inside b = [] := by
    have hlen := List.length_take (i := d.limit b) (l := b)
    exact List.drop_eq_nil_of_le (by omega)
  refine hcut ?_
  rw [Deserialiser.HeaderCut, hnil]
  rfl

/-- A header is looked for that is not all there. -/
def HeaderOverruns (b : Octets) (d : Deserialiser) : Prop :=
  d.isEndOfSequence = false ∧ d.HeaderCut b

/-- The element that is entered goes too far, or something inside does. -/
def OverrunsIn (b : Octets) (ident : Ident) (notConstructed : Error)
    (overruns : Deserialiser → Prop) (d : Deserialiser) : Prop :=
  HeaderOverruns b d ∨ ∃ d', startConstructed ident notConstructed d = .ok () d' ∧
    (d.limit b < d'.limit b ∨ overruns d')

/-- The content that is read goes too far. -/
def Prim.Overruns (b : Octets) (p : Prim) (tag : Option TagInfo) (d : Deserialiser) : Prop :=
  HeaderOverruns b d ∨ ∃ header d',
    decodeHeaderOf (getIdent tag p.defaultTag) d = .ok header d' ∧
      p.checkLength header.length = .ok () ∧ d'.limit b < d'.pos + header.length

/-- A decoding comes to an element that goes further than the element around it; outside of all
elements than `b`. -/
def Schema.Overruns [KeyOrder] (b : Octets) : {k : Kind} → (T : Schema k) → k.Arg →
    Deserialiser → Prop
  | _, .prim p, _, d => p.Overruns b d.currentTag { d with currentTag := none }
  | _, .trailing, _, _ => False
  | _, .nothing, _, _ => False
  | _, .fields a c, _, d => a.Overruns b () d ∨
      ∃ x d', amp (a.deserialise ()) d = .ok x d' ∧ c.Overruns b () d'
  | _, .sequence body, _, d =>
      OverrunsIn b (getIdent d.currentTag AsnTag.sequence) Error.invalidSequence
        (body.Overruns b ()) { d with currentTag := none }
  | _, .container _ elem, _, d =>
      OverrunsIn b (getIdent d.currentTag AsnTag.sequence) Error.invalidSequence
        (fun d => VisitsElement (amp (elem.deserialise ())) (elem.Overruns b ())
          (d.s.unread.length + 1) d) { d with currentTag := none }
  | _, .optional T, _, d => T.Overruns b () { d with s := d.s.startPeek.2 }
  | _, .tagged .explicitTag tag (.optional T), _, d =>
      OverrunsIn b tag.ident Error.invalidExplicitTag (T.Overruns b ())
        { d with s := d.s.startPeek.2 }
  | _, .tagged .implicitTag tag T, _, d => T.Overruns b () { d with currentTag := some tag }
  | _, .tagged .explicitTag tag T, _, d =>
      OverrunsIn b tag.ident Error.invalidExplicitTag (T.Overruns b ()) d
  | _, .choice alts, _, d => d.HeaderCut b ∨ ∃ tag d', nextTag d = .ok tag d' ∧
      alts.Overruns b tag d'
  | _, .noAlternative, _, _ => False
  | _, .alternative tag T rest, peeked, d =>
      if tag = peeked.tag then T.Overruns b () { d with currentTag := some ⟨none, tag⟩ }
      else rest.Overruns b peeked d

theorem Schema.overruns_explicit [KeyOrder] (tag : TagInfo) {T : Schema .type}
    (hT : T.isOptional = false) :
    (tagged .explicitTag tag T).Overruns b () d ↔
      OverrunsIn b tag.ident Error.invalidExplicitTag (T.Overruns b ()) d := by
  cases T <;> first | exact Iff.rfl | cases hT

/-! ## Two decoders -/

/-- What follows `b` on two sides, the peeks that are open there, and the ends of elements that go
on behind `b`. -/
structure Sides (b : Octets) where
  x₁ : Octets
  x₂ : Octets
  saved₁ : List Peek
  saved₂ : List Peek
  outer : List Nat

namespace Sides

variable {o : Sides b}

/-- The decoders stand at the same place of `b`, in elements that end in `b`; there are some if
others go on behind it. -/
structure Together (o : Sides b) (d₁ d₂ : Deserialiser) : Prop where
  first : d₁.Reads o.saved₁ (b ++ o.x₁)
  second : d₂.Reads o.saved₂ (b ++ o.x₂)
  pos : d₁.pos = d₂.pos
  seqPos : d₁.seqPos = d₂.seqPos
  tag : d₁.currentTag = d₂.currentTag
  within : d₁.pos ≤ b.length
  ends : ∃ own, d₁.seqPos = own ++ o.outer ∧ (∀ e ∈ own, e ≤ b.length) ∧ (own = [] → o.outer = [])

/-- Both return the same value, or both throw the same error; the decoders are together behind a
value and in front of a missing element. -/
def EndTogether (o : Sides b) :
    EStateM.Result Error Deserialiser α → EStateM.Result Error Deserialiser α → Prop :=
  Agree (fun _ d₁ d₂ => o.Together d₁ d₂) fun e₁ e₂ d₁ d₂ =>
    e₁ = e₂ ∧ (e₁.isElementNotPresent = true → o.Together d₁ d₂)

namespace Together

/-- The decoders have moved on to the same place. -/
theorem moved (h : o.Together d₁ d₂) {s₁ s₂ : BufferedStream}
    (hrep₁ : Represents o.saved₁ (b ++ o.x₁) s₁) (hrep₂ : Represents o.saved₂ (b ++ o.x₂) s₂)
    (hpos : s₁.pos = s₂.pos) (hwithin : s₁.pos ≤ b.length) :
    o.Together { d₁ with s := s₁ } { d₂ with s := s₂ } :=
  ⟨⟨hrep₁, h.first.ex⟩, ⟨hrep₂, h.second.ex⟩, hpos, h.seqPos, h.tag, hwithin, h.ends⟩

theorem withTag (h : o.Together d₁ d₂) (tag : Option TagInfo) :
    o.Together { d₁ with currentTag := tag } { d₂ with currentTag := tag } :=
  ⟨⟨h.first.represents, h.first.ex⟩, ⟨h.second.represents, h.second.ex⟩, h.pos, h.seqPos, rfl,
    h.within, h.ends⟩

theorem limit_le (h : o.Together d₁ d₂) : d₁.limit b ≤ b.length := by
  obtain ⟨own, hseq, hown, houter⟩ := h.ends
  unfold Deserialiser.limit
  rw [hseq]
  cases own with
  | nil =>
      rw [houter rfl]
      exact le_refl _
  | cons e es => exact hown e (List.mem_cons_self ..)

/-- An element that ends in `b` can be left and there is still one if others go on behind it. -/
theorem deep (h : o.Together d₁ d₂) : o.outer = [] ∨ o.outer.length < d₁.seqPos.length := by
  obtain ⟨own, hseq, -, houter⟩ := h.ends
  cases own with
  | nil => exact .inl (houter rfl)
  | cons e es =>
      refine .inr ?_
      rw [hseq, List.length_append, List.length_cons]
      omega

theorem isEndOfSequence (h : o.Together d₁ d₂) : d₁.isEndOfSequence = d₂.isEndOfSequence := by
  unfold Deserialiser.isEndOfSequence
  rw [h.seqPos, h.pos]

/-- What is left, and then what stands behind the end. -/
theorem drop_append (h : o.Together d₁ d₂) (hlt : d₁.pos < d₁.limit b) (x : Octets) :
    (b ++ x).drop d₁.pos = d₁.inside b ++ (b.drop (d₁.limit b) ++ x) := by
  have hle := h.limit_le
  have hsplit : b ++ x = b.take (d₁.limit b) ++ (b.drop (d₁.limit b) ++ x) := by
    rw [← List.append_assoc, List.take_append_drop]
  rw [hsplit, List.drop_append_of_le_length (by rw [List.length_take]; omega)]
  rfl

end Together

/-! ## What each operation keeps together -/

/-- Two decoders stay together where nothing goes too far. -/
def Local (b : Octets) (overruns : Deserialiser → Prop) (m : Dec α) : Prop :=
  ∀ (o : Sides b) d₁ d₂, o.Together d₁ d₂ → ¬ overruns d₁ → o.EndTogether (m d₁) (m d₂)

namespace Local

variable {m : Dec α} {overruns overruns' : Deserialiser → Prop}

theorem mono (hm : Local b overruns m) (h : ∀ d, overruns d → overruns' d) :
    Local b overruns' m :=
  fun o d₁ d₂ htogether hnot => hm o d₁ d₂ htogether fun hover => hnot (h d₁ hover)

theorem bind {f : α → Dec β} {overrunsThen : α → Deserialiser → Prop} (hm : Local b overruns m)
    (hf : ∀ v, Local b (overrunsThen v) (f v)) :
    Local b (fun d => overruns d ∨ ∃ v d', m d = .ok v d' ∧ overrunsThen v d') (m >>= f) := by
  intro o d₁ d₂ h hnot
  obtain ⟨hfirst, hrest⟩ := not_or.mp hnot
  rcases StateExcept.Agree.same_outcome (hm o d₁ d₂ h hfirst) with
    ⟨v, t₁, t₂, hrun₁, hrun₂, ht⟩ | ⟨e, e', t₁, t₂, hrun₁, hrun₂, he⟩
  · rw [bind_of_ok hrun₁, bind_of_ok hrun₂]
    exact hf v o t₁ t₂ ht fun hover => hrest ⟨v, t₁, hrun₁, hover⟩
  · rw [bind_of_error hrun₁, bind_of_error hrun₂]
    exact he

/-- Nothing goes too far in the second part. -/
theorem bindLeft {f : α → Dec β} (hm : Local b overruns m)
    (hf : ∀ v, Local b (fun _ => False) (f v)) : Local b overruns (m >>= f) := by
  refine (hm.bind hf).mono ?_
  rintro d (hover | ⟨v, d', -, hfalse⟩)
  · exact hover
  · exact hfalse.elim

theorem pure (v : α) : Local b overruns (pure v) := fun _ _ _ h _ => ⟨rfl, h⟩

theorem throw (e : Error) : Local b overruns (throw e : Dec α) := fun _ _ _ h _ => ⟨rfl, fun _ => h⟩

theorem liftExcept (y : Except Error α) : Local b overruns (liftExcept y) := by
  cases y with
  | ok v => exact .pure v
  | error e => exact .throw e

theorem rethrow : Local b overruns rethrow := by
  intro o d₁ d₂ h _
  simp only [Serialisation.rethrow, h.first.ex, h.second.ex]
  exact ⟨rfl, h⟩

theorem amp (hm : Local b overruns m) : Local b overruns (amp m) :=
  hm.bindLeft fun v => rethrow.bindLeft fun _ => .pure v

theorem useCurrentTag {f : Option TagInfo → Dec α}
    {overrunsThen : Option TagInfo → Deserialiser → Prop}
    (hf : ∀ tag, Local b (overrunsThen tag) (f tag)) :
    Local b (fun d => overrunsThen d.currentTag { d with currentTag := none })
      (useCurrentTag >>= f) := by
  intro o d₁ d₂ h hnot
  have hrun : ∀ d, (Serialisation.useCurrentTag >>= f) d =
      f d.currentTag { d with currentTag := none } := fun _ => rfl
  rw [hrun, hrun, ← h.tag]
  exact hf d₁.currentTag o _ _ (h.withTag none) hnot

theorem setCurrentTag (tag : TagInfo) (hm : Local b overruns m) :
    Local b (fun d => overruns { d with currentTag := some tag })
      ((modify fun d => { d with currentTag := some tag }) >>= fun _ => m) :=
  fun o _ _ h hnot => hm o _ _ (h.withTag (some tag)) hnot

end Local

namespace Together

/-- Where a whole header is left it is the same for both, and they stand behind it at the same
place. -/
theorem parse (h : o.Together d₁ d₂) (hcut : ¬ d₁.HeaderCut b) :
    (∃ e, parseHeader ((b ++ o.x₁).drop d₁.pos) = .error e ∧
      parseHeader ((b ++ o.x₂).drop d₂.pos) = .error e) ∨
    ∃ hd r₁ r₂, parseHeader ((b ++ o.x₁).drop d₁.pos) = .ok (hd, r₁) ∧
      parseHeader ((b ++ o.x₂).drop d₂.pos) = .ok (hd, r₂) ∧
      ∀ p₁ p₂, p₁ ≤ (b ++ o.x₁).length → p₂ ≤ (b ++ o.x₂).length →
        (b ++ o.x₁).drop p₁ = r₁ → (b ++ o.x₂).drop p₂ = r₂ → p₁ = p₂ ∧ p₁ ≤ d₁.limit b := by
  have hlt := Deserialiser.lt_limit hcut
  have hle := h.limit_le
  -- a parser that stops in front of the end does not see what is behind it
  rw [← h.pos, h.drop_append hlt, h.drop_append hlt]
  cases hp : parseHeader (d₁.inside b) with
  | error e =>
      rcases frontRead_parseHeader.error _ _ hp with rfl | hsame
      · exact absurd hp hcut
      · exact .inl ⟨e, hsame _, hsame _⟩
  | ok y =>
      obtain ⟨hd, r⟩ := y
      refine .inr ⟨hd, _, _, frontRead_parseHeader.ok_append hp _,
        frontRead_parseHeader.ok_append hp _, ?_⟩
      intro p₁ p₂ hp₁ hp₂ hr₁ hr₂
      have hlen₁ := congrArg List.length hr₁
      have hlen₂ := congrArg List.length hr₂
      simp only [List.length_drop, List.length_append] at hp₁ hp₂ hlen₁ hlen₂
      omega

/-- Neither decoder is at the end of the element around it or of the octets. -/
theorem not_absent (h : o.Together d₁ d₂) (hend : d₁.isEndOfSequence = false)
    (hcut : ¬ d₁.HeaderCut b) :
    ¬ d₁.Absent (b ++ o.x₁) ∧ ¬ d₂.Absent (b ++ o.x₂) := by
  have hlt := Deserialiser.lt_limit hcut
  have hle := h.limit_le
  have hpos := h.pos
  constructor
  · rintro (habsent | ⟨-, habsent⟩)
    · cases hend.symm.trans habsent
    · rw [List.length_append] at habsent
      omega
  · rintro (habsent | ⟨-, habsent⟩)
    · cases (h.isEndOfSequence.symm.trans hend).symm.trans habsent
    · rw [List.length_append] at habsent
      omega

end Together

namespace Local

theorem header (ident : Ident) : Local b (HeaderOverruns b) (decodeHeaderOf ident) := by
  intro o d₁ d₂ h hnot
  cases hend : d₁.isEndOfSequence with
  | true =>
      obtain ⟨s₁, hrun₁, hrep₁, hpos₁⟩ :=
        decodeHeaderOf_of_absent h.first.represents (.inl hend) ident
      obtain ⟨s₂, hrun₂, hrep₂, hpos₂⟩ :=
        decodeHeaderOf_of_absent h.second.represents (.inl (h.isEndOfSequence ▸ hend)) ident
      rw [hrun₁, hrun₂]
      refine ⟨rfl, fun _ => h.moved hrep₁ hrep₂ ?_ ?_⟩
      · rw [hpos₁, hpos₂, h.pos]
      · exact hpos₁.trans_le h.within
  | false =>
      have hcut : ¬ d₁.HeaderCut b := fun hcut => hnot ⟨hend, hcut⟩
      obtain ⟨hpresent₁, hpresent₂⟩ := h.not_absent hend hcut
      rcases h.parse hcut with ⟨e, he₁, he₂⟩ | ⟨hd, r₁, r₂, hok₁, hok₂, hsame⟩
      · obtain ⟨s₁, hrun₁⟩ := decodeHeaderOf_of_error h.first.represents hpresent₁ he₁ ident
        obtain ⟨s₂, hrun₂⟩ := decodeHeaderOf_of_error h.second.represents hpresent₂ he₂ ident
        rw [hrun₁, hrun₂]
        refine ⟨rfl, fun he => ?_⟩
        rw [parseHeader_error h.first he₁] at he
        cases he
      · obtain ⟨s₁, hrep₁, hr₁, hrun₁⟩ :=
          decodeHeaderOf_of_ok h.first.represents hpresent₁ hok₁ ident
        obtain ⟨s₂, hrep₂, hr₂, hrun₂⟩ :=
          decodeHeaderOf_of_ok h.second.represents hpresent₂ hok₂ ident
        obtain ⟨hpos, hwithin⟩ := hsame s₁.pos s₂.pos hrep₁.pos_le hrep₂.pos_le hr₁ hr₂
        have hmoved := h.moved hrep₁ hrep₂ hpos (hwithin.trans h.limit_le)
        rw [hrun₁, hrun₂]
        split
        · exact ⟨rfl, hmoved⟩
        · exact ⟨rfl, fun _ => hmoved⟩

theorem read (n : Nat) :
    Local b (fun d => d.limit b < d.pos + n) (OctetReader.read n : Dec Octets) := by
  intro o d₁ d₂ h hnot
  have hpos := h.pos
  have hle := h.limit_le
  obtain ⟨s₁, hrun₁, hrep₁, hpos₁⟩ := readOctets_of_le h.first.represents (n := n)
    (by rw [List.length_append]; omega)
  obtain ⟨s₂, hrun₂, hrep₂, hpos₂⟩ := readOctets_of_le h.second.represents (n := n)
    (by rw [List.length_append]; omega)
  have hsame : ∀ x, ((b ++ x).drop d₁.pos).take n = (b.drop d₁.pos).take n := by
    intro x
    rw [List.drop_append_of_le_length h.within,
      List.take_append_of_le_length (by rw [List.length_drop]; omega)]
  rw [hrun₁, hrun₂, ← hpos, hsame, hsame]
  exact ⟨rfl, h.moved hrep₁ hrep₂ (by omega) (by omega)⟩

theorem decodePrim (p : Prim) (tag : Option TagInfo) :
    Local b (p.Overruns b tag) (p.decode tag) := by
  have hcontent : ∀ hd : AsnHeader,
      Local b (fun d => p.checkLength hd.length = .ok () ∧ d.limit b < d.pos + hd.length)
        (Serialisation.liftExcept (p.checkLength hd.length) >>= fun _ =>
          OctetReader.read hd.length >>= fun buf =>
            Serialisation.liftExcept (p.ofContent buf)) := by
    intro hd
    cases hcheck : p.checkLength hd.length with
    | error e => exact fun o d₁ d₂ h _ => ⟨rfl, fun _ => h⟩
    | ok u =>
        have hread := (read (b := b) hd.length).bindLeft fun buf => .liftExcept (p.ofContent buf)
        exact hread.mono fun d hover => ⟨rfl, hover⟩
  exact ((header _).bind hcontent).mono fun d => id

theorem decodeTrailing : Local b (fun _ => False) decodeTrailing := by
  intro o d₁ d₂ h _
  have hget : ∀ d : Deserialiser, (get : Dec Deserialiser) d = .ok d d := fun _ => rfl
  rw [Serialisation.decodeTrailing, bind_of_ok (hget d₁), bind_of_ok (hget d₂), ← h.seqPos,
    ← h.pos]
  cases hseq : d₁.seqPos with
  | nil => exact ⟨rfl, fun _ => h⟩
  | cons e es =>
      simp only
      split
      · refine read (e - d₁.pos) o d₁ d₂ h ?_
        simp only [Deserialiser.limit, hseq, List.headD_cons]
        omega
      · exact ⟨rfl, h⟩

end Local

/-! ## Elements -/

/-- An element that ends in `b` is left at the same place. -/
theorem Together.pop (h : o.Together d₁ d₂)
    (hdeep : o.outer = [] ∨ o.outer.length + 1 < d₁.seqPos.length) :
    ∃ d₁' d₂', pop d₁ = .ok () d₁' ∧ pop d₂ = .ok () d₂' ∧ o.Together d₁' d₂' := by
  have hseq₂ := h.seqPos
  obtain ⟨own, hseq, hown, houter⟩ := h.ends
  cases own with
  | nil =>
      have hnil : ∀ d : Deserialiser, d.seqPos = [] → Serialisation.pop d = .ok () d := by
        intro d hd
        have hget : (get : Dec Deserialiser) d = .ok d d := rfl
        rw [Serialisation.pop, bind_of_ok hget]
        simp only [hd]
        rfl
      rw [houter rfl] at hseq
      exact ⟨d₁, d₂, hnil d₁ hseq, hnil d₂ (hseq₂ ▸ hseq), h⟩
  | cons e own =>
      have he : e ≤ b.length := hown e (List.mem_cons_self ..)
      have hpos := h.pos
      have hwithin := h.within
      obtain ⟨s₁, hrun₁, hrep₁, hpos₁⟩ := pop_of_le h.first.represents hseq
        (by rw [List.length_append]; omega)
      obtain ⟨s₂, hrun₂, hrep₂, hpos₂⟩ := pop_of_le h.second.represents (hseq₂ ▸ hseq)
        (by rw [List.length_append]; omega)
      refine ⟨_, _, hrun₁, hrun₂, ⟨hrep₁, h.first.ex⟩, ⟨hrep₂, h.second.ex⟩, ?_, rfl, h.tag, ?_,
        own, rfl, ?_, ?_⟩
      · have hsame : max d₁.pos e = max d₂.pos e := by rw [hpos]
        exact hpos₁.trans (hsame.trans hpos₂.symm)
      · exact hpos₁.trans_le (max_le hwithin he)
      · exact fun x hx => hown x (List.mem_cons_of_mem e hx)
      · rintro rfl
        refine hdeep.resolve_right fun hdeep => ?_
        rw [hseq] at hdeep
        simp only [List.cons_append, List.nil_append, List.length_cons] at hdeep
        omega

theorem Together.endSequence (h : o.Together d₁ d₂)
    (hdeep : o.outer = [] ∨ o.outer.length + 1 < d₁.seqPos.length) :
    o.Together (endSequence d₁) (endSequence d₂) := by
  obtain ⟨d₁', d₂', hrun₁, hrun₂, h'⟩ := h.pop hdeep
  unfold Serialisation.endSequence
  rw [hrun₁, hrun₂]
  exact h'

namespace Local

variable {m : Dec α} {overruns : Deserialiser → Prop}

/-- The element that is entered ends in the one around it, and so in `b`. -/
theorem push (n : Nat) :
    Local b (fun d => d.seqPos.length < maxStructureDepth ∧ d.limit b < d.pos + n) (push n) := by
  intro o d₁ d₂ h hnot
  have hle := h.limit_le
  unfold Serialisation.push
  rw [← h.seqPos, ← h.pos]
  split
  · exact ⟨rfl, fun _ => h⟩
  · obtain ⟨own, hseq, hown, -⟩ := h.ends
    refine ⟨rfl, ⟨h.first.represents, h.first.ex⟩, ⟨h.second.represents, h.second.ex⟩, h.pos, rfl,
      h.tag, h.within, (d₁.pos + n) :: own, ?_, ?_, nofun⟩
    · rw [hseq]
      rfl
    · intro e he
      rcases List.mem_cons.mp he with rfl | he
      · omega
      · exact hown e he

theorem startConstructed (ident : Ident) (e : Error) :
    Local b (OverrunsIn b ident e fun _ => False) (startConstructed ident e) := by
  have hpush : ∀ hd : AsnHeader, Local b
      (fun d => hd.isConstructed = true ∧ d.seqPos.length < maxStructureDepth ∧
        d.limit b < d.pos + hd.length)
      (if hd.isConstructed then Serialisation.push hd.length
        else MonadExcept.throw e : Dec Unit) := by
    intro hd
    split
    · exact (push hd.length).mono fun d hover => ⟨‹_›, hover⟩
    · exact throw e
  refine ((header ident).bind hpush).mono ?_
  rintro d (hheader | ⟨hd, d', hrun, hconstructed, hdepth, hfar⟩)
  · exact .inl hheader
  · have hentered : Serialisation.startConstructed ident e d =
        .ok () { d' with seqPos := (d'.pos + hd.length) :: d'.seqPos } := by
      rw [Serialisation.startConstructed, bind_of_ok hrun, if_pos hconstructed]
      unfold Serialisation.push
      rw [if_neg (Nat.not_le_of_lt hdepth)]
    -- the header alone leaves the stack as it was
    have hseq : d'.seqPos = d.seqPos := by
      rcases decodeHeaderOf_run ident d with ⟨hd', s, hrun'⟩ | ⟨e', s, hrun'⟩
      · cases hrun.symm.trans hrun'
        rfl
      · cases hrun.symm.trans hrun'
    refine .inr ⟨_, hentered, .inl ?_⟩
    unfold Deserialiser.limit at hfar ⊢
    rw [hseq] at hfar
    exact hfar

/-- An element is entered by both, and what is left inside is not shallower. -/
theorem enter {m : Dec α} {rest : Dec β} (ident : Ident) (e : Error) (hm : Local b overruns m)
    (hstack : LeavesStack α m) (h : o.Together d₁ d₂) (hnot : ¬ OverrunsIn b ident e overruns d₁)
    (hrest : ∀ t₁ t₂, Agree
        (fun _ u₁ u₂ => o.Together u₁ u₂ ∧ (o.outer = [] ∨ o.outer.length + 1 < u₁.seqPos.length))
        (fun e₁ e₂ u₁ u₂ => e₁ = e₂ ∧ (e₁.isElementNotPresent = true → o.Together u₁ u₂ ∧
          (o.outer = [] ∨ o.outer.length + 1 < u₁.seqPos.length))) (m t₁) (m t₂) →
      o.EndTogether (rest t₁) (rest t₂)) :
    o.EndTogether ((Serialisation.startConstructed ident e >>= fun _ => rest) d₁)
      ((Serialisation.startConstructed ident e >>= fun _ => rest) d₂) := by
  have hstart : ¬ OverrunsIn b ident e (fun _ => False) d₁ := by
    rintro (hheader | ⟨d', hrun, hfar | hfalse⟩)
    · exact hnot (.inl hheader)
    · exact hnot (.inr ⟨d', hrun, .inl hfar⟩)
    · exact hfalse
  rcases StateExcept.Agree.same_outcome (startConstructed ident e o d₁ d₂ h hstart) with
    ⟨⟨⟩, t₁, t₂, hrun₁, hrun₂, ht⟩ | ⟨e₁, e₂, t₁, t₂, hrun₁, hrun₂, he⟩
  · rw [bind_of_ok hrun₁, bind_of_ok hrun₂]
    -- the stack is one deeper inside, so that what is taken off it again ends in `b`
    have hlonger : t₁.seqPos.length = d₁.seqPos.length + 1 := by
      rcases startConstructed_run ident e d₁ with ⟨x, s, hrun⟩ | ⟨e', s, hrun⟩
      · cases hrun₁.symm.trans hrun
        rfl
      · cases hrun₁.symm.trans hrun
    have hdeep : ∀ {u : Deserialiser}, NotShallower t₁ u →
        o.outer = [] ∨ o.outer.length + 1 < u.seqPos.length := by
      intro u hu
      refine h.deep.imp id fun hlt => ?_
      rcases hu with hu | hu
      · omega
      · rw [hu]
        omega
    have hinside : ¬ overruns t₁ := fun hover => hnot (.inr ⟨t₁, hrun₁, .inr hover⟩)
    refine hrest t₁ t₂ ?_
    rcases StateExcept.Agree.same_outcome (hm o t₁ t₂ ht hinside) with
      ⟨v, u₁, u₂, hbody₁, hbody₂, hu⟩ | ⟨e₁, e₂, u₁, u₂, hbody₁, hbody₂, hsame, hu⟩
    · rw [hbody₁, hbody₂]
      exact ⟨rfl, hu, hdeep (hstack.of_ok hbody₁)⟩
    · rw [hbody₁, hbody₂]
      exact ⟨hsame, fun he => ⟨hu he, hdeep (hstack.of_error hbody₁)⟩⟩
  · rw [bind_of_error hrun₁, bind_of_error hrun₂]
    exact he

theorem inSequence (hm : Local b overruns m) (hstack : LeavesStack α m) :
    Local b (fun d => OverrunsIn b (getIdent d.currentTag AsnTag.sequence) Error.invalidSequence
      overruns { d with currentTag := none }) (inSequence m) := by
  have hscope : ∀ tag : Option TagInfo,
      Local b (OverrunsIn b (getIdent tag AsnTag.sequence) Error.invalidSequence overruns)
        (startSequence tag >>= fun _ => withDestructor m Serialisation.endSequence) := by
    intro tag o d₁ d₂ h hnot
    refine enter _ _ hm hstack h hnot fun t₁ t₂ hbody => ?_
    refine StateExcept.Agree.scopeExit hbody ?_ ?_
    · exact fun _ _ _ ⟨hu, hdeep⟩ => hu.endSequence hdeep
    · exact fun _ _ _ _ ⟨hsame, hu⟩ => ⟨hsame, fun he => (hu he).1.endSequence (hu he).2⟩
  exact useCurrentTag hscope

theorem element (tag : TagInfo) (f : α → β) (hm : Local b overruns m) (hstack : LeavesStack α m) :
    Local b (OverrunsIn b tag.ident Error.invalidExplicitTag overruns)
      (startExplicitTag tag >>= fun _ => m >>= fun v => endExplicitTag >>= fun _ =>
        Pure.pure (f v)) := by
  intro o d₁ d₂ h hnot
  refine enter _ _ hm hstack h hnot fun t₁ t₂ hbody => ?_
  refine StateExcept.Agree.bind hbody ?_ ?_
  · exact fun _ _ _ _ ⟨hsame, hu⟩ => ⟨hsame, fun he => (hu he).1⟩
  · intro v u₁ u₂ ⟨hu, hdeep⟩
    obtain ⟨u₁', u₂', hrun₁, hrun₂, hu'⟩ := hu.pop hdeep
    rw [endExplicitTag, bind_of_ok hrun₁, bind_of_ok hrun₂]
    exact ⟨rfl, hu'⟩

/-- A peek that is committed, or goes back to where it was started. -/
theorem optional {m : Dec (Option α)} (hm : Local b overruns m) :
    Local b (fun d => overruns { d with s := d.s.startPeek.2 })
      (catching Error.isElementNotPresent (peekGuard m) (return none)) := by
  intro o d₁ d₂ h hnot
  let o' : Sides b := { o with saved₁ := ⟨d₁.s.startPeek.1, d₁.pos⟩ :: o.saved₁
                               saved₂ := ⟨d₂.s.startPeek.1, d₂.pos⟩ :: o.saved₂ }
  -- the peeks are open on both sides while the optional is tried
  have hpeek : o'.Together { d₁ with s := d₁.s.startPeek.2 } { d₂ with s := d₂.s.startPeek.2 } :=
    ⟨h.first.startPeek, h.second.startPeek, h.pos, h.seqPos, h.tag, h.within, h.ends⟩
  have hcommit : ∀ t₁ t₂, o'.Together t₁ t₂ →
      o.Together { t₁ with s := t₁.s.endPeek d₁.s.startPeek.1 true }
        { t₂ with s := t₂.s.endPeek d₂.s.startPeek.1 true } := by
    intro t₁ t₂ ht
    obtain ⟨hrep₁, hpos₁⟩ := endPeek_commit ht.first.represents
    obtain ⟨hrep₂, hpos₂⟩ := endPeek_commit ht.second.represents
    exact ⟨⟨hrep₁, ht.first.ex⟩, ⟨hrep₂, ht.second.ex⟩, hpos₁.trans (ht.pos.trans hpos₂.symm),
      ht.seqPos, ht.tag, hpos₁.trans_le ht.within, ht.ends⟩
  have hback : ∀ t₁ t₂, o'.Together t₁ t₂ →
      o.Together { t₁ with s := t₁.s.endPeek d₁.s.startPeek.1 false }
        { t₂ with s := t₂.s.endPeek d₂.s.startPeek.1 false } := by
    intro t₁ t₂ ht
    obtain ⟨hrep₁, hpos₁⟩ := endPeek_restore ht.first.represents
    obtain ⟨hrep₂, hpos₂⟩ := endPeek_restore ht.second.represents
    exact ⟨⟨hrep₁, ht.first.ex⟩, ⟨hrep₂, ht.second.ex⟩, hpos₁.trans (h.pos.trans hpos₂.symm),
      ht.seqPos, ht.tag, hpos₁.trans_le h.within, ht.ends⟩
  have hguard : o.EndTogether (peekGuard m d₁) (peekGuard m d₂) := by
    refine StateExcept.Agree.scopeExit (hm o' _ _ hpeek hnot) ?_ ?_
    · exact fun _ => hcommit
    · exact fun _ _ t₁ t₂ ⟨hsame, ht⟩ => ⟨hsame, fun he => hback t₁ t₂ (ht he)⟩
  refine StateExcept.Agree.catching hguard ?_ ?_ ?_ ?_
  · exact fun e e' _ _ ⟨hsame, _⟩ => hsame ▸ rfl
  · exact fun _ _ _ ht => ht
  · exact fun e _ _ _ he ⟨_, ht⟩ => ⟨rfl, ht he⟩
  · exact fun _ _ _ _ _ hsame => hsame

theorem choice {f : TagInfo → Dec α} {overrunsThen : TagInfo → Deserialiser → Prop}
    (hf : ∀ tag, Local b (overrunsThen tag) (f tag)) :
    Local b (fun d => d.HeaderCut b ∨ ∃ tag d', nextTag d = .ok tag d' ∧ overrunsThen tag d')
      (nextTag >>= f) := by
  refine Local.bind ?_ hf
  intro o d₁ d₂ h hcut
  rcases nextTag_reads h.first with
    ⟨hd₁, r₁, s₁, hp₁, hrun₁, hrep₁, hpos₁⟩ | ⟨e₁, s₁, hp₁, hrun₁, he₁⟩
  all_goals rcases nextTag_reads h.second with
    ⟨hd₂, r₂, s₂, hp₂, hrun₂, hrep₂, hpos₂⟩ | ⟨e₂, s₂, hp₂, hrun₂, he₂⟩
  all_goals rcases h.parse hcut with ⟨e, hsame₁, hsame₂⟩ | ⟨hd, r, r', hsame₁, hsame₂, -⟩
  all_goals cases hp₁.symm.trans hsame₁
  all_goals cases hp₂.symm.trans hsame₂
  · rw [hrun₁, hrun₂]
    have hpos : s₁.pos = s₂.pos := hpos₁.trans (h.pos.trans hpos₂.symm)
    exact ⟨rfl, h.moved hrep₁ hrep₂ hpos (hpos₁.trans_le h.within)⟩
  · rw [hrun₁, hrun₂]
    refine ⟨rfl, fun he => ?_⟩
    rw [he₁] at he
    cases he

/-- The rounds of a container: each goes on in `b`, so there are enough for both. -/
theorem containerLoop {elem : Dec α} (helem : Local b overruns elem) (hahead : KeepsAhead α elem)
    (insert : List α → α → List α) {rounds₁ rounds₂ : Nat} (v : List α) (h : o.Together d₁ d₂)
    (hrounds₁ : b.length - d₁.pos < rounds₁) (hrounds₂ : b.length - d₁.pos < rounds₂)
    (hnot : ¬ VisitsElement elem overruns rounds₁ d₁) :
    o.EndTogether (containerLoop elem insert rounds₁ v d₁)
      (containerLoop elem insert rounds₂ v d₂) := by
  induction rounds₁ generalizing rounds₂ v d₁ d₂ with
  | zero => omega
  | succ rounds₁ ih =>
      -- the measure is what is left of `b`, which covers the rounds of either side
      obtain ⟨rounds₂, rfl⟩ : ∃ n, rounds₂ = n + 1 := ⟨rounds₂ - 1, by omega⟩
      have hget : ∀ d : Deserialiser, (get : Dec Deserialiser) d = .ok d d := fun _ => rfl
      rw [Serialisation.containerLoop, Serialisation.containerLoop, bind_of_ok (hget d₁),
        bind_of_ok (hget d₂), ← h.isEndOfSequence]
      cases hend : d₁.isEndOfSequence with
      | true => exact ⟨rfl, h⟩
      | false =>
          have hthis : ¬ overruns d₁ := fun hover => hnot ⟨hend, .inl hover⟩
          simp only [Bool.false_eq_true, if_false]
          rcases StateExcept.Agree.same_outcome (helem o d₁ d₂ h hthis) with
            ⟨temp, t₁, t₂, hrun₁, hrun₂, ht⟩ | ⟨e, e', t₁, t₂, hrun₁, hrun₂, he⟩
          · rw [bind_of_ok hrun₁, bind_of_ok hrun₂, bind_of_ok (hget t₁), bind_of_ok (hget t₂),
              ← ht.pos, ← h.pos]
            split
            · exact ⟨rfl, fun _ => ht⟩
            · next hmoved =>
                -- the position has not gone back, and it is not the same
                have hforward : d₁.pos ≤ t₁.pos := by
                  have hkept := hahead o.saved₁ _ d₁.pos d₁ (.inr ⟨h.first, le_refl _⟩)
                  rw [hrun₁] at hkept
                  rcases hkept with ⟨e, hex, -⟩ | ⟨-, hle⟩
                  · exact absurd (ht.first.ex.symm.trans hex) (by simp)
                  · exact hle
                have hin := ht.within
                refine ih _ ht (by omega) (by omega) fun hlater => ?_
                exact hnot ⟨hend, .inr ⟨temp, t₁, hrun₁, hmoved, hlater⟩⟩
          · rw [bind_of_error hrun₁, bind_of_error hrun₂]
            exact he

end Local

end Sides

/-! ## Every type -/

section

variable [KeyOrder]

theorem Schema.staysLocal {k : Kind} (T : Schema k) (arg : k.Arg) :
    Sides.Local b (T.Overruns b arg) (T.deserialise arg) := by
  have hstack : ∀ T : Schema .type, LeavesStack T.Val (amp (T.deserialise ())) := fun T =>
    LeavesStack.compositional.amp (LeavesStack.compositional.deserialise T ())
  induction k, T using Schema.tagInduction with
  | prim p => exact .useCurrentTag fun tag => .decodePrim p tag
  | trailing => exact .decodeTrailing
  | nothing => exact .pure ()
  | fields a c iha ihc =>
      exact (iha ()).amp.bind fun x => (ihc ()).amp.bindLeft fun y => .pure (x, y)
  | sequence body ih => exact (ih ()).amp.inSequence (hstack body)
  | container c elem ih =>
      refine Sides.Local.inSequence (fun o d₁ d₂ h hnot => ?_)
        (LeavesStack.compositional.bind LeavesStack.compositional.get fun d =>
          LeavesStack.compositional.containerLoop (hstack elem) _ _ _)
      have hget : ∀ d : Deserialiser, (get : Dec Deserialiser) d = .ok d d := fun _ => rfl
      have hrounds : ∀ {saved : List Peek} {x : Octets} {d : Deserialiser},
          d.Reads saved (b ++ x) → b.length - d.pos < d.s.unread.length + 1 := by
        intro saved x d hd
        rw [hd.represents.ahead, List.length_drop, List.length_append]
        unfold Deserialiser.pos
        omega
      rw [bind_of_ok (hget d₁), bind_of_ok (hget d₂)]
      refine (ih ()).amp.containerLoop ?_ _ _ h (hrounds h.first) ?_ hnot
      · exact KeepsAhead.compositional.amp (KeepsAhead.compositional.deserialise elem ())
      · rw [h.pos]
        exact hrounds h.second
  | optional T ih => exact ((ih ()).amp.bindLeft fun v => .pure (some v)).optional
  | implicit tag T ih =>
      rw [Schema.deserialise_implicit]
      exact .setCurrentTag tag (ih ()).amp
  | explicitOptional tag T ih => exact ((ih ()).amp.element tag some (hstack T)).optional
  | explicit tag T hT ih =>
      rw [Schema.deserialise_explicit tag hT]
      have helement := (ih ()).amp.element tag id (hstack T)
      exact helement.mono fun d => (Schema.overruns_explicit tag hT).mpr
  | choice alts ih => exact .choice fun tag => ih tag
  | noAlternative => exact .throw Error.noSuchChoiceTag
  | alternative tag T rest ih ihrest =>
      unfold Schema.deserialise
      split
      · next htag =>
          refine ((Sides.Local.setCurrentTag ⟨none, tag⟩ (ih ()).amp).amp.bindLeft
            fun v => .pure (Sum.inl v)).mono fun d hover => ?_
          rw [Schema.Overruns, if_pos htag]
          exact hover
      · next htag =>
          refine ((ihrest arg).bindLeft fun v => .pure (Sum.inr v)).mono fun d hover => ?_
          rw [Schema.Overruns, if_neg htag]
          exact hover

/-- Outside of all elements the octets end where `b` does. -/
def Sides.behind (b x : Octets) : Sides b := ⟨[], x, [], [], []⟩

omit [KeyOrder] in
theorem Sides.together_ofOctets (b x : Octets) :
    (Sides.behind b x).Together (.ofOctets b) (.ofOctets (b ++ x)) where
  first := ⟨(List.append_nil b).symm ▸ represents_ofOctets b, rfl⟩
  second := ⟨represents_ofOctets (b ++ x), rfl⟩
  pos := rfl
  seqPos := rfl
  tag := rfl
  within := Nat.zero_le _
  ends := ⟨[], rfl, nofun, fun _ => rfl⟩

/-- What a decoding returns or throws. -/
def Outcome {α : Type} : EStateM.Result Error Deserialiser α → Except Error α
  | .ok v _ => .ok v
  | .error e _ => .error e

theorem asnDerDeserialise_eq (T : Schema .type) (data : Octets) :
    asnDerDeserialise T data = Outcome (T.decode (.ofOctets data)) := by
  unfold asnDerDeserialise
  cases T.decode (.ofOctets data) <;> rfl

omit [KeyOrder] in
theorem Sides.EndTogether.outcome_eq {o : Sides b} {r₁ r₂ : EStateM.Result Error Deserialiser α}
    (h : o.EndTogether r₁ r₂) : Outcome r₁ = Outcome r₂ := by
  rcases StateExcept.Agree.same_outcome h with
    ⟨v, t₁, t₂, rfl, rfl, -⟩ | ⟨e, e', t₁, t₂, rfl, rfl, rfl, -⟩
  · rfl
  · rfl

/-- Where no element goes further than the one around it, and none further than the octets, what
follows the octets does not matter; nor does, inside of any element, what follows its end. -/
theorem element_local (T : Schema .type) (b : Octets) :
    (¬ T.Overruns b () (.ofOctets b) →
      ∀ x, asnDerDeserialise T (b ++ x) = asnDerDeserialise T b) ∧
    (∀ (o : Sides b) (d₁ d₂ : Deserialiser), o.Together d₁ d₂ → ¬ T.Overruns b () d₁ →
      Outcome (T.decode d₁) = Outcome (T.decode d₂)) := by
  have hinside : ∀ (o : Sides b) (d₁ d₂ : Deserialiser), o.Together d₁ d₂ →
      ¬ T.Overruns b () d₁ → Outcome (T.decode d₁) = Outcome (T.decode d₂) := by
    intro o d₁ d₂ h hnot
    exact Sides.EndTogether.outcome_eq ((T.staysLocal ()).amp o d₁ d₂ h hnot)
  refine ⟨?_, hinside⟩
  intro hnot x
  rw [asnDerDeserialise_eq, asnDerDeserialise_eq]
  exact (hinside _ _ _ (Sides.together_ofOctets b x) hnot).symm

end

/-- A string that goes as far as the sequence that it is in. -/
theorem element_local_octets :
    let _ := KeyOrder.unordered
    ∀ x, asnDerDeserialise (.sequence (.prim .octets)) ([0x30, 0x03, 0x04, 0x01, 0xaa] ++ x) =
      asnDerDeserialise (.sequence (.prim .octets)) [0x30, 0x03, 0x04, 0x01, 0xaa] := by
  intro _
  refine (@element_local .unordered (.sequence (.prim .octets)) [0x30, 0x03, 0x04, 0x01, 0xaa]).1 ?_
  rintro (⟨-, hcut⟩ | ⟨d', hrun, hinside⟩)
  · cases hcut
  · cases hrun
    rcases hinside with hfar | ⟨-, hcut⟩ | ⟨hd, d'', hrun, -, hfar⟩
    · exact absurd hfar (by decide)
    · cases hcut
    · cases hrun
      exact absurd hfar (by decide)

/-- The content of a string is read from behind the sequence that it is in. -/
theorem element_not_local :
    ¬ ∀ (_ : KeyOrder) (T : Schema .type) (b x : Octets), b ≠ [] → declaredLength b = b.length →
      ∀ v, asnDerDeserialise T (b ++ x) = .ok v ↔ asnDerDeserialise T b = .ok v := by
  intro h
  have hread : @asnDerDeserialise .unordered (.sequence (.prim .octets))
      ([0x30, 0x02, 0x04, 0x02] ++ [0xaa, 0xbb]) = .ok [0xaa, 0xbb] := by decide +kernel
  have hthrows : @asnDerDeserialise .unordered (.sequence (.prim .octets))
      [0x30, 0x02, 0x04, 0x02] = .error Error.endOfStream := by decide +kernel
  have hsame := h .unordered (.sequence (.prim .octets)) [0x30, 0x02, 0x04, 0x02] [0xaa, 0xbb]
    (by decide) (by decide +kernel) [0xaa, 0xbb]
  cases hthrows.symm.trans (hsame.mp hread)

end Securepath.Serialisation
