import Securepath.Serialisation.AbsentOptional
import Securepath.Serialisation.MissingElements

/-!
# Decoding in another place

What a decoder makes of octets does not depend on what stands in front of them. Two decoders that
stand at the same place of `x`, one of them with other octets in front, end alike: for members that
are numbers, strings, trailing data and sequences of these.
-/

namespace Securepath.Serialisation

open StateExcept BufferedStream

/-- Two places of the octets `x`, one with `before` in front, and the peeks that are open there. -/
structure Offset where
  before : Octets
  x : Octets
  saved₁ : List Peek
  saved₂ : List Peek

namespace Offset

variable {o : Offset} {α β : Type} {d₁ d₂ : Deserialiser}

/-- The decoders stand at the same place. -/
structure Aligned (o : Offset) (d₁ d₂ : Deserialiser) : Prop where
  first : d₁.Reads o.saved₁ (o.before ++ o.x)
  second : d₂.Reads o.saved₂ o.x
  pos : d₁.pos = o.before.length + d₂.pos
  seqPos : d₁.seqPos = d₂.seqPos.map (o.before.length + ·)
  tag₁ : d₁.currentTag = none
  tag₂ : d₂.currentTag = none

/-- Two runs end alike: with the same value, or both in front of a missing element, or both with
another error. `P` and `E` say what is entered behind a value and an error. -/
def EndAlike (o : Offset) (P E : List Nat → Prop) :
    EStateM.Result Error Deserialiser α → EStateM.Result Error Deserialiser α → Prop
  | .ok v₁ d₁, .ok v₂ d₂ => v₁ = v₂ ∧ o.Aligned d₁ d₂ ∧ P d₂.seqPos
  | .error e₁ d₁, .error e₂ d₂ => e₁.isElementNotPresent = e₂.isElementNotPresent ∧
      (e₁.isElementNotPresent = true →
        (o.Aligned d₁ d₂ ∧ E d₂.seqPos) ∨ (d₁.Recorded ∧ d₂.Recorded))
  | _, _ => False

/-- From the same place `m` ends alike, and it leaves what it enters. -/
def Alike (o : Offset) (m : Dec α) : Prop :=
  ∀ d₁ d₂, o.Aligned d₁ d₂ →
    o.EndAlike (· = d₂.seqPos) (· = d₂.seqPos) (m d₁) (m d₂)

theorem EndAlike.bind {m : Dec α} {f : α → Dec β} {P Q E : List Nat → Prop}
    (hm : o.EndAlike P E (m d₁) (m d₂))
    (hf : ∀ v d₁' d₂', o.Aligned d₁' d₂' → P d₂'.seqPos → o.EndAlike Q E (f v d₁') (f v d₂')) :
    o.EndAlike Q E ((m >>= f) d₁) ((m >>= f) d₂) := by
  cases h₁ : m d₁ with
  | ok v₁ d₁' =>
      cases h₂ : m d₂ with
      | ok v₂ d₂' =>
          rw [h₁, h₂] at hm
          obtain ⟨rfl, hd, hP⟩ := hm
          rw [bind_of_ok h₁, bind_of_ok h₂]
          exact hf v₁ d₁' d₂' hd hP
      | error e₂ d₂' =>
          rw [h₁, h₂] at hm
          exact hm.elim
  | error e₁ d₁' =>
      cases h₂ : m d₂ with
      | ok v₂ d₂' =>
          rw [h₁, h₂] at hm
          exact hm.elim
      | error e₂ d₂' =>
          rw [h₁, h₂] at hm
          rw [bind_of_error h₁, bind_of_error h₂]
          exact hm

namespace Alike

theorem bind {m : Dec α} {f : α → Dec β} (hm : o.Alike m) (hf : ∀ v, o.Alike (f v)) :
    o.Alike (m >>= f) := by
  intro d₁ d₂ h
  refine (hm d₁ d₂ h).bind fun v d₁' d₂' h' hseq => ?_
  rw [← hseq]
  exact hf v d₁' d₂' h'

theorem pure (v : α) : o.Alike (pure v) := fun _ _ h => ⟨rfl, h, rfl⟩

theorem throw (e : Error) : o.Alike (throw e : Dec α) :=
  fun _ _ h => ⟨rfl, fun _ => .inl ⟨h, rfl⟩⟩

theorem liftExcept (y : Except Error α) : o.Alike (liftExcept y) := by
  cases y with
  | ok v => exact .pure v
  | error e => exact .throw e

theorem rethrow : o.Alike rethrow := by
  intro d₁ d₂ h
  simp only [Serialisation.rethrow, h.first.ex, h.second.ex]
  exact ⟨rfl, h, rfl⟩

theorem amp {m : Dec α} (hm : o.Alike m) : o.Alike (amp m) :=
  hm.bind fun v => rethrow.bind fun _ => .pure v

theorem both {ma : Dec α} {mb : Dec β} (ha : o.Alike (Serialisation.amp ma))
    (hb : o.Alike (Serialisation.amp mb)) : o.Alike (both ma mb) :=
  ha.bind fun x => hb.bind fun y => .pure (x, y)

theorem useCurrentTag : o.Alike useCurrentTag := by
  intro d₁ d₂ h
  refine ⟨h.tag₁.trans h.tag₂.symm, ⟨⟨h.first.represents, h.first.ex⟩, ⟨h.second.represents,
    h.second.ex⟩, h.pos, h.seqPos, rfl, rfl⟩, rfl⟩

end Alike

/-- The octets ahead are the same. -/
theorem Aligned.drop_eq (h : o.Aligned d₁ d₂) :
    (o.before ++ o.x).drop d₁.pos = o.x.drop d₂.pos := by
  rw [h.pos, List.drop_append, List.drop_eq_nil_of_le (Nat.le_add_right ..), List.nil_append,
    Nat.add_sub_cancel_left]

/-- The decoders have read on in the same way. -/
theorem Aligned.moved (h : o.Aligned d₁ d₂) {s₁ s₂ : BufferedStream}
    (hrep₁ : Represents o.saved₁ (o.before ++ o.x) s₁) (hrep₂ : Represents o.saved₂ o.x s₂)
    (hpos : s₁.pos = o.before.length + s₂.pos) :
    o.Aligned { d₁ with s := s₁ } { d₂ with s := s₂ } :=
  ⟨⟨hrep₁, h.first.ex⟩, ⟨hrep₂, h.second.ex⟩, hpos, h.seqPos, h.tag₁, h.tag₂⟩

theorem Aligned.absent_iff (h : o.Aligned d₁ d₂) :
    d₁.Absent (o.before ++ o.x) ↔ d₂.Absent o.x := by
  have hend : d₁.isEndOfSequence = d₂.isEndOfSequence := by
    unfold Deserialiser.isEndOfSequence
    rw [h.seqPos, h.pos]
    cases d₂.seqPos with
    | nil => rfl
    | cons e es => simp only [List.map_cons, Nat.add_le_add_iff_left]
  have hpos : d₁.pos = (o.before ++ o.x).length ↔ d₂.pos = o.x.length := by
    rw [h.pos, List.length_append, Nat.add_left_cancel_iff]
  rw [Deserialiser.Absent, Deserialiser.Absent, hend, hpos, h.seqPos, List.map_eq_nil_iff]

namespace Alike

theorem header (ident : Ident) : o.Alike (decodeHeaderOf ident) := by
  intro d₁ d₂ h
  by_cases habsent : d₂.Absent o.x
  · obtain ⟨s₁, hrun₁, hrep₁, hpos₁⟩ :=
      decodeHeaderOf_of_absent h.first.represents (h.absent_iff.mpr habsent) ident
    obtain ⟨s₂, hrun₂, hrep₂, hpos₂⟩ :=
      decodeHeaderOf_of_absent h.second.represents habsent ident
    rw [hrun₁, hrun₂]
    refine ⟨rfl, fun _ => .inl ⟨h.moved hrep₁ hrep₂ ?_, rfl⟩⟩
    rw [hpos₁, hpos₂, h.pos]
  -- the octets ahead are the same, and so is the header
  have hpresent : ¬ d₁.Absent (o.before ++ o.x) := mt h.absent_iff.mp habsent
  cases hp : parseHeader (o.x.drop d₂.pos) with
  | error e =>
      obtain ⟨s₁, hrun₁⟩ :=
        decodeHeaderOf_of_error h.first.represents hpresent (h.drop_eq ▸ hp) ident
      obtain ⟨s₂, hrun₂⟩ := decodeHeaderOf_of_error h.second.represents habsent hp ident
      rw [hrun₁, hrun₂]
      refine ⟨rfl, fun he => ?_⟩
      rw [parseHeader_error h.second hp] at he
      cases he
  | ok y =>
      obtain ⟨hd, r⟩ := y
      obtain ⟨s₁, hrep₁, hr₁, hrun₁⟩ :=
        decodeHeaderOf_of_ok h.first.represents hpresent (h.drop_eq ▸ hp) ident
      obtain ⟨s₂, hrep₂, hr₂, hrun₂⟩ := decodeHeaderOf_of_ok h.second.represents habsent hp ident
      have hlen := congrArg List.length (hr₁.trans hr₂.symm)
      have hle₁ := hrep₁.pos_le
      have hle₂ := hrep₂.pos_le
      simp only [List.length_drop, List.length_append] at hlen hle₁
      have hmoved := h.moved hrep₁ hrep₂ (by omega)
      rw [hrun₁, hrun₂]
      split
      · exact ⟨rfl, hmoved, rfl⟩
      · exact ⟨rfl, fun _ => .inl ⟨hmoved, rfl⟩⟩

theorem read (n : Nat) : o.Alike (OctetReader.read n : Dec Octets) := by
  intro d₁ d₂ h
  have hpos := h.pos
  by_cases hfit : d₂.pos + n ≤ o.x.length
  · obtain ⟨s₁, hrun₁, hrep₁, hpos₁⟩ := readOctets_of_le h.first.represents (n := n)
      (by rw [List.length_append]; omega)
    obtain ⟨s₂, hrun₂, hrep₂, hpos₂⟩ := readOctets_of_le h.second.represents hfit
    rw [hrun₁, hrun₂, h.drop_eq]
    exact ⟨rfl, h.moved hrep₁ hrep₂ (by omega), rfl⟩
  · obtain ⟨s₁, hrun₁⟩ := readOctets_of_lt h.first.represents (n := n)
      (by rw [List.length_append]; omega)
    obtain ⟨s₂, hrun₂⟩ := readOctets_of_lt h.second.represents (Nat.lt_of_not_le hfit)
    rw [hrun₁, hrun₂]
    exact ⟨rfl, nofun⟩

theorem decodePrim (p : Prim) (tag : Option TagInfo) : o.Alike (p.decode tag) :=
  (header _).bind fun hd => (liftExcept _).bind fun _ => (read hd.length).bind fun _ =>
    liftExcept _

theorem decodeTrailing : o.Alike decodeTrailing := by
  intro d₁ d₂ h
  have hseq := h.seqPos
  have hget : ∀ d : Deserialiser, (get : Dec Deserialiser) d = .ok d d := fun _ => rfl
  rw [Serialisation.decodeTrailing, bind_of_ok (hget d₁), bind_of_ok (hget d₂)]
  cases hseq₂ : d₂.seqPos with
  | nil =>
      rw [hseq₂] at hseq
      rw [← hseq₂]
      simp only [hseq, hseq₂, List.map_nil]
      have hthrow := Alike.throw (α := Octets) Error.trailingOutsideSequence d₁ d₂ h
      rw [hseq₂] at hthrow
      exact hthrow
  | cons e es =>
      rw [hseq₂] at hseq
      simp only [hseq, List.map_cons]
      have hlt : d₁.pos < o.before.length + e ↔ d₂.pos < e := by
        rw [h.pos, Nat.add_lt_add_iff_left]
      have hsub : o.before.length + e - d₁.pos = e - d₂.pos := by
        rw [h.pos, Nat.add_sub_add_left]
      rw [← hseq₂]
      simp only [hlt, hsub]
      split
      · exact read _ d₁ d₂ h
      · exact ⟨rfl, h, rfl⟩

end Alike

/-! ## Sequences -/

theorem endAlike_push (h : o.Aligned d₁ d₂) (n : Nat) :
    o.EndAlike (fun l => l.tail = d₂.seqPos) (· = d₂.seqPos) (push n d₁) (push n d₂) := by
  have hlen : d₁.seqPos.length = d₂.seqPos.length := by rw [h.seqPos, List.length_map]
  unfold push
  rw [hlen]
  split
  · exact ⟨rfl, fun _ => .inl ⟨h, rfl⟩⟩
  · refine ⟨rfl, ⟨⟨h.first.represents, h.first.ex⟩, ⟨h.second.represents, h.second.ex⟩, h.pos, ?_,
      h.tag₁, h.tag₂⟩, rfl⟩
    rw [List.map_cons, h.pos, h.seqPos, Nat.add_assoc]

theorem endAlike_startConstructed (h : o.Aligned d₁ d₂) (ident : Ident) (notConstructed : Error) :
    o.EndAlike (fun l => l.tail = d₂.seqPos) (· = d₂.seqPos)
      (startConstructed ident notConstructed d₁) (startConstructed ident notConstructed d₂) := by
  refine (Alike.header ident d₁ d₂ h).bind fun hd d₁' d₂' h' hseq => ?_
  rw [← hseq]
  split
  · exact endAlike_push h' hd.length
  · exact ⟨rfl, fun _ => .inl ⟨h', rfl⟩⟩

/-- Leaving a sequence keeps the decoders aligned, or neither can. -/
theorem Aligned.endSequence (h : o.Aligned d₁ d₂) :
    (o.Aligned (endSequence d₁) (endSequence d₂) ∧
        (Serialisation.endSequence d₂).seqPos = d₂.seqPos.tail) ∨
      ((endSequence d₁).Recorded ∧ (Serialisation.endSequence d₂).Recorded) := by
  have hseq := h.seqPos
  have hpos := h.pos
  cases hseq₂ : d₂.seqPos with
  | nil =>
      rw [hseq₂] at hseq
      have hpop : ∀ d : Deserialiser, d.seqPos = [] → Serialisation.endSequence d = d := by
        intro d hd
        have hrun : pop d = .ok () d := by
          have hget : (get : Dec Deserialiser) d = .ok d d := rfl
          rw [pop, bind_of_ok hget]
          simp only [hd]
          rfl
        rw [Serialisation.endSequence, hrun]
      rw [hpop d₁ hseq, hpop d₂ hseq₂]
      exact .inl ⟨h, hseq₂⟩
  | cons e es =>
      rw [hseq₂, List.map_cons] at hseq
      by_cases he : e ≤ o.x.length
      · obtain ⟨s₁, hrun₁, hrep₁, hpos₁⟩ := pop_of_le h.first.represents hseq
          (by rw [List.length_append]; omega)
        obtain ⟨s₂, hrun₂, hrep₂, hpos₂⟩ := pop_of_le h.second.represents hseq₂ he
        simp only [Serialisation.endSequence, hrun₁, hrun₂]
        refine .inl ⟨⟨⟨hrep₁, h.first.ex⟩, ⟨hrep₂, h.second.ex⟩, ?_, rfl, h.tag₁, h.tag₂⟩, rfl⟩
        simp only [Deserialiser.pos] at hpos₁ hpos₂ hpos ⊢
        omega
      · obtain ⟨s₁, hrun₁⟩ := pop_of_lt h.first.represents hseq
          (by rw [List.length_append]; omega)
        obtain ⟨s₂, hrun₂⟩ := pop_of_lt h.second.represents hseq₂ (Nat.lt_of_not_le he)
        simp only [Serialisation.endSequence, hrun₁, hrun₂]
        exact .inr ⟨⟨_, rfl, rfl⟩, ⟨_, rfl, rfl⟩⟩

theorem amp_of_recorded {m : Dec α} {d d' : Deserialiser} {v : α} (hrun : m d = .ok v d')
    (h : d'.Recorded) : ∃ e d'', amp m d = .error e d'' ∧ e.isElementNotPresent = false := by
  obtain ⟨e, hex, he⟩ := h
  refine ⟨e, { d' with ex := none }, ?_, he⟩
  have hthrow : rethrow d' = .error e { d' with ex := none } := by
    simp only [rethrow, hex]
  rw [amp, bind_of_ok hrun, bind_of_error hthrow]

/-- The body of a sequence and its destructor. -/
theorem endAlike_scope {m : Dec α} {l : List Nat} (h : o.Aligned d₁ d₂) (hm : o.Alike m)
    (hseq : d₂.seqPos.tail = l) :
    o.EndAlike (· = l) (· = l) (amp (withDestructor m endSequence) d₁)
      (amp (withDestructor m endSequence) d₂) := by
  have hrun := hm d₁ d₂ h
  cases h₁ : m d₁ with
  | ok v₁ d₁' =>
      cases h₂ : m d₂ with
      | ok v₂ d₂' =>
          rw [h₁, h₂] at hrun
          obtain ⟨rfl, h', hseq'⟩ := hrun
          have hrun₁ : withDestructor m endSequence d₁ = .ok v₁ (endSequence d₁') :=
            scopeExit_of_ok h₁
          have hrun₂ : withDestructor m endSequence d₂ = .ok v₁ (endSequence d₂') :=
            scopeExit_of_ok h₂
          rcases h'.endSequence with ⟨hend, htail⟩ | ⟨hrec₁, hrec₂⟩
          · rw [amp_of_ok hrun₁ hend.first.ex, amp_of_ok hrun₂ hend.second.ex]
            exact ⟨rfl, hend, by rw [htail, hseq', hseq]⟩
          · obtain ⟨e₁, d₁'', hthrow₁, he₁⟩ := amp_of_recorded hrun₁ hrec₁
            obtain ⟨e₂, d₂'', hthrow₂, he₂⟩ := amp_of_recorded hrun₂ hrec₂
            rw [hthrow₁, hthrow₂]
            refine ⟨he₁.trans he₂.symm, fun he => ?_⟩
            rw [he₁] at he
            cases he
      | error e₂ d₂' =>
          rw [h₁, h₂] at hrun
          exact hrun.elim
  | error e₁ d₁' =>
      cases h₂ : m d₂ with
      | ok v₂ d₂' =>
          rw [h₁, h₂] at hrun
          exact hrun.elim
      | error e₂ d₂' =>
          rw [h₁, h₂] at hrun
          obtain ⟨hsame, hmissing⟩ := hrun
          have hrun₁ : withDestructor m endSequence d₁ = .error e₁ (endSequence d₁') :=
            scopeExit_of_error h₁
          have hrun₂ : withDestructor m endSequence d₂ = .error e₂ (endSequence d₂') :=
            scopeExit_of_error h₂
          rw [amp_of_error hrun₁, amp_of_error hrun₂]
          refine ⟨hsame, fun he => ?_⟩
          rcases hmissing he with ⟨h', hseq'⟩ | ⟨hrec₁, hrec₂⟩
          · rcases h'.endSequence with ⟨hend, htail⟩ | hrec
            · exact .inl ⟨hend, by rw [htail, hseq', hseq]⟩
            · exact .inr hrec
          · exact .inr ⟨endSequence_recorded hrec₁, endSequence_recorded hrec₂⟩

theorem Alike.inSequence {body : Dec α} (hbody : o.Alike body) :
    o.Alike (Serialisation.amp (Serialisation.inSequence body)) := by
  have hassoc : Serialisation.amp (Serialisation.inSequence body) =
      Serialisation.useCurrentTag >>= fun tag => startSequence tag >>= fun _ =>
        Serialisation.amp (withDestructor body endSequence) := by
    simp only [Serialisation.amp, Serialisation.inSequence, bind_assoc]
  rw [hassoc]
  refine Alike.useCurrentTag.bind fun tag => ?_
  intro d₁ d₂ h
  refine (endAlike_startConstructed h _ _).bind fun _ d₁' d₂' h' hseq => ?_
  exact endAlike_scope h' hbody hseq

/-! ## Absent optionals -/

theorem Aligned.startPeek (h : o.Aligned d₁ d₂) :
    Aligned { o with saved₁ := ⟨d₁.s.startPeek.1, d₁.pos⟩ :: o.saved₁
                     saved₂ := ⟨d₂.s.startPeek.1, d₂.pos⟩ :: o.saved₂ }
      { d₁ with s := d₁.s.startPeek.2 } { d₂ with s := d₂.s.startPeek.2 } :=
  ⟨h.first.startPeek, h.second.startPeek, h.pos, h.seqPos, h.tag₁, h.tag₂⟩

section Missing

variable {P E : List Nat → Prop} {e₁ e₂ : Error}

/-- What a run in front of a missing element says of the other. -/
theorem EndAlike.of_missing_second {r : EStateM.Result Error Deserialiser α}
    (h : o.EndAlike P E r (.error e₂ d₂)) (he : e₂.isElementNotPresent = true) :
    ∃ e₁ d₁, r = .error e₁ d₁ ∧ e₁.isElementNotPresent = true ∧
      ((o.Aligned d₁ d₂ ∧ E d₂.seqPos) ∨ (d₁.Recorded ∧ d₂.Recorded)) := by
  cases r with
  | ok v d₁ => exact h.elim
  | error e₁ d₁ =>
      obtain ⟨hsame, hmissing⟩ := h
      exact ⟨e₁, d₁, rfl, hsame.trans he, hmissing (hsame.trans he)⟩

theorem EndAlike.of_missing_first {r : EStateM.Result Error Deserialiser α}
    (h : o.EndAlike P E (.error e₁ d₁) r) (he : e₁.isElementNotPresent = true) :
    ∃ e₂ d₂, r = .error e₂ d₂ ∧ e₂.isElementNotPresent = true ∧
      ((o.Aligned d₁ d₂ ∧ E d₂.seqPos) ∨ (d₁.Recorded ∧ d₂.Recorded)) := by
  cases r with
  | ok v d₂ => exact h.elim
  | error e₂ d₂ =>
      obtain ⟨hsame, hmissing⟩ := h
      exact ⟨e₂, d₂, rfl, hsame.symm.trans he, hmissing he⟩

end Missing

/-- An optional that is absent in one place is absent in the other, and the decoder comes back to
where it stood. -/
theorem Aligned.absent_first {m : Dec α} (hm : ∀ o : Offset, o.Alike m) (h : o.Aligned d₁ d₂)
    {d₂' : Deserialiser} (hnone : handleOptional none m d₂ = .ok none d₂') (hex : d₂'.ex = none) :
    ∃ s, handleOptional none m d₁ = .ok none { d₁ with s := s } ∧
      Represents o.saved₁ (o.before ++ o.x) s ∧ s.pos = d₁.pos := by
  have hrun := ((hm _).bind fun v => .pure (some v)) _ _ h.startPeek
  obtain ⟨e₂, d₂', hrun₂, he₂, rfl⟩ := (handleOptional_eq_none_iff ..).mp hnone
  simp only [optionalContent] at hrun₂
  rw [hrun₂] at hrun
  obtain ⟨e₁, d₁', hrun₁, he₁, ⟨h', hseq⟩ | ⟨-, e, hrec, -⟩⟩ := hrun.of_missing_second he₂
  · obtain ⟨hrep, hpos⟩ := endPeek_restore h'.first.represents
    refine ⟨d₁'.s.endPeek d₁.s.startPeek.1 false, ?_, hrep, hpos⟩
    refine (handleOptional_eq_none_iff ..).mpr ⟨e₁, d₁', hrun₁, he₁, ?_⟩
    have hseq₁ : d₁'.seqPos = d₁.seqPos := by rw [h'.seqPos, hseq, h.seqPos]
    have htag : d₁'.currentTag = d₁.currentTag := h'.tag₁.trans h.tag₁.symm
    have hex₁ : d₁'.ex = d₁.ex := h'.first.ex.trans h.first.ex.symm
    rw [← hseq₁, ← htag, ← hex₁]
  · cases hex.symm.trans hrec

theorem Aligned.absent_second {m : Dec α} (hm : ∀ o : Offset, o.Alike m) (h : o.Aligned d₁ d₂)
    {d₁' : Deserialiser} (hnone : handleOptional none m d₁ = .ok none d₁') (hex : d₁'.ex = none) :
    ∃ d₂', handleOptional none m d₂ = .ok none d₂' ∧ d₂'.ex = none := by
  have hrun := ((hm _).bind fun v => .pure (some v)) _ _ h.startPeek
  obtain ⟨e₁, d₁', hrun₁, he₁, rfl⟩ := (handleOptional_eq_none_iff ..).mp hnone
  simp only [optionalContent] at hrun₁
  rw [hrun₁] at hrun
  obtain ⟨e₂, d₂', hrun₂, he₂, ⟨h', -⟩ | ⟨⟨e, hrec, -⟩, -⟩⟩ := hrun.of_missing_first he₁
  · exact ⟨_, (handleOptional_eq_none_iff ..).mpr ⟨e₂, d₂', hrun₂, he₂, rfl⟩, h'.second.ex⟩
  · cases hex.symm.trans hrec

end Offset

/-! ## One member and then the others -/

theorem amp_eq_ok {α : Type} {m : Dec α} {d d' : Deserialiser} {v : α} :
    amp m d = .ok v d' ↔ m d = .ok v d' ∧ d'.ex = none := by
  constructor
  · intro h
    obtain ⟨w, d₁, hrun, hrest⟩ := bind_eq_ok.mp h
    obtain ⟨⟨⟩, d₂, hthrow, hpure⟩ := bind_eq_ok.mp hrest
    simp only [rethrow] at hthrow
    cases hex : d₁.ex with
    | none =>
        simp only [hex] at hthrow
        cases hthrow
        cases hpure
        exact ⟨hrun, hex⟩
    | some e =>
        simp only [hex] at hthrow
        cases hthrow
  · rintro ⟨hrun, hex⟩
    exact amp_of_ok hrun hex

theorem both_eq_ok {α β : Type} {ma : Dec α} {mb : Dec β} {d d' : Deserialiser} {r : α × β} :
    both ma mb d = .ok r d' ↔
      ∃ d₁, amp ma d = .ok r.1 d₁ ∧ mb d₁ = .ok r.2 d' ∧ d'.ex = none := by
  constructor
  · intro h
    obtain ⟨v, d₁, hfirst, hrest⟩ := bind_eq_ok.mp h
    obtain ⟨w, d₂, hsecond, hpure⟩ := bind_eq_ok.mp hrest
    cases hpure
    exact ⟨d₁, hfirst, amp_eq_ok.mp hsecond⟩
  · rintro ⟨d₁, hfirst, hsecond, hex⟩
    exact bind_eq_ok.mpr ⟨_, d₁, hfirst, bind_eq_ok.mpr ⟨_, d', amp_of_ok hsecond hex, rfl⟩⟩

/-- Behind a member that is accepted the decoder is ready for the others. -/
theorem Accepts.both_run {α β : Type} {ma : Dec α} {v : α} {n : Nat} {b₁ b₂ data : Octets}
    {after : After} {saved : List Peek} {d : Deserialiser}
    (ha : Accepts ma (· = v) n b₁ ⟨b₂ ++ after.octets, after.behind⟩ none none)
    (hready : Ready saved data d (b₁ ++ b₂) after) (htag : d.currentTag = none)
    (hdepth : d.seqPos.length + n = maxStructureDepth) (mb : Dec β) :
    ∃ s, Ready saved data { d with s := s, currentTag := none } b₂ after ∧
      ∀ (r : α × β) d', Serialisation.both ma mb d = .ok r d' ↔
        r.1 = v ∧ mb { d with s := s, currentTag := none } = .ok r.2 d' ∧ d'.ex = none := by
  obtain ⟨v', s, hrun, hrep, hpos, rfl⟩ := ha.amp saved data d hready.first htag hdepth
  refine ⟨s, hready.second hrep hpos none, fun r d' => ?_⟩
  rw [both_eq_ok, hrun]
  constructor
  · rintro ⟨d₁, hfirst, hsecond⟩
    cases hfirst
    exact ⟨rfl, hsecond⟩
  · rintro ⟨hv, hsecond⟩
    exact ⟨_, by rw [hv], hsecond⟩

end Securepath.Serialisation
