import Securepath.Serialisation.RoundTrip
import Securepath.Serialisation.Unwinding

/-!
# Truncated elements

What a deserialiser can do in front of an element that is not all there. A type that needs its
element either throws, or keeps an error that `operator&` throws, or leaves the end of an element
that it entered on the stack; only a type that may be absent returns where it stood.
-/

namespace Securepath.Serialisation

open StateExcept BufferedStream

variable {α β : Type} {saved : List Peek} {data : Octets} {d d' : Deserialiser}

/-- The header of the first element is incomplete, or declares more content than there is. -/
def Truncated (l : Octets) : Prop := ∀ hd r, parseHeader l = .ok (hd, r) → r.length < hd.length

/-- The type can be decoded where no element is. -/
def Schema.mayBeAbsent : {k : Kind} → Schema k → Bool
  | _, .prim _ => false
  | _, .trailing => false
  | _, .nothing => true
  | _, .fields a b => a.mayBeAbsent && b.mayBeAbsent
  | _, .sequence _ => false
  | _, .container _ _ => false
  | _, .optional _ => true
  | _, .tagged .implicitTag _ T => T.mayBeAbsent
  | _, .tagged .explicitTag _ (.optional _) => true
  | _, .tagged .explicitTag _ _ => false
  | _, .choice alts => alts.mayBeAbsent
  | _, .noAlternative => false
  | _, .alternative _ T rest => T.mayBeAbsent || rest.mayBeAbsent

/-- In front of an element that is not all there, as are those that were entered. -/
structure AtTruncated (saved : List Peek) (data : Octets) (d : Deserialiser) : Prop where
  reads : d.Reads saved data
  truncated : Truncated (data.drop d.pos)
  ends : ∀ x ∈ d.seqPos, data.length < x

/-- What a program may return with that found a truncated element. -/
def Detected (absent : Bool) (saved : List Peek) (data : Octets) (d d' : Deserialiser) : Prop :=
  d'.Recorded ∨ d.seqPos.length < d'.seqPos.length ∨
    (absent = true ∧ d'.Reads saved data ∧ d'.pos = d.pos ∧ d'.seqPos = d.seqPos)

/-- `m` returns only with `Detected`. -/
def Detects (absent : Bool) (m : Dec α) : Prop :=
  ∀ saved data d, AtTruncated saved data d → ∀ v d', m d = .ok v d' →
    Detected absent saved data d d'

namespace AtTruncated

theorem startPeek (h : AtTruncated saved data d) :
    AtTruncated (⟨d.s.startPeek.1, d.pos⟩ :: saved) data { d with s := d.s.startPeek.2 } where
  reads := ⟨(startPeek_spec h.reads.represents).1, h.reads.ex⟩
  truncated := h.truncated
  ends := h.ends

theorem withTag (h : AtTruncated saved data d) (t : Option TagInfo) :
    AtTruncated saved data { d with currentTag := t } :=
  ⟨⟨h.reads.represents, h.reads.ex⟩, h.truncated, h.ends⟩

/-- The header may be all there, the content is not. -/
theorem header (h : AtTruncated saved data d) {ident : Ident} {hd : AsnHeader}
    (hrun : decodeHeaderOf ident d = .ok hd d') :
    ∃ s, d' = { d with s := s } ∧ Represents saved data s ∧ data.length < s.pos + hd.length := by
  obtain ⟨r, s, hp, rfl, hrep, hr⟩ := decodeHeaderOf_eq_ok h.reads.represents hrun
  have hshort := h.truncated _ _ hp
  have hle := hrep.pos_le
  rw [← hr, List.length_drop] at hshort
  exact ⟨s, rfl, hrep, by omega⟩

/-- An element that is entered ends behind the octets. -/
theorem enter (h : AtTruncated saved data d) {ident : Ident} {e : Error}
    (hrun : startConstructed ident e d = .ok () d') :
    ∃ x s, d' = { d with s := s, seqPos := x :: d.seqPos } ∧ Represents saved data s ∧
      data.length < x := by
  rw [startConstructed] at hrun
  obtain ⟨hd, d₁, hheader, hrun⟩ := bind_eq_ok.mp hrun
  obtain ⟨s, rfl, hrep, hlt⟩ := h.header hheader
  split at hrun
  · unfold push at hrun
    split at hrun
    · cases hrun
    · cases hrun
      exact ⟨_, s, rfl, hrep, hlt⟩
  · cases hrun

end AtTruncated

/-- The end of an element that is not all there cannot be reached. -/
theorem left_truncated {m : Dec α} (hstack : LeavesStack α m) (hreads : KeepsReads α m) {x : Nat}
    {ends : List Nat} {d₁ : Deserialiser} (hinStep : d₁.Reads saved data)
    (hd₁ : d₁.seqPos = x :: ends) (hx : data.length < x) {v : α} (hrun : m d₁ = .ok v d') :
    d'.Recorded ∨ ends.length < d'.seqPos.tail.length ∨
      ∃ s, pop d' = .error Error.endOfStream { d' with s := s, seqPos := d'.seqPos.tail } := by
  have hkept := hreads saved data d₁ (.inr hinStep)
  have hdeep := hstack d₁
  rw [hrun] at hkept hdeep
  rcases hkept with hkept | hkept
  · exact .inl hkept
  unfold NotShallower at hdeep
  rw [hd₁] at hdeep
  rcases hdeep with hdeep | hdeep
  · refine .inr (.inl ?_)
    rw [List.length_cons] at hdeep
    simp only [finalState] at hdeep
    rw [List.length_tail]
    omega
  · rcases pop_reads hkept with ⟨s, -, -, hle, -⟩ | ⟨s, hpop⟩
    · simp only [finalState] at hdeep
      rw [hdeep] at hle
      have := hle x rfl
      omega
    · exact .inr (.inr ⟨s, hpop⟩)

namespace Detects

variable {absent absent' : Bool}

theorem of_not_ok {m : Dec α}
    (h : ∀ saved data d, AtTruncated saved data d → ∀ v d', m d ≠ .ok v d') :
    Detects absent m :=
  fun saved data d hd v d' hrun => absurd hrun (h saved data d hd v d')

theorem mono {m : Dec α} (h : Detects absent m) (habsent : absent = true → absent' = true) :
    Detects absent' m := by
  intro saved data d hd v d' hrun
  exact (h saved data d hd v d' hrun).imp id (Or.imp id fun ⟨ha, hrest⟩ => ⟨habsent ha, hrest⟩)

theorem pure (a : α) : Detects true (pure a) := by
  intro saved data d hd v d' hrun
  cases hrun
  exact .inr (.inr ⟨rfl, hd.reads, rfl, rfl⟩)

theorem bind {m : Dec α} {f : α → Dec β} (hm : Detects absent m)
    (hstack : ∀ a, LeavesStack β (f a)) (hrecorded : ∀ a, KeepsRecorded β (f a))
    (hf : absent = true → ∀ a, Detects absent' (f a)) : Detects (absent && absent') (m >>= f) := by
  intro saved data d hd v d' hrun
  obtain ⟨a, d₁, hfirst, hrun⟩ := bind_eq_ok.mp hrun
  have hkept := hrecorded a d₁
  have hdeep := hstack a d₁
  rw [hrun] at hkept hdeep
  rcases hm saved data d hd a d₁ hfirst with h | h | ⟨rfl, hreads, hpos, hends⟩
  · exact .inl (hkept h)
  · refine .inr (.inl ?_)
    rcases hdeep with hdeep | hdeep
    · exact h.trans hdeep
    · exact hdeep ▸ h
  · have hd₁ : AtTruncated saved data d₁ := ⟨hreads, hpos ▸ hd.truncated, hends ▸ hd.ends⟩
    have hdetected := hf rfl a saved data d₁ hd₁ v d' hrun
    unfold Detected at hdetected ⊢
    rwa [hpos, hends] at hdetected

theorem map {m : Dec α} (hm : Detects absent m) (f : α → β) :
    Detects absent (m >>= fun v => Pure.pure (f v)) := by
  have hall := hm.bind (fun v => LeavesStack.compositional.pure (f v))
    (fun v => KeepsRecorded.compositional.pure (f v)) fun _ v => pure (f v)
  rwa [Bool.and_true] at hall

theorem amp {m : Dec α} (hm : Detects absent m) : Detects absent (amp m) := by
  have hrethrow : ∀ v : α, Detects true (rethrow >>= fun _ => Pure.pure v) := by
    intro v saved data d₀ hd v' d' hrun
    have hnone : rethrow d₀ = .ok () d₀ := by simp only [rethrow, hd.reads.ex]
    rw [bind_of_ok hnone] at hrun
    exact pure v saved data d₀ hd v' d' hrun
  have hall := hm.bind
    (fun v => LeavesStack.compositional.bind LeavesStack.compositional.rethrow fun _ =>
      LeavesStack.compositional.pure v)
    (fun v => KeepsRecorded.compositional.bind KeepsRecorded.compositional.rethrow fun _ =>
      KeepsRecorded.compositional.pure v)
    fun _ v => hrethrow v
  rwa [Bool.and_true] at hall

theorem useCurrentTag {f : Option TagInfo → Dec α} (hf : ∀ t, Detects absent (f t)) :
    Detects absent (useCurrentTag >>= f) :=
  fun saved data d hd v d' hrun => hf d.currentTag saved data _ (hd.withTag none) v d' hrun

theorem setCurrentTag (tag : TagInfo) {m : Dec α} (hm : Detects absent m) :
    Detects absent ((modify fun d => { d with currentTag := some tag }) >>= fun _ => m) :=
  fun saved data _ hd v d' hrun => hm saved data _ (hd.withTag (some tag)) v d' hrun

theorem decodePrim (p : Prim) (tag : Option TagInfo) : Detects absent (p.decode tag) := by
  refine of_not_ok ?_
  intro saved data d hd v d' hrun
  obtain ⟨header, d₁, hheader, hrun⟩ := bind_eq_ok.mp hrun
  obtain ⟨u, d₂, hcheck, hrun⟩ := bind_eq_ok.mp hrun
  obtain ⟨buf, d₃, hread, -⟩ := bind_eq_ok.mp hrun
  obtain ⟨s, rfl, hrep, hlt⟩ := hd.header hheader
  cases hlength : p.checkLength header.length with
  | error e =>
      rw [hlength] at hcheck
      cases hcheck
  | ok u =>
      rw [hlength] at hcheck
      cases hcheck
      obtain ⟨s', hshort⟩ := readOctets_of_lt (d := { d with s := s }) hrep hlt
      cases hread.symm.trans hshort

theorem decodeTrailing : Detects absent decodeTrailing := by
  refine of_not_ok ?_
  intro saved data d hd v d' hrun
  cases hseq : d.seqPos with
  | nil =>
      have hget : (get : Dec Deserialiser) d = .ok d d := rfl
      rw [Serialisation.decodeTrailing, bind_of_ok hget, hseq] at hrun
      cases hrun
  | cons x rest =>
      have hx := hd.ends x (hseq ▸ List.mem_cons_self ..)
      have hle := hd.reads.represents.pos_le
      rw [decodeTrailing_of_cons hseq, if_pos (by simp only [Deserialiser.pos]; omega)] at hrun
      obtain ⟨s, hshort⟩ := readOctets_of_lt hd.reads.represents (n := x - d.pos)
        (by simp only [Deserialiser.pos]; omega)
      cases hrun.symm.trans hshort

theorem scope (ident : Ident) (e : Error) {body : Dec α} (hstack : LeavesStack α body)
    (hreads : KeepsReads α body) :
    Detects absent (startConstructed ident e >>= fun _ => withDestructor body endSequence) := by
  intro saved data d hd v d' hrun
  obtain ⟨u, d₁, hstart, hrun⟩ := bind_eq_ok.mp hrun
  obtain ⟨x, s, rfl, hrep, hx⟩ := hd.enter hstart
  have hentered : Deserialiser.Reads saved data { d with s := s, seqPos := x :: d.seqPos } :=
    ⟨hrep, hd.reads.ex⟩
  cases hbody : body { d with s := s, seqPos := x :: d.seqPos } with
  | error e d₂ =>
      rw [withDestructor, scopeExit_of_error hbody] at hrun
      cases hrun
  | ok v₂ d₂ =>
      rw [withDestructor, scopeExit_of_ok hbody] at hrun
      cases hrun
      rcases left_truncated hstack hreads hentered rfl hx hbody with
        h | h | ⟨s', hpop⟩
      · exact .inl (endSequence_recorded h)
      · obtain ⟨s', ex, hend, -⟩ := endSequence_run d₂
        rw [hend]
        exact .inr (.inl h)
      · unfold endSequence
        rw [hpop]
        exact .inl ⟨_, rfl, rfl⟩

theorem element (tag : TagInfo) {m : Dec α} (f : α → β) (hstack : LeavesStack α m)
    (hreads : KeepsReads α m) :
    Detects absent (startExplicitTag tag >>= fun _ => m >>= fun v => endExplicitTag >>= fun _ =>
      Pure.pure (f v)) := by
  intro saved data d hd v d' hrun
  obtain ⟨u, d₁, hstart, hrun⟩ := bind_eq_ok.mp hrun
  obtain ⟨x, s, rfl, hrep, hx⟩ := hd.enter hstart
  have hentered : Deserialiser.Reads saved data { d with s := s, seqPos := x :: d.seqPos } :=
    ⟨hrep, hd.reads.ex⟩
  obtain ⟨v₂, d₂, hbody, hrun⟩ := bind_eq_ok.mp hrun
  obtain ⟨u', d₃, hend, hrun⟩ := bind_eq_ok.mp hrun
  cases hrun
  rcases left_truncated hstack hreads hentered rfl hx hbody with
    h | h | ⟨s', hpop⟩
  · have hkept := KeepsRecorded.pop d₂ h
    rw [show pop d₂ = .ok u' d' from hend] at hkept
    exact .inl hkept
  · rcases pop_run d₂ with ⟨s', hpop⟩ | ⟨e, s', hpop, -⟩
    · cases hend.symm.trans hpop
      exact .inr (.inl h)
    · cases hend.symm.trans hpop
  · cases hend.symm.trans hpop

/-- An optional goes back to where it started. -/
theorem optional {m : Dec (Option α)} (hm : Detects absent m)
    (hstack : LeavesStack (Option α) m) (hreads : KeepsReads (Option α) m) :
    Detects true (catching Error.isElementNotPresent (peekGuard m) (return none)) := by
  intro saved data d hd v d' hrun
  have hpeek := hd.startPeek
  have hkept := hreads _ data _ (.inr hpeek.reads)
  have hdeep := hstack { d with s := d.s.startPeek.2 }
  cases hbody : m { d with s := d.s.startPeek.2 } with
  | ok v₁ d₁ =>
      have hguard : peekGuard m d = .ok v₁ { d₁ with s := d₁.s.endPeek d.s.startPeek.1 true } :=
        scopeExit_of_ok hbody
      rw [catching_of_ok hguard] at hrun
      cases hrun
      refine (hm _ data _ hpeek v d₁ hbody).imp id (Or.imp id ?_)
      rintro ⟨-, hreads₁, hpos, hends⟩
      obtain ⟨hrep, hpos'⟩ := endPeek_commit hreads₁.represents
      exact ⟨rfl, ⟨hrep, hreads₁.ex⟩, hpos'.trans hpos, hends⟩
  | error e d₁ =>
      rw [hbody] at hkept hdeep
      have hguard : peekGuard m d = .error e { d₁ with s := d₁.s.endPeek d.s.startPeek.1 false } :=
        scopeExit_of_error hbody
      cases he : e.isElementNotPresent with
      | false =>
          rw [catching_of_uncaught hguard he] at hrun
          cases hrun
      | true =>
          rw [catching_of_caught hguard he] at hrun
          cases hrun
          rcases hkept he with h | h
          · exact .inl h
          rcases hdeep with hdeep | hdeep
          · exact .inr (.inl hdeep)
          · obtain ⟨hrep, hpos⟩ := endPeek_restore h.represents
            exact .inr (.inr ⟨rfl, ⟨hrep, h.ex⟩, hpos, hdeep⟩)

theorem choice {f : TagInfo → Dec α} (hf : ∀ t, Detects absent (f t)) :
    Detects absent (nextTag >>= f) := by
  intro saved data d hd v d' hrun
  rcases nextTag_reads hd.reads with ⟨header, r, s, -, htag, hrep, hpos⟩ | ⟨e, s, -, htag, -⟩
  · rw [bind_of_ok htag] at hrun
    have hpos' : ({ d with s := s } : Deserialiser).pos = d.pos := hpos
    have hd' : AtTruncated saved data { d with s := s } :=
      ⟨⟨hrep, hd.reads.ex⟩, hpos' ▸ hd.truncated, hd.ends⟩
    have hdetected := hf _ saved data _ hd' v d' hrun
    unfold Detected at hdetected ⊢
    rwa [hpos'] at hdetected
  · rw [bind_of_error htag] at hrun
    cases hrun

end Detects

/-! ## Every type -/

theorem atTruncated_ofOctets {b : Octets} (h : Truncated b) :
    AtTruncated [] b (.ofOctets b) :=
  ⟨⟨represents_ofOctets b, rfl⟩, h, nofun⟩

variable [KeyOrder]

theorem Schema.leavesStack {k : Kind} (T : Schema k) (arg : k.Arg) :
    LeavesStack T.Val (T.deserialise arg) :=
  LeavesStack.compositional.deserialise T arg

theorem Schema.keepsRecorded {k : Kind} (T : Schema k) (arg : k.Arg) :
    KeepsRecorded T.Val (T.deserialise arg) :=
  KeepsRecorded.compositional.deserialise T arg

theorem Schema.keepsReads {k : Kind} (T : Schema k) (arg : k.Arg) :
    KeepsReads T.Val (T.deserialise arg) :=
  KeepsReads.compositional.deserialise T arg

theorem Schema.detects {k : Kind} (T : Schema k) (arg : k.Arg) :
    Detects T.mayBeAbsent (T.deserialise arg) := by
  have hstack : ∀ T : Schema .type, LeavesStack T.Val (amp (T.deserialise ())) := fun T =>
    LeavesStack.compositional.amp (T.leavesStack ())
  have hrecorded : ∀ T : Schema .type, KeepsRecorded T.Val (amp (T.deserialise ())) := fun T =>
    KeepsRecorded.compositional.amp (T.keepsRecorded ())
  have hreads : ∀ T : Schema .type, KeepsReads T.Val (amp (T.deserialise ())) := fun T =>
    KeepsReads.compositional.amp (T.keepsReads ())
  induction k, T using Schema.tagInduction with
  | prim p => exact .useCurrentTag fun tag => .decodePrim p tag
  | trailing => exact .decodeTrailing
  | nothing => exact .pure ()
  | fields a b iha ihb =>
      refine (iha ()).amp.bind ?_ ?_ fun _ x => ?_
      · exact fun x => LeavesStack.compositional.bind (hstack b) fun y =>
          LeavesStack.compositional.pure (x, y)
      · exact fun x => KeepsRecorded.compositional.bind (hrecorded b) fun y =>
          KeepsRecorded.compositional.pure (x, y)
      · exact (ihb ()).amp.map fun y => (x, y)
  | sequence body ih =>
      exact .useCurrentTag fun tag => .scope _ _ (hstack body) (hreads body)
  | container c elem ih =>
      refine .useCurrentTag fun tag => .scope _ _ ?_ ?_
      · exact LeavesStack.compositional.bind LeavesStack.compositional.get fun d =>
          LeavesStack.compositional.containerLoop (hstack elem) _ _ _
      · exact KeepsReads.compositional.bind KeepsReads.compositional.get fun d =>
          KeepsReads.compositional.containerLoop (hreads elem) _ _ _
  | optional T ih =>
      exact ((ih ()).amp.map some).optional
        (LeavesStack.compositional.bind (hstack T) fun v => LeavesStack.compositional.pure (some v))
        (KeepsReads.compositional.bind (hreads T) fun v => KeepsReads.compositional.pure (some v))
  | implicit tag T ih =>
      rw [Schema.deserialise_implicit]
      exact .setCurrentTag tag (ih ()).amp
  | explicitOptional tag T ih =>
      have helement : Detects false _ := .element tag some (hstack T) (hreads T)
      exact helement.optional (LeavesStack.compositional.element tag some (hstack T))
        (KeepsReads.compositional.element tag some (hreads T))
  | explicit tag T hT ih =>
      rw [Schema.deserialise_explicit tag hT]
      exact .element tag id (hstack T) (hreads T)
  | choice alts ih => exact .choice fun tag => ih tag
  | noAlternative => exact .of_not_ok fun _ _ _ _ v _ _ => v.elim
  | alternative tag T rest ih ihrest =>
      unfold Schema.deserialise
      split
      · have hvalue : Detects T.mayBeAbsent
            (amp (handleTag .implicitTag ⟨none, tag⟩ (amp (T.deserialise ())))) :=
          (Detects.setCurrentTag _ (ih ()).amp).amp
        refine (hvalue.map Sum.inl).mono ?_
        intro habsent
        unfold Schema.mayBeAbsent
        rw [habsent, Bool.true_or]
      · refine ((ihrest arg).map Sum.inr).mono ?_
        intro habsent
        unfold Schema.mayBeAbsent
        rw [habsent, Bool.or_true]

/-- The visitor of a choice is called behind an `operator&`. -/
theorem alternatives_ex : (alts : Schema .alternatives) → (tag : TagInfo) → {d d' : Deserialiser} →
    {v : alts.Val} → alts.deserialise tag d = .ok v d' → d'.ex = none
  | .noAlternative, _, _, _, v, _ => v.elim
  | .alternative _ T rest, peeked, d, d', v, hrun => by
      unfold Schema.deserialise at hrun
      split at hrun
      · obtain ⟨v', d₁, hvalue, hrun⟩ := bind_eq_ok.mp hrun
        cases hrun
        exact amp_ex hvalue
      · obtain ⟨v', d₁, hvalue, hrun⟩ := bind_eq_ok.mp hrun
        cases hrun
        exact alternatives_ex rest peeked hvalue

/-- Truncation is detected unless the type may be absent or an element that was entered stays on
the stack, and no destructor's error is lost. -/
theorem truncation_detected {b : Octets} (h : Truncated b) :
    (∀ (T : Schema .type) v d, T.decode (.ofOctets b) = .ok v d →
      d.seqPos ≠ [] ∨ (T.mayBeAbsent = true ∧ d.pos = 0)) ∧
    (∀ (alts : Schema .alternatives) v d,
      (Schema.choice alts).deserialise () (.ofOctets b) = .ok v d →
      d.seqPos ≠ [] ∨ (alts.mayBeAbsent = true ∧ d.pos = 0)) ∧
    (∀ (T : Schema .type) (d : Deserialiser), d.Recorded →
      ∃ e d', T.decode d = .error e d' ∧ (e.isElementNotPresent = true → d'.Recorded)) := by
  have hd := atTruncated_ofOctets h
  have hdetected : ∀ {absent : Bool} {d : Deserialiser}, d.ex = none →
      Detected absent [] b (.ofOctets b) d → d.seqPos ≠ [] ∨ (absent = true ∧ d.pos = 0) := by
    rintro absent d hex (⟨e, he, -⟩ | hdeep | ⟨habsent, -, hpos, -⟩)
    · cases hex.symm.trans he
    · exact .inl (List.ne_nil_of_length_pos hdeep)
    · exact .inr ⟨habsent, hpos⟩
  refine ⟨?_, ?_, ?_⟩
  · intro T v d hrun
    exact hdetected (amp_ex hrun) ((T.detects ()).amp [] b _ hd v d hrun)
  · intro alts v d hrun
    obtain ⟨tag, d₁, -, halts⟩ := bind_eq_ok.mp hrun
    have hfound := (Schema.choice alts).detects () [] b _ hd v d hrun
    exact hdetected (alternatives_ex alts tag halts) hfound
  · intro T d hrecorded
    exact KeepsRecorded.amp_throws (T.keepsRecorded ()) hrecorded

omit [KeyOrder] in
/-- A sequence that declares five octets and has one. -/
theorem truncation_detected_sequence :
    let _ := KeyOrder.unordered
    let T := Schema.sequence (.prim .bool)
    Truncated [0x30, 0x05, 0x01] ∧ ∀ v d, T.decode (.ofOctets [0x30, 0x05, 0x01]) = .ok v d →
      d.seqPos ≠ [] ∨ (T.mayBeAbsent = true ∧ d.pos = 0) := by
  have htruncated : Truncated [0x30, 0x05, 0x01] := by
    intro hd r hparse
    have hheader : parseHeader [0x30, 0x05, 0x01] = .ok (⟨.universal, 16, 5, true⟩, [0x01]) := by
      decide +kernel
    cases hheader.symm.trans hparse
    decide
  exact ⟨htruncated, (@truncation_detected .unordered _ htruncated).1 _⟩

omit [KeyOrder] in
/-- An optional integer in front of a truncated sequence is absent. -/
theorem truncation_detected_fails :
    ¬ ∀ (_ : KeyOrder) (T : Schema .type) (b : Octets), Truncated b →
      ∃ e, asnDerDeserialise T b = .error e := by
  intro h
  have htruncated : Truncated [0x30, 0x05] := by
    intro hd r hparse
    have hheader : parseHeader [0x30, 0x05] = .ok (⟨.universal, 16, 5, true⟩, []) := by
      decide +kernel
    cases hheader.symm.trans hparse
    decide
  obtain ⟨e, hthrows⟩ := h .unordered (.optional (.prim .integer)) _ htruncated
  cases hthrows

end Securepath.Serialisation
