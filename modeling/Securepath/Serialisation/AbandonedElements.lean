import Securepath.Serialisation.MissingElements

/-!
# Abandoned elements

What an optional that is absent leaves behind. The peek puts the stream back where it was, and
`end_sequence` takes the end of a sequence off the stack; an explicit tag that was entered stays on
the stack, an end that cannot be reached is kept as an error, and a pending tag may not be used up.
-/

namespace Securepath.Serialisation

open StateExcept BufferedStream

variable {α β : Type} {saved : List Peek} {data : Octets} {d d' : Deserialiser}
  {t₀ : Option TagInfo}

/-- A tag is pending that was not pending at first. -/
def Deserialiser.TagLeft (t₀ : Option TagInfo) (d : Deserialiser) : Prop :=
  d.currentTag ≠ none ∧ d.currentTag ≠ t₀

/-- What a peek does not undo. -/
def Disturbed (t₀ : Option TagInfo) (d d' : Deserialiser) : Prop :=
  d.seqPos.length < d'.seqPos.length ∨ d'.Recorded ∨ d'.TagLeft t₀

/-- A sequence is entered where something inside is abandoned, or the octets do not go to its
end. -/
def AbandonsIn (data : Octets) (ident : Ident) (abandons : Deserialiser → Prop)
    (d : Deserialiser) : Prop :=
  ∃ d', startConstructed ident Error.invalidSequence d = .ok () d' ∧
    (abandons d' ∨ ∃ x ∈ d'.seqPos.head?, data.length < x)

/-- Something is abandoned in a round of a container. -/
def AbandonsElement (elem : Dec α) (abandons : Deserialiser → Prop) : Nat → Deserialiser → Prop
  | 0, _ => False
  | rounds + 1, d => abandons d ∨ ∃ v d', elem d = .ok v d' ∧
      (d'.seqPos ≠ d.seqPos ∨ AbandonsElement elem abandons rounds d')

theorem abandonsElement_succ {elem : Dec α} {abandons : Deserialiser → Prop} {rounds : Nat} :
    AbandonsElement elem abandons (rounds + 1) d ↔ abandons d ∨ ∃ v d', elem d = .ok v d' ∧
      (d'.seqPos ≠ d.seqPos ∨ AbandonsElement elem abandons rounds d') := Iff.rfl

/-- On the way to the element that is missing, something is entered that is not undone. -/
def Schema.Abandons [KeyOrder] (data : Octets) (t₀ : Option TagInfo) : {k : Kind} →
    (T : Schema k) → k.Arg → Deserialiser → Prop
  | _, .prim _, _, _ => False
  | _, .trailing, _, _ => False
  | _, .nothing, _, _ => False
  | _, .fields a b, _, d => (a.Missing data () d ∧ a.Abandons data t₀ () d) ∨
      ∃ x d', amp (a.deserialise ()) d = .ok x d' ∧
        (d'.seqPos ≠ d.seqPos ∨ b.Abandons data t₀ () d')
  | _, .sequence body, _, d =>
      AbandonsIn data (getIdent d.currentTag AsnTag.sequence) (body.Abandons data t₀ ())
        { d with currentTag := none }
  | _, .container _ elem, _, d =>
      AbandonsIn data (getIdent d.currentTag AsnTag.sequence)
        (fun d => AbandonsElement (amp (elem.deserialise ()))
          (fun d => elem.Missing data () d ∧ elem.Abandons data t₀ () d)
          (d.s.unread.length + 1) d) { d with currentTag := none }
  | _, .optional _, _, _ => False
  | _, .tagged .explicitTag _ (.optional _), _, _ => False
  | _, .tagged .implicitTag tag T, _, d => T.Abandons data t₀ () { d with currentTag := some tag }
  | _, .tagged .explicitTag tag _, _, d => ¬ d.Lacks data tag.ident ∨ d.TagLeft t₀
  | _, .choice alts, _, d => ∃ tag d', nextTag d = .ok tag d' ∧ alts.Abandons data t₀ tag d'
  | _, .noAlternative, _, _ => False
  | _, .alternative tag T rest, peeked, d =>
      if tag = peeked.tag then T.Abandons data t₀ () { d with currentTag := some ⟨none, tag⟩ }
      else rest.Abandons data t₀ peeked d

/-! ## Rules -/

theorem not_disturbed (hseq : d'.seqPos = d.seqPos) (hex : d'.ex = none)
    (htag : ¬ d'.TagLeft t₀) : ¬ Disturbed t₀ d d' := by
  rintro (hdeep | ⟨e, he, -⟩ | hleft)
  · rw [hseq] at hdeep
    exact lt_irrefl _ hdeep
  · cases hex.symm.trans he
  · exact htag hleft

/-- The stack is the same where the state is not disturbed, and no error is kept. -/
theorem same_of_not_disturbed (hstack : NotShallower d d') (hreads : d'.InStep saved data)
    (h : ¬ Disturbed t₀ d d') :
    d'.seqPos = d.seqPos ∧ d'.Reads saved data ∧ ¬ d'.TagLeft t₀ := by
  refine ⟨?_, ?_, fun hleft => h (.inr (.inr hleft))⟩
  · exact hstack.resolve_left fun hdeep => h (.inl hdeep)
  · exact hreads.resolve_left fun hrecorded => h (.inr (.inl hrecorded))

/-- When `m` throws `element_not_present`, it leaves the state disturbed exactly if `abandons`. -/
def DisturbedIff (data : Octets) (t₀ : Option TagInfo) (m : Dec α)
    (abandons : Deserialiser → Prop) : Prop :=
  ∀ saved d, d.Reads saved data → ∀ e d', m d = .error e d' → e.isElementNotPresent = true →
    (Disturbed t₀ d d' ↔ abandons d)

namespace DisturbedIff

variable {m : Dec α} {abandons abandons' : Deserialiser → Prop}

theorem of_not_throws (h : ∀ d : Deserialiser, ¬ ThrowsNotPresent m d) :
    DisturbedIff data t₀ m abandons :=
  fun _ d _ e d' hrun he => absurd ⟨e, d', hrun, he⟩ (h d)

theorem map (hm : DisturbedIff data t₀ m abandons) (f : α → β) :
    DisturbedIff data t₀ (m >>= fun v => pure (f v)) abandons := by
  intro saved d hd e d' hrun he
  rcases bind_eq_error.mp hrun with hrun | ⟨v, d₁, -, hrun⟩
  · exact hm saved d hd e d' hrun he
  · cases hrun

/-- What `operator&` throws beside is no missing element. -/
theorem amp (hm : DisturbedIff data t₀ m abandons) (hkeeps : KeepsReads α m) :
    DisturbedIff data t₀ (amp m) abandons := by
  intro saved d hd e d' hrun he
  obtain ⟨e₁, d₁, hrun₁, -⟩ := (throwsNotPresent_amp hkeeps hd).mp ⟨e, d', hrun, he⟩
  cases hrun.symm.trans (amp_of_error hrun₁)
  exact hm saved d hd e _ hrun₁ he

theorem header (ident : Ident) :
    DisturbedIff data t₀ (decodeHeaderOf ident) fun d => d.TagLeft t₀ := by
  intro saved d hd e d' hrun he
  rcases decodeHeaderOf_run ident d with ⟨hd', s, hrun'⟩ | ⟨e', s, hrun'⟩
  · cases hrun.symm.trans hrun'
  · cases hrun.symm.trans hrun'
    constructor
    · intro h
      by_contra hleft
      exact not_disturbed rfl hd.ex hleft h
    · exact fun hleft => .inr (.inr hleft)

theorem decodePrim (p : Prim) (tag : Option TagInfo) :
    DisturbedIff data t₀ (p.decode tag) fun d => d.TagLeft t₀ := by
  intro saved d hd e d' hrun he
  rcases bind_eq_error.mp hrun with hrun | ⟨h, d₁, -, hrun⟩
  · exact header _ saved d hd e d' hrun he
  exfalso
  have hthrows : ThrowsNotPresent _ d₁ := ⟨e, d', hrun, he⟩
  rcases throwsNotPresent_bind.mp hthrows with hthrows | ⟨u, d₂, -, hthrows⟩
  · exact not_throwsNotPresent_liftExcept (fun e he => Prim.checkLength_error he) hthrows
  rcases throwsNotPresent_bind.mp hthrows with hthrows | ⟨buf, d₃, -, hthrows⟩
  · exact (OnlyReads.read h.length).not_throwsNotPresent d₂ hthrows
  · exact not_throwsNotPresent_liftExcept (fun e he => Prim.ofContent_error he) hthrows

theorem startConstructed (ident : Ident) {notConstructed : Error}
    (hnot : notConstructed.isElementNotPresent = false) :
    DisturbedIff data t₀ (startConstructed ident notConstructed) fun d => d.TagLeft t₀ := by
  intro saved d hd e d' hrun he
  rcases bind_eq_error.mp hrun with hrun | ⟨h, d₁, -, hrun⟩
  · exact header ident saved d hd e d' hrun he
  exfalso
  split at hrun
  · unfold push at hrun
    split at hrun <;> cases hrun
    cases he
  · cases hrun
    rw [hnot] at he
    cases he

/-- The destructor of a sequence in a state that is disturbed inside of the sequence. -/
theorem endSequence_disturbed {d₁ d₂ : Deserialiser} {x : Nat} (hd₁ : d₁.seqPos = x :: d.seqPos)
    (h : Disturbed t₀ d₁ d₂) : Disturbed t₀ d (endSequence d₂) := by
  rcases h with hdeep | hrecorded | hleft
  · obtain ⟨s, ex, hend, -⟩ := endSequence_run d₂
    rw [hd₁, List.length_cons] at hdeep
    rw [hend]
    refine .inl ?_
    rw [List.length_tail]
    omega
  · exact .inr (.inl (endSequence_recorded hrecorded))
  · obtain ⟨s, ex, hend, -⟩ := endSequence_run d₂
    rw [hend]
    exact .inr (.inr hleft)

theorem scope (ident : Ident) {body : Dec α} (hbody : DisturbedIff data t₀ body abandons)
    (hstack : LeavesStack α body) (hkeeps : KeepsReads α body) (hd : d.Reads saved data)
    (htag : d.currentTag = none) {e : Error}
    (hrun : (Serialisation.startConstructed ident Error.invalidSequence >>= fun _ =>
      withDestructor body endSequence) d = .error e d') (he : e.isElementNotPresent = true) :
    Disturbed t₀ d d' ↔ AbandonsIn data ident abandons d := by
  rcases bind_eq_error.mp hrun with hrun | ⟨u, d₁, hstart, hrun⟩
  · have hheader : Disturbed t₀ d d' ↔ d.TagLeft t₀ :=
      startConstructed ident rfl saved d hd e d' hrun he
    refine hheader.trans (iff_of_false (fun hleft => hleft.1 htag) ?_)
    rintro ⟨d₁, hstart, -⟩
    cases hrun.symm.trans hstart
  have hd₁ := startConstructed_reads hd hstart
  obtain ⟨x, s, hentered⟩ : ∃ x s, d₁ = { d with s := s, seqPos := x :: d.seqPos } := by
    rcases startConstructed_run ident Error.invalidSequence d with ⟨x, s, hrun'⟩ | ⟨e', s, hrun'⟩
    · cases hstart.symm.trans hrun'
      exact ⟨x, s, rfl⟩
    · cases hstart.symm.trans hrun'
  have hseq : d₁.seqPos = x :: d.seqPos := hentered ▸ rfl
  cases hinside : body d₁ with
  | ok v d₂ =>
      rw [withDestructor, scopeExit_of_ok hinside] at hrun
      cases hrun
  | error e₂ d₂ =>
      rw [withDestructor, scopeExit_of_error hinside] at hrun
      cases hrun
      have hdisturbed := hbody saved d₁ hd₁ e d₂ hinside he
      have hdeep := hstack.of_error hinside
      have hkept := hkeeps saved data d₁ (.inr hd₁)
      rw [hinside] at hkept
      have hinStep : d₂.InStep saved data := hkept he
      constructor
      · intro h
        refine ⟨d₁, hstart, ?_⟩
        by_contra hnot
        obtain ⟨hnot, hfits⟩ := not_or.mp hnot
        obtain ⟨hsame, hreads, hclear⟩ :=
          same_of_not_disturbed hdeep hinStep (mt hdisturbed.mp hnot)
        have hle : x ≤ data.length := by
          by_contra hlt
          exact hfits ⟨x, by rw [hseq]; rfl, by omega⟩
        obtain ⟨s', hpop, -, -⟩ := pop_of_le hreads.represents (hsame.trans hseq) hle
        have hend : endSequence d₂ = { d₂ with s := s', seqPos := d.seqPos } := by
          unfold endSequence
          rw [hpop]
        rw [hend] at h
        exact absurd h (not_disturbed rfl hreads.ex hclear)
      · rintro ⟨d₁', hstart', habandons⟩
        cases hstart.symm.trans hstart'
        by_cases hstate : Disturbed t₀ d₁ d₂
        · exact endSequence_disturbed hseq hstate
        obtain ⟨hsame, hreads, hclear⟩ := same_of_not_disturbed hdeep hinStep hstate
        obtain ⟨y, hy, hlt⟩ := habandons.resolve_left (mt hdisturbed.mpr hstate)
        rw [hseq] at hy
        obtain rfl := Option.some.inj hy
        obtain ⟨s', hpop⟩ := pop_of_lt hreads.represents (hsame.trans hseq) hlt
        refine .inr (.inl ?_)
        unfold endSequence
        rw [hpop]
        exact ⟨_, rfl, rfl⟩

/-- An explicit tag that is entered and not left stays on the stack. -/
theorem element (tag : TagInfo) (f : α → β) (hstack : LeavesStack α m) (hd : d.Reads saved data)
    {e : Error}
    (hrun : (startExplicitTag tag >>= fun _ => m >>= fun v => endExplicitTag >>= fun _ =>
      Pure.pure (f v)) d = .error e d') (he : e.isElementNotPresent = true) :
    Disturbed t₀ d d' ↔ ¬ d.Lacks data tag.ident ∨ d.TagLeft t₀ := by
  have hlacks := throwsNotPresent_startConstructed hd tag.ident
    (e := Error.invalidExplicitTag) rfl
  rcases bind_eq_error.mp hrun with hrun | ⟨u, d₁, hstart, hrun⟩
  · rw [or_iff_right (not_not.mpr (hlacks.mp ⟨e, d', hrun, he⟩))]
    exact startConstructed tag.ident rfl saved d hd e d' hrun he
  · have hfound : ¬ d.Lacks data tag.ident := fun h =>
      not_throwsNotPresent_of_ok hstart (hlacks.mpr h)
    refine iff_of_true (.inl ?_) (.inl hfound)
    obtain ⟨e', d₂, hinside, -⟩ := (throwsNotPresent_element f).mp ⟨e, d', hrun, he⟩
    cases hrun.symm.trans (bind_of_error hinside)
    have hdeep := hstack.of_error hinside
    rcases startConstructed_run tag.ident Error.invalidExplicitTag d with
      ⟨x, s, hrun'⟩ | ⟨e', s, hrun'⟩
    · cases hstart.symm.trans hrun'
      rcases hdeep with hdeep | hdeep
      · exact Nat.lt_of_succ_lt hdeep
      · rw [hdeep]
        exact Nat.lt_succ_self _
    · cases hstart.symm.trans hrun'

/-- Behind a part that returned, what is on the stack beside stays there. -/
theorem behind {d₁ : Deserialiser} (hfirst : NotShallower d d₁) (hrest : NotShallower d₁ d') :
    Disturbed t₀ d d' ↔ d₁.seqPos ≠ d.seqPos ∨ Disturbed t₀ d₁ d' := by
  by_cases hsame : d₁.seqPos = d.seqPos
  · unfold Disturbed
    rw [hsame]
    exact (or_iff_right fun h => h rfl).symm
  · refine iff_of_true (.inl ?_) (.inl hsame)
    have hdeep := hfirst.resolve_right hsame
    rcases hrest with hrest | hrest
    · exact hdeep.trans hrest
    · exact hrest ▸ hdeep

theorem containerLoop {elem : Dec α} {missing : Deserialiser → Prop}
    (helem : DisturbedIff data t₀ elem abandons) (hstack : LeavesStack α elem)
    (hmissing : ∀ saved (d : Deserialiser), d.Reads saved data →
      (ThrowsNotPresent elem d ↔ missing d))
    (hreads : ∀ {saved} {d d' : Deserialiser} {v : α}, d.Reads saved data → elem d = .ok v d' →
      d'.Reads saved data)
    (insert : List α → α → List α) (rounds : Nat) (v : List α) :
    DisturbedIff data t₀ (containerLoop elem insert rounds v)
      (AbandonsElement elem (fun d => missing d ∧ abandons d) rounds) := by
  induction rounds generalizing v with
  | zero => exact of_not_throws fun d => not_throwsNotPresent_of_error rfl rfl
  | succ rounds ih =>
      intro saved d hd e d' hrun he
      have hget : (get : Dec Deserialiser) d = .ok d d := rfl
      rw [Serialisation.containerLoop, bind_of_ok hget] at hrun
      split at hrun
      · cases hrun
      rcases bind_eq_error.mp hrun with hrun | ⟨temp, d₁, helemRun, hrun⟩
      · have hmiss := (hmissing saved d hd).mp ⟨e, d', hrun, he⟩
        rw [helem saved d hd e d' hrun he, abandonsElement_succ]
        constructor
        · exact fun h => .inl ⟨hmiss, h⟩
        · rintro (h | ⟨v, d₁, hok, -⟩)
          · exact h.2
          · cases hrun.symm.trans hok
      · have hnot : ¬ missing d := fun h =>
          not_throwsNotPresent_of_ok helemRun ((hmissing saved d hd).mpr h)
        have hfirst := hstack.of_ok helemRun
        have hget' : (get : Dec Deserialiser) d₁ = .ok d₁ d₁ := rfl
        rw [bind_of_ok hget'] at hrun
        split at hrun
        · cases hrun
          cases he
        have hrest := (LeavesStack.compositional.containerLoop hstack insert rounds
          (insert v temp)).of_error hrun
        rw [behind hfirst hrest, ih _ saved d₁ (hreads hd helemRun) e d' hrun he,
          abandonsElement_succ]
        constructor
        · exact fun h => .inr ⟨temp, d₁, helemRun, h⟩
        · rintro (h | ⟨v, d₁', hok, h⟩)
          · exact absurd h.1 hnot
          · cases helemRun.symm.trans hok
            exact h

end DisturbedIff

/-! ## Every type -/

variable [KeyOrder]

theorem Schema.disturbedIff {k : Kind} (T : Schema k) (arg : k.Arg) :
    DisturbedIff data t₀ (T.deserialise arg) (T.Abandons data t₀ arg) := by
  have hkeeps : ∀ T : Schema .type, KeepsReads T.Val (T.deserialise ()) := fun T =>
    KeepsReads.compositional.deserialise T ()
  have hstack : ∀ T : Schema .type, LeavesStack T.Val (amp (T.deserialise ())) := fun T =>
    LeavesStack.compositional.amp (LeavesStack.compositional.deserialise T ())
  have hmissing : ∀ (T : Schema .type) (saved : List Peek) (d : Deserialiser),
      d.Reads saved data → (ThrowsNotPresent (amp (T.deserialise ())) d ↔ T.Missing data () d) :=
    fun T _ _ hd => (throwsNotPresent_amp (hkeeps T) hd).trans (T.throwsNotPresent_iff () hd)
  induction k, T using Schema.tagInduction with
  | prim p =>
      intro saved d hd e d' hrun he
      have hprim : Disturbed t₀ { d with currentTag := none } d' ↔ _ :=
        DisturbedIff.decodePrim p d.currentTag saved { d with currentTag := none }
          ⟨hd.represents, hd.ex⟩ e d' hrun he
      exact hprim.trans (iff_of_false (fun h => h.1 rfl) id)
  | trailing => exact .of_not_throws not_throwsNotPresent_trailing
  | nothing => exact .of_not_throws fun d => not_throwsNotPresent_of_ok rfl
  | fields a b iha ihb =>
      intro saved d hd e d' hrun he
      rcases bind_eq_error.mp hrun with hrun | ⟨x, d₁, hfirst, hrun⟩
      · have hmiss := (hmissing a saved d hd).mp ⟨e, d', hrun, he⟩
        rw [(iha ()).amp (hkeeps a) saved d hd e d' hrun he]
        constructor
        · exact fun h => .inl ⟨hmiss, h⟩
        · rintro (h | ⟨x, d₁, hok, -⟩)
          · exact h.2
          · cases hrun.symm.trans hok
      · have hnot : ¬ a.Missing data () d := fun h =>
          not_throwsNotPresent_of_ok hfirst ((hmissing a saved d hd).mpr h)
        have hrest := (LeavesStack.compositional.bind (hstack b) fun y =>
          LeavesStack.compositional.pure (x, y)).of_error hrun
        have hb := (((ihb ()).amp (hkeeps b)).map fun y => (x, y)) saved d₁
          (amp_reads (hkeeps a) hd hfirst) e d' hrun he
        rw [DisturbedIff.behind ((hstack a).of_ok hfirst) hrest, hb]
        constructor
        · exact fun h => .inr ⟨x, d₁, hfirst, h⟩
        · rintro (h | ⟨x', d₁', hok, h⟩)
          · exact absurd h.1 hnot
          · cases hfirst.symm.trans hok
            exact h
  | sequence body ih =>
      intro saved d hd e d' hrun he
      exact DisturbedIff.scope _ ((ih ()).amp (hkeeps body)) (hstack body)
        (KeepsReads.compositional.amp (hkeeps body)) (d := { d with currentTag := none })
        ⟨hd.represents, hd.ex⟩ rfl hrun he
  | container c elem ih =>
      intro saved d hd e d' hrun he
      have hloop : ∀ rounds, DisturbedIff data t₀ (Serialisation.containerLoop
          (amp (elem.deserialise ())) (insertElement c elem) rounds []) _ := fun rounds =>
        DisturbedIff.containerLoop ((ih ()).amp (hkeeps elem)) (hstack elem) (hmissing elem)
          (fun hd hrun => amp_reads (hkeeps elem) hd hrun) _ rounds []
      have hbody := LeavesStack.compositional.bind LeavesStack.compositional.get fun d =>
        LeavesStack.compositional.containerLoop (hstack elem) (insertElement c elem)
          (d.s.unread.length + 1) []
      have hkept := KeepsReads.compositional.bind KeepsReads.compositional.get fun d =>
        KeepsReads.compositional.containerLoop (KeepsReads.compositional.amp (hkeeps elem))
          (insertElement c elem) (d.s.unread.length + 1) []
      exact DisturbedIff.scope _ (fun saved d hd e d' hrun he => hloop _ saved d hd e d' hrun he)
        hbody hkept (d := { d with currentTag := none }) ⟨hd.represents, hd.ex⟩ rfl hrun he
  | optional T ih => exact .of_not_throws (not_throwsNotPresent_optional _)
  | implicit tag T ih =>
      rw [Schema.deserialise_implicit]
      intro saved d hd e d' hrun he
      exact (ih ()).amp (hkeeps T) saved { d with currentTag := some tag }
        ⟨hd.represents, hd.ex⟩ e d' hrun he
  | explicitOptional tag T ih => exact .of_not_throws (not_throwsNotPresent_optional _)
  | explicit tag T hT ih =>
      have habandons : ∀ d, (tagged .explicitTag tag T).Abandons data t₀ () d ↔
          (¬ d.Lacks data tag.ident ∨ d.TagLeft t₀) := by
        intro d
        cases T <;> first | exact Iff.rfl | cases hT
      rw [Schema.deserialise_explicit tag hT]
      intro saved d hd e d' hrun he
      rw [habandons]
      exact DisturbedIff.element tag id (hstack T) hd hrun he
  | choice alts ih =>
      intro saved d hd e d' hrun he
      rcases bind_eq_error.mp hrun with hrun | ⟨tag, d₁, htag, hrun⟩
      · rcases nextTag_run d with ⟨t, s, hrun'⟩ | ⟨e', s, hrun', he'⟩
        · cases hrun.symm.trans hrun'
        · cases hrun.symm.trans hrun'
          rw [he'] at he
          cases he
      · have hsame : Disturbed t₀ d d' ↔ Disturbed t₀ d₁ d' := by
          rcases nextTag_run d with ⟨t, s, hrun'⟩ | ⟨e', s, hrun', he'⟩
          · cases htag.symm.trans hrun'
            exact Iff.rfl
          · cases htag.symm.trans hrun'
        rw [hsame, ih tag saved d₁ (nextTag_ok_reads hd htag) e d' hrun he]
        constructor
        · exact fun h => ⟨tag, d₁, htag, h⟩
        · rintro ⟨tag', d₁', htag', h⟩
          cases htag.symm.trans htag'
          exact h
  | noAlternative => exact .of_not_throws fun d => not_throwsNotPresent_of_error rfl rfl
  | alternative tag T rest ih ihrest =>
      intro saved d hd e d' hrun he
      unfold Schema.deserialise at hrun
      unfold Schema.Abandons
      split at hrun
      next htag =>
        rw [if_pos htag]
        have hobj := KeepsReads.compositional.handleTag .implicitTag ⟨none, tag⟩
          (KeepsReads.compositional.amp (hkeeps T))
        have hvalue : DisturbedIff data t₀
            (amp (handleTag .implicitTag ⟨none, tag⟩ (amp (T.deserialise ()))))
            (fun d => T.Abandons data t₀ () { d with currentTag := some ⟨none, tag⟩ }) := by
          refine DisturbedIff.amp ?_ hobj
          intro saved d hd e d' hrun he
          exact (ih ()).amp (hkeeps T) saved { d with currentTag := some ⟨none, tag⟩ }
            ⟨hd.represents, hd.ex⟩ e d' hrun he
        exact (hvalue.map Sum.inl) saved d hd e d' hrun he
      next htag =>
        rw [if_neg htag]
        exact ((ihrest arg).map Sum.inr) saved d hd e d' hrun he

/-! ## Absent optionals -/

/-- The decoder is as it was: it stands where it stood, over the same octets and in the same peeks,
but for a pending tag that is used up. -/
structure Restored (saved : List Peek) (data : Octets) (d d' : Deserialiser) : Prop where
  represents : Represents saved data d'.s
  pos : d'.pos = d.pos
  peekCount : d'.s.peekCount = d.s.peekCount
  seqPos : d'.seqPos = d.seqPos
  ex : d'.ex = d.ex
  currentTag : d'.currentTag = none ∨ d'.currentTag = d.currentTag

/-- What an optional abandons: an explicit tag of its own that is there, or something inside. -/
def Schema.AbandonsOptional (data : Octets) (etag : Option TagInfo) (T : Schema .type)
    (d : Deserialiser) : Prop :=
  match etag with
  | none => T.Abandons data d.currentTag () d
  | some tag => ¬ d.Lacks data tag.ident

omit [KeyOrder] in
/-- The end of a peek that is not committed. -/
theorem restored_iff (hd : d.Reads saved data) {d₁ : Deserialiser}
    (hstack : NotShallower d d₁)
    (hinStep : d₁.InStep (⟨d.s.startPeek.1, d.pos⟩ :: saved) data) :
    Restored saved data d { d₁ with s := d₁.s.endPeek d.s.startPeek.1 false } ↔
      ¬ Disturbed d.currentTag d d₁ := by
  constructor
  · rintro h (hdeep | ⟨e, he, -⟩ | ⟨hsome, hother⟩)
    · have hsame := congrArg List.length h.seqPos
      exact absurd hsame (Nat.ne_of_gt hdeep)
    · cases (h.ex.trans hd.ex).symm.trans he
    · exact h.currentTag.elim hsome hother
  · intro h
    obtain ⟨hseq, hreads, hclear⟩ := same_of_not_disturbed hstack hinStep h
    obtain ⟨hrep, hpos⟩ := endPeek_restore hreads.represents
    refine ⟨hrep, hpos, ?_, hseq, hreads.ex.trans hd.ex.symm, ?_⟩
    · exact hrep.peekCount_eq.trans hd.represents.peekCount_eq.symm
    · by_cases hnone : d₁.currentTag = none
      · exact .inl hnone
      · exact .inr (by_contra fun hother => hclear ⟨hnone, hother⟩)

/-- An absent optional leaves the decoder as it was exactly if nothing was entered on the way to
the missing element that is not undone. -/
theorem absent_optional_restores_iff (etag : Option TagInfo) (T : Schema .type)
    (hd : d.Reads saved data)
    (hrun : handleOptional etag (amp (T.deserialise ())) d = .ok none d') :
    Restored saved data d d' ↔
      ¬ T.AbandonsOptional data etag { d with s := d.s.startPeek.2 } := by
  obtain ⟨e, d₁, hcontent, he, rfl⟩ := (handleOptional_eq_none_iff ..).mp hrun
  have hkeeps := KeepsReads.compositional.deserialise T ()
  have hstack := LeavesStack.compositional.amp (LeavesStack.compositional.deserialise T ())
  have hpeek := hd.startPeek
  cases etag with
  | none =>
      have hdeep := (LeavesStack.compositional.bind hstack fun v =>
        LeavesStack.compositional.pure (some v)).of_error hcontent
      have hkept := KeepsReads.compositional.bind (KeepsReads.compositional.amp hkeeps)
        (fun v => KeepsReads.compositional.pure (some v)) _ data _ (.inr hpeek)
      have hdisturbed : Disturbed d.currentTag { d with s := d.s.startPeek.2 } d₁ ↔ _ :=
        ((T.disturbedIff ()).amp hkeeps).map some _ _ hpeek e d₁ hcontent he
      simp only [optionalContent] at hcontent
      rw [hcontent] at hkept
      rw [restored_iff hd hdeep (hkept he)]
      exact not_congr hdisturbed
  | some tag =>
      have hdeep := (LeavesStack.compositional.element tag some hstack).of_error hcontent
      have hkept := KeepsReads.compositional.element tag some (KeepsReads.compositional.amp hkeeps)
        _ data _ (.inr hpeek)
      have hdisturbed : Disturbed d.currentTag { d with s := d.s.startPeek.2 } d₁ ↔ _ :=
        DisturbedIff.element tag some hstack hpeek hcontent he
      simp only [optionalContent] at hcontent
      rw [hcontent] at hkept
      rw [restored_iff hd hdeep (hkept he)]
      refine not_congr (hdisturbed.trans (or_iff_left ?_))
      exact fun hleft => hleft.2 rfl

omit [KeyOrder] in
/-- An optional struct in front of octets, and one in front of a struct without its boolean. -/
theorem absent_optional_restores_struct :
    let _ := KeyOrder.unordered
    let T := Schema.sequence (.prim .bool)
    let d := Deserialiser.ofOctets [0x04, 0x00]
    let d₂ := Deserialiser.ofOctets [0x30, 0x02, 0x04, 0x00]
    ∃ d', handleOptional none (amp (T.deserialise ())) d = .ok none d' ∧
      (Restored [] [0x04, 0x00] d d' ↔
        ¬ T.AbandonsOptional [0x04, 0x00] none { d with s := d.s.startPeek.2 }) ∧
      ∃ d₂', handleOptional none (amp (T.deserialise ())) d₂ = .ok none d₂' ∧
        (Restored [] [0x30, 0x02, 0x04, 0x00] d₂ d₂' ↔
          ¬ T.AbandonsOptional [0x30, 0x02, 0x04, 0x00] none { d₂ with s := d₂.s.startPeek.2 }) := by
  intro _ T d d₂
  obtain ⟨d', hrun, -⟩ : ∃ d', handleOptional none (amp (T.deserialise ())) d = .ok none d' ∧ _ :=
    exists_absent (fun _ => true) (by decide +kernel)
  obtain ⟨d₂', hrun₂, -⟩ :
      ∃ d', handleOptional none (amp (T.deserialise ())) d₂ = .ok none d' ∧ _ :=
    exists_absent (fun _ => true) (by decide +kernel)
  exact ⟨d', hrun, absent_optional_restores_iff none T (reads_ofOctets _) hrun, d₂', hrun₂,
    absent_optional_restores_iff none T (reads_ofOctets _) hrun₂⟩

omit [KeyOrder] in
/-- An explicit tag around something else than the boolean of the optional: the optional is absent,
and the end of the tag stays on the stack. -/
theorem absent_optional_restores_fails :
    ¬ ∀ (_ : KeyOrder) (etag : Option TagInfo) (T : Schema .type) (data : Octets) d',
      handleOptional etag (amp (T.deserialise ())) (.ofOctets data) = .ok none d' →
      Restored [] data (.ofOctets data) d' := by
  intro h
  obtain ⟨d', hrun, hseq⟩ : letI := KeyOrder.unordered;
      ∃ d', handleOptional (some ⟨none, 0⟩) (amp ((Schema.prim .bool).deserialise ()))
        (.ofOctets [0xa0, 0x02, 0x04, 0x00]) = .ok none d' ∧ _ :=
    exists_absent (fun d' => !d'.seqPos.isEmpty) (by decide +kernel)
  have hrestored := h .unordered (some ⟨none, 0⟩) (.prim .bool) [0xa0, 0x02, 0x04, 0x00] d' hrun
  rw [hrestored.seqPos] at hseq
  cases hseq

end Securepath.Serialisation
