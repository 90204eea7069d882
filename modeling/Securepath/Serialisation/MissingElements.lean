import Securepath.Serialisation.RoundTrip
import Securepath.Serialisation.Unwinding

/-!
# Missing elements

When `deserialise` throws `element_not_present`: exactly if an element that the type requires is
not where it is looked for. An optional is read as absent for this reason, at whatever depth the
element is missing.
-/

namespace Securepath.Serialisation

open StateExcept BufferedStream

variable {α β : Type} {saved : List Peek} {data : Octets} {d d' : Deserialiser}

/-! ## Errors that an optional catches -/

/-- `m` throws `element_not_present`. -/
def ThrowsNotPresent (m : Dec α) (d : Deserialiser) : Prop :=
  ∃ e d', m d = .error e d' ∧ e.isElementNotPresent = true

theorem throwsNotPresent_bind {m : Dec α} {f : α → Dec β} :
    ThrowsNotPresent (m >>= f) d ↔
      ThrowsNotPresent m d ∨ ∃ a d', m d = .ok a d' ∧ ThrowsNotPresent (f a) d' := by
  constructor
  · rintro ⟨e, d', hrun, he⟩
    rcases bind_eq_error.mp hrun with hrun | ⟨a, d₁, hok, hrun⟩
    · exact .inl ⟨e, d', hrun, he⟩
    · exact .inr ⟨a, d₁, hok, e, d', hrun, he⟩
  · rintro (⟨e, d', hrun, he⟩ | ⟨a, d₁, hok, e, d', hrun, he⟩)
    · exact ⟨e, d', bind_of_error hrun, he⟩
    · exact ⟨e, d', by rw [bind_of_ok hok, hrun], he⟩

theorem throwsNotPresent_bind_of_ok {m : Dec α} {f : α → Dec β} {a : α} (hrun : m d = .ok a d') :
    ThrowsNotPresent (m >>= f) d ↔ ThrowsNotPresent (f a) d' := by
  unfold ThrowsNotPresent
  rw [bind_of_ok hrun]

theorem throwsNotPresent_bind_of_error {m : Dec α} {f : α → Dec β} {e : Error}
    (hrun : m d = .error e d') (he : e.isElementNotPresent = false) :
    ¬ ThrowsNotPresent (m >>= f) d := by
  rintro ⟨e', d₁, hrun', he'⟩
  rw [bind_of_error hrun] at hrun'
  cases hrun'
  rw [he] at he'
  cases he'

theorem not_throwsNotPresent_of_ok {m : Dec α} {a : α} (hrun : m d = .ok a d') :
    ¬ ThrowsNotPresent m d := by
  rintro ⟨e, d₁, hrun', -⟩
  cases hrun.symm.trans hrun'

theorem not_throwsNotPresent_of_error {m : Dec α} {e : Error} (hrun : m d = .error e d')
    (he : e.isElementNotPresent = false) : ¬ ThrowsNotPresent m d := by
  rintro ⟨e', d₁, hrun', he'⟩
  cases hrun.symm.trans hrun'
  rw [he] at he'
  cases he'

theorem OnlyReads.not_throwsNotPresent {m : Dec α} (h : OnlyReads m) (d : Deserialiser) :
    ¬ ThrowsNotPresent m d := by
  rcases h d with ⟨v, s, hrun⟩ | ⟨e, s, hrun, he⟩
  · exact not_throwsNotPresent_of_ok hrun
  · exact not_throwsNotPresent_of_error hrun he

/-- What `operator&` throws beside is no missing element. -/
theorem throwsNotPresent_amp {m : Dec α} (hm : KeepsReads α m) (hd : d.Reads saved data) :
    ThrowsNotPresent (amp m) d ↔ ThrowsNotPresent m d := by
  refine throwsNotPresent_bind.trans (or_iff_left ?_)
  rintro ⟨a, d₁, hrun, hthrows⟩
  have hkept := hm saved data d (.inr hd)
  rw [hrun] at hkept
  rcases hkept with ⟨e, hex, he⟩ | hreads
  · have hrethrow : rethrow d₁ = .error e { d₁ with ex := none } := by simp only [rethrow, hex]
    exact throwsNotPresent_bind_of_error hrethrow he hthrows
  · have hrethrow : rethrow d₁ = .ok () d₁ := by simp only [rethrow, hreads.ex]
    obtain ⟨e, d₂, hrun', -⟩ := hthrows
    rw [bind_of_ok hrethrow] at hrun'
    cases hrun'

theorem throwsNotPresent_withDestructor {m : Dec α} {f : Deserialiser → Deserialiser} :
    ThrowsNotPresent (withDestructor m f) d ↔ ThrowsNotPresent m d := by
  cases hrun : m d with
  | ok a d' =>
      exact iff_of_false (not_throwsNotPresent_of_ok (scopeExit_of_ok hrun))
        (not_throwsNotPresent_of_ok hrun)
  | error e d' =>
      constructor
      · rintro ⟨e', d₁, hrun', he⟩
        cases hrun'.symm.trans (scopeExit_of_error hrun)
        exact ⟨e, d', hrun, he⟩
      · rintro ⟨e', d₁, hrun', he⟩
        cases hrun'.symm.trans hrun
        exact ⟨e, _, scopeExit_of_error hrun, he⟩

/-! ## Contents that are refused -/

theorem Prim.checkLength_fixed_error {sizeHint length : Nat} {isSigned : Bool} {e : Error}
    (h : Prim.checkLength.fixed length sizeHint isSigned = .error e) :
    e.isElementNotPresent = false := by
  unfold Prim.checkLength.fixed at h
  repeat' split at h
  all_goals cases h
  all_goals rfl

theorem Prim.checkLength_error {p : Prim} {length : Nat} {e : Error}
    (h : p.checkLength length = .error e) : e.isElementNotPresent = false := by
  cases p with
  | bool => exact Prim.checkLength_fixed_error h
  | int t => exact Prim.checkLength_fixed_error h
  | integer =>
      simp only [Prim.checkLength] at h
      split at h <;> cases h
      rfl
  | string => cases h
  | octets => cases h
  | real f =>
      simp only [Prim.checkLength] at h
      split at h <;> cases h
      rfl
  | time => cases h

theorem decodeReal_error {c : Octets} {e : Error} (h : decodeReal c = .error e) :
    e.isElementNotPresent = false := by
  unfold decodeReal at h
  split at h
  · cases h
  · unfold decodeSpecialReal at h
    repeat' split at h
    all_goals cases h
    rfl
  · unfold decodeNormalReal at h
    cases hcheck : checkToDecodeNormalReal c with
    | error e' =>
        rw [hcheck] at h
        cases h
        unfold checkToDecodeNormalReal at hcheck
        simp only at hcheck
        repeat' split at hcheck
        all_goals cases hcheck
        all_goals rfl
    | ok x =>
        rw [hcheck] at h
        simp only [bind, Except.bind] at h
        split at h <;> cases h
        rfl

theorem Prim.ofContent_error {p : Prim} {c : Octets} {e : Error} (h : p.ofContent c = .error e) :
    e.isElementNotPresent = false := by
  cases p with
  | bool => cases h
  | int t =>
      simp only [Prim.ofContent] at h
      split at h
      · cases h
        rfl
      · cases h
  | integer => cases h
  | string => cases h
  | octets => cases h
  | real f =>
      simp only [Prim.ofContent] at h
      cases hreal : decodeReal c with
      | error e' =>
          rw [hreal] at h
          cases h
          exact decodeReal_error hreal
      | ok v =>
          rw [hreal] at h
          cases h
  | time => exact decodeTime_error h

theorem not_throwsNotPresent_liftExcept {x : Except Error α}
    (h : ∀ e, x = .error e → e.isElementNotPresent = false) :
    ¬ ThrowsNotPresent (liftExcept x) d := by
  cases hx : x with
  | ok a => exact not_throwsNotPresent_of_ok rfl
  | error e => exact not_throwsNotPresent_of_error rfl (h e hx)

/-! ## What a type misses -/

/-- No element with this class and tag is here. -/
def Deserialiser.Lacks (data : Octets) (ident : Ident) (d : Deserialiser) : Prop :=
  d.Absent data ∨ ∃ hd r, parseHeader (data.drop d.pos) = .ok (hd, r) ∧ hd.ident ≠ ident

/-- The element is not here, or is entered and `inside` is missing. -/
def MissingIn (data : Octets) (ident : Ident) (notConstructed : Error)
    (inside : Deserialiser → Prop) (d : Deserialiser) : Prop :=
  d.Lacks data ident ∨ ∃ d', startConstructed ident notConstructed d = .ok () d' ∧ inside d'

/-- An element of a container is missing in one of its rounds. -/
def MissingElement (elem : Dec α) (missing : Deserialiser → Prop) : Nat → Deserialiser → Prop
  | 0, _ => False
  | rounds + 1, d => d.isEndOfSequence = false ∧ (missing d ∨
      ∃ v d', elem d = .ok v d' ∧ d'.pos ≠ d.pos ∧ MissingElement elem missing rounds d')

/-- An element that the type requires is missing; those of an optional are not required. -/
def Schema.Missing [KeyOrder] (data : Octets) : {k : Kind} → (T : Schema k) → k.Arg →
    Deserialiser → Prop
  | _, .prim p, _, d => d.Lacks data (getIdent d.currentTag p.defaultTag)
  | _, .trailing, _, _ => False
  | _, .nothing, _, _ => False
  | _, .fields a b, _, d => a.Missing data () d ∨
      ∃ x d', amp (a.deserialise ()) d = .ok x d' ∧ b.Missing data () d'
  | _, .sequence body, _, d =>
      MissingIn data (getIdent d.currentTag AsnTag.sequence) Error.invalidSequence
        (body.Missing data ()) { d with currentTag := none }
  | _, .container _ elem, _, d =>
      MissingIn data (getIdent d.currentTag AsnTag.sequence) Error.invalidSequence
        (fun d => MissingElement (amp (elem.deserialise ())) (elem.Missing data ())
          (d.s.unread.length + 1) d) { d with currentTag := none }
  | _, .optional _, _, _ => False
  | _, .tagged .explicitTag _ (.optional _), _, _ => False
  | _, .tagged .implicitTag tag T, _, d => T.Missing data () { d with currentTag := some tag }
  | _, .tagged .explicitTag tag T, _, d =>
      MissingIn data tag.ident Error.invalidExplicitTag (T.Missing data ()) d
  | _, .choice alts, _, d => ∃ tag d', nextTag d = .ok tag d' ∧ alts.Missing data tag d'
  | _, .noAlternative, _, _ => False
  | _, .alternative tag T rest, peeked, d =>
      if tag = peeked.tag then T.Missing data () { d with currentTag := some ⟨none, tag⟩ }
      else rest.Missing data peeked d

/-- An element that an optional requires is missing inside of the element that it found. -/
def Schema.MissingInside [KeyOrder] (data : Octets) (etag : Option TagInfo) (T : Schema .type)
    (d : Deserialiser) : Prop :=
  match etag with
  | none => T.Missing data () d
  | some tag => ∃ d', startExplicitTag tag d = .ok () d' ∧ T.Missing data () d'

/-! ## Headers -/

/-- A header that cannot be read is an error, and no missing element. -/
theorem parseHeader_error (hd : d.Reads saved data) {e : Error}
    (hp : parseHeader (data.drop d.pos) = .error e) : e.isElementNotPresent = false := by
  rcases nextTag_reads hd with ⟨h, r, s, hp', -⟩ | ⟨e', s, hp', -, he⟩
  · cases hp.symm.trans hp'
  · cases hp.symm.trans hp'
    exact he

theorem throwsNotPresent_header (hd : d.Reads saved data) (ident : Ident) :
    ThrowsNotPresent (decodeHeaderOf ident) d ↔ d.Lacks data ident := by
  unfold Deserialiser.Lacks
  rcases decodeHeaderOf_spec hd.represents ident with
    ⟨habsent, s, hrun, -, -⟩ | ⟨habsent, e, s, hp, hrun⟩ | ⟨habsent, h, r, s, hp, -, -, hrun⟩
  · exact iff_of_true ⟨_, _, hrun, rfl⟩ (.inl habsent)
  · refine iff_of_false (not_throwsNotPresent_of_error hrun (parseHeader_error hd hp)) ?_
    rintro (h | ⟨hd', r, hp', -⟩)
    · exact habsent h
    · cases hp.symm.trans hp'
  · by_cases hident : h.ident = ident
    · rw [if_pos hident] at hrun
      refine iff_of_false (not_throwsNotPresent_of_ok hrun) ?_
      rintro (h | ⟨hd', r, hp', hne⟩)
      · exact habsent h
      · cases hp.symm.trans hp'
        exact hne hident
    · rw [if_neg hident] at hrun
      exact iff_of_true ⟨_, _, hrun, rfl⟩ (.inr ⟨h, r, hp, hident⟩)

theorem startConstructed_reads (hd : d.Reads saved data) {ident : Ident} {e : Error}
    (hrun : startConstructed ident e d = .ok () d') : d'.Reads saved data := by
  have hkept := KeepsReads.startConstructed ident e saved data d (.inr hd)
  rw [hrun] at hkept
  rcases startConstructed_run ident e d with ⟨x, s, hrun'⟩ | ⟨e, s, hrun'⟩
  · cases hrun.symm.trans hrun'
    rcases hkept with ⟨e, hex, -⟩ | hkept
    · cases hd.ex.symm.trans hex
    · exact hkept
  · cases hrun.symm.trans hrun'

theorem throwsNotPresent_startConstructed (hd : d.Reads saved data) (ident : Ident) {e : Error}
    (he : e.isElementNotPresent = false) :
    ThrowsNotPresent (startConstructed ident e) d ↔ d.Lacks data ident := by
  refine throwsNotPresent_bind.trans ((or_iff_left ?_).trans (throwsNotPresent_header hd ident))
  rintro ⟨h, d₁, -, hthrows⟩
  split at hthrows
  · unfold push at hthrows
    obtain ⟨e', d₂, hrun, he'⟩ := hthrows
    simp only at hrun
    split at hrun <;> cases hrun
    cases he'
  · exact not_throwsNotPresent_of_error rfl he hthrows

/-- An element whose body misses exactly when `inside` holds. -/
theorem throwsNotPresent_enter (hd : d.Reads saved data) (ident : Ident) {e : Error}
    (he : e.isElementNotPresent = false) {body : Dec α} {inside : Deserialiser → Prop}
    (hbody : ∀ d', d'.Reads saved data → (ThrowsNotPresent body d' ↔ inside d')) :
    ThrowsNotPresent (startConstructed ident e >>= fun _ => body) d ↔
      MissingIn data ident e inside d := by
  refine throwsNotPresent_bind.trans (or_congr (throwsNotPresent_startConstructed hd ident he) ?_)
  constructor
  · rintro ⟨⟨⟩, d₁, hstart, hthrows⟩
    exact ⟨d₁, hstart, (hbody d₁ (startConstructed_reads hd hstart)).mp hthrows⟩
  · rintro ⟨d₁, hstart, hinside⟩
    exact ⟨(), d₁, hstart, (hbody d₁ (startConstructed_reads hd hstart)).mpr hinside⟩

theorem nextTag_ok_reads (hd : d.Reads saved data) {tag : TagInfo}
    (hrun : nextTag d = .ok tag d') : d'.Reads saved data := by
  rcases nextTag_reads hd with ⟨h, r, s, -, hrun', hrep, -⟩ | ⟨e, s, -, hrun', -⟩
  · cases hrun.symm.trans hrun'
    exact ⟨hrep, hd.ex⟩
  · cases hrun.symm.trans hrun'

/-! ## Every type -/

theorem throwsNotPresent_containerLoop {elem : Dec α} {missing : Deserialiser → Prop}
    (helem : ∀ d : Deserialiser, d.Reads saved data → (ThrowsNotPresent elem d ↔ missing d))
    (hreads : ∀ {d d' : Deserialiser} {v : α}, d.Reads saved data → elem d = .ok v d' →
      d'.Reads saved data)
    (insert : List α → α → List α) (rounds : Nat) (v : List α) (hd : d.Reads saved data) :
    ThrowsNotPresent (containerLoop elem insert rounds v) d ↔
      MissingElement elem missing rounds d := by
  induction rounds generalizing v d with
  | zero => exact iff_of_false (not_throwsNotPresent_of_error rfl rfl) id
  | succ rounds ih =>
      have hget : (get : Dec Deserialiser) d = .ok d d := rfl
      rw [containerLoop, throwsNotPresent_bind_of_ok hget]
      unfold MissingElement
      cases hend : d.isEndOfSequence with
      | true =>
          rw [if_pos rfl]
          exact iff_of_false (not_throwsNotPresent_of_ok rfl) fun h => Bool.noConfusion h.1
      | false =>
          rw [if_neg Bool.false_ne_true, throwsNotPresent_bind, helem d hd]
          refine (or_congr_right ?_).trans (and_iff_right rfl).symm
          refine exists_congr fun temp => exists_congr fun d₁ => and_congr_right fun hrun => ?_
          have hget' : (get : Dec Deserialiser) d₁ = .ok d₁ d₁ := rfl
          rw [throwsNotPresent_bind_of_ok hget']
          by_cases hpos : d₁.pos = d.pos
          · rw [if_pos hpos]
            exact iff_of_false (not_throwsNotPresent_of_error rfl rfl) fun h => h.1 hpos
          · rw [if_neg hpos, ih _ (hreads hd hrun)]
            exact (and_iff_right hpos).symm

/-- The content of an element is refused for another reason. -/
theorem throwsNotPresent_prim (hd : d.Reads saved data) (p : Prim) (tag : Option TagInfo) :
    ThrowsNotPresent (p.decode tag) d ↔ d.Lacks data (getIdent tag p.defaultTag) := by
  refine throwsNotPresent_bind.trans ((or_iff_left ?_).trans (throwsNotPresent_header hd _))
  rintro ⟨h, d₁, -, hthrows⟩
  rcases throwsNotPresent_bind.mp hthrows with hthrows | ⟨u, d₂, -, hthrows⟩
  · exact not_throwsNotPresent_liftExcept (fun e he => Prim.checkLength_error he) hthrows
  rcases throwsNotPresent_bind.mp hthrows with hthrows | ⟨buf, d₃, -, hthrows⟩
  · exact (OnlyReads.read h.length).not_throwsNotPresent d₂ hthrows
  · exact not_throwsNotPresent_liftExcept (fun e he => Prim.ofContent_error he) hthrows

theorem not_throwsNotPresent_trailing (d : Deserialiser) : ¬ ThrowsNotPresent decodeTrailing d := by
  have hget : (get : Dec Deserialiser) d = .ok d d := rfl
  rw [decodeTrailing, throwsNotPresent_bind_of_ok hget]
  split
  · exact not_throwsNotPresent_of_error rfl rfl
  · split
    · exact (OnlyReads.read _).not_throwsNotPresent d
    · exact not_throwsNotPresent_of_ok rfl

theorem not_throwsNotPresent_optional (m : Dec (Option α)) (d : Deserialiser) :
    ¬ ThrowsNotPresent (catching Error.isElementNotPresent m (return none)) d := by
  cases hrun : m d with
  | ok v d' => exact not_throwsNotPresent_of_ok (catching_of_ok hrun)
  | error e d' =>
      cases he : e.isElementNotPresent with
      | true => exact not_throwsNotPresent_of_ok (catching_of_caught hrun he)
      | false => exact not_throwsNotPresent_of_error (catching_of_uncaught hrun he) he

theorem throwsNotPresent_map {m : Dec α} (f : α → β) :
    ThrowsNotPresent (m >>= fun v => pure (f v)) d ↔ ThrowsNotPresent m d := by
  refine throwsNotPresent_bind.trans (or_iff_left ?_)
  rintro ⟨v, d₁, -, hthrows⟩
  exact not_throwsNotPresent_of_ok rfl hthrows

/-- The end of an element that was read is not missing. -/
theorem throwsNotPresent_element {m : Dec α} (f : α → β) :
    ThrowsNotPresent (m >>= fun v => endExplicitTag >>= fun _ => pure (f v)) d ↔
      ThrowsNotPresent m d := by
  refine throwsNotPresent_bind.trans (or_iff_left ?_)
  rintro ⟨v, d₁, -, hthrows⟩
  rcases pop_run d₁ with ⟨s, hrun⟩ | ⟨e, s, hrun, he⟩
  · obtain ⟨e, d₂, hrun', -⟩ := hthrows
    rw [endExplicitTag, bind_of_ok hrun] at hrun'
    cases hrun'
  · exact throwsNotPresent_bind_of_error hrun he hthrows

theorem throwsNotPresent_inSequence (hd : d.Reads saved data) {body : Dec α}
    {inside : Deserialiser → Prop}
    (hbody : ∀ d', d'.Reads saved data → (ThrowsNotPresent body d' ↔ inside d')) :
    ThrowsNotPresent (inSequence body) d ↔
      MissingIn data (getIdent d.currentTag AsnTag.sequence) Error.invalidSequence inside
        { d with currentTag := none } := by
  refine (throwsNotPresent_bind_of_ok (useCurrentTag_apply d)).trans ?_
  refine throwsNotPresent_enter (d := { d with currentTag := none }) ⟨hd.represents, hd.ex⟩ _ rfl ?_
  intro d' hd'
  exact throwsNotPresent_withDestructor.trans (hbody d' hd')

variable [KeyOrder]

/-- `element_not_present` says just that: an element that the type requires is not there. -/
theorem Schema.throwsNotPresent_iff {k : Kind} (T : Schema k) (arg : k.Arg)
    (hd : d.Reads saved data) :
    ThrowsNotPresent (T.deserialise arg) d ↔ T.Missing data arg d := by
  have hkeeps : ∀ T : Schema .type, KeepsReads T.Val (T.deserialise ()) := fun T =>
    KeepsReads.compositional.deserialise T ()
  have hreads : ∀ (T : Schema .type) {d d' : Deserialiser} {v : T.Val}, d.Reads saved data →
      amp (T.deserialise ()) d = .ok v d' → d'.Reads saved data :=
    fun T _ _ _ hd hrun => amp_reads (hkeeps T) hd hrun
  induction k, T using Schema.tagInduction generalizing d with
  | prim p =>
      refine (throwsNotPresent_bind_of_ok (useCurrentTag_apply d)).trans ?_
      exact throwsNotPresent_prim (d := { d with currentTag := none }) ⟨hd.represents, hd.ex⟩ p _
  | trailing => exact iff_of_false (not_throwsNotPresent_trailing d) id
  | nothing => exact iff_of_false (not_throwsNotPresent_of_ok rfl) id
  | fields a b iha ihb =>
      refine throwsNotPresent_bind.trans ?_
      refine or_congr ((throwsNotPresent_amp (hkeeps a) hd).trans (iha () hd)) ?_
      refine exists_congr fun x => exists_congr fun d₁ => and_congr_right fun hrun => ?_
      have hd₁ := hreads a hd hrun
      exact (throwsNotPresent_map _).trans
        ((throwsNotPresent_amp (hkeeps b) hd₁).trans (ihb () hd₁))
  | sequence body ih =>
      refine throwsNotPresent_inSequence hd ?_
      intro d' hd'
      exact (throwsNotPresent_amp (hkeeps body) hd').trans (ih () hd')
  | container c elem ih =>
      refine throwsNotPresent_inSequence hd ?_
      intro d' hd'
      have hget : (get : Dec Deserialiser) d' = .ok d' d' := rfl
      refine (throwsNotPresent_bind_of_ok hget).trans ?_
      refine throwsNotPresent_containerLoop ?_ (hreads elem) _ _ _ hd'
      intro d₂ hd₂
      exact (throwsNotPresent_amp (hkeeps elem) hd₂).trans (ih () hd₂)
  | optional T ih => exact iff_of_false (not_throwsNotPresent_optional _ d) id
  | implicit tag T ih =>
      rw [Schema.deserialise_implicit]
      have hset : (modify fun d => { d with currentTag := some tag } : Dec PUnit) d =
        .ok ⟨⟩ { d with currentTag := some tag } := rfl
      have hd' : Deserialiser.Reads saved data { d with currentTag := some tag } :=
        ⟨hd.represents, hd.ex⟩
      refine (throwsNotPresent_bind_of_ok hset).trans ?_
      exact (throwsNotPresent_amp (hkeeps T) hd').trans (ih () hd')
  | explicitOptional tag T ih => exact iff_of_false (not_throwsNotPresent_optional _ d) id
  | explicit tag T hT ih =>
      have hmissing : (tagged .explicitTag tag T).Missing data () d ↔
          MissingIn data tag.ident Error.invalidExplicitTag (T.Missing data ()) d := by
        cases T <;> first | exact Iff.rfl | cases hT
      rw [Schema.deserialise_explicit tag hT, hmissing]
      refine throwsNotPresent_enter hd _ rfl ?_
      intro d' hd'
      exact (throwsNotPresent_element id).trans
        ((throwsNotPresent_amp (hkeeps T) hd').trans (ih () hd'))
  | choice alts ih =>
      refine throwsNotPresent_bind.trans ?_
      constructor
      · rintro (hthrows | ⟨tag, d₁, htag, hthrows⟩)
        · rcases nextTag_run d with ⟨t, s, hrun⟩ | ⟨e, s, hrun, he⟩
          · exact absurd hthrows (not_throwsNotPresent_of_ok hrun)
          · exact absurd hthrows (not_throwsNotPresent_of_error hrun he)
        · exact ⟨tag, d₁, htag, (ih tag (nextTag_ok_reads hd htag)).mp hthrows⟩
      · rintro ⟨tag, d₁, htag, hmissing⟩
        exact .inr ⟨tag, d₁, htag, (ih tag (nextTag_ok_reads hd htag)).mpr hmissing⟩
  | noAlternative => exact iff_of_false (not_throwsNotPresent_of_error rfl rfl) id
  | alternative tag T rest ih ihrest =>
      unfold Schema.deserialise Schema.Missing
      split
      · have hset : (modify fun d => { d with currentTag := some ⟨none, tag⟩ } : Dec PUnit) d =
          .ok ⟨⟩ { d with currentTag := some ⟨none, tag⟩ } := rfl
        have hd' : Deserialiser.Reads saved data { d with currentTag := some ⟨none, tag⟩ } :=
          ⟨hd.represents, hd.ex⟩
        have hobj := KeepsReads.compositional.handleTag .implicitTag ⟨none, tag⟩
          (KeepsReads.compositional.amp (hkeeps T))
        refine (throwsNotPresent_map _).trans ((throwsNotPresent_amp hobj hd).trans ?_)
        refine (throwsNotPresent_bind_of_ok hset).trans ?_
        exact (throwsNotPresent_amp (hkeeps T) hd').trans (ih () hd')
      · exact (throwsNotPresent_map _).trans (ihrest arg hd)

/-! ## Optionals -/

omit [KeyOrder] in
theorem Deserialiser.Reads.startPeek (hd : d.Reads saved data) :
    ({ d with s := d.s.startPeek.2 } : Deserialiser).Reads
      (⟨d.s.startPeek.1, d.pos⟩ :: saved) data :=
  ⟨(startPeek_spec hd.represents).1, hd.ex⟩

/-- What `handle` runs inside its peek. -/
def optionalContent (etag : Option TagInfo) (temp : Dec α) : Dec (Option α) :=
  match etag with
  | none => temp >>= fun v => pure (some v)
  | some tag => startExplicitTag tag >>= fun _ => temp >>= fun v => endExplicitTag >>= fun _ =>
      pure (some v)

omit [KeyOrder] in
theorem handleOptional_eq (etag : Option TagInfo) (temp : Dec α) : handleOptional etag temp =
    catching Error.isElementNotPresent (peekGuard (optionalContent etag temp)) (return none) := by
  cases etag <;> rfl

omit [KeyOrder] in
/-- The content of an optional that is read is a value. -/
theorem optionalContent_ne_none {etag : Option TagInfo} {temp : Dec α} :
    optionalContent etag temp d ≠ .ok none d' := by
  intro hrun
  cases etag with
  | none =>
      obtain ⟨v, d₁, -, hrun⟩ := bind_eq_ok.mp hrun
      cases hrun
  | some tag =>
      obtain ⟨-, d₁, -, hrun⟩ := bind_eq_ok.mp hrun
      obtain ⟨v, d₂, -, hrun⟩ := bind_eq_ok.mp hrun
      obtain ⟨-, d₃, -, hrun⟩ := bind_eq_ok.mp hrun
      cases hrun

omit [KeyOrder] in
/-- An optional is absent exactly if its content throws `element_not_present`. -/
theorem handleOptional_eq_none_iff (etag : Option TagInfo) (temp : Dec α) (d d' : Deserialiser) :
    handleOptional etag temp d = .ok none d' ↔
      ∃ e d₁, optionalContent etag temp { d with s := d.s.startPeek.2 } = .error e d₁ ∧
        e.isElementNotPresent = true ∧
        d' = { d₁ with s := d₁.s.endPeek d.s.startPeek.1 false } := by
  rw [handleOptional_eq]
  cases hrun : optionalContent etag temp { d with s := d.s.startPeek.2 } with
  | ok v d₁ =>
      have hguard : peekGuard (optionalContent etag temp) d =
          .ok v { d₁ with s := d₁.s.endPeek d.s.startPeek.1 true } := scopeExit_of_ok hrun
      rw [catching_of_ok hguard]
      refine iff_of_false ?_ nofun
      intro h
      cases h
      exact optionalContent_ne_none hrun
  | error e d₁ =>
      have hguard : peekGuard (optionalContent etag temp) d =
          .error e { d₁ with s := d₁.s.endPeek d.s.startPeek.1 false } := scopeExit_of_error hrun
      cases he : e.isElementNotPresent with
      | true =>
          rw [catching_of_caught hguard he]
          constructor
          · intro h
            cases h
            exact ⟨e, d₁, rfl, he, rfl⟩
          · rintro ⟨e', d₂, h, -, rfl⟩
            cases h
            rfl
      | false =>
          rw [catching_of_uncaught hguard he]
          refine iff_of_false nofun ?_
          rintro ⟨e', d₂, h, he', -⟩
          cases h
          rw [he] at he'
          cases he'

theorem throwsNotPresent_optionalContent (etag : Option TagInfo) (T : Schema .type)
    (hd : d.Reads saved data) (hpresent : ∀ tag ∈ etag, ¬ d.Lacks data tag.ident) :
    ThrowsNotPresent (optionalContent etag (amp (T.deserialise ()))) d ↔
      T.MissingInside data etag d := by
  have hkeeps := KeepsReads.compositional.deserialise T ()
  cases etag with
  | none =>
      exact (throwsNotPresent_map some).trans
        ((throwsNotPresent_amp hkeeps hd).trans (T.throwsNotPresent_iff () hd))
  | some tag =>
      refine Iff.trans (throwsNotPresent_enter hd _ rfl ?_) (or_iff_right (hpresent tag rfl))
      intro d' hd'
      exact (throwsNotPresent_element some).trans
        ((throwsNotPresent_amp hkeeps hd').trans (T.throwsNotPresent_iff () hd'))

/-- The class and tag of the element that the type starts with, under a pending tag. -/
def Schema.expects : {k : Kind} → Schema k → Option TagInfo → Option Ident
  | _, .prim p, t => some (getIdent t p.defaultTag)
  | _, .trailing, _ => none
  | _, .nothing, _ => none
  | _, .fields a _, t => a.expects t
  | _, .sequence _, t => some (getIdent t AsnTag.sequence)
  | _, .container _ _, t => some (getIdent t AsnTag.sequence)
  | _, .optional T, t => T.expects t
  | _, .tagged .implicitTag tag T, _ => T.expects (some tag)
  | _, .tagged .explicitTag tag _, _ => some tag.ident
  | _, .choice _, _ => none
  | _, .noAlternative, _ => none
  | _, .alternative _ _ _, _ => none

/-- The class and tag that an optional expects. -/
def Schema.expectsOptional (etag : Option TagInfo) (T : Schema .type) (t : Option TagInfo) :
    Option Ident :=
  match etag with
  | none => T.expects t
  | some tag => some tag.ident

/-- In front of the element it expects, an optional is not read as absent exactly if nothing that
its type requires is missing inside of the element. -/
theorem optional_not_absent_iff (etag : Option TagInfo) (T : Schema .type)
    (hd : d.Reads saved data) {header : AsnHeader} {r : Octets} (hpresent : ¬ d.Absent data)
    (hparse : parseHeader (data.drop d.pos) = .ok (header, r))
    (hident : T.expectsOptional etag d.currentTag = some header.ident) :
    (∀ d', handleOptional etag (amp (T.deserialise ())) d ≠ .ok none d') ↔
      ¬ T.MissingInside data etag { d with s := d.s.startPeek.2 } := by
  have hfound : ∀ tag ∈ etag, ¬ ({ d with s := d.s.startPeek.2 } : Deserialiser).Lacks data
      tag.ident := by
    rintro tag htag (habsent | ⟨header', r', hparse', hne⟩)
    · exact hpresent habsent
    · cases hparse.symm.trans hparse'
      rw [Option.mem_def.mp htag] at hident
      exact hne (Option.some.inj hident).symm
  rw [← throwsNotPresent_optionalContent etag T hd.startPeek hfound]
  constructor
  · rintro h ⟨e, d₁, hrun, he⟩
    exact h _ ((handleOptional_eq_none_iff ..).mpr ⟨e, d₁, hrun, he, rfl⟩)
  · intro h d' hrun
    obtain ⟨e, d₁, hrun, he, -⟩ := (handleOptional_eq_none_iff ..).mp hrun
    exact h ⟨e, d₁, hrun, he⟩

omit [KeyOrder] in
theorem reads_ofOctets (b : Octets) : (Deserialiser.ofOctets b).Reads [] b :=
  ⟨represents_ofOctets b, rfl⟩

omit [KeyOrder] in
theorem not_absent_ofOctets {b : Octets} (hb : b ≠ []) : ¬ (Deserialiser.ofOctets b).Absent b := by
  rintro (h | ⟨-, h⟩)
  · cases h
  · exact hb (List.length_eq_zero_iff.mp h.symm)

omit [KeyOrder] in
/-- A struct with a boolean in its place. -/
theorem optional_not_absent_struct :
    let _ := KeyOrder.unordered
    let T := Schema.sequence (.prim .bool)
    let d := Deserialiser.ofOctets [0x30, 0x03, 0x01, 0x01, 0xff]
    (∀ d', handleOptional none (amp (T.deserialise ())) d ≠ .ok none d') ↔
      ¬ T.MissingInside [0x30, 0x03, 0x01, 0x01, 0xff] none { d with s := d.s.startPeek.2 } :=
  @optional_not_absent_iff _ _ _ .unordered none _ (reads_ofOctets _)
    ⟨.universal, 16, 3, true⟩ [0x01, 0x01, 0xff] (not_absent_ofOctets nofun) (by decide +kernel) rfl

omit [KeyOrder] in
theorem exists_absent {x : EStateM.Result Error Deserialiser (Option α)} (p : Deserialiser → Bool)
    (h : (match x with | .ok none d' => p d' | _ => false) = true) :
    ∃ d', x = .ok none d' ∧ p d' = true := by
  split at h
  next d' => exact ⟨d', rfl, h⟩
  next => cases h

omit [KeyOrder] in
/-- A struct with octets in the place of its boolean is read as no struct. -/
theorem optional_not_absent_fails :
    ¬ ∀ (_ : KeyOrder) (T : Schema .type) (data r : Octets) (header : AsnHeader),
      data ≠ [] → parseHeader data = .ok (header, r) →
      T.expectsOptional none none = some header.ident →
      ∀ d', handleOptional none (amp (T.deserialise ())) (.ofOctets data) ≠ .ok none d' := by
  intro h
  have hrun : letI := KeyOrder.unordered; ∃ d', handleOptional none (amp ((Schema.sequence (.prim .bool)).deserialise ()))
      (.ofOctets [0x30, 0x02, 0x04, 0x00]) = .ok none d' ∧ _ :=
    exists_absent (fun _ => true) (by decide +kernel)
  obtain ⟨d', hrun, -⟩ := hrun
  exact h .unordered (.sequence (.prim .bool)) [0x30, 0x02, 0x04, 0x00] [0x04, 0x00]
    ⟨.universal, 16, 2, true⟩ nofun (by decide +kernel) rfl d' hrun

end Securepath.Serialisation
