import Securepath.Library.Unwinding
import Securepath.Serialisation.Acceptance

/-!
# Errors on their way out

What the deserialiser leaves behind when an element is not present, or when the
destructor of a sequence runs out of octets. `Compositional` lists what every
`deserialise` is put together from; what holds of the parts holds of every type.
-/

namespace Securepath.Serialisation

open StateExcept BufferedStream

variable {α β : Type}

/-! ## Operations that only read -/

/-- Nothing but the stream changes, and an optional does not catch what is thrown. -/
def OnlyReads (m : Dec α) : Prop :=
  ∀ d, (∃ v s, m d = .ok v { d with s := s }) ∨
    ∃ e s, m d = .error e { d with s := s } ∧ e.isElementNotPresent = false

namespace OnlyReads

theorem pure (a : α) : OnlyReads (pure a) := fun d => .inl ⟨a, d.s, rfl⟩

theorem throw {e : Error} (he : e.isElementNotPresent = false) : OnlyReads (throw e : Dec α) :=
  fun d => .inr ⟨e, d.s, rfl, he⟩

theorem bind {m : Dec α} {f : α → Dec β} (hm : OnlyReads m) (hf : ∀ a, OnlyReads (f a)) :
    OnlyReads (m >>= f) := by
  intro d
  rcases hm d with ⟨v, s, hrun⟩ | ⟨e, s, hrun, he⟩
  · rw [bind_of_ok hrun]
    exact hf v { d with s := s }
  · rw [bind_of_error hrun]
    exact .inr ⟨e, s, rfl, he⟩

theorem read (n : Nat) : OnlyReads (OctetReader.read n) := by
  intro d
  simp only [OctetReader.read, BufferedStream.read]
  generalize d.s.readFromBuffer n = r
  split
  next b s heq =>
    exact .inl ⟨b, s, rfl⟩
  next e s heq =>
    refine .inr ⟨e, s, rfl, ?_⟩
    split at heq
    · split at heq
      · cases heq
      next herr =>
        unfold readFromStream at herr
        split at herr
        · split at herr <;> cases herr
        · cases herr
          cases heq
          rfl
    · cases heq

theorem readOctet : OnlyReads readOctet := (read 1).bind fun _ => .pure _

theorem decodeLongTagFrom (left : Nat) (ret : UInt64) (b : UInt8) :
    OnlyReads (decodeLongTagFrom left ret b) := by
  induction left generalizing ret b with
  | zero =>
      unfold Serialisation.decodeLongTagFrom
      split
      · exact .pure _
      · exact .throw rfl
  | succ left ih =>
      unfold Serialisation.decodeLongTagFrom
      split
      · exact .pure _
      · exact readOctet.bind fun b' => ih _ b'

theorem decodeTag : OnlyReads decodeTag := by
  refine readOctet.bind fun b => .bind ?_ fun _ => .pure _
  unfold decodeTagNumber
  split
  · exact readOctet.bind fun b => decodeLongTagFrom 9 0 b
  · exact .pure _

theorem decodeLength : OnlyReads decodeLength := by
  refine readOctet.bind fun b => ?_
  split
  · unfold decodeLongLength
    split
    · exact .throw rfl
    · exact (read _).bind fun _ => .pure _
  · exact .pure _

theorem decodeHeader : OnlyReads decodeHeader := by
  refine decodeTag.bind fun h => decodeLength.bind fun l => ?_
  split
  · exact .throw rfl
  · exact .pure _

theorem skipOctets (n : Nat) : OnlyReads (skipOctets n) := by
  induction n with
  | zero => exact .pure _
  | succ n ih => exact readOctet.bind fun _ => ih

end OnlyReads

/-! ## The stack of sequence ends -/

theorem decodeHeaderOf_run (ident : Ident) (d : Deserialiser) :
    (∃ hd s, decodeHeaderOf ident d = .ok hd { d with s := s }) ∨
      ∃ e s, decodeHeaderOf ident d = .error e { d with s := s } := by
  have hhere : ∃ b s, noElementHere d = .ok b { d with s := s } := by
    have hget : (get : Dec Deserialiser) d = .ok d d := rfl
    rw [noElementHere, bind_of_ok hget]
    split
    · exact ⟨true, d.s, rfl⟩
    split
    · exact ⟨_, _, rfl⟩
    · exact ⟨false, d.s, rfl⟩
  obtain ⟨b, s, hrun⟩ := hhere
  rw [decodeHeaderOf, bind_of_ok hrun]
  split
  · exact .inr ⟨_, s, rfl⟩
  rcases OnlyReads.decodeHeader { d with s := s } with ⟨hd, s', hrun'⟩ | ⟨e, s', hrun', -⟩
  · rw [bind_of_ok hrun']
    split
    · exact .inr ⟨_, s', rfl⟩
    · exact .inl ⟨hd, s', rfl⟩
  · exact .inr ⟨e, s', bind_of_error hrun'⟩

theorem startConstructed_run (ident : Ident) (notConstructed : Error) (d : Deserialiser) :
    (∃ x s, startConstructed ident notConstructed d =
      .ok () { d with s := s, seqPos := x :: d.seqPos }) ∨
      ∃ e s, startConstructed ident notConstructed d = .error e { d with s := s } := by
  rw [startConstructed]
  rcases decodeHeaderOf_run ident d with ⟨hd, s, hrun⟩ | ⟨e, s, hrun⟩
  · rw [bind_of_ok hrun]
    split
    · unfold push
      split
      · exact .inr ⟨_, s, rfl⟩
      · exact .inl ⟨_, s, rfl⟩
    · exact .inr ⟨_, s, rfl⟩
  · exact .inr ⟨e, s, bind_of_error hrun⟩

/-- The end is off the stack even when the octets run out on the way there. -/
theorem pop_run (d : Deserialiser) :
    (∃ s, pop d = .ok () { d with s := s, seqPos := d.seqPos.tail }) ∨
      ∃ e s, pop d = .error e { d with s := s, seqPos := d.seqPos.tail } ∧
        e.isElementNotPresent = false := by
  have hget : (get : Dec Deserialiser) d = .ok d d := rfl
  rw [pop, bind_of_ok hget]
  cases hseq : d.seqPos with
  | nil =>
      refine .inl ⟨d.s, ?_⟩
      simp only [List.tail_nil]
      rw [← hseq]
      rfl
  | cons e rest =>
      simp only [List.tail_cons]
      have hset : (set { d with seqPos := rest } : Dec PUnit) d =
        .ok () { d with seqPos := rest } := rfl
      rw [bind_of_ok hset]
      rcases OnlyReads.skipOctets (e - d.pos) { d with seqPos := rest } with
        ⟨v, s, hrun⟩ | ⟨e', s, hrun, he⟩
      · exact .inl ⟨s, hrun⟩
      · exact .inr ⟨e', s, hrun, he⟩

/-- `end_sequence` throws nothing: what `pop` throws is kept. -/
theorem endSequence_run (d : Deserialiser) : ∃ s ex,
    endSequence d = { d with s := s, seqPos := d.seqPos.tail, ex := ex } ∧
      (ex = d.ex ∨ ∃ e, ex = some e ∧ e.isElementNotPresent = false) := by
  unfold endSequence
  rcases pop_run d with ⟨s, hrun⟩ | ⟨e, s, hrun, he⟩
  · rw [hrun]
    exact ⟨s, d.ex, rfl, .inl rfl⟩
  · rw [hrun]
    exact ⟨s, some e, rfl, .inr ⟨e, rfl, he⟩⟩

/-- More ends are on the stack than before, or just the same ones. -/
def NotShallower (d d' : Deserialiser) : Prop :=
  d.seqPos.length < d'.seqPos.length ∨ d'.seqPos = d.seqPos

theorem NotShallower.refl (d : Deserialiser) : NotShallower d d := .inr rfl

theorem NotShallower.trans {d₁ d₂ d₃ : Deserialiser} (h : NotShallower d₁ d₂)
    (h' : NotShallower d₂ d₃) : NotShallower d₁ d₃ := by
  unfold NotShallower at *
  rcases h with h | h <;> rcases h' with h' | h'
  · exact .inl (h.trans h')
  · exact .inl (h' ▸ h)
  · exact .inl (h ▸ h')
  · exact .inr (h'.trans h)

/-- Leaving an element that was entered. -/
theorem NotShallower.tail {x : Nat} {ends ends' : List Nat}
    (h : (x :: ends).length < ends'.length ∨ ends' = x :: ends) :
    ends.length < ends'.tail.length ∨ ends'.tail = ends := by
  rcases h with h | rfl
  · rw [List.length_cons] at h
    rw [List.length_tail]
    exact .inl (by omega)
  · exact .inr rfl

/-! ## What everything is put together from -/

/-- The kinds of computations that hold of every `deserialise` when they hold of its parts. -/
structure Compositional (P : (α : Type) → Dec α → Prop) : Prop where
  pure : ∀ {α : Type} (a : α), P α (pure a)
  throw : ∀ {α : Type} (e : Error), P α (throw e)
  bind : ∀ {α β : Type} {m : Dec α} {f : α → Dec β}, P α m → (∀ a, P β (f a)) → P β (m >>= f)
  get : P Deserialiser get
  useCurrentTag : P (Option TagInfo) useCurrentTag
  setCurrentTag : ∀ tag, P PUnit (modify fun d => { d with currentTag := some tag })
  rethrow : P Unit rethrow
  header : ∀ ident, P AsnHeader (decodeHeaderOf ident)
  read : ∀ n, P Octets (OctetReader.read n)
  nextTag : P TagInfo nextTag
  scope : ∀ {α : Type} (ident : Ident) (e : Error) {body : Dec α}, P α body →
    P α (startConstructed ident e >>= fun _ => withDestructor body endSequence)
  element : ∀ {α β : Type} (tag : TagInfo) {m : Dec α} (f : α → β), P α m →
    P β (startExplicitTag tag >>= fun _ => m >>= fun v => endExplicitTag >>= fun _ =>
      Pure.pure (f v))
  optional : ∀ {α : Type} {m : Dec (Option α)}, P (Option α) m →
    P (Option α) (catching Error.isElementNotPresent (peekGuard m) (return none))

namespace Compositional

variable {P : (α : Type) → Dec α → Prop}

theorem liftExcept (h : Compositional P) (x : Except Error α) : P α (liftExcept x) := by
  cases x with
  | ok a => exact h.pure a
  | error e => exact h.throw e

theorem amp (h : Compositional P) {m : Dec α} (hm : P α m) : P α (amp m) :=
  h.bind hm fun v => h.bind h.rethrow fun _ => h.pure v

theorem inSequence (h : Compositional P) {body : Dec α} (hbody : P α body) :
    P α (inSequence body) :=
  h.bind h.useCurrentTag fun _ => h.scope _ _ hbody

theorem decodePrim (h : Compositional P) (p : Prim) (tag : Option TagInfo) :
    P p.Val (p.decode tag) :=
  h.bind (h.header _) fun hd => h.bind (h.liftExcept _) fun _ =>
    h.bind (h.read hd.length) fun _ => h.liftExcept _

theorem decodeTrailing (h : Compositional P) : P Octets decodeTrailing := by
  refine h.bind h.get ?_
  intro d
  split
  · exact h.throw _
  · split
    · exact h.read _
    · exact h.pure _

theorem containerLoop (h : Compositional P) {elem : Dec α} (helem : P α elem)
    (insert : List α → α → List α) (rounds : Nat) (v : List α) :
    P (List α) (containerLoop elem insert rounds v) := by
  induction rounds generalizing v with
  | zero => exact h.throw _
  | succ rounds ih =>
      refine h.bind h.get ?_
      intro before
      split
      · exact h.pure _
      · refine h.bind helem fun temp => h.bind h.get ?_
        intro after
        split
        · exact h.throw _
        · exact ih _

theorem handleTag (h : Compositional P) (tt : TagType) (tag : TagInfo) {obj : Dec α}
    (hobj : P α obj) : P α (handleTag tt tag obj) := by
  cases tt with
  | implicitTag => exact h.bind (h.setCurrentTag tag) fun _ => hobj
  | explicitTag => exact h.element tag id hobj

theorem handleOptional (h : Compositional P) (etag : Option TagInfo) {temp : Dec α}
    (htemp : P α temp) : P (Option α) (handleOptional etag temp) := by
  refine h.optional ?_
  cases etag with
  | none => exact h.bind htemp fun v => h.pure (some v)
  | some tag => exact h.element tag some htemp

/-- What holds of the parts holds of every type. -/
theorem deserialise [KeyOrder] (h : Compositional P) {k : Kind} (T : Schema k) (arg : k.Arg) :
    P T.Val (T.deserialise arg) := by
  induction k, T using Schema.tagInduction with
  | prim p => exact h.bind h.useCurrentTag fun tag => h.decodePrim p tag
  | trailing => exact h.decodeTrailing
  | nothing => exact h.pure _
  | fields a b iha ihb =>
      exact h.bind (h.amp (iha ())) fun x => h.bind (h.amp (ihb ())) fun y => h.pure (x, y)
  | sequence body ih => exact h.inSequence (h.amp (ih ()))
  | container c elem ih =>
      exact h.inSequence (h.bind h.get fun d => h.containerLoop (h.amp (ih ())) _ _ _)
  | optional T ih => exact h.handleOptional none (h.amp (ih ()))
  | implicit tag T ih =>
      rw [Schema.deserialise_implicit]
      exact h.handleTag _ tag (h.amp (ih ()))
  | explicitOptional tag T ih => exact h.handleOptional (some tag) (h.amp (ih ()))
  | explicit tag T hT ih =>
      rw [Schema.deserialise_explicit tag hT]
      exact h.handleTag _ tag (h.amp (ih ()))
  | choice alts ih => exact h.bind h.nextTag fun tag => ih tag
  | noAlternative => exact h.throw _
  | alternative tag T rest ih ihrest =>
      unfold Schema.deserialise
      split
      · exact h.bind (h.amp (h.handleTag _ _ (h.amp (ih ())))) fun v => h.pure _
      · exact h.bind (ihrest arg) fun v => h.pure _

theorem decode [KeyOrder] (h : Compositional P) (T : Schema .type) : P T.Val T.decode :=
  h.amp (h.deserialise T ())

end Compositional

/-! ## The stack is never shallower -/

theorem nextTag_run (d : Deserialiser) : (∃ t s, nextTag d = .ok t { d with s := s }) ∨
    ∃ e s, nextTag d = .error e { d with s := s } ∧ e.isElementNotPresent = false := by
  rw [nextTag, nextHeader]
  rcases OnlyReads.decodeHeader { d with s := d.s.startPeek.2 } with
    ⟨hd, s, hrun⟩ | ⟨e, s, hrun, he⟩
  · exact .inl ⟨_, s.endPeek d.s.startPeek.1 false, bind_of_ok (scopeExit_of_ok hrun)⟩
  · exact .inr ⟨e, s.endPeek d.s.startPeek.1 false, bind_of_error (scopeExit_of_error hrun), he⟩

/-- A sequence takes its end off the stack on both ways out. -/
theorem withDestructor_seqPos (body : Dec α) (d : Deserialiser) :
    (finalState (withDestructor body endSequence d)).seqPos =
      (finalState (body d)).seqPos.tail := by
  cases hrun : body d with
  | ok v d' =>
      obtain ⟨s, ex, hend, -⟩ := endSequence_run d'
      rw [withDestructor, scopeExit_of_ok hrun, hend]
      rfl
  | error e d' =>
      obtain ⟨s, ex, hend, -⟩ := endSequence_run d'
      rw [withDestructor, scopeExit_of_error hrun, hend]
      rfl

/-- An optional leaves the stack as its content does. -/
theorem optional_seqPos (m : Dec (Option α)) (d : Deserialiser) :
    (finalState (catching Error.isElementNotPresent (peekGuard m) (return none) d)).seqPos =
      (finalState (m { d with s := d.s.startPeek.2 })).seqPos := by
  cases hrun : m { d with s := d.s.startPeek.2 } with
  | ok v d' =>
      have hguard : peekGuard m d = .ok v { d' with s := d'.s.endPeek d.s.startPeek.1 true } :=
        scopeExit_of_ok hrun
      rw [catching_of_ok hguard]
      rfl
  | error e d' =>
      have hguard : peekGuard m d = .error e { d' with s := d'.s.endPeek d.s.startPeek.1 false } :=
        scopeExit_of_error hrun
      cases he : e.isElementNotPresent with
      | true =>
          rw [catching_of_caught hguard he]
          rfl
      | false =>
          rw [catching_of_uncaught hguard he]
          rfl

/-- However `m` ends, it has left nothing that was entered before. -/
def LeavesStack (α : Type) (m : Dec α) : Prop := ∀ d, NotShallower d (finalState (m d))

namespace LeavesStack

theorem of_seqPos_eq {m : Dec α} (h : ∀ d, (finalState (m d)).seqPos = d.seqPos) :
    LeavesStack α m := fun d => .inr (h d)

theorem of_ok {m : Dec α} (h : LeavesStack α m) {d d' : Deserialiser} {v : α}
    (hrun : m d = .ok v d') : NotShallower d d' := by
  have hdeep := h d
  rwa [hrun] at hdeep

theorem of_error {m : Dec α} (h : LeavesStack α m) {d d' : Deserialiser} {e : Error}
    (hrun : m d = .error e d') : NotShallower d d' := by
  have hdeep := h d
  rwa [hrun] at hdeep

theorem bind {m : Dec α} {f : α → Dec β} (hm : LeavesStack α m) (hf : ∀ a, LeavesStack β (f a)) :
    LeavesStack β (m >>= f) := by
  intro d
  have hfirst := hm d
  cases hrun : m d with
  | ok a d' =>
      rw [hrun] at hfirst
      rw [bind_of_ok hrun]
      exact hfirst.trans (hf a d')
  | error e d' =>
      rw [hrun] at hfirst
      rw [bind_of_error hrun]
      exact hfirst

/-- What is entered is left on every way out, or stays on the stack. -/
theorem entered {m : Dec α} (hm : LeavesStack α m) {x : Nat} {d : Deserialiser} (d₁ : Deserialiser)
    (hd₁ : d₁.seqPos = x :: d.seqPos) :
    d.seqPos.length < (finalState (m d₁)).seqPos.tail.length ∨
      (finalState (m d₁)).seqPos.tail = d.seqPos := by
  have hbody := hm d₁
  unfold NotShallower at hbody
  rw [hd₁] at hbody
  exact NotShallower.tail hbody

theorem scope (ident : Ident) (e : Error) {body : Dec α} (hbody : LeavesStack α body) :
    LeavesStack α (startConstructed ident e >>= fun _ => withDestructor body endSequence) := by
  intro d
  rcases startConstructed_run ident e d with ⟨x, s, hstart⟩ | ⟨e', s, hstart⟩
  · rw [bind_of_ok hstart]
    unfold NotShallower
    rw [withDestructor_seqPos]
    exact hbody.entered (d := d) { d with s := s, seqPos := x :: d.seqPos } rfl
  · rw [bind_of_error hstart]
    exact .inr rfl

theorem element (tag : TagInfo) {m : Dec α} (f : α → β) (hm : LeavesStack α m) :
    LeavesStack β (startExplicitTag tag >>= fun _ => m >>= fun v => endExplicitTag >>= fun _ =>
      Pure.pure (f v)) := by
  intro d
  rcases startConstructed_run tag.ident Error.invalidExplicitTag d with
    ⟨x, s, hstart⟩ | ⟨e', s, hstart⟩
  · rw [startExplicitTag, bind_of_ok hstart]
    have htail := hm.entered (d := d) { d with s := s, seqPos := x :: d.seqPos } rfl
    have hall := hm { d with s := s, seqPos := x :: d.seqPos }
    cases hrun : m { d with s := s, seqPos := x :: d.seqPos } with
    | ok v d' =>
        rw [hrun] at htail
        rw [bind_of_ok hrun, endExplicitTag]
        rcases pop_run d' with ⟨s', hpop⟩ | ⟨e', s', hpop, -⟩
        · rw [bind_of_ok hpop]
          exact htail
        · rw [bind_of_error hpop]
          exact htail
    | error e' d' =>
        -- the element is not left
        rw [hrun] at hall
        rw [bind_of_error hrun]
        refine .inl ?_
        rcases hall with hall | hall
        · exact Nat.lt_of_succ_lt hall
        · simp only [finalState] at hall ⊢
          rw [hall]
          exact Nat.lt_succ_self _
  · rw [startExplicitTag, bind_of_error hstart]
    exact .inr rfl

theorem optional {m : Dec (Option α)} (hm : LeavesStack (Option α) m) :
    LeavesStack (Option α)
      (catching Error.isElementNotPresent (peekGuard m) (return none)) := by
  intro d
  unfold NotShallower
  rw [optional_seqPos]
  exact hm { d with s := d.s.startPeek.2 }

theorem compositional : Compositional LeavesStack where
  pure := fun _ => of_seqPos_eq fun _ => rfl
  throw := fun _ => of_seqPos_eq fun _ => rfl
  bind := bind
  get := of_seqPos_eq fun _ => rfl
  useCurrentTag := of_seqPos_eq fun _ => rfl
  setCurrentTag := fun _ => of_seqPos_eq fun _ => rfl
  rethrow := of_seqPos_eq fun d => by
    unfold rethrow
    split <;> rfl
  header := fun ident => of_seqPos_eq fun d => by
    rcases decodeHeaderOf_run ident d with ⟨hd, s, hrun⟩ | ⟨e, s, hrun⟩ <;> rw [hrun] <;> rfl
  read := fun n => of_seqPos_eq fun d => by
    rcases OnlyReads.read n d with ⟨v, s, hrun⟩ | ⟨e, s, hrun, -⟩ <;> rw [hrun] <;> rfl
  nextTag := of_seqPos_eq fun d => by
    rcases nextTag_run d with ⟨t, s, hrun⟩ | ⟨e, s, hrun, -⟩ <;> rw [hrun] <;> rfl
  scope := scope
  element := element
  optional := optional

end LeavesStack

/-! ## An error that is kept is not lost -/

/-- `end_sequence` has kept an error that no optional catches. -/
def Deserialiser.Recorded (d : Deserialiser) : Prop :=
  ∃ e, d.ex = some e ∧ e.isElementNotPresent = false

/-- The decoder stands somewhere in `data` and has kept no error. -/
structure Deserialiser.Reads (saved : List Peek) (data : Octets) (d : Deserialiser) : Prop where
  represents : Represents saved data d.s
  ex : d.ex = none

theorem endSequence_recorded {d : Deserialiser} (h : d.Recorded) : (endSequence d).Recorded := by
  obtain ⟨s, ex, hend, rfl | hex⟩ := endSequence_run d
  · rw [hend]
    exact h
  · rw [hend]
    exact hex

/-- A kept error stays kept or is thrown. -/
def KeepsRecorded (α : Type) (m : Dec α) : Prop :=
  Keeps Error.isElementNotPresent Deserialiser.Recorded m

namespace KeepsRecorded

theorem of_ex_eq {m : Dec α} (h : ∀ d, (finalState (m d)).ex = d.ex) : KeepsRecorded α m := by
  intro d hd
  refine Ends.of_finalState ?_
  unfold Deserialiser.Recorded
  rwa [h d]

theorem startConstructed (ident : Ident) (e : Error) :
    KeepsRecorded Unit (startConstructed ident e) := by
  refine of_ex_eq fun d => ?_
  rcases startConstructed_run ident e d with ⟨x, s, hrun⟩ | ⟨e, s, hrun⟩ <;> rw [hrun] <;> rfl

theorem pop : KeepsRecorded Unit pop := by
  refine of_ex_eq fun d => ?_
  rcases pop_run d with ⟨s, hrun⟩ | ⟨e, s, hrun, -⟩ <;> rw [hrun] <;> rfl

theorem compositional : Compositional KeepsRecorded where
  pure := fun _ => of_ex_eq fun _ => rfl
  throw := fun _ => of_ex_eq fun _ => rfl
  bind := Keeps.bind
  get := of_ex_eq fun _ => rfl
  useCurrentTag := of_ex_eq fun _ => rfl
  setCurrentTag := fun _ => of_ex_eq fun _ => rfl
  rethrow := by
    rintro d ⟨e, hex, he⟩
    simp only [rethrow, hex, Ends]
    intro he'
    rw [he] at he'
    cases he'
  header := fun ident => of_ex_eq fun d => by
    rcases decodeHeaderOf_run ident d with ⟨hd, s, hrun⟩ | ⟨e, s, hrun⟩ <;> rw [hrun] <;> rfl
  read := fun n => of_ex_eq fun d => by
    rcases OnlyReads.read n d with ⟨v, s, hrun⟩ | ⟨e, s, hrun, -⟩ <;> rw [hrun] <;> rfl
  nextTag := of_ex_eq fun d => by
    rcases nextTag_run d with ⟨t, s, hrun⟩ | ⟨e, s, hrun, -⟩ <;> rw [hrun] <;> rfl
  scope := fun ident e _ hbody =>
    Keeps.bind (startConstructed ident e) fun _ => Keeps.withDestructor hbody fun _ =>
      endSequence_recorded
  element := fun tag _ f hm =>
    Keeps.bind (startConstructed _ _) fun _ => Keeps.bind hm fun v =>
      Keeps.bind pop fun _ => Keeps.pure (f v)
  optional := fun hm d hd =>
    Ends.catching ((hm { d with s := d.s.startPeek.2 } hd).scopeExit (fun _ ht => ht)
      fun _ ht => ht) fun _ _ _ ht => ht

/-- `operator&` throws what was kept. -/
theorem amp_throws {m : Dec α} (hm : KeepsRecorded α m) {d : Deserialiser} (hd : d.Recorded) :
    ∃ e d', amp m d = .error e d' ∧ (e.isElementNotPresent = true → d'.Recorded) := by
  have hends := hm d hd
  cases hrun : m d with
  | ok v d' =>
      rw [hrun] at hends
      obtain ⟨e, hex, he⟩ := hends
      have hrethrow : rethrow d' = .error e { d' with ex := none } := by simp only [rethrow, hex]
      have hthrow : amp m d = .error e { d' with ex := none } := by
        rw [amp, bind_of_ok hrun, bind_of_error hrethrow]
      refine ⟨e, _, hthrow, ?_⟩
      intro he'
      rw [he] at he'
      cases he'
  | error e d' =>
      rw [hrun] at hends
      exact ⟨e, d', amp_of_error hrun, hends⟩

end KeepsRecorded

/-! ## The stream stays in step with the octets -/

variable {saved : List Peek} {data : Octets} {d d' : Deserialiser}

/-- An error is kept, or the decoder stands somewhere in `data`. -/
def Deserialiser.InStep (saved : List Peek) (data : Octets) (d : Deserialiser) : Prop :=
  d.Recorded ∨ d.Reads saved data

/-- `next_tag` does not move. -/
theorem nextTag_reads (h : d.Reads saved data) :
    (∃ hd r s, parseHeader (data.drop d.pos) = .ok (hd, r) ∧
      nextTag d = .ok ⟨some hd.asnClass, hd.tag⟩ { d with s := s } ∧ Represents saved data s ∧
      s.pos = d.pos) ∨
    ∃ e s, parseHeader (data.drop d.pos) = .error e ∧ nextTag d = .error e { d with s := s } ∧
      e.isElementNotPresent = false := by
  obtain ⟨hpeek, hpos⟩ := startPeek_spec h.represents
  have hpos' : ({ d with s := d.s.startPeek.2 } : Deserialiser).pos = d.pos := hpos
  obtain ⟨hok, herr⟩ := Mirrors.decodeHeader _ data { d with s := d.s.startPeek.2 } hpeek
  rw [hpos'] at hok herr
  rw [nextTag, nextHeader]
  cases hp : parseHeader (data.drop d.pos) with
  | ok x =>
      obtain ⟨hd, r⟩ := x
      obtain ⟨s, hrun, hrep, -⟩ := hok hd r hp
      obtain ⟨hrep', hpos''⟩ := endPeek_restore hrep
      exact .inl ⟨hd, r, s.endPeek d.s.startPeek.1 false, rfl, bind_of_ok (scopeExit_of_ok hrun),
        hrep', hpos''⟩
  | error e =>
      obtain ⟨s, hrun⟩ := herr e hp
      refine .inr ⟨e, s.endPeek d.s.startPeek.1 false, rfl, bind_of_error (scopeExit_of_error hrun),
        ?_⟩
      rcases OnlyReads.decodeHeader { d with s := d.s.startPeek.2 } with
        ⟨hd, s', hrun'⟩ | ⟨e', s', hrun', he⟩
      · cases hrun.symm.trans hrun'
      · cases hrun.symm.trans hrun'
        exact he

/-- Where an element is left, its end is in the octets. -/
theorem pop_reads (h : d.Reads saved data) :
    (∃ s, pop d = .ok () { d with s := s, seqPos := d.seqPos.tail } ∧ Represents saved data s ∧
      (∀ x ∈ d.seqPos.head?, x ≤ data.length) ∧ d.pos ≤ s.pos) ∨
    ∃ s, pop d = .error Error.endOfStream { d with s := s, seqPos := d.seqPos.tail } := by
  cases hseq : d.seqPos with
  | nil =>
      have hget : (get : Dec Deserialiser) d = .ok d d := rfl
      refine .inl ⟨d.s, ?_, h.represents, nofun, le_refl _⟩
      rw [pop, bind_of_ok hget]
      simp only [hseq, List.tail_nil]
      rw [← hseq]
      rfl
  | cons x rest =>
      by_cases hle : x ≤ data.length
      · obtain ⟨s, hrun, hrep, hpos⟩ := pop_of_le h.represents hseq hle
        refine .inl ⟨s, hrun, hrep, ?_, hpos ▸ le_max_left _ _⟩
        intro y hy
        obtain rfl := Option.some.inj hy
        exact hle
      · obtain ⟨s, hrun⟩ := pop_of_lt h.represents hseq (by omega)
        exact .inr ⟨s, hrun⟩

/-! ## The position -/

/-- An error is kept, or the decoder stands in `data`, at `n` or behind it. -/
def Deserialiser.AheadOf (saved : List Peek) (data : Octets) (n : Nat) (d : Deserialiser) : Prop :=
  d.Recorded ∨ d.Reads saved data ∧ n ≤ d.pos

/-- The position does not go back, whatever optionals were tried. -/
def KeepsAhead (α : Type) (m : Dec α) : Prop :=
  ∀ saved data n, Keeps Error.isElementNotPresent (Deserialiser.AheadOf saved data n) m

namespace KeepsAhead

variable {n : Nat}

theorem of_reads {m : Dec α} (hm : KeepsRecorded α m)
    (h : ∀ saved data n d, d.Reads saved data → n ≤ d.pos →
      Ends Error.isElementNotPresent (Deserialiser.AheadOf saved data n) (m d)) :
    KeepsAhead α m := by
  intro saved data n d hd
  rcases hd with hd | ⟨hd, hn⟩
  · exact (hm d hd).mono fun _ => .inl
  · exact h saved data n d hd hn

theorem of_s_ex_eq {m : Dec α} (hs : ∀ d, (finalState (m d)).s = d.s)
    (hex : ∀ d, (finalState (m d)).ex = d.ex) : KeepsAhead α m := by
  refine of_reads (.of_ex_eq hex) ?_
  intro saved data n d hd hn
  refine Ends.of_finalState (.inr ⟨⟨?_, ?_⟩, ?_⟩)
  · rw [hs d]
    exact hd.represents
  · rw [hex d]
    exact hd.ex
  · unfold Deserialiser.pos at hn ⊢
    rwa [hs d]

theorem header (ident : Ident) : KeepsAhead AsnHeader (decodeHeaderOf ident) := by
  refine of_reads (KeepsRecorded.compositional.header ident) ?_
  intro saved data n d hd hn
  rcases decodeHeaderOf_spec hd.represents ident with
    ⟨-, s, hrun, hrep, hpos⟩ | ⟨-, e, s, hp, hrun⟩ | ⟨-, h, r, s, hp, hrep, hr, hrun⟩
  · rw [hrun]
    exact fun _ => .inr ⟨⟨hrep, hd.ex⟩, hn.trans_eq hpos.symm⟩
  · rw [hrun]
    intro he
    rcases nextTag_reads hd with ⟨h, r, s, hp', -⟩ | ⟨e', s, hp', -, he'⟩
    · cases hp.symm.trans hp'
    · cases hp.symm.trans hp'
      rw [he'] at he
      cases he
  · -- the header is in front of what is left
    have hpos : d.pos ≤ s.pos := by
      have hle := frontRead_parseHeader.length_le hp
      have hin := hd.represents.pos_le
      rw [← hr, List.length_drop, List.length_drop] at hle
      unfold Deserialiser.pos at hle ⊢
      omega
    rw [hrun]
    split
    · exact .inr ⟨⟨hrep, hd.ex⟩, hn.trans hpos⟩
    · exact fun _ => .inr ⟨⟨hrep, hd.ex⟩, hn.trans hpos⟩

theorem read (n : Nat) : KeepsAhead Octets (OctetReader.read n) := by
  refine of_reads (KeepsRecorded.compositional.read n) ?_
  intro saved data m d hd hm
  by_cases hle : d.pos + n ≤ data.length
  · obtain ⟨s, hrun, hrep, hpos⟩ := readOctets_of_le hd.represents hle
    rw [hrun]
    refine .inr ⟨⟨hrep, hd.ex⟩, ?_⟩
    show m ≤ s.pos
    omega
  · obtain ⟨s, hrun⟩ := readOctets_of_lt hd.represents (n := n) (by omega)
    rw [hrun]
    exact nofun

theorem nextTag : KeepsAhead TagInfo nextTag := by
  refine of_reads KeepsRecorded.compositional.nextTag ?_
  intro saved data n d hd hn
  rcases nextTag_reads hd with ⟨h, r, s, -, hrun, hrep, hpos⟩ | ⟨e, s, -, hrun, he⟩
  · rw [hrun]
    exact .inr ⟨⟨hrep, hd.ex⟩, hn.trans_eq hpos.symm⟩
  · rw [hrun]
    intro he'
    rw [he] at he'
    cases he'

theorem pop : KeepsAhead Unit pop := by
  refine of_reads KeepsRecorded.pop ?_
  intro saved data n d hd hn
  rcases pop_reads hd with ⟨s, hrun, hrep, -, hpos⟩ | ⟨s, hrun⟩
  · rw [hrun]
    exact .inr ⟨⟨hrep, hd.ex⟩, hn.trans hpos⟩
  · rw [hrun]
    exact nofun

theorem endSequence (h : d.AheadOf saved data n) : (endSequence d).AheadOf saved data n := by
  rcases h with h | ⟨h, hn⟩
  · exact .inl (endSequence_recorded h)
  · unfold Serialisation.endSequence
    rcases pop_reads h with ⟨s, hrun, hrep, -, hpos⟩ | ⟨s, hrun⟩
    · rw [hrun]
      exact .inr ⟨⟨hrep, h.ex⟩, hn.trans hpos⟩
    · rw [hrun]
      exact .inl ⟨_, rfl, rfl⟩

theorem startConstructed (ident : Ident) (e : Error) :
    KeepsAhead Unit (startConstructed ident e) := by
  intro saved data n
  refine Keeps.bind (header ident saved data n) fun h => ?_
  split
  · refine fun d hd => Ends.of_finalState ?_
    unfold push
    split
    · exact hd
    · exact hd.imp id fun hd => ⟨⟨hd.1.represents, hd.1.ex⟩, hd.2⟩
  · exact Keeps.throw e

theorem startPeek (h : d.AheadOf saved data n) :
    ({ d with s := d.s.startPeek.2 } : Deserialiser).AheadOf
      (⟨d.s.startPeek.1, d.pos⟩ :: saved) data n := by
  rcases h with h | ⟨h, hn⟩
  · exact .inl h
  · exact .inr ⟨⟨(startPeek_spec h.represents).1, h.ex⟩, hn⟩

/-- A peek that is ended goes back to where it was started. -/
theorem endPeek {p : Peek} (hn : n ≤ p.pos) (h : d.AheadOf (p :: saved) data n) (commit : Bool) :
    ({ d with s := d.s.endPeek p.token commit } : Deserialiser).AheadOf saved data n := by
  rcases h with h | ⟨h, hpos⟩
  · exact .inl h
  · cases commit with
    | true =>
        obtain ⟨hrep, hsame⟩ := endPeek_commit h.represents
        exact .inr ⟨⟨hrep, h.ex⟩, hpos.trans_eq hsame.symm⟩
    | false =>
        obtain ⟨hrep, hback⟩ := endPeek_restore h.represents
        exact .inr ⟨⟨hrep, h.ex⟩, hn.trans_eq hback.symm⟩

/-- No position is behind the octets. -/
theorem recorded {m : Dec α} (hm : KeepsAhead α m) : KeepsRecorded α m := by
  intro d hd
  refine (hm [] [] 1 d (.inl hd)).mono ?_
  rintro t (ht | ⟨ht, hpos⟩)
  · exact ht
  · exact absurd (hpos.trans ht.represents.pos_le) (by decide)

theorem compositional : Compositional KeepsAhead where
  pure _ := of_s_ex_eq (fun _ => rfl) fun _ => rfl
  throw _ := of_s_ex_eq (fun _ => rfl) fun _ => rfl
  bind hm hf saved data n := Keeps.bind (hm saved data n) fun a => hf a saved data n
  get := of_s_ex_eq (fun _ => rfl) fun _ => rfl
  useCurrentTag := of_s_ex_eq (fun _ => rfl) fun _ => rfl
  setCurrentTag _ := of_s_ex_eq (fun _ => rfl) fun _ => rfl
  rethrow := by
    refine of_reads KeepsRecorded.compositional.rethrow ?_
    intro saved data n d hd hn
    have hrun : rethrow d = .ok () d := by simp only [rethrow, hd.ex]
    rw [hrun]
    exact .inr ⟨hd, hn⟩
  header := header
  read := read
  nextTag := nextTag
  scope ident e _ hbody saved data n :=
    Keeps.bind (startConstructed ident e saved data n) fun _ =>
      Keeps.withDestructor (hbody saved data n) fun _ => endSequence
  element tag _ f hm saved data n :=
    Keeps.bind (startConstructed _ _ saved data n) fun _ => Keeps.bind (hm saved data n) fun v =>
      Keeps.bind (pop saved data n) fun _ => Keeps.pure (f v)
  optional hm saved data n d hd := by
    rcases hd with hd | ⟨hd, hn⟩
    · exact (KeepsRecorded.compositional.optional (recorded hm) d hd).mono fun _ => .inl
    · exact Ends.catching ((hm _ data n _ (startPeek (.inr ⟨hd, hn⟩))).scopeExit
        (fun _ ht => endPeek hn ht true) fun _ ht => endPeek hn ht false) fun _ _ _ ht => ht

end KeepsAhead

/-! ## The stream stays in step -/

theorem Deserialiser.aheadOf_zero : d.AheadOf saved data 0 ↔ d.InStep saved data :=
  or_congr Iff.rfl (and_iff_left (Nat.zero_le _))

theorem endSequence_inStep (h : d.InStep saved data) : (endSequence d).InStep saved data :=
  Deserialiser.aheadOf_zero.mp (KeepsAhead.endSequence (Deserialiser.aheadOf_zero.mpr h))

/-- The stream stays in step, or an error is kept or goes out. -/
def KeepsReads (α : Type) (m : Dec α) : Prop :=
  ∀ saved data, Keeps Error.isElementNotPresent (Deserialiser.InStep saved data) m

theorem KeepsAhead.reads {m : Dec α} (hm : KeepsAhead α m) : KeepsReads α m := by
  intro saved data d hd
  exact (hm saved data 0 d (Deserialiser.aheadOf_zero.mpr hd)).mono fun _ =>
    Deserialiser.aheadOf_zero.mp

namespace KeepsReads

theorem header (ident : Ident) : KeepsReads AsnHeader (decodeHeaderOf ident) :=
  (KeepsAhead.header ident).reads

theorem startConstructed (ident : Ident) (e : Error) :
    KeepsReads Unit (startConstructed ident e) :=
  (KeepsAhead.startConstructed ident e).reads

theorem compositional : Compositional KeepsReads where
  pure := fun a => (KeepsAhead.compositional.pure a).reads
  throw := fun e => (KeepsAhead.compositional.throw e).reads
  bind := fun hm hf saved data => Keeps.bind (hm saved data) fun a => hf a saved data
  get := KeepsAhead.compositional.get.reads
  useCurrentTag := KeepsAhead.compositional.useCurrentTag.reads
  setCurrentTag := fun tag => (KeepsAhead.compositional.setCurrentTag tag).reads
  rethrow := KeepsAhead.compositional.rethrow.reads
  header := header
  read := fun n => (KeepsAhead.read n).reads
  nextTag := KeepsAhead.nextTag.reads
  scope := fun ident e _ hbody saved data =>
    Keeps.bind (startConstructed ident e saved data) fun _ =>
      Keeps.withDestructor (hbody saved data) fun _ => endSequence_inStep
  element := fun tag _ f hm saved data =>
    Keeps.bind (startConstructed _ _ saved data) fun _ => Keeps.bind (hm saved data) fun v =>
      Keeps.bind (KeepsAhead.pop.reads saved data) fun _ => Keeps.pure (f v)
  optional := fun hm saved data d hd => by
    have hpeek := Deserialiser.aheadOf_zero.mp
      (KeepsAhead.startPeek (Deserialiser.aheadOf_zero.mpr hd))
    have hend : ∀ (t : Deserialiser) (commit : Bool), t.InStep (⟨d.s.startPeek.1, d.pos⟩ :: saved) data →
        ({ t with s := t.s.endPeek d.s.startPeek.1 commit } : Deserialiser).InStep saved data := by
      intro t commit ht
      exact Deserialiser.aheadOf_zero.mp
        (KeepsAhead.endPeek (Nat.zero_le _) (Deserialiser.aheadOf_zero.mpr ht) commit)
    exact Ends.catching ((hm _ data _ hpeek).scopeExit (fun t ht => hend t true ht)
      fun t ht => hend t false ht) fun _ _ _ ht => ht

end KeepsReads

/-! ## Behind `operator&` -/

/-- `operator&` returns with no error kept. -/
theorem amp_ex {m : Dec α} {v : α} (hrun : amp m d = .ok v d') : d'.ex = none := by
  obtain ⟨v', d₁, -, hrun⟩ := bind_eq_ok.mp hrun
  obtain ⟨u, d₂, hrethrow, hrun⟩ := bind_eq_ok.mp hrun
  cases hrun
  cases hex : d₁.ex with
  | none =>
      simp only [rethrow, hex] at hrethrow
      cases hrethrow
      exact hex
  | some e =>
      simp only [rethrow, hex] at hrethrow
      cases hrethrow

theorem amp_reads {m : Dec α} (hm : KeepsReads α m) (hd : d.Reads saved data) {v : α}
    (hrun : amp m d = .ok v d') : d'.Reads saved data := by
  have hkept := KeepsReads.compositional.amp hm saved data d (.inr hd)
  rw [hrun] at hkept
  rcases hkept with ⟨e, hex, -⟩ | hreads
  · cases (amp_ex hrun).symm.trans hex
  · exact hreads

end Securepath.Serialisation
