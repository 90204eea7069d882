import Securepath.Serialisation.RecursiveTypes

/-!
# Decoding ends

Every decode of finite octets ends, also of types that contain themselves. A round of
a container goes on only from further ahead in the octets, and a class that is decoded
within itself has entered one more element, of which there are at most
`max_structure_depth`.
-/

namespace Securepath.Serialisation

open StateExcept BufferedStream

variable {Name α β : Type} {saved : List Peek} {data : Octets} {d d' : Deserialiser}

/-- What holds of every part by two rules holds by both. -/
theorem Compositional.and {P Q : (α : Type) → Dec α → Prop} (hP : Compositional P)
    (hQ : Compositional Q) : Compositional fun α m => P α m ∧ Q α m where
  pure a := ⟨hP.pure a, hQ.pure a⟩
  throw e := ⟨hP.throw e, hQ.throw e⟩
  bind hm hf := ⟨hP.bind hm.1 fun a => (hf a).1, hQ.bind hm.2 fun a => (hf a).2⟩
  get := ⟨hP.get, hQ.get⟩
  useCurrentTag := ⟨hP.useCurrentTag, hQ.useCurrentTag⟩
  setCurrentTag tag := ⟨hP.setCurrentTag tag, hQ.setCurrentTag tag⟩
  rethrow := ⟨hP.rethrow, hQ.rethrow⟩
  header ident := ⟨hP.header ident, hQ.header ident⟩
  read n := ⟨hP.read n, hQ.read n⟩
  nextTag := ⟨hP.nextTag, hQ.nextTag⟩
  scope ident e _ hbody := ⟨hP.scope ident e hbody.1, hQ.scope ident e hbody.2⟩
  element tag _ f hm := ⟨hP.element tag f hm.1, hQ.element tag f hm.2⟩
  optional hm := ⟨hP.optional hm.1, hQ.optional hm.2⟩

/-! ## The depth -/

theorem startConstructed_entered {ident : Ident} {e : Error}
    (hrun : startConstructed ident e d = .ok () d') :
    (∃ x, d'.seqPos = x :: d.seqPos) ∧ d'.seqPos.length ≤ maxStructureDepth := by
  obtain ⟨hd, d₁, hheader, hpush⟩ := bind_eq_ok.mp hrun
  have hsame : d₁.seqPos = d.seqPos := by
    rcases decodeHeaderOf_run ident d with ⟨hd', s, h⟩ | ⟨e', s, h⟩
    · rw [h] at hheader
      cases hheader
      rfl
    · rw [h] at hheader
      cases hheader
  split at hpush
  · unfold push at hpush
    split at hpush
    · cases hpush
    · next hlt =>
      cases hpush
      refine ⟨⟨_, congrArg _ hsame⟩, ?_⟩
      show d₁.seqPos.length + 1 ≤ _
      omega
  · cases hpush

/-- No more elements are entered than `push` admits. -/
def KeepsDepth (α : Type) (m : Dec α) : Prop :=
  ∀ d, d.seqPos.length ≤ maxStructureDepth →
    (finalState (m d)).seqPos.length ≤ maxStructureDepth

namespace KeepsDepth

theorem of_seqPos_eq {m : Dec α} (h : ∀ d, (finalState (m d)).seqPos = d.seqPos) :
    KeepsDepth α m := by
  intro d hd
  rwa [h d]

theorem bind {m : Dec α} {f : α → Dec β} (hm : KeepsDepth α m) (hf : ∀ a, KeepsDepth β (f a)) :
    KeepsDepth β (m >>= f) := by
  intro d hd
  have hfirst := hm d hd
  cases hrun : m d with
  | ok a d' =>
      rw [hrun] at hfirst
      rw [bind_of_ok hrun]
      exact hf a d' hfirst
  | error e d' =>
      rw [hrun] at hfirst
      rw [bind_of_error hrun]
      exact hfirst

theorem startConstructed (ident : Ident) (e : Error) :
    KeepsDepth Unit (startConstructed ident e) := by
  intro d hd
  rcases startConstructed_run ident e d with ⟨x, s, hrun⟩ | ⟨e', s, hrun⟩
  · rw [hrun]
    exact (startConstructed_entered hrun).2
  · rw [hrun]
    exact hd

theorem pop : KeepsDepth Unit pop := by
  intro d hd
  have htail : d.seqPos.tail.length ≤ maxStructureDepth := by
    rw [List.length_tail]
    omega
  rcases pop_run d with ⟨s, hrun⟩ | ⟨e, s, hrun, -⟩
  · rw [hrun]
    exact htail
  · rw [hrun]
    exact htail

theorem withDestructor {body : Dec α} (hbody : KeepsDepth α body) :
    KeepsDepth α (withDestructor body endSequence) := by
  intro d hd
  have hend := hbody d hd
  rw [withDestructor_seqPos, List.length_tail]
  omega

theorem optional {m : Dec (Option α)} (hm : KeepsDepth (Option α) m) :
    KeepsDepth (Option α)
      (catching Error.isElementNotPresent (peekGuard m) (return none)) := by
  intro d hd
  rw [optional_seqPos]
  exact hm { d with s := d.s.startPeek.2 } hd

theorem compositional : Compositional KeepsDepth where
  pure _ := of_seqPos_eq fun _ => rfl
  throw _ := of_seqPos_eq fun _ => rfl
  bind := bind
  get := of_seqPos_eq fun _ => rfl
  useCurrentTag := of_seqPos_eq fun _ => rfl
  setCurrentTag _ := of_seqPos_eq fun _ => rfl
  rethrow := of_seqPos_eq fun d => by
    unfold rethrow
    split <;> rfl
  header ident := of_seqPos_eq fun d => by
    rcases decodeHeaderOf_run ident d with ⟨hd, s, hrun⟩ | ⟨e, s, hrun⟩ <;> rw [hrun] <;> rfl
  read n := of_seqPos_eq fun d => by
    rcases OnlyReads.read n d with ⟨v, s, hrun⟩ | ⟨e, s, hrun, -⟩ <;> rw [hrun] <;> rfl
  nextTag := of_seqPos_eq fun d => by
    rcases nextTag_run d with ⟨t, s, hrun⟩ | ⟨e, s, hrun, -⟩ <;> rw [hrun] <;> rfl
  scope ident e _ hbody := bind (startConstructed ident e) fun _ => withDestructor hbody
  element tag _ f hm := bind (startConstructed _ _) fun _ => bind hm fun v =>
    bind pop fun _ => of_seqPos_eq fun _ => rfl
  optional := optional

end KeepsDepth

/-! ## What every decode keeps -/

/-- The position does not go back, nothing is left that was entered before, and no more is
entered than `push` admits. -/
def Tame (α : Type) (m : Dec α) : Prop := KeepsAhead α m ∧ LeavesStack α m ∧ KeepsDepth α m

theorem tame : Compositional Tame :=
  KeepsAhead.compositional.and (LeavesStack.compositional.and KeepsDepth.compositional)

/-- Where a decode of `data` may stand, in `L` elements at least. -/
def Deserialiser.Stands (data : Octets) (L : Nat) (d : Deserialiser) : Prop :=
  (∃ saved, d.AheadOf saved data 0) ∧ d.seqPos.length ≤ maxStructureDepth ∧ L ≤ d.seqPos.length

variable {L : Nat}

theorem Deserialiser.Stands.mono (h : d.Stands data (L + 1)) : d.Stands data L :=
  ⟨h.1, h.2.1, (Nat.le_succ L).trans h.2.2⟩

theorem Tame.stands {m : Dec α} (hm : Tame α m) {v : α} (h : d.Stands data L)
    (hrun : m d = .ok v d') : d'.Stands data L := by
  obtain ⟨⟨saved, hahead⟩, hdepth, hL⟩ := h
  have hend := hm.1 saved data 0 d hahead
  have hwithin := hm.2.2 d hdepth
  rw [hrun] at hend hwithin
  refine ⟨⟨saved, hend⟩, hwithin, ?_⟩
  rcases hm.2.1.of_ok hrun with hdeeper | hsame
  · exact hL.trans hdeeper.le
  · rwa [hsame]

/-! ## Runs that are the same -/

/-- Nothing that `m` and `m'` differ in is met in `data`, `L` elements deep. -/
def SameAt (data : Octets) (L : Nat) (m m' : Dec α) : Prop := ∀ d, d.Stands data L → m d = m' d

namespace SameAt

variable {m m' : Dec α}

theorem refl (m : Dec α) : SameAt data L m m := fun _ _ => rfl

theorem succ (h : SameAt data L m m') : SameAt data (L + 1) m m' := fun d hd => h d hd.mono

theorem scopeExit_congr {f g : Deserialiser → Deserialiser} (h : m d = m' d) :
    scopeExit m f g d = scopeExit m' f g d := by
  unfold scopeExit
  rw [h]

theorem bindLeft (h : SameAt data L m m') (f : α → Dec β) :
    SameAt data L (m >>= f) (m' >>= f) := by
  intro d hd
  cases hrun : m' d with
  | ok v d' => rw [bind_of_ok hrun, bind_of_ok ((h d hd).trans hrun)]
  | error e d' => rw [bind_of_error hrun, bind_of_error ((h d hd).trans hrun)]

theorem bind (h : SameAt data L m m') (hm : Tame α m') {f g : α → Dec β}
    (hf : ∀ a, SameAt data L (f a) (g a)) : SameAt data L (m >>= f) (m' >>= g) := by
  intro d hd
  cases hrun : m' d with
  | ok v d' =>
      rw [bind_of_ok hrun, bind_of_ok ((h d hd).trans hrun)]
      exact hf v d' (hm.stands hd hrun)
  | error e d' => rw [bind_of_error hrun, bind_of_error ((h d hd).trans hrun)]

theorem amp (h : SameAt data L m m') : SameAt data L (amp m) (amp m') := h.bindLeft _

/-- What is entered is one element deeper. -/
theorem entered (h : SameAt data (L + 1) m m') (ident : Ident) (e : Error) :
    SameAt data L (startConstructed ident e >>= fun _ => m)
      (startConstructed ident e >>= fun _ => m') := by
  intro d hd
  obtain ⟨⟨saved, hahead⟩, hdepth, hL⟩ := hd
  cases hrun : startConstructed ident e d with
  | ok u d' =>
      rw [bind_of_ok hrun, bind_of_ok hrun]
      have hend := KeepsAhead.startConstructed ident e saved data 0 d hahead
      rw [hrun] at hend
      obtain ⟨⟨x, hx⟩, hwithin⟩ := startConstructed_entered hrun
      refine h d' ⟨⟨saved, hend⟩, hwithin, ?_⟩
      rw [hx, List.length_cons]
      omega
  | error e' d' => rw [bind_of_error hrun, bind_of_error hrun]

theorem inSequence (h : SameAt data (L + 1) m m') :
    SameAt data L (inSequence m) (inSequence m') := by
  refine (refl _).bind tame.useCurrentTag fun tag => entered ?_ _ _
  exact fun d hd => scopeExit_congr (h d hd)

theorem element (h : SameAt data (L + 1) m m') (tag : TagInfo) (f : α → β) :
    SameAt data L
      (startExplicitTag tag >>= fun _ => m >>= fun v => endExplicitTag >>= fun _ =>
        Pure.pure (f v))
      (startExplicitTag tag >>= fun _ => m' >>= fun v => endExplicitTag >>= fun _ =>
        Pure.pure (f v)) :=
  entered (h.bindLeft _) _ _

theorem handleTag (tt : TagType) (tag : TagInfo) (h : SameAt data (L + 1) m m')
    (h' : tt = .implicitTag → SameAt data L m m') :
    SameAt data L (handleTag tt tag m) (handleTag tt tag m') := by
  cases tt with
  | implicitTag => exact (refl _).bind (tame.setCurrentTag tag) fun _ => h' rfl
  | explicitTag => exact h.element tag id

theorem handleOptional (etag : Option TagInfo) (h : SameAt data (L + 1) m m')
    (h' : etag = none → SameAt data L m m') :
    SameAt data L (handleOptional etag m) (handleOptional etag m') := by
  have hguard : ∀ n n' : Dec (Option α), SameAt data L n n' →
      SameAt data L (catching Error.isElementNotPresent (peekGuard n) (return none))
        (catching Error.isElementNotPresent (peekGuard n') (return none)) := by
    intro n n' hn d hd
    obtain ⟨⟨saved, hahead⟩, hdepth⟩ := hd
    have hrun := hn { d with s := d.s.startPeek.2 } ⟨⟨_, KeepsAhead.startPeek hahead⟩, hdepth⟩
    have hpeek : peekGuard n d = peekGuard n' d := scopeExit_congr hrun
    unfold catching
    rw [hpeek]
  cases etag with
  | none => exact hguard _ _ ((h' rfl).bindLeft _)
  | some tag => exact hguard _ _ (h.element tag some)

/-- A loop with a round for every octet is not cut short. The measure is what is left
of the octets. -/
theorem containerRounds (h : SameAt data L m m') (hm : Tame α m')
    (hthrows : ∀ {v d d'}, d.Recorded → m' d ≠ .ok v d')
    (hex : ∀ {v d d'}, m' d = .ok v d' → d'.ex = none) (cut cut' : Dec (List α))
    (insert : List α → α → List α) {rounds rounds' : Nat} (v : List α) (hd : d.Stands data L)
    (hrounds : data.length - d.pos < rounds) (hrounds' : data.length - d.pos < rounds') :
    containerRounds cut m insert rounds v d = containerRounds cut' m' insert rounds' v d := by
  induction rounds generalizing rounds' v d with
  | zero => omega
  | succ rounds ih =>
    obtain ⟨rounds', rfl⟩ : ∃ n, rounds' = n + 1 := ⟨rounds' - 1, by omega⟩
    have hget : ∀ t, (get : Dec Deserialiser) t = .ok t t := fun _ => rfl
    unfold Serialisation.containerRounds
    rw [bind_of_ok (hget d), bind_of_ok (hget d)]
    split
    · rfl
    · cases hrun : m' d with
      | error e d' => rw [bind_of_error hrun, bind_of_error ((h d hd).trans hrun)]
      | ok temp d' =>
        rw [bind_of_ok hrun, bind_of_ok ((h d hd).trans hrun), bind_of_ok (hget d'),
          bind_of_ok (hget d')]
        split
        · rfl
        · next hmoved =>
          -- the round goes on from further ahead
          obtain ⟨⟨saved, hahead⟩, -⟩ := id hd
          rcases hahead with hrecorded | ⟨hreads, -⟩
          · exact absurd hrun (hthrows hrecorded)
          · have hend := hm.1 saved data d.pos d (.inr ⟨hreads, le_refl _⟩)
            rw [hrun] at hend
            rcases hend with ⟨e, he, -⟩ | ⟨hreads', hpos⟩
            · exact absurd ((hex hrun).symm.trans he) nofun
            · have hin := hreads'.represents.pos_le
              have hlt : d.pos < d'.pos := lt_of_le_of_ne hpos (Ne.symm hmoved)
              unfold Deserialiser.pos at hlt hrounds hrounds' ih
              refine ih (insert v temp) (hm.stands hd hrun) ?_ ?_
              · omega
              · omega

end SameAt

theorem containerLoop_eq_rounds (elem : Dec α) (insert : List α → α → List α) (rounds : Nat)
    (v : List α) :
    containerLoop elem insert rounds v =
      containerRounds (throw Error.noProgress) elem insert rounds v := by
  induction rounds generalizing v with
  | zero => rfl
  | succ rounds ih =>
    unfold containerLoop containerRounds
    simp only [ih]

/-- The rounds that `containerSerialise` gives its loop are never used up. -/
theorem containerLoop_uncut [KeyOrder] (T : Schema .type) (hd : d.Reads saved data)
    (hdepth : d.seqPos.length ≤ maxStructureDepth) (insert : List T.Val → T.Val → List T.Val)
    (cut : Dec (List T.Val)) {rounds : Nat} (hrounds : d.s.unread.length < rounds) :
    containerRounds cut T.decode insert rounds [] d =
      containerLoop T.decode insert (d.s.unread.length + 1) [] d := by
  have hleft : d.s.unread.length = data.length - d.pos := by
    rw [hd.represents.ahead, List.length_drop]
    rfl
  rw [containerLoop_eq_rounds]
  refine (SameAt.refl T.decode).containerRounds (tame.decode T) ?_ amp_ex _ _ _ _
    (L := 0) ⟨⟨saved, .inr ⟨hd, Nat.zero_le _⟩⟩, hdepth, Nat.zero_le _⟩ ?_ ?_
  · intro v t t' hrecorded hrun
    obtain ⟨e, t'', hthrows, -⟩ :=
      (tame.deserialise T ()).1.recorded.amp_throws hrecorded
    cases hrun.symm.trans hthrows
  · omega
  · omega

/-! ## Every type -/

section

variable {less : ValueOrder} {rounds rounds' : Nat} {cut cut' : Cut}

theorem Compositional.containerRounds {P : (α : Type) → Dec α → Prop} (h : Compositional P)
    {cut : Dec (List α)} (hcut : P (List α) cut) {elem : Dec α} (helem : P α elem)
    (insert : List α → α → List α) (rounds : Nat) (v : List α) :
    P (List α) (containerRounds cut elem insert rounds v) := by
  induction rounds generalizing v with
  | zero => exact hcut
  | succ rounds ih =>
    refine h.bind h.get ?_
    intro before
    split
    · exact h.pure _
    · refine h.bind helem fun temp => h.bind h.get ?_
      intro after
      split
      · exact h.throw _
      · exact ih _

/-- What holds of the parts and of the named types holds of every type. -/
theorem Compositional.typeExpr {P : (α : Type) → Dec α → Prop} (h : Compositional P)
    (hround : P (List Value) cut.round) {call : Name → Dec Value}
    (hcall : ∀ n, P Value (call n)) {k : Kind} (T : TypeExpr Name k) (arg : k.Arg) :
    P Value (T.deserialise less rounds cut call arg) := by
  induction T with
  | prim p =>
    exact h.bind h.useCurrentTag fun tag => h.bind (h.decodePrim p tag) fun _ => h.pure _
  | trailing => exact h.bind h.decodeTrailing fun _ => h.pure _
  | nothing => exact h.pure _
  | fields a b iha ihb =>
    exact h.bind (h.amp (iha ())) fun _ => h.bind (h.amp (ihb ())) fun _ => h.pure _
  | sequence body ih => exact h.inSequence (h.amp (ih ()))
  | container c elem ih =>
    exact h.bind (h.inSequence (h.containerRounds hround (h.amp (ih ())) _ _ _)) fun _ => h.pure _
  | optional etag T ih => exact h.bind (h.handleOptional etag (h.amp (ih ()))) fun _ => h.pure _
  | tagged tt tag T ih => exact h.handleTag tt tag (h.amp (ih ()))
  | choice alts ih => exact h.bind h.nextTag fun tag => ih tag
  | noAlternative => exact h.throw _
  | alternative tag T rest ih ihrest =>
    unfold TypeExpr.deserialise
    split
    · exact h.bind (h.amp (h.handleTag _ _ (h.amp (ih ())))) fun _ => h.pure _
    · exact ihrest arg
  | named n => exact hcall n

/-- Where a run that is cut short throws. -/
def throwingCut : Cut := ⟨throw Error.noProgress, throw Error.noProgress⟩

theorem Compositional.call {P : (α : Type) → Dec α → Prop} (h : Compositional P)
    (types : TypeTable Name) (calls : Nat) (n : Name) :
    P Value (types.call less rounds throwingCut calls n) := by
  induction calls generalizing n with
  | zero => exact h.throw _
  | succ calls ih => exact h.typeExpr (h.throw _) ih (types.type n) ()

/-- A type is the same where the named types in it are. -/
theorem TypeExpr.sameAt {call call' : Name → Dec Value} (htame : ∀ n, Tame Value (call' n))
    (hrounds : data.length < rounds) (hrounds' : data.length < rounds') {k : Kind}
    (T : TypeExpr Name k) (arg : k.Arg)
    (hdeeper : ∀ n, SameAt data (L + 1) (call n) (call' n))
    (hhere : T.Guarded ∨ ∀ n, SameAt data L (call n) (call' n)) :
    SameAt data L (T.deserialise less rounds cut call arg)
      (T.deserialise less rounds' throwingCut call' arg) := by
  have hkeeps : ∀ {k : Kind} (T : TypeExpr Name k) (arg : k.Arg),
      Tame Value (T.deserialise less rounds' throwingCut call' arg) := by
    intro k T arg
    exact tame.typeExpr (tame.throw _) htame T arg
  induction T generalizing L with
  | prim p => exact .refl _
  | trailing => exact .refl _
  | nothing => exact .refl _
  | fields a b iha ihb =>
    refine (iha () hdeeper (hhere.imp And.left id)).amp.bind (tame.amp (hkeeps a ())) fun x => ?_
    exact (ihb () hdeeper (hhere.imp And.right id)).amp.bindLeft _
  | sequence body ih =>
    exact (ih () (fun n => (hdeeper n).succ) (.inr hdeeper)).amp.inSequence
  | container c elem ih =>
    have helem := (ih () (fun n => (hdeeper n).succ) (.inr hdeeper)).amp
    refine SameAt.bindLeft (SameAt.inSequence ?_) _
    intro d hd
    refine helem.containerRounds (tame.amp (hkeeps elem ())) ?_ amp_ex _ _ _ _ hd ?_ ?_
    · intro v d d' hrecorded hrun
      obtain ⟨e, d'', hthrows, -⟩ := (hkeeps elem ()).1.recorded.amp_throws hrecorded
      cases hrun.symm.trans hthrows
    · omega
    · omega
  | optional etag T ih =>
    refine SameAt.bindLeft (SameAt.handleOptional etag ?_ ?_) _
    · exact (ih () (fun n => (hdeeper n).succ) (.inr hdeeper)).amp
    · rintro rfl
      exact (ih () hdeeper (hhere.imp id id)).amp
  | tagged tt tag T ih =>
    refine SameAt.handleTag tt tag ?_ ?_
    · exact (ih () (fun n => (hdeeper n).succ) (.inr hdeeper)).amp
    · rintro rfl
      exact (ih () hdeeper (hhere.imp id id)).amp
  | choice alts ih =>
    exact (SameAt.refl _).bind tame.nextTag fun tag => ih tag hdeeper (hhere.imp id id)
  | noAlternative => exact .refl _
  | alternative tag T rest ih ihrest =>
    unfold TypeExpr.deserialise
    split
    · refine SameAt.bindLeft (SameAt.amp (SameAt.handleTag _ _ ?_ fun _ => ?_)) _
      · exact (ih () (fun n => (hdeeper n).succ) (.inr hdeeper)).amp
      · exact (ih () hdeeper (hhere.imp And.left id)).amp
    · exact ihrest arg hdeeper (hhere.imp And.right id)
  | named n =>
    rcases hhere with hguarded | hhere
    · exact hguarded.elim
    · exact hhere n

/-- A named type that is decoded within itself is one element deeper each time. -/
theorem TypeTable.call_sameAt (types : TypeTable Name) {calls calls' : Nat}
    (hrounds : data.length < rounds) (hrounds' : data.length < rounds')
    (hcalls : maxStructureDepth < L + calls) (hcalls' : maxStructureDepth < L + calls') (n : Name) :
    SameAt data L (types.call less rounds cut calls n)
      (types.call less rounds' throwingCut calls' n) := by
  induction calls generalizing L calls' n with
  | zero =>
    intro d hd
    have hdepth := hd.2
    omega
  | succ calls ih =>
    cases calls' with
    | zero =>
      intro d hd
      have hdepth := hd.2
      omega
    | succ calls' =>
      -- a call is guarded by an element, so the next one has one more entered
      refine TypeExpr.sameAt (fun n => tame.call types calls' n) hrounds hrounds' _ () ?_
        (.inl (types.guarded n))
      intro m
      exact ih (by omega) (by omega) m

theorem TypeTable.decode_sameAt (types : TypeTable Name) (T : TypeExpr Name .type)
    {calls calls' : Nat} (hrounds : data.length < rounds) (hrounds' : data.length < rounds')
    (hcalls : maxStructureDepth < L + calls) (hcalls' : maxStructureDepth < L + calls') :
    SameAt data L (types.decode less rounds cut calls T)
      (types.decode less rounds' throwingCut calls' T) := by
  refine SameAt.amp (TypeExpr.sameAt (fun n => tame.call types calls' n) hrounds hrounds' T () ?_
    (.inr ?_))
  · intro n
    exact types.call_sameAt hrounds hrounds' (by omega) (by omega) n
  · exact types.call_sameAt hrounds hrounds' hcalls hcalls'

theorem TypeTable.decode_tame (types : TypeTable Name) (less : ValueOrder) (rounds : Nat)
    (T : TypeExpr Name .type) (calls : Nat) :
    Tame Value (types.decode less rounds throwingCut calls T) :=
  tame.amp (tame.typeExpr (tame.throw _) (tame.call types calls) T ())

end

/-- The decode of `T` at `d` ends with `r`, within `calls` calls of named types inside each
other and `rounds` rounds of a loop: where these run out is never reached. -/
def TypeTable.EndsWith (types : TypeTable Name) (less : ValueOrder) (T : TypeExpr Name .type)
    (calls rounds : Nat) (d : Deserialiser) (r : EStateM.Result Error Deserialiser Value) : Prop :=
  ∀ calls' rounds' cut, calls ≤ calls' → rounds ≤ rounds' →
    types.decode less rounds' cut calls' T d = r

/-- Decoding ends on all octets and for all types, with a value or an exception, and the
elements of a container only ever move on. -/
theorem decoding_terminates (types : TypeTable Name) (less : ValueOrder)
    (T : TypeExpr Name .type) (data : Octets) :
    (∃ r, types.EndsWith less T (maxStructureDepth + 1) (data.length + 1) (.ofOctets data) r ∧
      (finalState r).seqPos.length ≤ maxStructureDepth) ∧
    ∀ saved d, d.Reads saved data → d.seqPos.length ≤ maxStructureDepth →
      ∃ r, types.EndsWith less T (maxStructureDepth + 1) (data.length + 1) d r ∧
        ∀ v d', r = .ok v d' → d'.pos ≠ d.pos → d.pos < d'.pos ∧ d'.pos ≤ data.length := by
  have hends : ∀ d : Deserialiser, d.Stands data 0 →
      types.EndsWith less T (maxStructureDepth + 1) (data.length + 1) d
        (types.decode less (data.length + 1) throwingCut (maxStructureDepth + 1) T d) := by
    intro d hd calls rounds cut hcalls hrounds
    exact types.decode_sameAt T hrounds (Nat.lt_succ_self _) (by omega) (by omega) d hd
  have htame := types.decode_tame less (data.length + 1) T (maxStructureDepth + 1)
  constructor
  · have hstart : (Deserialiser.ofOctets data).Stands data 0 :=
      ⟨⟨[], .inr ⟨⟨represents_ofOctets data, rfl⟩, Nat.zero_le _⟩⟩, Nat.zero_le _, Nat.zero_le _⟩
    exact ⟨_, hends _ hstart, htame.2.2 _ (Nat.zero_le _)⟩
  · intro saved d hd hdepth
    refine ⟨_, hends d ⟨⟨saved, .inr ⟨hd, Nat.zero_le _⟩⟩, hdepth, Nat.zero_le _⟩, ?_⟩
    intro v d' hrun hmoved
    have hend := htame.1 saved data d.pos d (.inr ⟨hd, le_refl _⟩)
    rw [hrun] at hend
    rcases hend with ⟨e, he, -⟩ | ⟨hreads, hpos⟩
    · exact absurd ((amp_ex hrun).symm.trans he) nofun
    · exact ⟨lt_of_le_of_ne hpos (Ne.symm hmoved), hreads.represents.pos_le⟩

end Securepath.Serialisation
