import Securepath.Serialisation.Encoder

/-!
# `serialiser`

What `ser & t` does for every type (`serialisation/serialiser.hpp`,
`container.hpp`, `choice.hpp`).

`Schema.encoding` is the same as a function: the octets of a value, given the
tag that is pending before it, with the tag that is pending behind it.
`Emits` connects the two.
-/

namespace Securepath.Serialisation

open StateExcept

variable {α : Type}

/-! ## The code -/

namespace Serialiser

/-- A serialiser that has written nothing. -/
def empty : Serialiser where
  out := []
  layers := []
  currentTag := none

/-- `use_current_tag`. -/
def useCurrentTag : Ser (Option TagInfo) := fun s =>
  .ok s.currentTag { s with currentTag := none }

end Serialiser

/-- A `sequence` object around `body`; its destructor closes the layer. -/
def writeSequence (body : Ser Unit) : Ser Unit := do
  let tag ← Serialiser.useCurrentTag
  openLayer (getIdent tag AsnTag.sequence)
  withDestructor body fun s => finalState (closeLayer s)

/-- The elements of a container, one after the other. -/
def writeElements (elem : α → Ser Unit) : List α → Ser Unit
  | [] => pure ()
  | v :: vs => do
      elem v
      writeElements elem vs

/-- `handle_tag`. -/
def writeTagged (tt : TagType) (tag : TagInfo) (obj : Ser Unit) : Ser Unit :=
  match tt with
  | .implicitTag => do
      modify fun s => { s with currentTag := some tag }
      obj
  | .explicitTag => do
      openLayer tag.ident
      obj
      closeLayer

namespace Schema

/-- An `optional` without a value. -/
def isAbsent : {k : Kind} → (T : Schema k) → T.Val → Bool
  | _, optional _, v => v.isNone
  | _, _, _ => false

/-- `serialise(serialiser&, v)`; a tag on an absent optional is not written. -/
def serialise : {k : Kind} → (T : Schema k) → T.Val → Ser Unit
  | _, prim p, v => do
      let tag ← Serialiser.useCurrentTag
      p.encode v tag
  | _, trailing, v => write v
  | _, nothing, _ => pure ()
  | _, fields a b, v => do
      a.serialise v.1
      b.serialise v.2
  | _, sequence body, v => writeSequence (body.serialise v)
  | _, container _ elem, v => writeSequence (writeElements elem.serialise v)
  | _, optional T, v => match v with
      | none => pure ()
      | some v => T.serialise v
  | _, tagged tt tag T, v =>
      if T.isAbsent v then pure () else writeTagged tt tag (T.serialise v)
  | _, choice alts, v => alts.serialise v
  | _, noAlternative, v => nomatch v
  | _, alternative tag T rest, v => match v with
      | .inl v =>
          if T.isAbsent v then pure () else writeTagged .implicitTag ⟨none, tag⟩ (T.serialise v)
      | .inr v => rest.serialise v

end Schema

/-- `asn_der_serialise`. -/
def asnDerSerialise (T : Schema .type) (v : T.Val) : Except Error Octets :=
  match T.serialise v Serialiser.empty with
  | .ok () s => .ok s.out
  | .error e _ => .error e

/-! ## The encoding as a function -/

/-- Octets and the tag pending behind them, for the tag pending before. -/
abbrev Encoding := Option TagInfo → Except Error (Octets × Option TagInfo)

/-- A whole element. -/
def element (ident : Ident) (isConstructed : Bool) (content : Octets) : Octets :=
  headerOctets { asnClass := ident.1, tag := ident.2, length := sizeOf64 content,
                 isConstructed := isConstructed } ++ content

namespace Encoding

def nothing : Encoding := fun t => .ok ([], t)

def seq (e₁ e₂ : Encoding) : Encoding := fun t =>
  match e₁ t with
  | .error err => .error err
  | .ok (b₁, t₁) =>
      match e₂ t₁ with
      | .error err => .error err
      | .ok (b₂, t₂) => .ok (b₁ ++ b₂, t₂)

/-- A constructed element; the content starts with the tag `pending`. -/
def constructed (ident : Option TagInfo → Ident) (pending : Option TagInfo → Option TagInfo)
    (content : Encoding) : Encoding := fun t =>
  match content (pending t) with
  | .error err => .error err
  | .ok (b, t') => .ok (element (ident t) true b, t')

def sequence (body : Encoding) : Encoding :=
  constructed (getIdent · AsnTag.sequence) (fun _ => none) body

def elements (elem : α → Encoding) : List α → Encoding
  | [] => nothing
  | v :: vs => (elem v).seq (elements elem vs)

def tagged (tt : TagType) (tag : TagInfo) (obj : Encoding) : Encoding :=
  match tt with
  | .implicitTag => fun _ => obj (some tag)
  | .explicitTag => constructed (fun _ => tag.ident) id obj

end Encoding

theorem Encoding.seq_eq_ok {e₁ e₂ : Encoding} {t t' : Option TagInfo} {b : Octets} :
    e₁.seq e₂ t = .ok (b, t') ↔
      ∃ b₁ t₁ b₂, e₁ t = .ok (b₁, t₁) ∧ e₂ t₁ = .ok (b₂, t') ∧ b = b₁ ++ b₂ := by
  cases h₁ : e₁ t with
  | error err => simp [seq, h₁]
  | ok r =>
      obtain ⟨b₁, t₁⟩ := r
      cases h₂ : e₂ t₁ with
      | error err => simp [seq, h₁, h₂]
      | ok r' =>
          obtain ⟨b₂, t₂⟩ := r'
          simp only [seq, h₁, h₂]
          grind

theorem Encoding.constructed_eq_ok {ident : Option TagInfo → Ident}
    {pending : Option TagInfo → Option TagInfo} {content : Encoding} {t t' : Option TagInfo}
    {b : Octets} :
    constructed ident pending content t = .ok (b, t') ↔
      ∃ c, content (pending t) = .ok (c, t') ∧ b = element (ident t) true c := by
  cases h : content (pending t) with
  | error err => simp [constructed, h]
  | ok r =>
      obtain ⟨c, t₁⟩ := r
      simp only [constructed, h]
      grind

theorem Encoding.sequence_eq_ok {body : Encoding} {t t' : Option TagInfo} {b : Octets} :
    sequence body t = .ok (b, t') ↔
      ∃ c, body none = .ok (c, t') ∧ b = element (getIdent t AsnTag.sequence) true c :=
  constructed_eq_ok

theorem Encoding.explicitTag_eq_ok {tag : TagInfo} {obj : Encoding} {t t' : Option TagInfo}
    {b : Octets} :
    tagged .explicitTag tag obj t = .ok (b, t') ↔
      ∃ c, obj t = .ok (c, t') ∧ b = element tag.ident true c :=
  @constructed_eq_ok (fun _ => tag.ident) id obj t t' b

/-- The encoding of a primitive value. -/
def Prim.encoding (p : Prim) (v : p.Val) : Encoding := fun t =>
  match p.content v with
  | .error err => .error err
  | .ok content => .ok (element (getIdent t p.defaultTag) false content, none)

def Schema.encoding : {k : Kind} → (T : Schema k) → T.Val → Encoding
  | _, .prim p, v => p.encoding v
  | _, .trailing, v => fun t => .ok (v, t)
  | _, .nothing, _ => .nothing
  | _, .fields a b, v => (a.encoding v.1).seq (b.encoding v.2)
  | _, .sequence body, v => .sequence (body.encoding v)
  | _, .container _ elem, v => .sequence (.elements elem.encoding v)
  | _, .optional T, v => match v with
      | none => .nothing
      | some v => T.encoding v
  | _, .tagged tt tag T, v => if T.isAbsent v then .nothing else .tagged tt tag (T.encoding v)
  | _, .choice alts, v => alts.encoding v
  | _, .noAlternative, v => nomatch v
  | _, .alternative tag T rest, v => match v with
      | .inl v =>
          if T.isAbsent v then .nothing else .tagged .implicitTag ⟨none, tag⟩ (T.encoding v)
      | .inr v => rest.encoding v

/-! ## The code computes the encoding -/

/-- From every state, `m` appends the octets of `e` and leaves its tag pending,
or throws its error. -/
def Emits (m : Ser Unit) (e : Encoding) : Prop :=
  ∀ s, match e s.currentTag with
    | .ok (b, t) => m s = .ok () { s.append b with currentTag := t }
    | .error err => ∃ s', m s = .error err s'

namespace Emits

variable {m m₁ m₂ : Ser Unit} {e e₁ e₂ : Encoding}

theorem ok (h : Emits m e) {s : Serialiser} {b : Octets} {t : Option TagInfo}
    (he : e s.currentTag = .ok (b, t)) : m s = .ok () { s.append b with currentTag := t } := by
  have := h s
  rwa [he] at this

theorem error (h : Emits m e) {s : Serialiser} {err : Error}
    (he : e s.currentTag = .error err) : ∃ s', m s = .error err s' := by
  have := h s
  rwa [he] at this

theorem nothing : Emits (pure ()) .nothing := by
  intro s
  simp only [Encoding.nothing, s.append_nil]
  rfl

theorem seq (h₁ : Emits m₁ e₁) (h₂ : Emits m₂ e₂) : Emits (do m₁; m₂) (e₁.seq e₂) := by
  intro s
  cases hr : e₁ s.currentTag with
  | error err =>
      obtain ⟨s', hrun⟩ := h₁.error hr
      simp only [Encoding.seq, hr]
      exact ⟨s', bind_of_error hrun⟩
  | ok r =>
      obtain ⟨b₁, t₁⟩ := r
      have hrun := h₁.ok hr
      cases hr₂ : e₂ t₁ with
      | error err =>
          obtain ⟨s', hrun₂⟩ := h₂.error (s := { s.append b₁ with currentTag := t₁ }) hr₂
          simp only [Encoding.seq, hr, hr₂]
          exact ⟨s', by rw [bind_of_ok hrun, hrun₂]⟩
      | ok r₂ =>
          have hrun₂ := h₂.ok (s := { s.append b₁ with currentTag := t₁ }) hr₂
          simp only [Encoding.seq, hr, hr₂]
          rw [bind_of_ok hrun, hrun₂, Serialiser.append_withTag, s.append_append]

/-- Closing a layer writes the whole element. -/
theorem closeLayer_spec (s : Serialiser) (ident : Ident) (c : Octets) :
    closeLayer { s with layers := (openHeader ident, c) :: s.layers } =
      .ok () (s.append (element ident true c)) := by
  have hpop : popLayer { s with layers := (openHeader ident, c) :: s.layers } =
      .ok (openHeader ident, c) s := rfl
  have hheader := encodeHeader_eq (h := { openHeader ident with length := sizeOf64 c })
    (sizeOf64_lt c)
  simp only [closeLayer]
  rw [bind_of_ok hpop]
  simp only [hheader]
  by_cases hc : c = []
  · have hwrite : write (headerOctets { openHeader ident with length := sizeOf64 c }) s =
        .ok () (s.append (element ident true c)) := by
      rw [element, hc, List.append_nil]
      rfl
    rw [bind_of_ok hwrite, if_neg (not_not.mpr hc)]
    rfl
  · rw [if_pos hc, write_write]
    rfl

/-- Opening a layer does not touch the pending tag. -/
theorem openLayer_spec (s : Serialiser) (ident : Ident) :
    openLayer ident s = .ok () { s with layers := (openHeader ident, []) :: s.layers } := rfl

theorem sequence (h : Emits m e) : Emits (writeSequence m) (.sequence e) := by
  intro s
  have htag : Serialiser.useCurrentTag s = .ok s.currentTag { s with currentTag := none } := rfl
  simp only [Encoding.sequence, Encoding.constructed, writeSequence]
  rw [bind_of_ok htag, bind_of_ok (openLayer_spec _ _)]
  cases hr : e none with
  | error err =>
      obtain ⟨s', hrun⟩ := h.error (s := { s with
        currentTag := none
        layers := (openHeader (getIdent s.currentTag AsnTag.sequence), []) :: s.layers }) hr
      exact ⟨_, scopeExit_of_error hrun⟩
  | ok r =>
      obtain ⟨c, t⟩ := r
      have hrun := h.ok (s := { s with
        currentTag := none
        layers := (openHeader (getIdent s.currentTag AsnTag.sequence), []) :: s.layers }) hr
      simp only
      rw [withDestructor, scopeExit_of_ok hrun]
      have hclose := closeLayer_spec { s with currentTag := t }
        (getIdent s.currentTag AsnTag.sequence) c
      refine congrArg (EStateM.Result.ok ()) ?_
      exact (congrArg finalState hclose).trans (Serialiser.append_withTag s _ t)

theorem explicitTag (h : Emits m e) (tag : TagInfo) :
    Emits (writeTagged .explicitTag tag m) (.tagged .explicitTag tag e) := by
  intro s
  simp only [Encoding.tagged, Encoding.constructed, writeTagged, id]
  rw [bind_of_ok (openLayer_spec _ _)]
  cases hr : e s.currentTag with
  | error err =>
      obtain ⟨s', hrun⟩ := h.error 
        (s := { s with layers := (openHeader tag.ident, []) :: s.layers }) hr
      exact ⟨_, bind_of_error hrun⟩
  | ok r =>
      obtain ⟨c, t⟩ := r
      have hrun := h.ok 
        (s := { s with layers := (openHeader tag.ident, []) :: s.layers }) hr
      simp only
      rw [bind_of_ok hrun]
      have hclose := closeLayer_spec { s with currentTag := t } tag.ident c
      exact hclose.trans (congrArg (EStateM.Result.ok ()) (Serialiser.append_withTag s _ t))

theorem implicitTag (h : Emits m e) (tag : TagInfo) :
    Emits (writeTagged .implicitTag tag m) (.tagged .implicitTag tag e) := by
  intro s
  have hset : (modify fun s : Serialiser => { s with currentTag := some tag } : Ser Unit) s =
      .ok () { s with currentTag := some tag } := rfl
  simp only [Encoding.tagged, writeTagged]
  rw [bind_of_ok hset]
  have := h { s with currentTag := some tag }
  simp only at this
  cases hr : e (some tag) with
  | error err =>
      rw [hr] at this
      exact this
  | ok r =>
      rw [hr] at this
      simpa only [Serialiser.append_withTag] using this

theorem tagged (h : Emits m e) (tt : TagType) (tag : TagInfo) :
    Emits (writeTagged tt tag m) (.tagged tt tag e) := by
  cases tt with
  | explicitTag => exact h.explicitTag tag
  | implicitTag => exact h.implicitTag tag

theorem elements {elem : α → Ser Unit} {enc : α → Encoding} (h : ∀ v, Emits (elem v) (enc v))
    (vs : List α) : Emits (writeElements elem vs) (.elements enc vs) := by
  induction vs with
  | nil => exact nothing
  | cons v vs ih => exact (h v).seq ih

theorem prim (p : Prim) (v : p.Val) :
    Emits (do let tag ← Serialiser.useCurrentTag; p.encode v tag) (p.encoding v) := by
  intro s
  have htag : Serialiser.useCurrentTag s = .ok s.currentTag { s with currentTag := none } := rfl
  rw [bind_of_ok htag]
  simp only [Prim.encode, Prim.encoding]
  cases hc : p.content v with
  | error err => exact ⟨_, bind_of_error rfl⟩
  | ok content =>
      have hheader := encodeHeader_eq (h := ⟨getAsnClass s.currentTag,
        getTag s.currentTag p.defaultTag, sizeOf64 content, false⟩) (sizeOf64_lt content)
      simp only [liftEncode, pure_bind, hheader, write_write]
      exact congrArg (EStateM.Result.ok ()) (Serialiser.append_withTag s _ none)

end Emits

/-- Serialising a value writes its encoding. -/
theorem Schema.serialise_emits {k : Kind} (T : Schema k) (v : T.Val) :
    Emits (T.serialise v) (T.encoding v) := by
  induction T with
  | prim p => exact .prim p v
  | trailing =>
      intro s
      simp only [encoding, serialise, write]
      rw [← Serialiser.append_currentTag s v]
  | nothing => exact .nothing
  | fields a b iha ihb => exact (iha v.1).seq (ihb v.2)
  | sequence body ih => exact (ih v).sequence
  | container c elem ih => exact (Emits.elements ih v).sequence
  | optional T ih =>
      cases v with
      | none => exact .nothing
      | some v => exact ih v
  | tagged tt tag T ih =>
      simp only [serialise, encoding]
      split
      · exact .nothing
      · exact (ih v).tagged tt tag
  | choice alts ih => exact ih v
  | noAlternative => exact nomatch v
  | alternative tag T rest ih ihrest =>
      cases v with
      | inl v =>
          simp only [serialise, encoding]
          split
          · exact .nothing
          · exact (ih v).tagged .implicitTag ⟨none, tag⟩
      | inr v => exact ihrest v

/-- `asn_der_serialise` gives the encoding. -/
theorem asnDerSerialise_eq (T : Schema .type) (v : T.Val) :
    asnDerSerialise T v = (T.encoding v none).map Prod.fst := by
  have h := T.serialise_emits v Serialiser.empty
  have htag : Serialiser.empty.currentTag = none := rfl
  rw [htag] at h
  cases hr : T.encoding v none with
  | error err =>
      rw [hr] at h
      obtain ⟨s', hrun⟩ := h
      simp only [asnDerSerialise, hrun, Except.map]
  | ok r =>
      rw [hr] at h
      simp only at h
      simp only [asnDerSerialise, h, Except.map]
      rfl

end Securepath.Serialisation
