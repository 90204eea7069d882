import Securepath.Serialisation.Decoder
import Securepath.Serialisation.Schema

/-!
# `deserialiser`

What `deser & t` does for every type (`serialisation/deserialiser.hpp`,
`container.hpp`, `choice.hpp`, and the `decode` functions of the decoder).
-/

namespace Securepath.Serialisation

open StateExcept

variable {α : Type}

/-! ## Primitive types -/

/-- The checks that a `decode` function makes of the declared length. -/
def Prim.checkLength (p : Prim) (length : Nat) : Except Error Unit :=
  match p with
  | .bool => fixed 1 true
  | .int t => fixed t.bytes t.isSigned
  | .integer => if length = 0 then .error Error.integerEmpty else .ok ()
  | .real _ => if 8 + 4 + 2 < length then .error Error.realTooLarge else .ok ()
  | .string | .octets | .time => .ok ()
where
  /-- those of `decode_integer` for a built-in type -/
  fixed (sizeHint : Nat) (isSigned : Bool) : Except Error Unit :=
    if sizeHint + (if isSigned then 0 else 1) < length then .error Error.integerDoesNotFit
    else if length = 0 then .error Error.integerEmpty
    else .ok ()

/-- What a `decode` function makes of the content octets. -/
def Prim.ofContent : (p : Prim) → Octets → Except Error p.Val
  | .bool, buf => .ok (decodeInteger 32 buf buf.length 1 ≠ 0)
  | .int t, buf =>
      if buf.headD 0 &&& 0x80 ≠ 0 ∧ t.isSigned = false then .error Error.signMismatch
      else .ok (FixedInt.cast t (decodeInteger 64 buf buf.length t.bytes))
  | .integer, buf => .ok buf
  | .string, buf => .ok buf
  | .octets, buf => .ok buf
  | .real f, buf => (decodeReal buf).map (Ieee.cast f)
  | .time, buf => decodeTime buf

/-- Throw the error of a computation. -/
def liftExcept : Except Error α → Dec α
  | .ok a => pure a
  | .error e => throw e

/-- `decode(v, tag)` for a primitive type: `decode_string`, `decode_integer`
and `decode_real`. -/
def Prim.decode (p : Prim) (tag : Option TagInfo) : Dec p.Val := do
  let header ← decodeHeaderOf (getIdent tag p.defaultTag)
  liftExcept (p.checkLength header.length)
  let buf ← OctetReader.read header.length
  liftExcept (p.ofContent buf)

/-- `decode(trailing_data)`. -/
def decodeTrailing : Dec Octets := do
  let d ← get
  match d.seqPos with
  | [] => throw Error.trailingOutsideSequence
  | e :: _ => if d.pos < e then OctetReader.read (e - d.pos) else return []

/-! ## Sequences and explicit tags -/

/-- `start_sequence` and `start_explicit_tag` of the decoder. -/
def startConstructed (ident : Ident) (notConstructed : Error) : Dec Unit := do
  let header ← decodeHeaderOf ident
  if header.isConstructed then push header.length else throw notConstructed

def startSequence (tag : Option TagInfo) : Dec Unit :=
  startConstructed (getIdent tag AsnTag.sequence) Error.invalidSequence

def startExplicitTag (tag : TagInfo) : Dec Unit :=
  startConstructed tag.ident Error.invalidExplicitTag

def endExplicitTag : Dec Unit := pop

/-- `end_sequence` of the deserialiser: what it throws is kept for `operator&`. -/
def endSequence (d : Deserialiser) : Deserialiser :=
  match pop d with
  | .ok () d => d
  | .error e d => { d with ex := some e }

/-- `use_current_tag`. -/
def useCurrentTag : Dec (Option TagInfo) := fun d =>
  .ok d.currentTag { d with currentTag := none }

/-- The throw of `move_exception` in `operator&`. -/
def rethrow : Dec Unit := fun d =>
  match d.ex with
  | none => .ok () d
  | some e => .error e { d with ex := none }

/-- `deser & v`, where `m` is what `serialise` does for `v`. -/
def amp (m : Dec α) : Dec α := do
  let v ← m
  rethrow
  return v

/-- A `sequence` object around `body`. -/
def inSequence (body : Dec α) : Dec α := do
  let tag ← useCurrentTag
  startSequence tag
  withDestructor body endSequence

/-- The loop of `container_serialise`. Each round that goes on has consumed an
octet, so there are never more rounds than octets left. -/
def containerLoop (elem : Dec α) (insert : List α → α → List α) : Nat → List α → Dec (List α)
  | 0, _ => throw Error.noProgress
  | rounds + 1, v => do
      let before ← get
      if before.isEndOfSequence then
        return v
      else
        let temp ← elem
        let after ← get
        if after.pos = before.pos then
          throw Error.noProgress
        else
          containerLoop elem insert rounds (insert v temp)

/-- `container_serialise`. -/
def containerSerialise (elem : Dec α) (insert : List α → α → List α) : Dec (List α) :=
  inSequence do
    let d ← get
    containerLoop elem insert (d.s.unread.length + 1) []

/-- `handle_tag`. -/
def handleTag (tt : TagType) (tag : TagInfo) (obj : Dec α) : Dec α :=
  match tt with
  | .implicitTag => do
      modify fun d => { d with currentTag := some tag }
      obj
  | .explicitTag => do
      startExplicitTag tag
      let v ← obj
      endExplicitTag
      return v

/-- `handle(optional, etag)`: only an element that is not present is caught. -/
def handleOptional (etag : Option TagInfo) (temp : Dec α) : Dec (Option α) :=
  catching Error.isElementNotPresent
    (peekGuard do
      match etag with
      | none => return some (← temp)
      | some tag =>
          startExplicitTag tag
          let v ← temp
          endExplicitTag
          return some v)
    (return none)

/-! ## Every type -/

/-- What the deserialisation is given: the alternatives get the peeked tag. -/
@[reducible] def Kind.Arg : Kind → Type
  | .type => Unit
  | .alternatives => TagInfo

/-- `serialise(deserialiser&, v)` for a value of the type `T`; for the
alternatives of a choice, `visit`. -/
def Schema.deserialise [KeyOrder] : {k : Kind} → (T : Schema k) → k.Arg → Dec T.Val
  | _, .prim p, _ => do
      let tag ← useCurrentTag
      p.decode tag
  | _, .trailing, _ => decodeTrailing
  | _, .nothing, _ => pure ()
  | _, .fields a b, _ => do
      let x ← amp (a.deserialise ())
      let y ← amp (b.deserialise ())
      return (x, y)
  | _, .sequence body, _ => inSequence (amp (body.deserialise ()))
  | _, .container c elem, _ =>
      containerSerialise (amp (elem.deserialise ())) (insertElement c elem)
  | _, .optional T, _ => handleOptional none (amp (T.deserialise ()))
  | _, .tagged .explicitTag tag (.optional T), _ =>
      handleOptional (some tag) (amp (T.deserialise ()))
  | _, .tagged tt tag T, _ => handleTag tt tag (amp (T.deserialise ()))
  | _, .choice alts, _ => do
      let tag ← nextTag
      alts.deserialise tag
  | _, .noAlternative, _ => throw Error.noSuchChoiceTag
  | _, .alternative tag T rest, peeked =>
      if tag = peeked.tag then do
        let v ← amp (handleTag .implicitTag ⟨none, tag⟩ (amp (T.deserialise ())))
        return .inl v
      else do
        let v ← rest.deserialise peeked
        return .inr v

namespace Schema

variable [KeyOrder]

theorem deserialise_explicit_optional (tag : TagInfo) (T : Schema .type) :
    (tagged .explicitTag tag (optional T)).deserialise () =
      handleOptional (some tag) (amp (T.deserialise ())) := rfl

theorem deserialise_implicit (tag : TagInfo) (T : Schema .type) :
    (tagged .implicitTag tag T).deserialise () =
      handleTag .implicitTag tag (amp (T.deserialise ())) := by
  cases T <;> rfl

theorem deserialise_explicit (tag : TagInfo) {T : Schema .type} (h : T.isOptional = false) :
    (tagged .explicitTag tag T).deserialise () =
      handleTag .explicitTag tag (amp (T.deserialise ())) := by
  cases T <;> first | rfl | cases h

end Schema

/-- `deser & t`. -/
def Schema.decode [KeyOrder] (T : Schema .type) : Dec T.Val := amp (T.deserialise ())

/-- `asn_der_deserialise`. -/
def asnDerDeserialise [KeyOrder] (T : Schema .type) (data : Octets) : Except Error T.Val :=
  match T.decode (Deserialiser.ofOctets data) with
  | .ok v _ => .ok v
  | .error e _ => .error e

end Securepath.Serialisation
