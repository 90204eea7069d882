import Securepath.Serialisation.Unwinding

/-!
# Types that contain themselves

A `Schema` is a finite tree, while a C++ class may be an element of a container of
its own. Here types refer to each other by name, and what the deserialiser does is
a recursion that need not end by its form: `deserialise` is given how many calls of
named types may be open, how many rounds each loop of `container_serialise` may take,
and what is done instead where these run out.
-/

namespace Securepath.Serialisation

open StateExcept

variable {Name : Type} {k : Kind} {α : Type}

/-! ## Types and values -/

/-- A type, where classes are referred to by name. -/
inductive TypeExpr (Name : Type) : Kind → Type where
  | prim (p : Prim) : TypeExpr Name .type
  | trailing : TypeExpr Name .type
  | nothing : TypeExpr Name .type
  | fields (a b : TypeExpr Name .type) : TypeExpr Name .type
  | sequence (body : TypeExpr Name .type) : TypeExpr Name .type
  | container (c : ContainerKind) (elem : TypeExpr Name .type) : TypeExpr Name .type
  /-- `std::optional`, and one within an explicit tag -/
  | optional (etag : Option TagInfo) (T : TypeExpr Name .type) : TypeExpr Name .type
  | tagged (tt : TagType) (tag : TagInfo) (T : TypeExpr Name .type) : TypeExpr Name .type
  | choice (alts : TypeExpr Name .alternatives) : TypeExpr Name .type
  | noAlternative : TypeExpr Name .alternatives
  | alternative (tag : UInt64) (T : TypeExpr Name .type) (rest : TypeExpr Name .alternatives) :
      TypeExpr Name .alternatives
  | named (n : Name) : TypeExpr Name .type

/-- What is decoded. -/
inductive Value where
  | prim (p : Prim) (v : p.Val)
  | trailing (o : Octets)
  | nothing
  | fields (a b : Value)
  | container (l : List Value)
  | optional (v : Option Value)
  | alternative (tag : UInt64) (v : Value)

namespace TypeExpr

/-- Every named type is within something that is entered. -/
def Guarded : {k : Kind} → TypeExpr Name k → Prop
  | _, prim _ | _, trailing | _, nothing | _, noAlternative => True
  | _, fields a b => a.Guarded ∧ b.Guarded
  | _, sequence _ | _, container _ _ => True
  | _, optional none T => T.Guarded
  | _, optional (some _) _ => True
  | _, tagged .implicitTag _ T => T.Guarded
  | _, tagged .explicitTag _ _ => True
  | _, choice alts => alts.Guarded
  | _, alternative _ T rest => T.Guarded ∧ rest.Guarded
  | _, named _ => False

end TypeExpr

/-- The classes of a program. None is a member of itself by value, so a class refers to
itself from within a container. -/
structure TypeTable (Name : Type) where
  type : Name → TypeExpr Name .type
  guarded : ∀ n, (type n).Guarded

/-- `std::less` of the elements of a set or a map. -/
abbrev ValueOrder := ContainerKind → Value → Value → Bool

/-- `insert(end(), e)` of a container. -/
def insertValue (less : ValueOrder) (c : ContainerKind) (l : List Value) (e : Value) :
    List Value :=
  match c with
  | .vector | .deque => l ++ [e]
  | .set | .map => insertOrdered (less c) l e

/-! ## Deserialisation -/

/-- What is done where a call, or a round of a loop, is one too many. -/
structure Cut where
  call : Dec Value
  round : Dec (List Value)

/-- The loop of `container_serialise`, with `rounds` rounds left. -/
def containerRounds (cut : Dec (List α)) (elem : Dec α) (insert : List α → α → List α) :
    Nat → List α → Dec (List α)
  | 0, _ => cut
  | rounds + 1, v => do
      let before ← get
      if before.isEndOfSequence then
        return v
      else
        let temp ← elem
        let after ← get
        if after.pos = before.pos then
          throw Error.noProgress
        else
          containerRounds cut elem insert rounds (insert v temp)

namespace TypeExpr

/-- `serialise(deserialiser&, v)`, where `call` is what it does for the named types. -/
def deserialise (less : ValueOrder) (rounds : Nat) (cut : Cut) (call : Name → Dec Value) :
    {k : Kind} → TypeExpr Name k → k.Arg → Dec Value
  | _, prim p, _ => do
      let tag ← useCurrentTag
      let v ← p.decode tag
      return .prim p v
  | _, trailing, _ => do
      let o ← decodeTrailing
      return .trailing o
  | _, nothing, _ => pure .nothing
  | _, fields a b, _ => do
      let x ← amp (a.deserialise less rounds cut call ())
      let y ← amp (b.deserialise less rounds cut call ())
      return .fields x y
  | _, sequence body, _ => inSequence (amp (body.deserialise less rounds cut call ()))
  | _, container c elem, _ => do
      let l ← inSequence (containerRounds cut.round (amp (elem.deserialise less rounds cut call ()))
        (insertValue less c) rounds [])
      return .container l
  | _, optional etag T, _ => do
      let v ← handleOptional etag (amp (T.deserialise less rounds cut call ()))
      return .optional v
  | _, tagged tt tag T, _ => handleTag tt tag (amp (T.deserialise less rounds cut call ()))
  | _, choice alts, _ => do
      let tag ← nextTag
      alts.deserialise less rounds cut call tag
  | _, noAlternative, _ => throw Error.noSuchChoiceTag
  | _, alternative tag T rest, peeked =>
      if tag = peeked.tag then do
        let v ← amp (handleTag .implicitTag ⟨none, tag⟩
          (amp (T.deserialise less rounds cut call ())))
        return .alternative tag v
      else
        rest.deserialise less rounds cut call peeked
  | _, named n, _ => call n

end TypeExpr

namespace TypeTable

variable (types : TypeTable Name) (less : ValueOrder) (rounds : Nat) (cut : Cut)

/-- `serialise` of a named type, with `calls` calls of named types left. -/
def call : Nat → Name → Dec Value
  | 0, _ => cut.call
  | calls + 1, n => (types.type n).deserialise less rounds cut (call calls) ()

/-- `deser & t`. -/
def decode (calls : Nat) (T : TypeExpr Name .type) : Dec Value :=
  amp (T.deserialise less rounds cut (types.call less rounds cut calls) ())

end TypeTable

end Securepath.Serialisation
