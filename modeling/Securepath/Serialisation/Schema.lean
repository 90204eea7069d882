import Securepath.Serialisation.Real
import Securepath.Serialisation.Time

/-!
# Serialisable types

The C++ types that `serialiser` and `deserialiser` accept, as data: a `Schema`
says how a type is put together, `Schema.Val` is the type of its values. What
the templates do for each type is a recursion over its schema.

The alternatives of a `choice` are a second kind of schema, because they are
given the tag that was peeked.
-/

namespace Securepath.Serialisation

/-- The types that are encoded as one primitive element. -/
inductive Prim where
  | bool
  | int (t : IntType)
  /-- `integer`: two's complement of any size -/
  | integer
  | string
  | octets
  | real (f : FloatFormat)
  | time
deriving DecidableEq, Repr

/-- The values of a primitive type; a string is its octets. -/
@[reducible] def Prim.Val : Prim → Type
  | .bool => Bool
  | .int t => FixedInt t
  | .integer => Octets
  | .string => Octets
  | .octets => Octets
  | .real f => Ieee f
  | .time => TimePoint

/-- The tag of an element without a tag of its own. -/
def Prim.defaultTag : Prim → UInt64
  | .bool => AsnTag.boolean
  | .int _ => AsnTag.integer
  | .integer => AsnTag.integer
  | .string => AsnTag.t61string
  | .octets => AsnTag.octetString
  | .real _ => AsnTag.real
  | .time => AsnTag.generalisedTime

inductive ContainerKind where
  | vector
  | deque
  | set
  | map
deriving DecidableEq, Repr

inductive Kind where
  | type
  | alternatives

inductive Schema : Kind → Type where
  | prim (p : Prim) : Schema .type
  | trailing : Schema .type
  /-- nothing more to serialise -/
  | nothing : Schema .type
  /-- `s & a & b` -/
  | fields (a b : Schema .type) : Schema .type
  /-- a `sequence` object around `body` -/
  | sequence (body : Schema .type) : Schema .type
  | container (c : ContainerKind) (elem : Schema .type) : Schema .type
  | optional (T : Schema .type) : Schema .type
  /-- `object_with_tag` -/
  | tagged (tt : TagType) (tag : TagInfo) (T : Schema .type) : Schema .type
  | choice (alts : Schema .alternatives) : Schema .type
  | noAlternative : Schema .alternatives
  /-- `type_tag`; the alternatives of a choice are different types -/
  | alternative (tag : UInt64) (T : Schema .type) (rest : Schema .alternatives) :
      Schema .alternatives

namespace Schema

/-- The values of a type; those of a set or map are in its order. -/
@[reducible] def Val : {k : Kind} → Schema k → Type
  | _, prim p => p.Val
  | _, trailing => Octets
  | _, nothing => Unit
  | _, fields a b => a.Val × b.Val
  | _, sequence body => body.Val
  | _, container _ elem => List elem.Val
  | _, optional T => Option T.Val
  | _, tagged _ _ T => T.Val
  | _, choice alts => alts.Val
  | _, noAlternative => Empty
  | _, alternative _ T rest => T.Val ⊕ rest.Val

def isOptional : {k : Kind} → Schema k → Bool
  | _, optional _ => true
  | _, _ => false

/-- Induction where an explicit tag on an optional is a construct of its own, as
it is for the deserialiser. -/
theorem tagInduction {motive : (k : Kind) → Schema k → Prop}
    (prim : ∀ p, motive _ (prim p)) (trailing : motive _ trailing) (nothing : motive _ nothing)
    (fields : ∀ a b, motive _ a → motive _ b → motive _ (fields a b))
    (sequence : ∀ body, motive _ body → motive _ (sequence body))
    (container : ∀ c elem, motive _ elem → motive _ (container c elem))
    (optional : ∀ T, motive _ T → motive _ (optional T))
    (implicit : ∀ tag T, motive _ T → motive _ (tagged .implicitTag tag T))
    (explicitOptional : ∀ tag T, motive _ T → motive _ (tagged .explicitTag tag (.optional T)))
    (explicit : ∀ tag T, T.isOptional = false → motive _ T → motive _ (tagged .explicitTag tag T))
    (choice : ∀ alts, motive _ alts → motive _ (choice alts))
    (noAlternative : motive _ noAlternative)
    (alternative : ∀ tag T rest, motive _ T → motive _ rest →
      motive _ (alternative tag T rest)) :
    (k : Kind) → (T : Schema k) → motive k T := by
  -- what is known of the content of an optional goes along
  let content : (k : Kind) → Schema k → Prop := fun k T =>
    match k, T with
    | _, .optional U => motive _ U
    | _, _ => True
  have both : ∀ k (T : Schema k), motive k T ∧ content k T := by
    intro k T
    induction T with
    | prim p => exact ⟨prim p, trivial⟩
    | trailing => exact ⟨trailing, trivial⟩
    | nothing => exact ⟨nothing, trivial⟩
    | fields a b iha ihb => exact ⟨fields a b iha.1 ihb.1, trivial⟩
    | sequence body ih => exact ⟨sequence body ih.1, trivial⟩
    | container c elem ih => exact ⟨container c elem ih.1, trivial⟩
    | optional T ih => exact ⟨optional T ih.1, ih.1⟩
    | tagged tt tag T ih =>
        refine ⟨?_, trivial⟩
        cases tt with
        | implicitTag => exact implicit tag T ih.1
        | explicitTag =>
            cases T with
            | optional U => exact explicitOptional tag U ih.2
            | _ => exact explicit tag _ rfl ih.1
    | choice alts ih => exact ⟨choice alts ih.1, trivial⟩
    | noAlternative => exact ⟨noAlternative, trivial⟩
    | alternative tag T rest ih ihrest =>
        exact ⟨alternative tag T rest ih.1 ihrest.1, trivial⟩
  exact fun k T => (both k T).1

/-- A struct: its members within a sequence. -/
def struct (members : List (Schema .type)) : Schema .type :=
  sequence (members.foldr fields nothing)

end Schema

/-- The order of the elements of a set or a map: `std::less` of the keys. -/
class KeyOrder where
  less : ContainerKind → (elem : Schema .type) → elem.Val → elem.Val → Bool

/-- `insert(end(), e)` of a set or map: nothing for an element that is
equivalent to one already there. -/
def insertOrdered {α : Type} (less : α → α → Bool) : List α → α → List α
  | [], e => [e]
  | x :: xs, e =>
      if less e x then e :: x :: xs
      else if less x e then x :: insertOrdered less xs e
      else x :: xs

/-- `insert(end(), e)` of a container. -/
def insertElement [KeyOrder] (c : ContainerKind) (elem : Schema .type) (l : List elem.Val)
    (e : elem.Val) : List elem.Val :=
  match c with
  | .vector => l ++ [e]
  | .deque => l ++ [e]
  | .set => insertOrdered (KeyOrder.less .set elem) l e
  | .map => insertOrdered (KeyOrder.less .map elem) l e

/-- An element behind all others goes to the end. -/
theorem insertOrdered_of_forall {α : Type} {less : α → α → Bool} {l : List α} {e : α}
    (h : ∀ x ∈ l, less x e = true ∧ less e x = false) : insertOrdered less l e = l ++ [e] := by
  induction l with
  | nil => rfl
  | cons x xs ih =>
      obtain ⟨hx, hx'⟩ := h x (List.mem_cons_self ..)
      rw [insertOrdered, hx', hx, ih fun y hy => h y (List.mem_cons_of_mem _ hy)]
      simp

end Securepath.Serialisation
