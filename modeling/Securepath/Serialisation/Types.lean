import Securepath.Library.StateExcept

/-!
# Serialisation: the common types

The tags, headers and limits of the ASN.1 DER codec
(`serialisation/types.hpp`, `serialisation/codec/asn_der/types.hpp`) and the
errors that its functions throw.
-/

namespace Securepath.Serialisation

abbrev Octets := List UInt8

/-- `serialisation_error` and its subclass `element_not_present`, with the
text they are thrown with. -/
inductive Error where
  | serialisationError (what : String)
  | elementNotPresent (what : String)
deriving DecidableEq, Repr

/-- What a handler `catch(element_not_present const&)` catches. -/
def Error.isElementNotPresent : Error → Bool
  | .serialisationError _ => false
  | .elementNotPresent _ => true

/-- `namespace asn_class`: the two class bits of an identifier octet. -/
inductive AsnClass where
  | universal
  | application
  | contextSpecific
  | private_
deriving DecidableEq, Repr

def AsnClass.bits : AsnClass → Nat
  | .universal => 0
  | .application => 1
  | .contextSpecific => 2
  | .private_ => 3

/-- The class that the two high bits of an octet stand for. -/
def AsnClass.ofBits : Nat → AsnClass
  | 0 => .universal
  | 1 => .application
  | 2 => .contextSpecific
  | _ => .private_

@[simp] theorem AsnClass.ofBits_bits (c : AsnClass) : AsnClass.ofBits c.bits = c := by
  cases c <;> rfl

theorem AsnClass.bits_lt (c : AsnClass) : c.bits < 4 := by
  cases c <;> decide

/-- `tag_info`; without a class the tag is context specific. -/
structure TagInfo where
  tagType : Option AsnClass
  tag : UInt64
deriving DecidableEq, Repr

/-- The kinds of `object_with_tag`. -/
inductive TagType where
  | explicitTag
  | implicitTag
deriving DecidableEq, Repr

/-- `namespace asn_tag`: the universal tags. -/
def AsnTag.boolean : UInt64 := 0x01
def AsnTag.integer : UInt64 := 0x02
def AsnTag.octetString : UInt64 := 0x04
def AsnTag.real : UInt64 := 0x09
def AsnTag.sequence : UInt64 := 0x10
def AsnTag.t61string : UInt64 := 0x14
def AsnTag.generalisedTime : UInt64 := 0x18

/-- `asn_header`. -/
structure AsnHeader where
  asnClass : AsnClass
  tag : UInt64
  length : Nat
  isConstructed : Bool
deriving DecidableEq, Repr

/-- Class and tag: what a decoder compares of a header. -/
abbrev Ident := AsnClass × UInt64

def AsnHeader.ident (h : AsnHeader) : Ident := (h.asnClass, h.tag)

/-- The largest primitive element the decoder accepts. -/
def maxStructureSize : Nat := 1024 * 1024 * 2

/-- The largest constructed element the decoder accepts. -/
def maxConstructedSize : Nat := 1024 * 1024 * 512

/-- The deepest nesting of constructed elements the decoder enters. -/
def maxStructureDepth : Nat := 64

/-- `get_asn_class`. -/
def getAsnClass : Option TagInfo → AsnClass
  | some t => t.tagType.getD .contextSpecific
  | none => .universal

/-- `get_tag`. -/
def getTag (t : Option TagInfo) (defaultTag : UInt64) : UInt64 :=
  match t with
  | some t => t.tag
  | none => defaultTag

/-- The identifier of an element whose untagged form has `defaultTag`. -/
def getIdent (t : Option TagInfo) (defaultTag : UInt64) : Ident :=
  (getAsnClass t, getTag t defaultTag)

/-- The identifier that a tag stands for. -/
def TagInfo.ident (t : TagInfo) : Ident := (t.tagType.getD .contextSpecific, t.tag)

@[simp] theorem getIdent_some (t : TagInfo) (d : UInt64) : getIdent (some t) d = t.ident := rfl

/-! ## Errors -/

namespace Error

def endOfStream : Error := .serialisationError "end of stream"
def tagTooLong : Error := .serialisationError "too long tag in asn header"
def illegalLength : Error := .serialisationError "illegal length in asn header"
def structureTooBig : Error := .serialisationError "asn structure too big"
def nestingTooDeep : Error := .serialisationError "structure nesting too deep"
def endOfSequence : Error :=
  .elementNotPresent "end of sequence when trying to decode header"
def identMismatch : Error := .elementNotPresent "asn class or tag does not match"
def invalidSequence : Error := .serialisationError "invalid sequence"
def invalidExplicitTag : Error := .serialisationError "invalid explicit tag"
def trailingOutsideSequence : Error :=
  .serialisationError "trailing data decoded outside a sequence"
def integerDoesNotFit : Error := .serialisationError "integer does not fit to given type"
def integerEmpty : Error := .serialisationError "integer must be at least one octet"
def signMismatch : Error := .serialisationError "unsigned/signed mismatch"
def realTooLarge : Error := .serialisationError "real value too large"
def noProgress : Error :=
  .serialisationError "container element did not consume any data"
def noSuchChoiceTag : Error := .serialisationError "no such tag with choice"
def stringTooLarge : Error := .serialisationError "string too large to be decodable"
def illegalSize : Error := .serialisationError "illegal size"

end Error

end Securepath.Serialisation
