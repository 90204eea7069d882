import Securepath.Crypto.Objects
import Securepath.Serialisation.AbsentOptional

/-!
# The key server protocol

The messages between the key client and the key server (`key_server/protocol/protocol.hpp`)
and the error that the responses carry (`network/net_error.hpp`).
-/

namespace Securepath.KeyServer

open Serialisation Crypto StateExcept

/-- `net_error`. -/
structure NetError where
  code : FixedInt int
  message : Text
  category : Text
  auxMessage : Text
deriving DecidableEq

namespace NetError

def members : List (Schema .type) :=
  [.prim (.int int), .prim .string, .prim .string, .prim .string]

def schema : Schema .type := .struct members

def val (e : NetError) : schema.Val :=
  (e.code, e.message.val, e.category.val, e.auxMessage.val, ())

end NetError

/-! ## Keys on the wire -/

/-- The members of a public key behind its suite. -/
def materialSchema : Schema .type :=
  [.prim .octets, .prim .octets, .prim .octets, .container .set idSchema, Signature.schema,
    .trailing].foldr .fields .nothing

def keySchema : Schema .type :=
  .sequence (.fields (.prim (.int uint16)) (.fields (.prim (.int uint16)) materialSchema))

def keyVal (k : KeyContent) : keySchema.Val :=
  (k.version, k.suite.wire, k.sigPk.val, k.kemXPk.val, k.kemPqPk.val,
    k.certificateIds.ids.map fun id => (id.val, ()), k.sig.val, k.trailing, ())

/-- The order of `std::set<certificate_id>`. -/
instance : KeyOrder where
  less
    | .set, .sequence (.fields (.prim .octets) .nothing), x, y => decide (x.1 < y.1)
    | _, _, _, _ => false

/-- `unknown_suite`, which is no `element_not_present` either. -/
def unknownSuite : Serialisation.Error :=
  .serialisationError "unknown crypto suite in serialised data"

/-- `serialise(deserialiser&, suite&)`. -/
def suiteDeserialise : Dec (FixedInt uint16) := do
  let v ← amp ((Schema.prim (.int uint16)).deserialise ())
  if v = Suite.wire .pq1 ∨ v = Suite.wire .pq1High then return v else throw unknownSuite

/-- `public_key_impl::serialise(deserialiser&)`, but for the id. -/
def keyDeserialise : Dec keySchema.Val :=
  inSequence (amp (both ((Schema.prim (.int uint16)).deserialise ())
    (both suiteDeserialise (materialSchema.deserialise ()))))

/-! ## Messages -/

inductive MessageType where
  | registerKeyRequest
  | findKeyRequest
  | findCertificateRequest
  | registerKeyResponse
  | findKeyResponse
  | findCertificateResponse
deriving DecidableEq, Repr

namespace MessageType

/-- The tags of `types`. -/
def tag : MessageType → UInt64
  | registerKeyRequest => 1
  | findKeyRequest => 2
  | findCertificateRequest => 3
  | registerKeyResponse => 4
  | findKeyResponse => 5
  | findCertificateResponse => 6

/-- `types`. -/
def all : List MessageType :=
  [registerKeyRequest, findKeyRequest, findCertificateRequest, registerKeyResponse,
    findKeyResponse, findCertificateResponse]

def members : MessageType → List (Schema .type)
  | registerKeyRequest => [.prim (.int uint32), keySchema]
  | findKeyRequest => [.prim (.int uint32), idSchema]
  | findCertificateRequest => [.prim (.int uint32), idSchema]
  | registerKeyResponse => [.prim (.int uint32), NetError.schema]
  | findKeyResponse => [.prim (.int uint32), .optional keySchema, NetError.schema]
  | findCertificateResponse => [.prim (.int uint32), .optional Certificate.schema, NetError.schema]

/-- What is inside of the sequence. -/
def body (k : MessageType) : Schema .type := k.members.foldr .fields .nothing

/-- `seq & id & ...` of the message, where a key is read with its suite. -/
def bodyDeserialise : (k : MessageType) → Dec k.body.Val
  | registerKeyRequest =>
      both ((Schema.prim (.int uint32)).deserialise ()) (both keyDeserialise (pure ()))
  | findKeyResponse =>
      both ((Schema.prim (.int uint32)).deserialise ())
        (both (handleOptional none (amp keyDeserialise))
          (both (NetError.schema.deserialise ()) (pure ())))
  | findKeyRequest => (body findKeyRequest).deserialise ()
  | findCertificateRequest => (body findCertificateRequest).deserialise ()
  | registerKeyResponse => (body registerKeyResponse).deserialise ()
  | findCertificateResponse => (body findCertificateResponse).deserialise ()

end MessageType

/-- A value of one of the message types. -/
abbrev AnyMessage := Σ k : MessageType, k.body.Val

/-- A message. -/
inductive Message where
  | registerKeyRequest (id : FixedInt uint32) (key : KeyContent)
  | findKeyRequest (id : FixedInt uint32) (kid : PublicKeyId)
  | findCertificateRequest (id : FixedInt uint32) (cid : CertificateId)
  | registerKeyResponse (id : FixedInt uint32) (error : NetError)
  | findKeyResponse (id : FixedInt uint32) (key : Option KeyContent) (error : NetError)
  | findCertificateResponse (id : FixedInt uint32) (cert : Option Certificate) (error : NetError)
deriving DecidableEq

namespace Message

def value : Message → AnyMessage
  | registerKeyRequest id key => ⟨.registerKeyRequest, id, keyVal key, ()⟩
  | findKeyRequest id kid => ⟨.findKeyRequest, id, (kid.val, ()), ()⟩
  | findCertificateRequest id cid => ⟨.findCertificateRequest, id, (cid.val, ()), ()⟩
  | registerKeyResponse id error => ⟨.registerKeyResponse, id, error.val, ()⟩
  | findKeyResponse id key error => ⟨.findKeyResponse, id, key.map keyVal, error.val, ()⟩
  | findCertificateResponse id cert error =>
      ⟨.findCertificateResponse, id, cert.map Certificate.val, error.val, ()⟩

end Message

/-- `asn_der_serialise_choice<types>`. -/
def asnDerSerialiseChoice (m : Message) : Except Serialisation.Error Octets :=
  asnDerSerialise (.tagged .implicitTag ⟨none, m.value.1.tag⟩ (.sequence m.value.1.body)) m.value.2

/-- `choice_impl::visit`. -/
def visit : List MessageType → TagInfo → Dec AnyMessage
  | [], _ => throw Serialisation.Error.noSuchChoiceTag
  | k :: ks, peeked =>
      if k.tag = peeked.tag then do
        let v ← amp (handleTag .implicitTag ⟨none, k.tag⟩ (amp (inSequence (amp k.bodyDeserialise))))
        return ⟨k, v⟩
      else visit ks peeked

/-- `asn_der_deserialise_choice<types>`: what the visitor is called with. -/
def asnDerDeserialiseChoice (data : Octets) : Except Serialisation.Error AnyMessage :=
  match (do let tag ← nextTag; visit MessageType.all tag : Dec AnyMessage) (Deserialiser.ofOctets data) with
  | .ok v _ => .ok v
  | .error e _ => .error e

end Securepath.KeyServer
