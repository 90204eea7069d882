import Securepath.Crypto.Objects
import Securepath.KeyServer.Protocol
import Securepath.Network.Framing
import Securepath.Serialisation.Sizes

/-!
# Sending a packet

`packet_client::send_packet` with what it encrypts, signs and encodes, and the stages
that the encoded packet goes through: `async_send_frame`, the `frame_reader` of the peer
and the two packet deserialisers. What Botan gives is known by its size.
-/

namespace Securepath.PacketTransport

open Serialisation Crypto Network StateExcept

/-! ## Messages -/

def int64 : IntType := ⟨true, .w64⟩

/-- `encrypted_key`. -/
structure EncryptedKey where
  keyId : Octets
  data : Octets
deriving DecidableEq

/-- `enveloped_content`. -/
structure EnvelopedContent where
  keys : List EncryptedKey
  iv : Octets
  encrypted : Octets
  tag : Octets
deriving DecidableEq

/-- `transport_packet` with its `receiver` and `transport_payload`. -/
structure TransportPacket where
  receiver : Octets
  data : EnvelopedContent
  issuer : Octets
  signature : Octets
  ack : FixedInt int64
deriving DecidableEq

def encryptedKeySchema : Schema .type := .struct [.prim (.int uint32), idSchema, .prim .octets]

def envelopedContentSchema : Schema .type :=
  .struct [.prim (.int uint32), .container .deque encryptedKeySchema, .prim .octets, .prim .octets,
    .prim .octets]

def transportPayloadSchema : Schema .type := .struct [envelopedContentSchema, Signature.schema]

/-- The members of a `transport_packet`; a `receiver` is its id in a sequence. -/
def transportPacketBody : Schema .type :=
  [.struct [idSchema], transportPayloadSchema, .prim (.int int64)].foldr .fields .nothing

def helloSchema : Schema .type :=
  .struct [.prim (.int int), .prim (.int int64), KeyServer.NetError.schema]

/-- `types`. -/
def types : Schema .alternatives :=
  .alternative 1 helloSchema <|
    .alternative 2 (.sequence transportPacketBody) <|
      .alternative 3 (.struct [.prim (.int int64)]) <|
        .alternative 4 (.struct [.prim (.int int64), KeyServer.NetError.schema]) .noAlternative

def EncryptedKey.val (k : EncryptedKey) : encryptedKeySchema.Val :=
  (.cast uint32 1, (k.keyId, ()), k.data, ())

def EnvelopedContent.val (c : EnvelopedContent) : envelopedContentSchema.Val :=
  (.cast uint32 0, c.keys.map EncryptedKey.val, c.iv, c.encrypted, c.tag, ())

namespace TransportPacket

def val (p : TransportPacket) : transportPacketBody.Val :=
  (((p.receiver, ()), ()), (p.data.val, (.cast uint32 2, (p.issuer, ()), p.signature, ()), ()), p.ack, ())

/-- The packet as one of `types`. -/
def choiceVal (p : TransportPacket) : (Schema.choice types).Val := .inr (.inl p.val)

/-- `asn_der_serialise_choice<types>`. -/
def serialiseChoice (p : TransportPacket) : Except Serialisation.Error Octets :=
  asnDerSerialise (.choice types) p.choiceVal

end TransportPacket

/-! ## What is drawn for a packet -/

/-- `kem_ciphertext_size` of `suite_parameters`. -/
def kemCiphertextSize : Suite → Nat
  | .pq1 => 1088
  | .pq1High => 1568

/-- `signature_size` of `suite_parameters`. -/
def signatureSize : Suite → Nat
  | .pq1 => 3309
  | .pq1High => 4627

def aesGcmKeySize : Nat := 32
def aesGcmIvSize : Nat := 12
def aesGcmTagSize : Nat := 16

def aesGcmMaxDataSize : Nat := (2 ^ 39 - 256) / 8

abbrev Sized (n : Nat) := { o : Octets // o.length = n }

/-- What Botan and the random generator give while a payload of `n` octets is encrypted
for a key and signed by another, each with its suite. -/
structure Drawn (key mine : Suite) (n : Nat) where
  ctX : Sized key.parameters.xKeySize
  ctPq : Sized (kemCiphertextSize key)
  keyIv : Sized aesGcmIvSize
  encryptedKey : Sized aesGcmKeySize
  keyTag : Sized aesGcmTagSize
  iv : Sized aesGcmIvSize
  encrypted : Sized n
  tag : Sized aesGcmTagSize
  signature : Sized (signatureSize mine)

/-- `hybrid_ciphertext`. -/
def hybridCiphertextSchema : Schema .type :=
  .struct [.prim (.int uint16), .prim (.int uint16), .prim .octets, .prim .octets, .prim .octets,
    .prim .octets, .prim .octets]

def Drawn.ciphertext {key mine : Suite} {n : Nat} (r : Drawn key mine n) :
    hybridCiphertextSchema.Val :=
  (.cast uint16 1, key.wire, r.ctX.val, r.ctPq.val, r.keyIv.val, r.encryptedKey.val, r.keyTag.val, ())

/-! ## `send_packet` -/

inductive SendError where
  | noSuchKey
  | invalidKey
  | dataTooLarge
  | database
  | serialisation (e : Serialisation.Error)
deriving DecidableEq, Repr

variable [Primitives]

/-- `private_key`: one that is valid has a valid public key. -/
structure PrivateKey where
  publicKey : PublicKey
  isValid : Bool
  valid_public : isValid = true → publicKey.content.isValid = true

structure PacketClient where
  myPrivateKey : Option PrivateKey
  find : Octets → Option PublicKey
  /-- there is a connection, and its hello is done -/
  connected : Bool

/-- `asn_der_serialise`, which may throw. -/
def serialiseOrThrow (T : Schema .type) (v : T.Val) : Except SendError Octets :=
  (asnDerSerialise T v).mapError .serialisation

/-- `public_key::encrypt` of the content key. -/
def encryptKey (key : PublicKey) {mine : Suite} {n : Nat} (r : Drawn key.content.suite mine n) :
    Except SendError Octets :=
  if key.content.isValid then serialiseOrThrow hybridCiphertextSchema r.ciphertext
  else .error .invalidKey

/-- `private_key::sign` of the envelope. -/
def signContent (myKey : PrivateKey) (content : EnvelopedContent) {key : Suite} {n : Nat}
    (r : Drawn key myKey.publicKey.content.suite n) : Except SendError Octets := do
  let _ ← serialiseOrThrow envelopedContentSchema content.val
  if myKey.isValid then return r.signature.val else .error .invalidKey

/-- `send_packet`; `inserted` is what the database answers to the insertion. -/
def PacketClient.sendPacket (c : PacketClient) (data receiver : Octets)
    (drawn : ∀ key mine, Drawn key mine data.length) (inserted : Option (FixedInt int64)) :
    Except SendError TransportPacket :=
  match c.myPrivateKey, c.find receiver with
  | none, _ => .error .noSuchKey
  | some _, none => .error .noSuchKey
  | some myKey, some key => do
      let r := drawn key.content.suite myKey.publicKey.content.suite
      let sealed ← encryptKey key r
      if aesGcmMaxDataSize < data.length then .error .dataTooLarge
      let content := ⟨[⟨key.id.val, sealed⟩], r.iv.val, r.encrypted.val, r.tag.val⟩
      let signature ← signContent myKey content r
      let p : TransportPacket := ⟨receiver, content, myKey.publicKey.id.val, signature, .cast int64 0⟩
      let _ ← serialiseOrThrow (.sequence transportPacketBody) p.val
      match inserted with
      | none => .error .database
      | some ack =>
          let p := { p with ack := ack }
          if c.connected then
            let _ ← p.serialiseChoice.mapError .serialisation
          return p

/-! ## The stages behind it -/

/-- `async_send_frame` gives the frame to the stream. -/
def SendsFrame (payload : Octets) : Prop := ¬ payload.length > maxFrameSize

/-- `frame_reader` reads the header of a frame, then the payload, and hands it over. -/
def ReadsFrame (payload : Octets) : Prop :=
  ∃ r r', FrameReader.init.receiveFrame.onRead (frameHeader payload.length) = (r, none) ∧
    r.onRead payload = (r', some (.ok payload))

omit [Primitives] in
/-- The default `buf_max_size_`. -/
def bufMaxSize : Nat := 1024 * 1024

/-- The callback of `packet_deserialiser`; the visitor keeps what it is called with. -/
def visitPacket : Callback Serialisation.Error (List (Schema.choice types).Val) := fun deser _ seen =>
  match (Schema.choice types).deserialise () deser with
  | .ok v _ => .ok () (seen ++ [v])
  | .error e _ => .error e seen

/-- A fresh `packet_deserialiser` is given the octets, and the visitor gets the packet. -/
def DeserialisesAlone (data : Octets) (p : TransportPacket) : Prop :=
  doCheck visitPacket data (.ofMax bufMaxSize, []) = .ok () (.ofMax bufMaxSize, [p.choiceVal])

/-- What the server makes of a packet for its receiver, under its own number. -/
def TransportPacket.forwarded (p : TransportPacket) (ack : FixedInt int64) : TransportPacket :=
  { p with ack := ack }

/-- Every stage takes the packet. -/
structure Passes (p : TransportPacket) : Prop where
  sent : ∃ b, p.serialiseChoice = .ok b ∧ SendsFrame b ∧ ReadsFrame b ∧ DeserialisesAlone b p
  forwarded : ∀ ack, ∃ b, (p.forwarded ack).serialiseChoice = .ok b ∧
    DeserialisesAlone b (p.forwarded ack)

end Securepath.PacketTransport
