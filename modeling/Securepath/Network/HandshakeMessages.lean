import Securepath.Crypto.CertificateChain
import Securepath.Crypto.CertificateStores
import Securepath.KeyServer.Protocol

/-!
# The messages of the handshake

The hellos and the acknowledgement (`network/encryption/handshake/protocol.hpp`), and what the
concrete handshakes send (`pk_handshake.cpp`, `ss_handshake.cpp`).
-/

namespace Securepath.Network

open Serialisation Crypto KeyServer StateExcept

/-- `asn_der_deserialise`, where `m` is what `serialise` does. -/
def deserialiseAs {α : Type} (m : Dec α) (data : Octets) : Except Serialisation.Error α :=
  match amp m (Deserialiser.ofOctets data) with
  | .ok v _ => .ok v
  | .error e _ => .error e

/-! ## Hellos -/

/-- `current_version`. -/
def currentVersion : FixedInt uint16 := .cast uint16 2

/-- `hello_id_size`. -/
def helloIdSize : Nat := 16

/-- The suite that `suiteDeserialise` has let through. -/
def suiteOfWire (v : FixedInt uint16) : Suite := if v = Suite.wire .pq1 then .pq1 else .pq1High

/-- `client_hello`. -/
structure ClientHello where
  version : FixedInt uint16
  suite : Suite
  handshakeRequest : FixedInt int
  clientId : Octets

namespace ClientHello

def schema : Schema .type :=
  .struct [.prim (.int uint16), .prim (.int uint16), .prim (.int int), .prim .octets]

def val (h : ClientHello) : schema.Val :=
  (h.version, h.suite.wire, h.handshakeRequest, h.clientId, ())

def decode : Dec schema.Val :=
  inSequence (amp (both ((Schema.prim (.int uint16)).deserialise ())
    (both suiteDeserialise (both ((Schema.prim (.int int)).deserialise ())
      (both ((Schema.prim .octets).deserialise ()) (pure ()))))))

def ofVal (v : schema.Val) : ClientHello := ⟨v.1, suiteOfWire v.2.1, v.2.2.1, v.2.2.2.1⟩

/-- `asn_der_serialise`. -/
def save (h : ClientHello) : Except Serialisation.Error Octets := asnDerSerialise schema h.val

/-- `asn_der_deserialise<client_hello>`. -/
def load (data : Octets) : Except Serialisation.Error ClientHello :=
  (deserialiseAs decode data).map ofVal

end ClientHello

/-- `server_hello`. -/
structure ServerHello where
  version : FixedInt uint16
  suite : Suite
  handshakeResponse : FixedInt int
  serverId : Octets
  serverAuth : Octets

namespace ServerHello

def schema : Schema .type :=
  .struct [.prim (.int uint16), .prim (.int uint16), .prim (.int int), .prim .octets,
    .prim .octets]

def val (h : ServerHello) : schema.Val :=
  (h.version, h.suite.wire, h.handshakeResponse, h.serverId, h.serverAuth, ())

def decode : Dec schema.Val :=
  inSequence (amp (both ((Schema.prim (.int uint16)).deserialise ())
    (both suiteDeserialise (both ((Schema.prim (.int int)).deserialise ())
      (both ((Schema.prim .octets).deserialise ())
        (both ((Schema.prim .octets).deserialise ()) (pure ())))))))

def ofVal (v : schema.Val) : ServerHello :=
  ⟨v.1, suiteOfWire v.2.1, v.2.2.1, v.2.2.2.1, v.2.2.2.2.1⟩

/-- `asn_der_serialise`. -/
def save (h : ServerHello) : Except Serialisation.Error Octets := asnDerSerialise schema h.val

/-- `asn_der_deserialise<server_hello>`. -/
def load (data : Octets) : Except Serialisation.Error ServerHello :=
  (deserialiseAs decode data).map ofVal

end ServerHello

/-- `handshake_ack`. -/
structure HandshakeAck where
  version : FixedInt uint16

namespace HandshakeAck

def schema : Schema .type := .struct [.prim (.int uint16)]

/-- `asn_der_serialise`. -/
def save (a : HandshakeAck) : Except Serialisation.Error Octets :=
  asnDerSerialise schema (a.version, ())

/-- `asn_der_deserialise<handshake_ack>`. -/
def load (data : Octets) : Except Serialisation.Error HandshakeAck :=
  (asnDerDeserialise schema data).map fun v => ⟨v.1⟩

end HandshakeAck

/-! ## Credentials -/

/-- A `std::set<certificate_id>` that was read; the set keeps the order. -/
def certificateIdsOf (ids : List Text) : Except Serialisation.Error CertificateIds :=
  if h : ids.Pairwise fun a b => a.val < b.val then .ok ⟨ids, h⟩
  else .error (.serialisationError "ids out of order")

/-- A `public_key_impl` that was read. -/
def keyContentOf (v : keySchema.Val) : Except Serialisation.Error KeyContent := do
  let sigPk ← asText v.2.2.1
  let kemXPk ← asText v.2.2.2.1
  let kemPqPk ← asText v.2.2.2.2.1
  let ids ← v.2.2.2.2.2.1.mapM fun id => asText id.1
  let certificateIds ← certificateIdsOf ids
  let sig ← Signature.ofVal v.2.2.2.2.2.2.1
  return ⟨v.1, suiteOfWire v.2.1, sigPk, kemXPk, kemPqPk, certificateIds, sig,
    v.2.2.2.2.2.2.2.1⟩

/-- A chain with the version that it was read with, which nothing looks at. -/
structure VersionedChain [Primitives] where
  version : FixedInt int
  chain : CertificateChain

def pairSchema : Schema .type := .struct [keySchema, Certificate.schema]

def chainSchema : Schema .type :=
  .struct [.prim (.int int), idSchema, .container .vector pairSchema]

/-- `key_cert_pair::serialise`. -/
def pairDecode : Dec pairSchema.Val :=
  inSequence (amp (both keyDeserialise (both (Certificate.schema.deserialise ()) (pure ()))))

/-- `certificate_chain::serialise`. -/
def chainDecode : Dec chainSchema.Val :=
  inSequence (amp (both ((Schema.prim (.int int)).deserialise ())
    (both (idSchema.deserialise ())
      (both (containerSerialise (amp pairDecode) (insertElement .vector pairSchema)) (pure ())))))

section Objects

variable [Primitives]

/-- `public_key::serialise` of a deserialiser makes the id. -/
def publicKeyOf (v : keySchema.Val) : Except Serialisation.Error PublicKey := do
  let content ← keyContentOf v
  return ⟨content, content.constructId, fun _ => rfl⟩

def pairVal (p : KeyCertPair) : pairSchema.Val := (keyVal p.subject.content, p.cert.val, ())

def pairOf (v : pairSchema.Val) : Except Serialisation.Error KeyCertPair := do
  let subject ← publicKeyOf v.1
  let cert ← Certificate.ofVal v.2.1
  return ⟨subject, cert⟩

def VersionedChain.val (c : VersionedChain) : chainSchema.Val :=
  (c.version, (c.chain.rootKeyId.val, ()), c.chain.chain.map pairVal, ())

def chainOf (v : chainSchema.Val) : Except Serialisation.Error VersionedChain := do
  let root ← asText v.2.1.1
  let links ← v.2.2.1.mapM pairOf
  return ⟨v.1, ⟨root, links⟩⟩

/-- `auth_credentials`. -/
structure AuthCredentials where
  key : PublicKey
  chain : VersionedChain
  sig : Signature

/-- `auth`. -/
structure Auth where
  creds : Option AuthCredentials

end Objects

def credentialsSchema : Schema .type := .struct [keySchema, chainSchema, Signature.schema]

def credentialsDecode : Dec credentialsSchema.Val :=
  inSequence (amp (both keyDeserialise
    (both chainDecode (both (Signature.schema.deserialise ()) (pure ())))))

namespace Auth

def schema : Schema .type := .struct [.optional credentialsSchema]

def decode : Dec schema.Val :=
  inSequence (amp (both (handleOptional none (amp credentialsDecode)) (pure ())))

variable [Primitives]

def val (a : Auth) : schema.Val :=
  (a.creds.map fun c => (keyVal c.key.content, c.chain.val, c.sig.val, ()), ())

def ofVal (v : schema.Val) : Except Serialisation.Error Auth :=
  match v.1 with
  | none => .ok ⟨none⟩
  | some c => do
      let key ← publicKeyOf c.1
      let chain ← chainOf c.2.1
      let sig ← Signature.ofVal c.2.2.1
      return ⟨some ⟨key, chain, sig⟩⟩

/-- `asn_der_serialise`. -/
def save (a : Auth) : Except Serialisation.Error Octets := asnDerSerialise schema a.val

/-- `asn_der_deserialise<auth>`. -/
def load (data : Octets) : Except Serialisation.Error Auth := do
  let v ← deserialiseAs decode data
  ofVal v

end Auth

/-! ## Shared secrets -/

/-- `auth_ss`. -/
structure AuthSs where
  secretId : Octets
  mac : Octets

namespace AuthSs

def schema : Schema .type := .struct [.prim .octets, .prim .octets]

/-- `asn_der_serialise`. -/
def save (a : AuthSs) : Except Serialisation.Error Octets :=
  asnDerSerialise schema (a.secretId, a.mac, ())

/-- `asn_der_deserialise<auth_ss>`. -/
def load (data : Octets) : Except Serialisation.Error AuthSs :=
  (asnDerDeserialise schema data).map fun v => ⟨v.1, v.2.1⟩

end AuthSs

end Securepath.Network
