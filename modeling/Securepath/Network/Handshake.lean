import Securepath.Library.Machine
import Securepath.Network.Connection
import Securepath.Network.HandshakeMessages

/-!
# The handshake

`handshake` (`network/encryption/handshake/handshake.cpp`) exchanges the hellos, derives the
binding from the exporter of the channel and goes on with the concrete handshake: public keys
(`pk_handshake.cpp`) or a shared secret (`ss_handshake.cpp`). What is thrown in between is
caught and ends the handshake with an error.
-/

namespace Securepath.Network

open Serialisation Crypto

/-- `endpoint_role`. -/
inductive EndpointRole where
  | client
  | server
deriving DecidableEq, Repr

/-- What is thrown. -/
inductive HandshakeError where
  | crypto (e : Crypto.Error)
  | serialisation (e : Serialisation.Error)
  | noSuchHandshake
  /-- "no own key or certificate chain" -/
  | noOwnKey
  /-- "no shared secret for id" -/
  | noSharedSecret
  /-- an exception of the exporter, of the signer or of the mac -/
  | botan
deriving DecidableEq, Repr

/-! ## The binding -/

/-- "EXPORTER-securepath-auth" -/
def bindingLabel : Octets :=
  [0x45, 0x58, 0x50, 0x4f, 0x52, 0x54, 0x45, 0x52, 0x2d, 0x73, 0x65, 0x63, 0x75, 0x72, 0x65, 0x70,
    0x61, 0x74, 0x68, 0x2d, 0x61, 0x75, 0x74, 0x68]

/-- `binding_size`. -/
def bindingSize : Nat := 32

/-- `exporter_function`, from a label, a context and a length; nothing when it throws. -/
abbrev Exporter := Octets → Octets → Nat → Option Octets

namespace EndpointRole

/-- `client_role_byte` and `server_role_byte`. -/
def byte : EndpointRole → UInt8
  | client => 0x01
  | server => 0x02

def other : EndpointRole → EndpointRole
  | client => server
  | server => client

end EndpointRole

/-- `binding_context`. -/
def bindingContext (role : EndpointRole) (clientId serverId : Octets) : Octets :=
  role.byte :: (clientId ++ serverId)

/-- What the exporter gives for a role. -/
def bindingOf (exporter : Exporter) (role : EndpointRole) (clientId serverId : Octets) :
    Option Octets :=
  exporter bindingLabel (bindingContext role clientId serverId) bindingSize

/-- `handshake_binding`: what this side signs, and what the peer has to have signed. -/
structure HandshakeBinding where
  own : Octets
  remote : Octets

/-- `handshake_data`; `clientData` is the `require_host_restriction` that `extract` finds. -/
structure HandshakeData where
  tag : FixedInt int
  networkAddress : Octets
  binding : HandshakeBinding
  clientData : Option Bool
  role : EndpointRole

/-- A `handshake_data` of a tag alone. -/
def HandshakeData.ofTag (tag : FixedInt int) : HandshakeData :=
  ⟨tag, [], ⟨[], []⟩, none, .client⟩

/-- `handshake_tag::public_key`. -/
def publicKeyTag : FixedInt int := .cast int 2

/-- `handshake_tag::shared_secret`. -/
def sharedSecretTag : FixedInt int := .cast int 4

/-- `handshake_result`. -/
structure HandshakeResult where
  state : HandshakeOpState
  packet : Octets
deriving DecidableEq

namespace HandshakeResult

/-- The result with an error, which is also the default one. -/
def failed : HandshakeResult := ⟨.error, []⟩

/-- What is thrown ends the handshake. -/
def orFailed : Except HandshakeError HandshakeResult → HandshakeResult
  | .ok r => r
  | .error _ => failed

/-- A result with what was serialised. -/
def ofSaved (state : HandshakeOpState) (o : Except Serialisation.Error Octets) :
    HandshakeResult :=
  match o with
  | .ok packet => ⟨state, packet⟩
  | .error _ => failed

end HandshakeResult

open HandshakeResult

/-! ## The context -/

/-- HMAC-SHA3-512 of Botan: a secret and a message; nothing when it throws. -/
class MacPrimitive where
  hmac : Octets → Octets → Option Octets

export MacPrimitive (hmac)

/-- What `enable_client_pk_handshake` and its siblings register. -/
inductive HandshakeConstructor where
  | clientPk
  | serverPk
  /-- `enable_pk_handshake` goes by the role -/
  | pk
  | clientSs
  | serverSs
deriving DecidableEq, Repr

variable [Primitives]

/-- `private_key`, as far as it is asked here; `signFramed` is the signer of Botan. -/
structure PrivateKey where
  publicKey : PublicKey
  signFramed : Octets → Except HandshakeError Text

/-- `sign`. -/
def PrivateKey.sign (k : PrivateKey) (data context : Octets) : Except HandshakeError Signature :=
  match frameMessage context data with
  | .error e => .error (.crypto e)
  | .ok framed => do
      let sig ← k.signFramed framed
      return ⟨.cast uint32 2, k.publicKey.id, sig⟩

/-- `private_data_access`, as far as it is asked here. -/
structure PrivateData where
  myPrivateKey : Option PrivateKey
  myCertificateChain : Option VersionedChain

/-- `context`. -/
structure Context where
  suite : Suite
  publicKeys : PublicKeyAccess
  certificates : CertificateAccess
  sharedSecrets : Octets → Option Octets
  privateData : PrivateData
  handshakes : FixedInt int → Option HandshakeConstructor
  authenticateRemote : Bool
  sharedSecretId : Octets

end Securepath.Network

/-! ## Chains -/

namespace Securepath.Crypto.CertificateChain

variable [Primitives]

/-- `subject`. -/
def subject (c : CertificateChain) : Except Error PublicKey :=
  if !c.isValid then .error (.failed .invalidCertificateChain)
  else
    match c.chain.getLast? with
    | none => .error (.failed .invalidCertificateChain)
    | some last => .ok last.subject

/-- `subject_restrictions`. -/
def subjectRestrictions (c : CertificateChain) : Except Error KeyCertRestriction :=
  if !c.isValid then .error (.failed .invalidCertificateChain)
  else
    match c.chain.getLast? with
    | none => .error (.failed .invalidCertificateChain)
    | some last => last.cert.extract.map (·.restrictions)

/-- `is_authentic`, with a restriction to be fulfilled, if any. -/
def isAuthenticFor (keys : PublicKeyAccess) (certs : CertificateAccess)
    (rest : Option KeyCertRestriction) (c : CertificateChain) : Except Error Bool :=
  match rest with
  | none => c.isAuthentic keys certs
  | some rest => do
      if ← c.isAuthentic keys certs then
        let restrictions ← c.subjectRestrictions
        return rest.isSubsetOf restrictions
      else
        return false

end Securepath.Crypto.CertificateChain

namespace Securepath.Network

open Serialisation Crypto HandshakeResult

variable [Primitives]

/-! ## Public keys -/

/-- "sp-tls-auth" -/
def authContext : Octets := [0x73, 0x70, 0x2d, 0x74, 0x6c, 0x73, 0x2d, 0x61, 0x75, 0x74, 0x68]

/-- `make_auth`. -/
def makeAuth (c : Context) (binding : HandshakeBinding) (required : Bool) :
    Except HandshakeError Auth :=
  match c.privateData.myPrivateKey, c.privateData.myCertificateChain with
  | some key, some chain => do
      let sig ← key.sign binding.own authContext
      return ⟨some ⟨key.publicKey, chain, sig⟩⟩
  | _, _ => if required then .error .noOwnKey else .ok ⟨none⟩

/-- `verify_credentials`. -/
def verifyCredentials (c : Context) (creds : AuthCredentials) (binding : HandshakeBinding)
    (rest : Option KeyCertRestriction) : Except HandshakeError Bool :=
  match creds.chain.chain.isAuthenticFor c.publicKeys c.certificates rest with
  | .error e => .error (.crypto e)
  | .ok false => .ok false
  | .ok true =>
      match creds.chain.chain.subject with
      | .error e => .error (.crypto e)
      | .ok subject =>
          if subject.id ≠ creds.key.id then .ok false
          else .ok (creds.key.verify creds.sig binding.remote authContext)

/-- The restriction of `verify_server_and_reply`. -/
def HandshakeData.restriction (data : HandshakeData) : Option KeyCertRestriction :=
  if data.clientData.getD true then some ⟨data.networkAddress⟩ else none

/-- The key of the server that `verify_server_and_reply` has verified, if any. -/
def verifyServer (c : Context) (data : HandshakeData) (packet : Octets) :
    Except HandshakeError (Option PublicKey) :=
  match Auth.load packet with
  | .error e => .error (.serialisation e)
  | .ok ⟨none⟩ => .ok none
  | .ok ⟨some creds⟩ => do
      let ok ← verifyCredentials c creds data.binding data.restriction
      return if ok then some creds.key else none

/-- The reply of `verify_server_and_reply`. -/
def replyToServer (c : Context) (data : HandshakeData) : HandshakeResult :=
  match makeAuth c data.binding false with
  | .error _ => failed
  | .ok reply => ofSaved .inProgress reply.save

/-- The acknowledgement that the client waits for. -/
def receiveAck (packet : Octets) : HandshakeResult :=
  match HandshakeAck.load packet with
  | .error _ => failed
  | .ok ack => if ack.version ≠ currentVersion then failed else ⟨.succeeded, []⟩

/-- The acknowledgement that the server sends. -/
def sendAck : HandshakeResult := ofSaved .succeeded (HandshakeAck.save ⟨currentVersion⟩)

/-! ## Shared secrets -/

section Secrets

variable [MacPrimitive]

/-- `make_auth_ss`. -/
def makeAuthSs (c : Context) (secretId : Octets) (binding : HandshakeBinding) :
    Except HandshakeError Octets :=
  match c.sharedSecrets secretId with
  | none => .error .noSharedSecret
  | some secret =>
      match hmac secret binding.own with
      | none => .error .botan
      | some mac => (AuthSs.save ⟨secretId, mac⟩).mapError .serialisation

/-- `verify_auth_ss`. -/
def verifyAuthSs (c : Context) (msg : AuthSs) (binding : HandshakeBinding) :
    Except HandshakeError Bool :=
  match c.sharedSecrets msg.secretId with
  | none => .ok false
  | some secret =>
      match hmac secret binding.remote with
      | none => .error .botan
      | some mac => .ok (mac = msg.mac)

/-- `handle_packet` of the client. -/
def clientSsPacket (c : Context) (secretId : Octets) (binding : HandshakeBinding)
    (packet : Octets) : HandshakeResult :=
  match AuthSs.load packet with
  | .error _ => failed
  | .ok msg =>
      if msg.secretId = secretId ∧ verifyAuthSs c msg binding = .ok true then ⟨.succeeded, []⟩
      else failed

/-- `handle_packet` of the server. -/
def serverSsPacket (c : Context) (binding : HandshakeBinding) (packet : Octets) :
    HandshakeResult :=
  match AuthSs.load packet with
  | .error _ => failed
  | .ok msg =>
      if verifyAuthSs c msg binding = .ok true then
        orFailed ((makeAuthSs c msg.secretId binding).map (⟨.succeeded, ·⟩))
      else failed

end Secrets

/-! ## Concrete handshakes -/

/-- `handshake_base`. -/
inductive ConcreteHandshake where
  | clientPk (data : HandshakeData) (remoteKey : Option PublicKey) (serverVerified : Bool)
  | serverPk (binding : HandshakeBinding) (remoteKey : Option PublicKey)
  | clientSs (secretId : Octets) (binding : HandshakeBinding)
  | serverSs (secretId : Octets) (binding : HandshakeBinding)

/-- `construct_handshake`. -/
def Context.constructHandshake (c : Context) (data : HandshakeData) :
    Except HandshakeError ConcreteHandshake :=
  match c.handshakes data.tag with
  | none => .error .noSuchHandshake
  | some .clientPk => .ok (.clientPk data none false)
  | some .serverPk => .ok (.serverPk data.binding none)
  | some .pk =>
      match data.role with
      | .server => .ok (.serverPk data.binding none)
      | .client => .ok (.clientPk data none false)
  | some .clientSs => .ok (.clientSs c.sharedSecretId data.binding)
  | some .serverSs => .ok (.serverSs c.sharedSecretId data.binding)

namespace ConcreteHandshake

/-- `remote_public_key`. -/
def remotePublicKey : ConcreteHandshake → Option PublicKey
  | clientPk _ remoteKey _ => remoteKey
  | serverPk _ remoteKey => remoteKey
  | clientSs _ _ => none
  | serverSs _ _ => none

variable [MacPrimitive] (c : Context)

/-- `start`. -/
def start : ConcreteHandshake → HandshakeResult
  | clientPk _ _ _ => failed
  | serverPk binding _ =>
      match makeAuth c binding true with
      | .error _ => failed
      | .ok msg => ofSaved .inProgress msg.save
  | clientSs secretId binding =>
      orFailed ((makeAuthSs c secretId binding).map (⟨.inProgress, ·⟩))
  | serverSs _ _ => ⟨.inProgress, []⟩

/-- `handle_packet`. -/
def handlePacket (packet : Octets) : ConcreteHandshake → HandshakeResult × ConcreteHandshake
  | clientPk data remoteKey true => (receiveAck packet, clientPk data remoteKey true)
  | clientPk data remoteKey false =>
      match verifyServer c data packet with
      | .ok (some key) => (replyToServer c data, clientPk data (some key) true)
      | _ => (failed, clientPk data remoteKey false)
  | serverPk binding remoteKey =>
      match Auth.load packet with
      | .error _ => (failed, serverPk binding remoteKey)
      | .ok ⟨none⟩ =>
          if c.authenticateRemote then (failed, serverPk binding remoteKey)
          else (sendAck, serverPk binding remoteKey)
      | .ok ⟨some creds⟩ =>
          if verifyCredentials c creds binding none = .ok true then
            (sendAck, serverPk binding (some creds.key))
          else (failed, serverPk binding remoteKey)
  | clientSs secretId binding =>
      (clientSsPacket c secretId binding packet, clientSs secretId binding)
  | serverSs secretId binding => (serverSsPacket c binding packet, serverSs secretId binding)

end ConcreteHandshake

/-! ## The driver -/

structure Handshake where
  role : EndpointRole
  requested : HandshakeData
  clientId : Octets
  serverId : Octets
  clientHelloSent : Bool
  handshake : Option ConcreteHandshake

namespace Handshake

/-- The constructor. -/
def init (role : EndpointRole) : Handshake :=
  ⟨role, .ofTag (.cast int 0), [], [], false, none⟩

/-- `remote_public_key`. -/
def remotePublicKey (h : Handshake) : Option PublicKey :=
  h.handshake.bind ConcreteHandshake.remotePublicKey

/-- `derive_binding`. -/
def deriveBinding (h : Handshake) (exporter : Exporter) : Except HandshakeError HandshakeBinding :=
  match bindingOf exporter h.role h.clientId h.serverId,
      bindingOf exporter h.role.other h.clientId h.serverId with
  | some own, some remote => .ok ⟨own, remote⟩
  | _, _ => .error .botan

/-- `make_concrete`, for the caller to go on with. -/
def makeConcrete (h : Handshake) (c : Context) (exporter : Exporter) :
    Except HandshakeError ConcreteHandshake × Handshake :=
  match h.deriveBinding exporter with
  | .error e => (.error e, h)
  | .ok binding =>
      let h := { h with requested := { h.requested with binding := binding, role := h.role } }
      match c.constructHandshake h.requested with
      | .error e => (.error e, h)
      | .ok concrete => (.ok concrete, { h with handshake := some concrete })

/-- `start`, with the id that is drawn. -/
def start (h : Handshake) (c : Context) (random : Octets) (data : HandshakeData) :
    Except Serialisation.Error (HandshakeResult × Handshake) := do
  let hello : ClientHello := ⟨currentVersion, c.suite, data.tag, random⟩
  let packet ← hello.save
  return (⟨.inProgress, packet⟩,
    { h with requested := data, clientHelloSent := true, clientId := random })

variable [MacPrimitive] (c : Context) (exporter : Exporter)

/-- `handle_client_hello`, with the id that is drawn. -/
def handleClientHello (h : Handshake) (random packet : Octets) : HandshakeResult × Handshake :=
  match ClientHello.load packet with
  | .error _ => (failed, h)
  | .ok hello =>
      if hello.version ≠ currentVersion then (failed, h)
      else if hello.suite ≠ c.suite then (failed, h)
      else
        let h := { h with
          clientId := hello.clientId
          serverId := random
          requested := .ofTag hello.handshakeRequest }
        match h.makeConcrete c exporter with
        | (.error _, h) => (failed, h)
        | (.ok concrete, h) =>
            let first := concrete.start c
            if first.state = .error then (failed, h)
            else
              let reply : ServerHello :=
                ⟨currentVersion, c.suite, hello.handshakeRequest, random, first.packet⟩
              (ofSaved .inProgress reply.save, h)

/-- `handle_server_hello`. -/
def handleServerHello (h : Handshake) (packet : Octets) : HandshakeResult × Handshake :=
  match ServerHello.load packet with
  | .error _ => (failed, h)
  | .ok hello =>
      if hello.version ≠ currentVersion then (failed, h)
      else if hello.handshakeResponse ≠ h.requested.tag ∨ hello.suite ≠ c.suite then (failed, h)
      else
        let h := { h with serverId := hello.serverId }
        match h.makeConcrete c exporter with
        | (.error _, h) => (failed, h)
        | (.ok concrete, h) =>
            if hello.serverAuth ≠ [] then
              let r := concrete.handlePacket c hello.serverAuth
              (r.1, { h with handshake := some r.2 })
            else (concrete.start c, h)

/-- `handle_packet`; `random` is the id that a server draws. -/
def handlePacket (h : Handshake) (random packet : Octets) : HandshakeResult × Handshake :=
  if h.clientHelloSent then handleServerHello c exporter { h with clientHelloSent := false } packet
  else
    match h.handshake with
    | none => handleClientHello c exporter h random packet
    | some concrete =>
        let r := concrete.handlePacket c packet
        (r.1, { h with handshake := some r.2 })

end Handshake

/-! ## Runs -/

/-- A handshake with its results so far. -/
structure HandshakeRun where
  handshake : Handshake
  results : List HandshakeResult

/-- A packet of the peer, and the id that a server draws for it. -/
structure PeerPacket where
  random : Octets
  packet : Octets

/-- No result is an error yet. -/
def HandshakeRun.isLive (s : HandshakeRun) : Prop := ∀ r ∈ s.results, r.state ≠ .error

instance (s : HandshakeRun) : Decidable s.isLive :=
  inferInstanceAs (Decidable (∀ r ∈ s.results, r.state ≠ .error))

/-- A packet is handled, as long as `advance_handshake` goes on: an error ends it. -/
def HandshakeRun.step [MacPrimitive] (c : Context) (exporter : Exporter) (p : PeerPacket)
    (s : HandshakeRun) : Option HandshakeRun :=
  if s.isLive then
    let r := s.handshake.handlePacket c exporter p.random p.packet
    some ⟨r.2, s.results ++ [r.1]⟩
  else none

end Securepath.Network
