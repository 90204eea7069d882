import Securepath.Serialisation.Injectivity

/-!
# Keys, signatures and certificates

The signed objects of `crypto/` (`public_key_impl`, `signature`, `certificate`,
`certificate_revocation`, `key_certificate_data`), how they are serialised, what
is signed of them and what verifies.

A string of an object is a `Text`: at most `max_structure_size` octets. Longer
ones are refused by the encoder and by the decoder, so an object that has one
can neither be signed, nor verified, nor saved, nor loaded.
-/

namespace Securepath.Crypto

open Serialisation

/-- Octets that can be written as one primitive element. -/
abbrev Text := { o : Octets // o.length ≤ maxStructureSize }

theorem nil_length_le : ([] : Octets).length ≤ maxStructureSize := Nat.zero_le _

/-- The digest of the samples is as long as one. -/
theorem sevens_length : (List.replicate 32 (7 : UInt8)).length = 32 := List.length_replicate

/-- The 32 octets that SHA3-256 gives. -/
abbrev Digest := { o : Octets // o.length = 32 }

/-! ## Errors -/

/-- `errc`. -/
inductive Errc where
  | noSuchRootKey
  | invalidCertificateChain
  | invalidCertificateChainCaLevel
  | invalidData
  | invalidOperation
  | invalidPublicKey
  | invalidCertificate
deriving DecidableEq, Repr

/-- What the functions of `crypto/` throw. -/
inductive Error where
  | serialisation (e : Serialisation.Error)
  | invalidContext (what : String)
  | invalidCertType
  | failed (code : Errc)
  /-- an exception of the database -/
  | database
deriving DecidableEq, Repr

/-! ## Suites and primitives -/

/-- `suite`. -/
inductive Suite where
  | pq1
  | pq1High
deriving DecidableEq, Repr

def int : IntType := ⟨true, .w32⟩
def uint32 : IntType := ⟨false, .w32⟩
def uint16 : IntType := ⟨false, .w16⟩

/-- The value of a suite on the wire. -/
def Suite.wire : Suite → FixedInt uint16
  | .pq1 => .cast uint16 1
  | .pq1High => .cast uint16 2

/-- `suite_parameters`: the sizes of the public halves. -/
structure SuiteParameters where
  xKeySize : Nat
  sigPublicSize : Nat
  kemPublicSize : Nat

/-- `parameters`. -/
def Suite.parameters : Suite → SuiteParameters
  | .pq1 => ⟨32, 1952, 1184⟩
  | .pq1High => ⟨56, 2592, 1568⟩

/-- What Botan implements. -/
class Primitives where
  sha3_256 : Octets → Digest
  /-- `verify_message` of a verifier for the key: message and signature -/
  verifyMessage : Suite → Octets → Octets → Octets → Bool

export Primitives (sha3_256 verifyMessage)

/-- A digest as an id. -/
def Digest.text (d : Digest) : Text := ⟨d.val, by simp [d.property, maxStructureSize]⟩

/-! ## Framing -/

/-- "SPSIG" -/
def framePrefix : Octets := [0x53, 0x50, 0x53, 0x49, 0x47]

/-- `frame_message`. -/
def frameMessage (context message : Octets) : Except Error Octets :=
  if 255 < context.length then
    .error (.invalidContext "signature context longer than 255 octets")
  else
    .ok (framePrefix ++ [UInt8.ofNat context.length] ++ context ++ message)

/-- "sp-key" -/
def selfSignatureContext : Octets := [0x73, 0x70, 0x2d, 0x6b, 0x65, 0x79]

/-- "sp-cert" -/
def certificateContext : Octets := [0x73, 0x70, 0x2d, 0x63, 0x65, 0x72, 0x74]

/-- "sp-revocation" -/
def revocationContext : Octets :=
  [0x73, 0x70, 0x2d, 0x72, 0x65, 0x76, 0x6f, 0x63, 0x61, 0x74, 0x69, 0x6f, 0x6e]

/-! ## Serialised objects -/

abbrev PublicKeyId := Text
abbrev CertificateId := Text

/-- `asn_der_serialise` of an object whose strings are all `Text`. -/
def serialised (T : Schema .type) (v : T.Val) : Octets :=
  match asnDerSerialise T v with
  | .ok b => b
  | .error _ => []

/-- `public_key_id` and `certificate_id`. -/
def idSchema : Schema .type := .struct [.prim .octets]

/-- The schema and its value are written member by member, as `serialise` of the
class lists them. -/
structure Signature where
  version : FixedInt uint32
  issuer : PublicKeyId
  data : Text
deriving DecidableEq

namespace Signature

def schema : Schema .type := .struct [.prim (.int uint32), idSchema, .prim .octets]

def val (s : Signature) : schema.Val := (s.version, (s.issuer.val, ()), s.data.val, ())

/-- `is_valid`. -/
def isValid (s : Signature) : Bool := s.data.val ≠ []

end Signature

structure CertificateRevocation where
  version : FixedInt int
  cid : CertificateId
  sig : Signature
  trailing : Octets
deriving DecidableEq

namespace CertificateRevocation

def schema : Schema .type := .struct [.prim (.int int), idSchema, Signature.schema, .trailing]

def val (r : CertificateRevocation) : schema.Val :=
  (r.version, (r.cid.val, ()), r.sig.val, r.trailing, ())

def sigSchema : Schema .type := .struct [.prim (.int int), idSchema, .trailing]

/-- `make_sig_data`. -/
def makeSigData (r : CertificateRevocation) : Octets :=
  serialised sigSchema (r.version, (r.cid.val, ()), r.trailing, ())

end CertificateRevocation

structure Certificate where
  version : FixedInt int
  certificateType : FixedInt int
  certificateData : Text
  sig : Signature
  revocation : Option CertificateRevocation
  trailing : Octets
deriving DecidableEq

namespace Certificate

def schema : Schema .type :=
  .struct [.prim (.int int), .prim (.int int), .prim .octets, Signature.schema,
    .optional CertificateRevocation.schema, .trailing]

def val (c : Certificate) : schema.Val :=
  (c.version, c.certificateType, c.certificateData.val, c.sig.val,
    c.revocation.map CertificateRevocation.val, c.trailing, ())

def sigSchema : Schema .type :=
  .struct [.prim (.int int), .prim (.int int), .prim .octets, .trailing]

/-- `make_sig_data`. -/
def makeSigData (c : Certificate) : Octets :=
  serialised sigSchema (c.version, c.certificateType, c.certificateData.val, c.trailing, ())

def issuer (c : Certificate) : PublicKeyId := c.sig.issuer

/-- `id`: it depends on the signature only. -/
def id [Primitives] (c : Certificate) : CertificateId :=
  (sha3_256 (serialised Signature.schema c.sig.val)).text

end Certificate

/-! ## Public keys -/

/-- `std::set<certificate_id>`: without duplicates, in the order of the octets. -/
structure CertificateIds where
  ids : List CertificateId
  sorted : ids.Pairwise fun a b => a.val < b.val
deriving DecidableEq

theorem CertificateIds.nil_sorted :
    ([] : List CertificateId).Pairwise fun a b => a.val < b.val := .nil

/-- `public_key_impl`, but for the id. -/
structure KeyContent where
  version : FixedInt uint16
  suite : Suite
  sigPk : Text
  kemXPk : Text
  kemPqPk : Text
  certificateIds : CertificateIds
  sig : Signature
  trailing : Octets
deriving DecidableEq

namespace KeyContent

/-- `id_content`. -/
def idContentSchema : Schema .type :=
  .struct [.prim (.int uint16), .prim .octets, .prim .octets, .prim .octets]

/-- What `construct_id` hashes. -/
def idContent (k : KeyContent) : Octets :=
  serialised idContentSchema (k.suite.wire, k.sigPk.val, k.kemXPk.val, k.kemPqPk.val, ())

/-- `construct_id`. -/
def constructId [Primitives] (k : KeyContent) : PublicKeyId := (sha3_256 k.idContent).text

def signatureSchema : Schema .type :=
  .struct [.prim (.int uint16), .prim (.int uint16), .prim .octets, .prim .octets, .prim .octets,
    .container .set idSchema, .trailing]

/-- `signature_content`. -/
def signatureContent (k : KeyContent) : Octets :=
  serialised signatureSchema (k.version, k.suite.wire, k.sigPk.val, k.kemXPk.val, k.kemPqPk.val,
    k.certificateIds.ids.map fun id => (id.val, ()), k.trailing, ())

/-- `is_valid`. -/
def isValid (k : KeyContent) : Bool :=
  k.sigPk.val.length = k.suite.parameters.sigPublicSize ∧
    k.kemXPk.val.length = k.suite.parameters.xKeySize ∧
    k.kemPqPk.val.length = k.suite.parameters.kemPublicSize

/-- `verify_framed`. -/
def verifyFramed [Primitives] (k : KeyContent) (framed sig : Octets) : Bool :=
  k.isValid && verifyMessage k.suite k.sigPk.val framed sig

end KeyContent

/-- `public_key`. The id is made by the constructor and by `serialise`; a key
without material, made by the default constructor, has none. -/
structure PublicKey [Primitives] where
  content : KeyContent
  id : PublicKeyId
  id_eq : content.isValid = true → id = content.constructId

variable [Primitives]

namespace PublicKey

/-- `verify`, for a context of at most 255 octets. -/
def verify (k : PublicKey) (sig : Signature) (data context : Octets) : Bool :=
  match frameMessage context data with
  | .ok framed => k.content.verifyFramed framed sig.data.val
  | .error _ => false

/-- `verify_me`. -/
def verifyMe (k : PublicKey) : Bool :=
  k.verify k.content.sig k.content.signatureContent selfSignatureContext &&
    k.content.constructId = k.id

/-- `references_certificate`. -/
def referencesCertificate (k : PublicKey) (id : CertificateId) : Bool :=
  id ∈ k.content.certificateIds.ids

end PublicKey

/-! ## Verifying certificates -/

/-- `verify_me`. -/
def CertificateRevocation.verifyMe (r : CertificateRevocation) (key : PublicKey) : Bool :=
  key.verify r.sig r.makeSigData revocationContext

namespace Certificate

/-- `verify_me`. -/
def verifyMe (c : Certificate) (key : PublicKey) : Bool :=
  key.verify c.sig c.makeSigData certificateContext

/-- `is_revoked`: only a revocation of this certificate by its issuer counts. -/
def isRevoked (c : Certificate) (key : PublicKey) : Bool :=
  match c.revocation with
  | none => false
  | some r => c.sig.isValid && r.cid = c.id && r.verifyMe key

/-- `is_authentic`. -/
def isAuthentic (c : Certificate) (key : PublicKey) : Bool := c.verifyMe key && !c.isRevoked key

end Certificate

/-! ## What is serialised -/

section Serialised

omit [Primitives]

/-- Nothing is thrown for an object whose strings are `Text`. -/
theorem asnDerSerialise_eq_serialised {T : Schema .type} {v : T.Val} (h : T.Savable v) :
    asnDerSerialise T v = .ok (serialised T v) := by
  obtain ⟨b, hb⟩ := Schema.asnDerSerialise_of_savable h
  rw [serialised, hb]

theorem serialised_inj {T : Schema .type} (hT : T.Delimits true) {v w : T.Val} (hv : T.Savable v)
    (hw : T.Savable w) (heq : serialised T v = serialised T w)
    (hlen : (serialised T v).length < 2 ^ 64) : v = w :=
  Schema.asnDerSerialise_inj hT (asnDerSerialise_eq_serialised hv)
    (heq ▸ asnDerSerialise_eq_serialised hw) hlen

theorem savable_id (id : Text) : idSchema.Savable (id.val, ()) :=
  ⟨Schema.savable_octets id.property, trivial⟩

theorem Signature.savable (s : Signature) : Signature.schema.Savable s.val :=
  ⟨Schema.savable_int _, savable_id s.issuer, Schema.savable_octets s.data.property, trivial⟩

theorem CertificateRevocation.savable (r : CertificateRevocation) :
    CertificateRevocation.schema.Savable r.val :=
  ⟨Schema.savable_int _, savable_id r.cid, r.sig.savable, trivial, trivial⟩

theorem Certificate.savable (c : Certificate) : Certificate.schema.Savable c.val := by
  refine ⟨Schema.savable_int _, Schema.savable_int _, Schema.savable_octets c.certificateData.property,
    c.sig.savable, ?_, trivial, trivial⟩
  intro v hv
  simp only [Certificate.val, Option.mem_def, Option.map_eq_some_iff] at hv
  rcases hv with ⟨r, -, rfl⟩
  exact r.savable

end Serialised

end Securepath.Crypto
