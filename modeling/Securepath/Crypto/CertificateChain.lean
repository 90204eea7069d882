import Securepath.Crypto.Objects

/-!
# Certificate chains

`certificate_chain` (`crypto/certificate_chain.cpp`): a chain is validated as a
whole by `is_authentic` and link by link by `add_link`. `Leads` is what both
have to agree on: the conditions of every link in the state that the links
before it have led to.
-/

namespace Securepath.Crypto

open Serialisation

/-! ## Key certificates -/

/-- `key_cert_restriction`. -/
structure KeyCertRestriction where
  hostname : Octets
deriving DecidableEq

/-- `std::tolower`. -/
def lowerOctet (c : UInt8) : UInt8 := if 0x41 ≤ c ∧ c ≤ 0x5a then c + 0x20 else c

/-- `to_lower`. -/
def toLower (s : Octets) : Octets := s.map lowerOctet

/-- `other_host_sub` of `is_subset_of`: what the name of a sub-domain ends with. -/
def subDomainSuffix (host : Octets) : Octets :=
  if host.head? = some 0x2e then host else 0x2e :: host

namespace KeyCertRestriction

/-- The default restriction, which restricts nothing. -/
def none : KeyCertRestriction := ⟨[]⟩

/-- `has_hostname`. -/
def hasHostname (r : KeyCertRestriction) : Bool := r.hostname ≠ []

/-- `is_subset_of`. -/
def isSubsetOf (r other : KeyCertRestriction) : Bool :=
  if other.hasHostname then
    toLower r.hostname = toLower other.hostname ||
      (subDomainSuffix (toLower other.hostname)).isSuffixOf (toLower r.hostname)
  else
    true

/-- `merge`. -/
def merge (rest₁ rest₂ : KeyCertRestriction) : Except Error KeyCertRestriction :=
  if rest₁.isSubsetOf rest₂ then .ok rest₁
  else if rest₂.isSubsetOf rest₁ then .ok rest₂
  else .error (.failed .invalidOperation)

end KeyCertRestriction

/-- `key_certificate_data`, but for the metadata. -/
structure KeyCertificateData where
  subject : Octets
  caLevel : FixedInt uint16
  restrictions : KeyCertRestriction

namespace KeyCertificateData

/-- `key_certificate_data::id`. -/
def typeId : FixedInt int := .cast int 1

def schema : Schema .type :=
  .struct [.prim (.int int), idSchema, .prim (.int uint16), .struct [.prim .string, .trailing],
    .prim .octets, .trailing]

def ofVal (v : schema.Val) : KeyCertificateData where
  subject := v.2.1.1
  caLevel := v.2.2.1
  restrictions := ⟨v.2.2.2.1.1⟩

end KeyCertificateData

/-- `extract<key_certificate_data>`; the type has no set that would need an
order. -/
def Certificate.extract (c : Certificate) : Except Error KeyCertificateData :=
  if c.certificateType = KeyCertificateData.typeId then
    match @asnDerDeserialise .unordered KeyCertificateData.schema c.certificateData.val with
    | .ok v => .ok (.ofVal v)
    | .error e => .error (.serialisation e)
  else
    .error .invalidCertType

variable [Primitives]

/-! ## Stores -/

/-- `certificate_access`, as far as it is asked here. -/
structure CertificateAccess where
  find : CertificateId → Option Certificate

/-- `public_key_access`, as far as it is asked here. A root key has the id that
was asked for, and `set_root_public_key` refuses an invalid one. -/
structure PublicKeyAccess where
  find : PublicKeyId → Option PublicKey
  findRootKey : PublicKeyId → Option PublicKey
  root_spec : ∀ id key, findRootKey id = some key → key.id = id ∧ key.content.isValid = true

/-- The default `find_root_key`, with the key of `set_root_public_key`. -/
def PublicKeyAccess.ofRoot (find : PublicKeyId → Option PublicKey)
    (root : Option { key : PublicKey // key.content.isValid = true }) : PublicKeyAccess where
  find := find
  findRootKey id := root.bind fun key => if id = key.val.id then some key.val else none
  root_spec := by
    intro id key h
    rw [Option.bind_eq_some_iff] at h
    rcases h with ⟨root, -, h⟩
    split at h
    · rename_i hid
      obtain rfl := Option.some.inj h
      exact ⟨hid.symm, root.property⟩
    · cases h

/-! ## One link -/

/-- `key_cert_pair`. -/
structure KeyCertPair where
  subject : PublicKey
  cert : Certificate

/-- `chain_verify`, without the store: the key that has to have signed the next
certificate, with its level and restriction. -/
structure ChainVerify where
  previous : PublicKey
  previousCaLevel : Int
  previousRestriction : KeyCertRestriction

/-- `std::numeric_limits<int>::max()`. -/
def intMax : Int := 2147483647

/-- At the root key. -/
def ChainVerify.ofRoot (root : PublicKey) : ChainVerify := ⟨root, intMax, .none⟩

/-- `check_link_certificate`. -/
def checkLinkCertificate (key : PublicKey) (cert : Certificate) (previousKey : PublicKey) :
    Option Errc :=
  if !cert.isAuthentic previousKey then some .invalidCertificate
  else if !key.verifyMe then some .invalidPublicKey
  else if cert.certificateType ≠ KeyCertificateData.typeId then some .invalidCertificate
  else if previousKey.id ≠ cert.issuer then some .invalidData
  else none

/-- `check_link_data`; what it makes of `check_data` counts only without an error. -/
def checkLinkData (key : PublicKey) (cert : Certificate) (keyCert : KeyCertificateData)
    (caLevel : Int) (restriction : KeyCertRestriction) : Option Errc :=
  if keyCert.subject ≠ key.id.val then some .invalidData
  else if !key.referencesCertificate cert.id then some .invalidData
  else if caLevel ≤ keyCert.caLevel.val then some .invalidCertificateChainCaLevel
  else if !keyCert.restrictions.isSubsetOf restriction then some .invalidData
  else none

/-- `check_link` in the state `v`: an error, or the state behind the link. -/
def checkLink (v : ChainVerify) (key : PublicKey) (cert : Certificate) :
    Except Error (Except Errc ChainVerify) :=
  match checkLinkCertificate key cert v.previous with
  | some err => .ok (.error err)
  | none =>
      match cert.extract with
      | .error e => .error e
      | .ok keyCert =>
          match checkLinkData key cert keyCert v.previousCaLevel v.previousRestriction with
          | some err => .ok (.error err)
          | none => .ok (.ok ⟨key, keyCert.caLevel.val, keyCert.restrictions⟩)

namespace ChainVerify

/-- `is_revoked_in_store`. -/
def isRevokedInStore (certs : CertificateAccess) (previous : PublicKey) (cert : Certificate) :
    Bool :=
  match certs.find cert.id with
  | none => false
  | some stored => stored.isRevoked previous

/-- `check_chain_element`: the state behind the element, or none. -/
def checkChainElement (certs : CertificateAccess) (v : ChainVerify) (elem : KeyCertPair) :
    Except Error (Option ChainVerify) :=
  match checkLink v elem.subject elem.cert with
  | .error e => .error e
  | .ok (.error _) => .ok none
  | .ok (.ok v') => .ok (if isRevokedInStore certs v.previous elem.cert then none else some v')

/-- The loop of `is_authentic`. -/
def checkChain (certs : CertificateAccess) : List KeyCertPair → ChainVerify → Except Error Bool
  | [], _ => .ok true
  | elem :: elems, v =>
      match v.checkChainElement certs elem with
      | .error e => .error e
      | .ok none => .ok false
      | .ok (some v') => checkChain certs elems v'

end ChainVerify

/-! ## Chains -/

/-- `max_chain_length`. -/
def maxChainLength : Nat := 16

structure CertificateChain where
  rootKeyId : PublicKeyId
  chain : List KeyCertPair

namespace CertificateChain

/-- The default constructor. -/
def empty : CertificateChain := ⟨⟨[], by simp⟩, []⟩

/-- `is_valid`. -/
def isValid (c : CertificateChain) : Bool := c.chain ≠ [] ∧ c.rootKeyId.val ≠ []

/-- `is_authentic`. -/
def isAuthentic (keys : PublicKeyAccess) (certs : CertificateAccess) (c : CertificateChain) :
    Except Error Bool :=
  if maxChainLength < c.chain.length then .ok false
  else if !c.isValid then .ok false
  else
    match keys.findRootKey c.rootKeyId with
    | none => .ok false
    | some root => ChainVerify.checkChain certs c.chain (.ofRoot root)

/-- `subject`, `subject_ca_level` and `subject_restrictions`: the state that the
next link is checked in. -/
def subjectState (c : CertificateChain) : Except Error ChainVerify :=
  if !c.isValid then .error (.failed .invalidCertificateChain)
  else
    match c.chain.getLast? with
    | none => .error (.failed .invalidCertificateChain)
    | some last =>
        match last.cert.extract with
        | .error e => .error e
        | .ok keyCert => .ok ⟨last.subject, keyCert.caLevel.val, keyCert.restrictions⟩

/-- The chain behind a throw or a return. -/
abbrev Update := EStateM Error CertificateChain Unit

/-- `push_back`. -/
def pushBack (key : PublicKey) (cert : Certificate) : Update :=
  modify fun c => { c with chain := c.chain ++ [⟨key, cert⟩] }

/-- `check_link`, with its error thrown. -/
def checkedLink (v : ChainVerify) (key : PublicKey) (cert : Certificate) : Update :=
  match checkLink v key cert with
  | .error e => throw e
  | .ok (.error err) => throw (.failed err)
  | .ok (.ok _) => pure ()

/-- `add_link(key, cert)`. -/
def addLink (key : PublicKey) (cert : Certificate) : Update := do
  let c ← get
  if c.chain = [] then throw (.failed .noSuchRootKey)
  match c.subjectState with
  | .error e => throw e
  | .ok v =>
      checkedLink v key cert
      pushBack key cert

end CertificateChain

end Securepath.Crypto
