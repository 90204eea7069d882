import Securepath.Crypto.ChainBuilder
import Securepath.Network.Handshake
import Securepath.Serialisation.AbsentOptional

/-!
# The key infrastructure

`pki` and `install_identity` (`infrastructure/keygen/pki.cpp`): a root key certifies the key of
an authority, which certifies the keys of hosts. An identity that is installed is accepted in
the handshake (`pk_handshake.cpp`) by everyone who has the root key, unless one of its
certificates is revoked or another host is required.

Keys and signatures are values here; in the source copies of a key share their material, so
that an earlier copy sees the certificate that is added to a later one.
-/

namespace Securepath.Keygen

open Serialisation Crypto Network

/-- What the functions of `keygen` throw. -/
inductive PkiError where
  /-- what `sign` throws -/
  | signer (e : HandshakeError)
  | crypto (e : Crypto.Error)
  | serialisation (e : Serialisation.Error)
  | invalidKey
deriving DecidableEq, Repr

/-! ## Certificate ids -/

/-- The ids with one more, in their order. -/
def insertId (id : CertificateId) (ids : List CertificateId) : List CertificateId :=
  ids.filter (fun x => x.val < id.val) ++ id :: ids.filter (fun x => id.val < x.val)

theorem insertId_sorted (id : CertificateId) {ids : List CertificateId}
    (h : ids.Pairwise fun a b => a.val < b.val) :
    (insertId id ids).Pairwise fun a b => a.val < b.val := by
  refine List.pairwise_append.mpr ⟨h.filter _, List.pairwise_cons.mpr ⟨?_, h.filter _⟩, ?_⟩
  · intro x hx
    exact of_decide_eq_true (List.mem_filter.mp hx).2
  · intro x hx y hy
    have hlt : x.val < id.val := of_decide_eq_true (List.mem_filter.mp hx).2
    obtain rfl | hy := List.mem_cons.mp hy
    · exact hlt
    · exact List.lt_trans hlt (of_decide_eq_true (List.mem_filter.mp hy).2)

section Keys

variable [Primitives]

/-- `add_certificate_id`. -/
def addCertificateId (key : PublicKey) (id : CertificateId) : PublicKey where
  content := { key.content with
    certificateIds := ⟨insertId id key.content.certificateIds.ids,
      insertId_sorted id key.content.certificateIds.sorted⟩ }
  id := key.id
  id_eq := key.id_eq

/-- The key with another signature. -/
def withSignature (key : PublicKey) (sig : Signature) : PublicKey where
  content := { key.content with sig := sig }
  id := key.id
  id_eq := key.id_eq

/-- `set_public_key`. -/
def setPublicKey (sk : PrivateKey) (key : PublicKey) : Except PkiError PrivateKey :=
  if key.id ≠ sk.publicKey.id then .error .invalidKey
  else
    match sk.sign key.content.signatureContent selfSignatureContext with
    | .error e => .error (.signer e)
    | .ok sig => .ok { sk with publicKey := withSignature key sig }

/-! ## Certificates -/

/-- `key_certificate_data`, as its constructor makes it. -/
def keyCertificateVal (id : PublicKeyId) (ca : FixedInt uint16) (rest : KeyCertRestriction) :
    KeyCertificateData.schema.Val :=
  (.cast int 1, (id.val, ()), ca, (rest.hostname, [], ()), [], [], ())

/-- A certificate before it is signed. -/
def unsigned (data : Text) : Certificate where
  version := .cast int 1
  certificateType := KeyCertificateData.typeId
  certificateData := data
  sig := ⟨.cast uint32 2, ⟨[], nil_length_le⟩, ⟨[], nil_length_le⟩⟩
  revocation := none
  trailing := []

/-- `create_key_certificate`, without metadata. -/
def createKeyCertificate (key : PrivateKey) (id : PublicKeyId) (ca : FixedInt uint16)
    (rest : KeyCertRestriction) : Except PkiError Certificate :=
  match asnDerSerialise KeyCertificateData.schema (keyCertificateVal id ca rest) with
  | .error e => .error (.serialisation e)
  | .ok data =>
      if h : data.length ≤ maxStructureSize then
        match key.sign (unsigned ⟨data, h⟩).makeSigData certificateContext with
        | .error e => .error (.signer e)
        | .ok sig => .ok { unsigned ⟨data, h⟩ with sig := sig }
      else .error (.serialisation .stringTooLarge)

/-- `certify_key`. -/
def certifyKey (issuer subject : PrivateKey) (ca : FixedInt uint16) (rest : KeyCertRestriction) :
    Except PkiError (Certificate × PrivateKey) :=
  match createKeyCertificate issuer subject.publicKey.id ca rest with
  | .error e => .error e
  | .ok cert =>
      match setPublicKey subject (addCertificateId subject.publicKey cert.id) with
      | .error e => .error e
      | .ok subject => .ok (cert, subject)

/-! ## The infrastructure -/

/-- `pki`. -/
structure Pki where
  root : PrivateKey
  ca : PrivateKey
  caCert : Certificate

namespace Pki

/-- `create`, with the keys that are generated. -/
def create (root ca : PrivateKey) : Except PkiError Pki :=
  match certifyKey root ca (.cast uint16 1) .none with
  | .error e => .error e
  | .ok (caCert, ca) =>
      -- `set_root_public_key` refuses an invalid key
      if root.publicKey.content.isValid then .ok ⟨root, ca, caCert⟩ else .error .invalidKey

/-- `ca_chain_`. -/
def caChain (p : Pki) : CertificateChain := ⟨p.root.publicKey.id, [⟨p.ca.publicKey, p.caCert⟩]⟩

/-- `certify`: the chain, and the key with the certificate. -/
def certify (p : Pki) (key : PrivateKey) (host : Octets) :
    Except PkiError (CertificateChain × PrivateKey) :=
  match certifyKey p.ca key (.cast uint16 0) ⟨host⟩ with
  | .error e => .error e
  | .ok (cert, key) =>
      match CertificateChain.addLink key.publicKey cert p.caChain with
      | .ok _ chain => .ok (chain, key)
      | .error e _ => .error (.crypto e)

/-- `install_identity`, with the key that is generated. -/
def installIdentity (p : Pki) (key : PrivateKey) (host : Octets) : Except PkiError PrivateData :=
  match p.certify key host with
  | .error e => .error e
  | .ok (chain, key) => .ok ⟨some key, some ⟨.cast int 1, chain⟩⟩

end Pki

/-! ## What is certified -/

/-- What the key signs can be verified: the private half belongs to the public one. -/
def Signs (sk : PrivateKey) : Prop :=
  ∀ framed sig, sk.signFramed framed = .ok sig →
    sk.publicKey.content.verifyFramed framed sig.val = true

variable {issuer subject subject' : PrivateKey} {cert : Certificate} {ca : FixedInt uint16}
  {rest : KeyCertRestriction}

/-- Keys of one material verify the same. -/
theorem verify_congr {k k' : PublicKey}
    (h : ∀ framed sig, k.content.verifyFramed framed sig = k'.content.verifyFramed framed sig)
    (sig : Signature) (data context : Octets) :
    k.verify sig data context = k'.verify sig data context := by
  unfold PublicKey.verify
  cases frameMessage context data with
  | error e => rfl
  | ok framed => exact h framed sig.data.val

/-- Only a valid key verifies anything. -/
theorem isValid_of_verify {k : PublicKey} {sig : Signature} {data context : Octets}
    (h : k.verify sig data context = true) : k.content.isValid = true := by
  unfold PublicKey.verify at h
  cases hframe : frameMessage context data with
  | error e =>
      rw [hframe] at h
      cases h
  | ok framed =>
      rw [hframe] at h
      exact (Bool.and_eq_true_iff.mp h).1

theorem verify_of_sign {sk : PrivateKey} (hsigns : Signs sk) {data context : Octets}
    {sig : Signature} (h : sk.sign data context = .ok sig) :
    sk.publicKey.verify sig data context = true ∧ sig.issuer = sk.publicKey.id := by
  unfold PrivateKey.sign at h
  unfold PublicKey.verify
  cases hframe : frameMessage context data with
  | error e =>
      rw [hframe] at h
      cases h
  | ok framed =>
      rw [hframe] at h
      cases hsign : sk.signFramed framed with
      | error e =>
          simp only [hsign] at h
          cases h
      | ok text =>
          simp only [hsign] at h
          obtain rfl := Except.ok.inj h
          exact ⟨hsigns framed text hsign, rfl⟩

omit [Primitives] in
theorem unambiguous (v : KeyCertificateData.schema.Val) :
    KeyCertificateData.schema.Unambiguous v none ⟨[], .endOfOctets⟩ :=
  ⟨trivial, ⟨trivial, trivial⟩, trivial, ⟨trivial, fun _ => rfl, trivial⟩, trivial,
    fun _ => rfl, trivial⟩

omit [Primitives] in
/-- The data of a certificate come back. -/
theorem asnDerDeserialise_keyCertificate {v : KeyCertificateData.schema.Val} {b : Octets}
    (h : asnDerSerialise KeyCertificateData.schema v = .ok b)
    (hlen : b.length ≤ maxStructureSize) :
    @asnDerDeserialise .unordered KeyCertificateData.schema b = .ok v := by
  let _ : KeyOrder := .unordered
  rw [asnDerSerialise_eq] at h
  obtain ⟨t', henc⟩ : ∃ t', KeyCertificateData.schema.encoding v none = .ok (b, t') := by
    cases henc : KeyCertificateData.schema.encoding v none with
    | error e =>
        rw [henc] at h
        cases h
    | ok r =>
        rw [henc] at h
        cases h
        exact ⟨r.2, rfl⟩
  have hdecides := (Schema.decides KeyCertificateData.schema (n := maxStructureDepth)
    (Schema.selects_type _ v) henc (unambiguous v)).amp
  have hwithin : KeyCertificateData.schema.Within maxStructureDepth v none ⟨[], .endOfOctets⟩ := by
    obtain ⟨content, hc, rfl⟩ := Encoding.sequence_eq_ok.mp henc
    have hle : content.length ≤ maxConstructedSize :=
      (element_length _ true content).trans (hlen.trans (by decide))
    refine ⟨by decide, ?_, Schema.within_of_isPlain _ rfl hc hle (by decide) (by decide)⟩
    rw [Encoding.octets_of_ok hc]
    exact hle
  obtain ⟨w, d, hrun, hsame⟩ := (hdecides.accepts hwithin).ofOctets
  have hrun' : KeyCertificateData.schema.decode (Deserialiser.ofOctets b) = .ok w _ := hrun
  have hexact : KeyCertificateData.schema.Exact v none :=
    ⟨trivial, ⟨trivial, trivial⟩, trivial, ⟨trivial, trivial, trivial⟩, trivial, trivial, trivial⟩
  unfold asnDerDeserialise
  rw [hrun', hsame hexact]

omit [Primitives] in
/-- What `extract` finds in a certificate of these data. -/
theorem extract_of_serialised {id : PublicKeyId} {data : Octets}
    (h : asnDerSerialise KeyCertificateData.schema (keyCertificateVal id ca rest) = .ok data)
    (htype : cert.certificateType = KeyCertificateData.typeId)
    (hdata : cert.certificateData.val = data) : cert.extract = .ok ⟨id.val, ca, rest⟩ := by
  have hlen : data.length ≤ maxStructureSize := by
    rw [← hdata]
    exact cert.certificateData.property
  unfold Certificate.extract
  rw [if_pos htype, hdata, asnDerDeserialise_keyCertificate h hlen]
  rfl

/-- The key that is set has a self signature of now. -/
theorem setPublicKey_spec {sk sk' : PrivateKey} (hsigns : Signs sk) {key : PublicKey}
    (hsame : ∀ framed sig,
      key.content.verifyFramed framed sig = sk.publicKey.content.verifyFramed framed sig)
    (h : setPublicKey sk key = .ok sk') :
    Signs sk' ∧ sk'.publicKey.id = key.id ∧ sk'.publicKey.verifyMe = true ∧
      sk'.publicKey.content.certificateIds = key.content.certificateIds := by
  unfold setPublicKey at h
  split_ifs at h
  cases hsign : sk.sign key.content.signatureContent selfSignatureContext with
  | error e =>
      rw [hsign] at h
      cases h
  | ok sig =>
      rw [hsign] at h
      obtain rfl := Except.ok.inj h
      -- the signature is over nothing that it changes itself
      have hmaterial : ∀ framed text, (withSignature key sig).content.verifyFramed framed text =
          sk.publicKey.content.verifyFramed framed text := hsame
      have hverify : (withSignature key sig).verify sig key.content.signatureContent
          selfSignatureContext = true := by
        rw [verify_congr hmaterial]
        exact (verify_of_sign hsigns hsign).1
      have hid : (withSignature key sig).content.constructId = key.id :=
        ((withSignature key sig).id_eq (isValid_of_verify hverify)).symm
      refine ⟨?_, rfl, ?_, rfl⟩
      · intro framed text htext
        exact (hsame framed text.val).trans (hsigns framed text htext)
      · show ((withSignature key sig).verify sig key.content.signatureContent
          selfSignatureContext &&
            decide ((withSignature key sig).content.constructId = key.id)) = true
        rw [hverify, decide_eq_true hid]
        rfl

/-- A key is certified for what was asked for, by the key that signs. -/
theorem createKeyCertificate_spec (hsigns : Signs issuer) {id : PublicKeyId}
    (h : createKeyCertificate issuer id ca rest = .ok cert) :
    cert.verifyMe issuer.publicKey = true ∧ cert.issuer = issuer.publicKey.id ∧
      cert.revocation = none ∧ cert.certificateType = KeyCertificateData.typeId ∧
      cert.extract = .ok ⟨id.val, ca, rest⟩ := by
  unfold createKeyCertificate at h
  cases hdata : asnDerSerialise KeyCertificateData.schema (keyCertificateVal id ca rest) with
  | error e =>
      rw [hdata] at h
      cases h
  | ok data =>
      rw [hdata] at h
      dsimp only at h
      split_ifs at h with hlen
      cases hsign : issuer.sign (unsigned ⟨data, hlen⟩).makeSigData certificateContext with
      | error e =>
          rw [hsign] at h
          cases h
      | ok sig =>
          rw [hsign] at h
          obtain rfl := Except.ok.inj h
          obtain ⟨hverify, hissuer⟩ := verify_of_sign hsigns hsign
          exact ⟨hverify, hissuer, rfl, rfl, extract_of_serialised hdata rfl rfl⟩

omit [Primitives] in
theorem mem_insertId (id : CertificateId) (ids : List CertificateId) : id ∈ insertId id ids :=
  List.mem_append_right _ List.mem_cons_self

/-- Signing does not fail. -/
def SignsAll (sk : PrivateKey) : Prop := ∀ framed, ∃ sig, sk.signFramed framed = .ok sig

theorem sign_of_signsAll {sk : PrivateKey} (h : SignsAll sk) (data : Octets) {context : Octets}
    (hcontext : context.length ≤ 255) : ∃ sig, sk.sign data context = .ok sig := by
  unfold PrivateKey.sign frameMessage
  rw [if_neg (Nat.not_lt.mpr hcontext)]
  obtain ⟨text, htext⟩ := h (framePrefix ++ [UInt8.ofNat context.length] ++ context ++ data)
  refine ⟨⟨.cast uint32 2, sk.publicKey.id, text⟩, ?_⟩
  simp only [htext]
  rfl

/-- A key is certified unless signing fails or the certificate is too large. -/
theorem certifyKey_of_signsAll (hissuer : SignsAll issuer) (hsubject : SignsAll subject)
    {data : Octets} (hdata : asnDerSerialise KeyCertificateData.schema
      (keyCertificateVal subject.publicKey.id ca rest) = .ok data)
    (hlen : data.length ≤ maxStructureSize) :
    ∃ cert subject', certifyKey issuer subject ca rest = .ok (cert, subject') ∧
      SignsAll subject' ∧ subject'.publicKey.id = subject.publicKey.id := by
  obtain ⟨sig, hsig⟩ := sign_of_signsAll hissuer (unsigned ⟨data, hlen⟩).makeSigData
    (show certificateContext.length ≤ 255 by decide)
  obtain ⟨cert, hcert⟩ : ∃ cert,
      createKeyCertificate issuer subject.publicKey.id ca rest = .ok cert := by
    refine ⟨{ unsigned ⟨data, hlen⟩ with sig := sig }, ?_⟩
    unfold createKeyCertificate
    rw [hdata]
    dsimp only
    rw [dif_pos hlen, hsig]
  obtain ⟨own, hown⟩ := sign_of_signsAll hsubject
    (addCertificateId subject.publicKey cert.id).content.signatureContent
    (show selfSignatureContext.length ≤ 255 by decide)
  have hset : setPublicKey subject (addCertificateId subject.publicKey cert.id) =
      .ok ⟨withSignature (addCertificateId subject.publicKey cert.id) own, subject.signFramed⟩ := by
    have hid : (addCertificateId subject.publicKey cert.id).id = subject.publicKey.id := rfl
    unfold setPublicKey
    rw [if_neg (not_not.mpr hid), hown]
  refine ⟨cert, ⟨withSignature (addCertificateId subject.publicKey cert.id) own,
    subject.signFramed⟩, ?_, hsubject, rfl⟩
  unfold certifyKey
  rw [hcert]
  dsimp only
  rw [hset]

/-- Behind the issuer the certified key is a good link. -/
theorem linkCondition_of_certifyKey (hissuer : Signs issuer) (hsubject : Signs subject)
    (h : certifyKey issuer subject ca rest = .ok (cert, subject')) {v : ChainVerify}
    (hprevious : v.previous = issuer.publicKey) (hlevel : ca.val < v.previousCaLevel)
    (hrest : rest.isSubsetOf v.previousRestriction = true) :
    Signs subject' ∧
      LinkCondition v ⟨subject'.publicKey, cert⟩ ⟨subject'.publicKey.id.val, ca, rest⟩ := by
  unfold certifyKey at h
  cases hcert : createKeyCertificate issuer subject.publicKey.id ca rest with
  | error e =>
      rw [hcert] at h
      cases h
  | ok c =>
      rw [hcert] at h
      dsimp only at h
      cases hset : setPublicKey subject (addCertificateId subject.publicKey c.id) with
      | error e =>
          rw [hset] at h
          cases h
      | ok s =>
          rw [hset] at h
          cases h
          obtain ⟨hverify, hissued, hrevocation, htype, hextract⟩ :=
            createKeyCertificate_spec hissuer hcert
          have hsame : ∀ framed sig,
              (addCertificateId subject.publicKey cert.id).content.verifyFramed framed sig =
                subject.publicKey.content.verifyFramed framed sig := fun _ _ => rfl
          obtain ⟨hsigns, hid, hverifyMe, hids⟩ := setPublicKey_spec hsubject hsame hset
          have hid' : subject'.publicKey.id = subject.publicKey.id := hid
          refine ⟨hsigns, ?_, hverifyMe, htype, ?_, ?_, rfl, ?_, hlevel, hrest⟩
          · show (cert.verifyMe v.previous && !cert.isRevoked v.previous) = true
            unfold Certificate.isRevoked
            rw [hprevious, hverify, hrevocation]
            rfl
          · rw [hprevious, hissued]
          · rw [hid']
            exact hextract
          · show decide (cert.id ∈ subject'.publicKey.content.certificateIds.ids) = true
            rw [hids]
            exact decide_eq_true (mem_insertId _ _)

namespace Pki

variable {root authority key key' : PrivateKey} {p : Pki} {host : Octets}
  {chain : CertificateChain}

/-- The state of a chain behind the certificate of the authority. -/
def caState (p : Pki) : ChainVerify := ⟨p.ca.publicKey, 1, .none⟩

/-- What `create` has made. -/
theorem create_spec (hroot : Signs root) (hauthority : Signs authority)
    (h : create root authority = .ok p) :
    p.root = root ∧ Signs p.ca ∧ Leads p.caState (.ofRoot root.publicKey) p.caChain.chain ∧
      p.caChain.isValid = true := by
  unfold create at h
  cases hcertify : certifyKey root authority (.cast uint16 1) .none with
  | error e =>
      rw [hcertify] at h
      cases h
  | ok r =>
      obtain ⟨caCert, ca⟩ := r
      rw [hcertify] at h
      dsimp only at h
      split_ifs at h with hvalid
      obtain rfl := Except.ok.inj h
      obtain ⟨hsigns, hlink⟩ := linkCondition_of_certifyKey hroot hauthority hcertify
        (v := .ofRoot root.publicKey) rfl (show (1 : Int) < intMax by decide)
        (KeyCertRestriction.isSubsetOf_none _)
      refine ⟨rfl, hsigns, ⟨_, hlink, rfl⟩, ?_⟩
      -- an id is a digest
      have hid : root.publicKey.id.val.length = 32 := by
        rw [root.publicKey.id_eq hvalid]
        exact (sha3_256 _).property
      refine decide_eq_true ⟨List.cons_ne_nil _ _, fun hnil => ?_⟩
      rw [show root.publicKey.id.val = [] from hnil] at hid
      cases hid

/-- A host that is certified is a good link behind the authority, so that `add_link` takes it. -/
theorem certify_of_certifyKey (hroot : Signs root) (hauthority : Signs authority)
    (hkey : Signs key) (hp : create root authority = .ok p)
    (h : certifyKey p.ca key (.cast uint16 0) ⟨host⟩ = .ok (cert, key')) :
    p.certify key host = .ok (p.caChain.extend key'.publicKey cert, key') ∧
      ∃ keyCert, keyCert.restrictions = ⟨host⟩ ∧
        LinkCondition p.caState ⟨key'.publicKey, cert⟩ keyCert := by
  obtain ⟨-, hca, hleads, hvalid⟩ := create_spec hroot hauthority hp
  obtain ⟨-, hlink⟩ := linkCondition_of_certifyKey hca hkey h (v := p.caState) rfl
    (show (0 : Int) < 1 by decide)
    (KeyCertRestriction.isSubsetOf_none _)
  refine ⟨?_, _, rfl, hlink⟩
  have hextended : ∃ u, Leads u (.ofRoot root.publicKey)
      (p.caChain.extend key'.publicKey cert).chain :=
    ⟨_, Leads.append.mpr ⟨p.caState, hleads, _, hlink, rfl⟩⟩
  obtain ⟨c, hc⟩ := (CertificateChain.addLink_iff hvalid hleads).mpr hextended
  obtain ⟨-, rfl⟩ := CertificateChain.addLink_eq_ok hc
  unfold certify
  rw [h]
  dsimp only
  rw [hc]

/-- What is installed: the key is certified, and the chain is that of the authority with it. -/
theorem installIdentity_spec (hroot : Signs root) (hauthority : Signs authority)
    (hkey : Signs key) (hp : create root authority = .ok p) {identity : PrivateData}
    (h : p.installIdentity key host = .ok identity) :
    ∃ key' cert keyCert, identity =
        ⟨some key', some ⟨.cast int 1, p.caChain.extend key'.publicKey cert⟩⟩ ∧
      Signs key' ∧ keyCert.restrictions = ⟨host⟩ ∧
      LinkCondition p.caState ⟨key'.publicKey, cert⟩ keyCert := by
  unfold installIdentity at h
  cases hcertify : certifyKey p.ca key (.cast uint16 0) ⟨host⟩ with
  | error e =>
      unfold certify at h
      rw [hcertify] at h
      cases h
  | ok r =>
      obtain ⟨cert, key'⟩ := r
      obtain ⟨-, hca, -, -⟩ := create_spec hroot hauthority hp
      obtain ⟨hchain, keyCert, hhost, hlink⟩ :=
        certify_of_certifyKey hroot hauthority hkey hp hcertify
      have hsigns : Signs key' := (linkCondition_of_certifyKey hca hkey hcertify
        (v := p.caState) rfl (show (0 : Int) < 1 by decide)
        (KeyCertRestriction.isSubsetOf_none _)).1
      rw [hchain] at h
      exact ⟨key', cert, keyCert, (Except.ok.inj h).symm, hsigns, hhost, hlink⟩

/-- The chain of an identity is authentic for who has the root key, as long as none of its
certificates is revoked there. -/
theorem isAuthentic_extend (hp : p.root = root ∧ Signs p.ca ∧
      Leads p.caState (.ofRoot root.publicKey) p.caChain.chain ∧ p.caChain.isValid = true)
    {subject : PublicKey} {keyCert : KeyCertificateData}
    (hlink : LinkCondition p.caState ⟨subject, cert⟩ keyCert)
    {keys : PublicKeyAccess} {certs : CertificateAccess}
    (hkeys : keys.findRootKey root.publicKey.id = some root.publicKey) :
    (p.caChain.extend subject cert).isAuthentic keys certs = .ok true ↔
      NotRevoked certs root.publicKey (p.caChain.extend subject cert).chain := by
  obtain ⟨rfl, -, hleads, hvalid⟩ := hp
  rw [CertificateChain.isAuthentic_eq_true]
  constructor
  · rintro ⟨-, -, root, hroot, -, hrevoked⟩
    obtain rfl := Option.some.inj (hkeys.symm.trans hroot)
    exact hrevoked
  · intro hrevoked
    refine ⟨show 2 ≤ maxChainLength by decide, ?_, p.root.publicKey, hkeys,
      ⟨_, Leads.append.mpr ⟨p.caState, hleads, keyCert, hlink, rfl⟩⟩, hrevoked⟩
    exact decide_eq_true ⟨List.cons_ne_nil _ _, (of_decide_eq_true hvalid).2⟩

/-- The last link of a chain tells its subject and what that is restricted to. -/
theorem isAuthenticFor_extend {c : CertificateChain} {v : ChainVerify} {subject : PublicKey}
    {keyCert : KeyCertificateData} (hvalid : (c.extend subject cert).isValid = true)
    (hlink : LinkCondition v ⟨subject, cert⟩ keyCert) {keys : PublicKeyAccess}
    {certs : CertificateAccess} (rest : Option KeyCertRestriction) :
    (c.extend subject cert).isAuthenticFor keys certs rest = .ok true ↔
      (c.extend subject cert).isAuthentic keys certs = .ok true ∧
        ∀ r ∈ rest, r.isSubsetOf keyCert.restrictions = true := by
  have hlast : (c.extend subject cert).chain.getLast? = some ⟨subject, cert⟩ :=
    List.getLast?_concat
  have hrestrictions : (c.extend subject cert).subjectRestrictions = .ok keyCert.restrictions := by
    unfold CertificateChain.subjectRestrictions
    simp only [hvalid, hlast, hlink.extracted]
    rfl
  cases rest with
  | none => exact ⟨fun h => ⟨h, nofun⟩, fun h => h.1⟩
  | some r =>
      unfold CertificateChain.isAuthenticFor
      cases hauthentic : (c.extend subject cert).isAuthentic keys certs with
      | error e => exact ⟨nofun, nofun⟩
      | ok b =>
          cases b with
          | false => exact ⟨nofun, nofun⟩
          | true =>
              show (do let restrictions ← (c.extend subject cert).subjectRestrictions
                       return r.isSubsetOf restrictions) = Except.ok true ↔ _
              rw [hrestrictions]
              constructor
              · intro h
                refine ⟨rfl, ?_⟩
                rintro _ ⟨⟩
                exact Except.ok.inj h
              · intro h
                exact congrArg Except.ok (h.2 r rfl)

/-- An identity that is installed is accepted in the handshake by who has the root key, exactly
if none of its certificates is revoked there and the host that is required, if any, is the one
that was certified or below it. -/
theorem identity_accepted (hroot : Signs root) (hauthority : Signs authority) (hkey : Signs key)
    (hp : create root authority = .ok p) {identity : PrivateData}
    (hidentity : p.installIdentity key host = .ok identity) {mine theirs : Context}
    (hmine : mine.privateData = identity)
    (hkeys : theirs.publicKeys.findRootKey p.root.publicKey.id = some p.root.publicKey)
    {binding binding' : HandshakeBinding} (hbinding : binding'.remote = binding.own)
    {required : Bool} {creds : AuthCredentials}
    (hauth : makeAuth mine binding required = .ok ⟨some creds⟩)
    (rest : Option KeyCertRestriction) :
    verifyCredentials theirs creds binding' rest = .ok true ↔
      NotRevoked theirs.certificates p.root.publicKey creds.chain.chain.chain ∧
        ∀ r ∈ rest, r.isSubsetOf ⟨host⟩ = true := by
  have hcreate := create_spec hroot hauthority hp
  obtain ⟨key', cert, keyCert, rfl, hsigns, hhost, hlink⟩ :=
    installIdentity_spec hroot hauthority hkey hp hidentity
  have hkeys' : theirs.publicKeys.findRootKey root.publicKey.id = some root.publicKey := by
    rw [← hcreate.1]
    exact hkeys
  -- the issuing half: the credentials are the key, its chain and a signature of the binding
  obtain ⟨sig, hsig, rfl⟩ : ∃ sig, key'.sign binding.own authContext = .ok sig ∧
      (⟨key'.publicKey, ⟨.cast int 1, p.caChain.extend key'.publicKey cert⟩, sig⟩ :
        AuthCredentials) = creds := by
    unfold makeAuth at hauth
    rw [hmine] at hauth
    cases hsign : key'.sign binding.own authContext with
    | error e =>
        simp only [hsign] at hauth
        cases hauth
    | ok sig =>
        simp only [hsign] at hauth
        cases hauth
        exact ⟨sig, rfl, rfl⟩
  -- the presenting half
  have hverify : key'.publicKey.verify sig binding'.remote authContext = true := by
    rw [hbinding]
    exact (verify_of_sign hsigns hsig).1
  have hvalid : (p.caChain.extend key'.publicKey cert).isValid = true :=
    decide_eq_true ⟨List.append_ne_nil_of_right_ne_nil _ (List.cons_ne_nil _ _),
      (of_decide_eq_true hcreate.2.2.2).2⟩
  have hsubject : (p.caChain.extend key'.publicKey cert).subject = .ok key'.publicKey := by
    unfold CertificateChain.subject
    have hlast : (p.caChain.extend key'.publicKey cert).chain.getLast? =
        some ⟨key'.publicKey, cert⟩ := List.getLast?_concat
    simp only [hvalid, hlast]
    rfl
  have haccepted : verifyCredentials theirs
      ⟨key'.publicKey, ⟨.cast int 1, p.caChain.extend key'.publicKey cert⟩, sig⟩ binding' rest =
        .ok true ↔ (p.caChain.extend key'.publicKey cert).isAuthenticFor theirs.publicKeys
          theirs.certificates rest = .ok true := by
    unfold verifyCredentials
    cases hfor : (p.caChain.extend key'.publicKey cert).isAuthenticFor theirs.publicKeys
        theirs.certificates rest with
    | error e => exact ⟨nofun, nofun⟩
    | ok b =>
        cases b with
        | false => exact ⟨nofun, nofun⟩
        | true =>
            simp only [hsubject, hverify, ne_eq, not_true_eq_false, if_false]
  rw [haccepted, isAuthenticFor_extend hvalid hlink rest, isAuthentic_extend hcreate hlink hkeys',
    hhost, hcreate.1]

end Pki

end Keys

/-! ## A host -/

section OneHost

attribute [local instance] OneLink.primitives

namespace OneHost

theorem one_length_le : ([1] : Octets).length ≤ maxStructureSize := by decide

/-- A key with the material of the root. -/
def key : PrivateKey := ⟨OneLink.root, fun _ => .ok ⟨[1], one_length_le⟩⟩

def host : Octets := [0x68]

theorem key_signs : Signs key := by
  intro framed sig _
  show (OneLink.root.content.isValid && true) = true
  rw [OneLink.root_isValid]
  rfl

theorem key_signsAll : SignsAll key := fun _ => ⟨_, rfl⟩

/-- A party with the root key, without revocations, and with what was installed. -/
def context (identity : PrivateData) : Context :=
  ⟨.pq1, OneLink.keys, ⟨fun _ => none⟩, fun _ => none, identity, fun _ => none, true, []⟩

theorem authorityData : asnDerSerialise KeyCertificateData.schema
    (keyCertificateVal OneLink.id (.cast uint16 1) .none) =
      .ok ([0x30, 0x30, 0x02, 0x01, 0x01, 0x30, 0x22, 0x04, 0x20] ++ List.replicate 32 7 ++
        [0x02, 0x01, 0x01, 0x30, 0x02, 0x14, 0x00, 0x04, 0x00]) := by
  decide +kernel

theorem hostData : asnDerSerialise KeyCertificateData.schema
    (keyCertificateVal OneLink.id (.cast uint16 0) ⟨host⟩) =
      .ok ([0x30, 0x31, 0x02, 0x01, 0x01, 0x30, 0x22, 0x04, 0x20] ++ List.replicate 32 7 ++
        [0x02, 0x01, 0x00, 0x30, 0x03, 0x14, 0x01, 0x68, 0x04, 0x00]) := by
  decide +kernel

theorem create_ok : ∃ p, Pki.create key key = .ok p ∧ SignsAll p.ca ∧ p.root = key := by
  obtain ⟨cert, ca, hcertify, hsigns, -⟩ :=
    certifyKey_of_signsAll key_signsAll key_signsAll authorityData (by decide)
  refine ⟨⟨key, ca, cert⟩, ?_, hsigns, rfl⟩
  unfold Pki.create
  rw [hcertify]
  exact if_pos OneLink.root_isValid

end OneHost

/-- An authority and a host. -/
theorem Pki.identity_accepted_host :
    ∃ (p : Pki) (identity : PrivateData) (creds : AuthCredentials),
      Pki.create OneHost.key OneHost.key = .ok p ∧
      p.installIdentity OneHost.key OneHost.host = .ok identity ∧
      makeAuth (OneHost.context identity) ⟨[1], [2]⟩ true = .ok ⟨some creds⟩ ∧
      verifyCredentials (OneHost.context identity) creds ⟨[2], [1]⟩ (some ⟨OneHost.host⟩) =
        .ok true := by
  obtain ⟨p, hp, hca, hroot⟩ := OneHost.create_ok
  obtain ⟨cert, key', hcertify, hsigns, -⟩ :=
    certifyKey_of_signsAll hca OneHost.key_signsAll OneHost.hostData (by decide)
  obtain ⟨hchain, -⟩ := Pki.certify_of_certifyKey OneHost.key_signs OneHost.key_signs
    OneHost.key_signs hp hcertify
  obtain ⟨sig, hsig⟩ := sign_of_signsAll hsigns [1] (show authContext.length ≤ 255 by decide)
  let chain : VersionedChain := ⟨.cast int 1, p.caChain.extend key'.publicKey cert⟩
  have hidentity : p.installIdentity OneHost.key OneHost.host = .ok ⟨some key', some chain⟩ := by
    unfold Pki.installIdentity
    rw [hchain]
  have hauth : makeAuth (OneHost.context ⟨some key', some chain⟩) ⟨[1], [2]⟩ true =
      .ok ⟨some ⟨key'.publicKey, chain, sig⟩⟩ := by
    unfold makeAuth OneHost.context
    simp only [hsig]
    rfl
  refine ⟨p, _, _, hp, hidentity, hauth, ?_⟩
  refine (Pki.identity_accepted OneHost.key_signs OneHost.key_signs OneHost.key_signs hp hidentity
    rfl ?_ rfl hauth (some ⟨OneHost.host⟩)).mpr ?_
  · rw [hroot]
    show (if OneLink.root.id = OneLink.root.id then some OneLink.root else none) = _
    exact if_pos rfl
  · refine ⟨fun _ _ => rfl, ?_⟩
    rintro _ ⟨⟩
    decide

end OneHost

end Securepath.Keygen
