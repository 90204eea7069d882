import Securepath.Crypto.ChainBuilder

/-!
# Looking up revocations

A verifier finds the revocation of a certificate by `certificate::id`, the digest
of the whole signature object, while a key verifies only the octets of the
signature. A certificate that carries the same octets in another object is
another one for the store, and `rejected_iff` says when that is of use.
-/

namespace Securepath.Crypto

open Serialisation CertificateChain

section Lookup

variable [Primitives]

/-- Two strings do not share their digest. -/
def NoCollision (a b : Octets) : Prop := sha3_256 a = sha3_256 b → a = b

/-- The store without what it has under an id. -/
def CertificateAccess.without (certs : CertificateAccess) (id : CertificateId) :
    CertificateAccess :=
  ⟨fun x => if x = id then none else certs.find x⟩

variable {keys : PublicKeyAccess} {certs : CertificateAccess} {c : CertificateChain}

/-! ## Ids and what they stand for -/

omit [Primitives] in
theorem id_length_le (id : Text) {t t' : Option TagInfo} {b : Octets}
    (h : idSchema.encoding (id.val, ()) t = .ok (b, t')) : b.length ≤ 40 + maxStructureSize := by
  rcases Encoding.sequence_eq_ok.mp h with ⟨c, hc, rfl⟩
  rcases Encoding.seq_eq_ok.mp hc with ⟨b₁, _, c₁, h₁, hc₁, rfl⟩
  cases hc₁
  have hle₁ := octets_length_le id h₁
  have hle := element_length_le (getIdent t AsnTag.sequence) true (b₁ ++ [])
  simp only [List.append_nil] at hle ⊢
  omega

omit [Primitives] in
theorem signature_length (s : Signature) : (serialised Signature.schema s.val).length < 2 ^ 64 := by
  rcases encoding_of_asnDerSerialise (asnDerSerialise_eq_serialised s.savable) with ⟨t, henc⟩
  rcases Encoding.sequence_eq_ok.mp henc with ⟨c, hc, hb⟩
  rcases Encoding.seq_eq_ok.mp hc with ⟨b₁, _, c₁, h₁, hc₁, rfl⟩
  rcases Encoding.seq_eq_ok.mp hc₁ with ⟨b₂, _, c₂, h₂, hc₂, rfl⟩
  rcases Encoding.seq_eq_ok.mp hc₂ with ⟨b₃, _, c₃, h₃, hc₃, rfl⟩
  cases hc₃
  have hle₁ := int_length_le s.version h₁
  have hle₂ := id_length_le s.issuer h₂
  have hle₃ := octets_length_le s.data h₃
  have hle := element_length_le (getIdent none AsnTag.sequence) true (b₁ ++ (b₂ ++ (b₃ ++ [])))
  rw [← hb] at hle
  simp only [List.length_append, List.length_nil, maxStructureSize] at hle hle₂ hle₃
  omega

omit [Primitives] in
theorem signature_inj {s s' : Signature}
    (h : serialised Signature.schema s.val = serialised Signature.schema s'.val) : s = s' := by
  have hid : idSchema.Delimits true := .inl ⟨trivial, trivial⟩
  have hdelimits : Signature.schema.Delimits true :=
    .inl ⟨trivial, .inl ⟨hid, .inl ⟨trivial, trivial⟩⟩⟩
  have heq := serialised_inj hdelimits s.savable s'.savable h (signature_length s)
  rcases Prod.mk.inj heq with ⟨hversion, heq⟩
  rcases Prod.mk.inj heq with ⟨hissuer, heq⟩
  rcases s with ⟨version, issuer, data⟩
  rcases s' with ⟨version', issuer', data'⟩
  simp only [Signature.mk.injEq]
  exact ⟨hversion, Subtype.ext (Prod.mk.inj hissuer).1, Subtype.ext (Prod.mk.inj heq).1⟩

theorem sig_eq_of_id {a b : Certificate}
    (hcollision : NoCollision (serialised Signature.schema a.sig.val)
      (serialised Signature.schema b.sig.val)) (hid : a.id = b.id) : a.sig = b.sig := by
  apply signature_inj
  apply hcollision
  apply Subtype.ext
  exact congrArg (fun id : CertificateId => id.val) hid

theorem id_eq_of_sig {a b : Certificate} (hsig : a.sig = b.sig) : a.id = b.id := by
  unfold Certificate.id
  rw [hsig]

/-- Two keys with one id have the same material. -/
theorem sameMaterial_of_ids {a b : PublicKey} (ha : a.content.isValid = true)
    (hb : b.content.isValid = true)
    (hcollision : NoCollision a.content.idContent b.content.idContent) (hid : a.id = b.id) :
    SameMaterial a b := by
  rw [a.id_eq ha, b.id_eq hb] at hid
  apply idContent_inj
  apply hcollision
  apply Subtype.ext
  exact congrArg (fun id : PublicKeyId => id.val) hid

/-- Only a key with material verifies a revocation. -/
theorem isValid_of_isRevoked {C : Certificate} {key : PublicKey} (h : C.isRevoked key = true) :
    key.content.isValid = true := by
  unfold Certificate.isRevoked at h
  rcases Option.eq_none_or_eq_some C.revocation with hnone | ⟨r, hsome⟩
  · simp [hnone] at h
  simp only [hsome, Bool.and_eq_true] at h
  have hverify := h.2
  unfold CertificateRevocation.verifyMe PublicKey.verify at hverify
  rcases hframe : frameMessage revocationContext r.makeSigData with e | framed
  · simp [hframe] at hverify
  · simp only [hframe, KeyContent.verifyFramed, Bool.and_eq_true] at hverify
    exact hverify.1

/-! ## The links of a chain -/

/-- Every link was checked in the state of the key that issued it. -/
theorem Leads.link {w v : ChainVerify} {es : List KeyCertPair} (h : Leads w v es) {e : KeyCertPair}
    (he : e ∈ es) : ∃ u keyCert, LinkCondition u e keyCert ∧
      (u.previous, e.cert) ∈ issued v.previous es ∧
      (u.previous = v.previous ∨ ∃ e' ∈ es, e'.subject = u.previous) := by
  induction es generalizing v with
  | nil => exact absurd he List.not_mem_nil
  | cons first es ih =>
      rcases h with ⟨keyCert, hlink, hrest⟩
      rcases List.mem_cons.mp he with rfl | he
      · exact ⟨v, keyCert, hlink, List.mem_cons_self .., Or.inl rfl⟩
      · rcases ih hrest he with ⟨u, keyCert', hlink', hmem, hissuer⟩
        refine ⟨u, keyCert', hlink', List.mem_cons_of_mem _ hmem, Or.inr ?_⟩
        rcases hissuer with hfirst | ⟨e', he', heq⟩
        · exact ⟨first, List.mem_cons_self .., hfirst.symm⟩
        · exact ⟨e', List.mem_cons_of_mem _ he', heq⟩

omit [Primitives] in
theorem cert_of_issued [Primitives] {root : PublicKey} {es : List KeyCertPair}
    {link : PublicKey × Certificate} (h : link ∈ issued root es) : ∃ e ∈ es, e.cert = link.2 := by
  induction es generalizing root with
  | nil => exact absurd h List.not_mem_nil
  | cons e es ih =>
      rcases List.mem_cons.mp h with rfl | h
      · exact ⟨e, List.mem_cons_self .., rfl⟩
      · rcases ih h with ⟨e', he', heq⟩
        exact ⟨e', List.mem_cons_of_mem _ he', heq⟩

theorem isRevokedInStore_without {id : CertificateId} {previous : PublicKey} {cert : Certificate}
    (h : cert.id ≠ id) : ChainVerify.isRevokedInStore (certs.without id) previous cert =
      ChainVerify.isRevokedInStore certs previous cert := by
  simp [ChainVerify.isRevokedInStore, CertificateAccess.without, h]

theorem isRevokedInStore_without_self {id : CertificateId} {previous : PublicKey}
    {cert : Certificate} (h : cert.id = id) :
    ChainVerify.isRevokedInStore (certs.without id) previous cert = false := by
  simp [ChainVerify.isRevokedInStore, CertificateAccess.without, h]

/-! ## When a revocation is found -/

/-- What `is_authentic` checks of a chain that the revocation of `C` has no part
in. -/
structure PassesOtherChecks (keys : PublicKeyAccess) (certs : CertificateAccess) (C : Certificate)
    (c : CertificateChain) : Prop where
  length : c.chain.length ≤ maxChainLength
  isValid : c.isValid = true
  leads : ∃ root, keys.findRootKey c.rootKeyId = some root ∧
    (∃ w, Leads w (.ofRoot root) c.chain) ∧
    ∀ link ∈ issued root c.chain, link.2.id ≠ C.id →
      ChainVerify.isRevokedInStore certs link.1 link.2 = false

/-- The other checks are those of a store that does not have `C`. -/
theorem passesOtherChecks_iff {C : Certificate} : PassesOtherChecks keys certs C c ↔
    c.isAuthentic keys (certs.without C.id) = .ok true := by
  constructor
  · rintro ⟨hlength, hchain, root, hroot, hleads, hclear⟩
    refine isAuthentic_eq_true.mpr ⟨hlength, hchain, root, hroot, hleads, ?_⟩
    intro link hlink
    by_cases hid : link.2.id = C.id
    · exact isRevokedInStore_without_self hid
    · rw [isRevokedInStore_without hid]
      exact hclear link hlink hid
  · intro haccepted
    rcases isAuthentic_eq_true.mp haccepted with ⟨hlength, hchain, root, hroot, hleads, hclear⟩
    refine ⟨hlength, hchain, root, hroot, hleads, ?_⟩
    intro link hlink hid
    rw [← isRevokedInStore_without hid]
    exact hclear link hlink

/-- A link with the signature object of the revoked certificate is refused. -/
theorem not_accepted_of_sig {C : Certificate} {issuer : PublicKey}
    (hstored : certs.find C.id = some C) (hrevoked : C.isRevoked issuer = true)
    (hissuer : issuer.id = C.issuer)
    (hkeys : ∀ key : PublicKey,
      keys.findRootKey c.rootKeyId = some key ∨ (∃ e ∈ c.chain, e.subject = key) →
      NoCollision key.content.idContent issuer.content.idContent)
    {e : KeyCertPair} (he : e ∈ c.chain) (hsig : e.cert.sig = C.sig) :
    c.isAuthentic keys certs ≠ .ok true := by
  intro haccepted
  have hvalid := isValid_of_isRevoked hrevoked
  rcases isAuthentic_eq_true.mp haccepted with ⟨_, _, root, hroot, ⟨w, hleads⟩, hclear⟩
  rcases hleads.link he with ⟨u, keyCert, hlink, hmem, hprevious⟩
  -- the store has `C` under the id of the link, and the link's issuer is that of `C`
  have hnot := hclear _ hmem
  unfold ChainVerify.isRevokedInStore at hnot
  rw [id_eq_of_sig hsig, hstored] at hnot
  have hid : u.previous.id = issuer.id := by
    rw [hlink.issuer, hissuer]
    unfold Certificate.issuer
    rw [hsig]
  have hknown : keys.findRootKey c.rootKeyId = some u.previous ∨
      ∃ e' ∈ c.chain, e'.subject = u.previous := by
    rcases hprevious with hfirst | hsubject
    · left
      rw [hfirst]
      exact hroot
    · exact Or.inr hsubject
  have hmaterial := sameMaterial_of_ids (Certificate.isValid_of_isAuthentic hlink.authentic)
    hvalid (hkeys u.previous hknown) hid
  have hagree : C.isRevoked u.previous = true := (hmaterial.isRevoked C).trans hrevoked
  have hclean : C.isRevoked u.previous = false := hnot
  rw [hagree] at hclean
  exact absurd hclean (by simp)

/-- A chain is rejected, where its verifier has a certificate with its
revocation, exactly when the chain has the very signature object of the
certificate or fails another check. -/
theorem rejected_iff {C : Certificate} {issuer : PublicKey} (hstored : certs.find C.id = some C)
    (hrevoked : C.isRevoked issuer = true) (hissuer : issuer.id = C.issuer)
    (hsignatures : ∀ e ∈ c.chain, NoCollision (serialised Signature.schema e.cert.sig.val)
      (serialised Signature.schema C.sig.val))
    (hkeys : ∀ key : PublicKey,
      keys.findRootKey c.rootKeyId = some key ∨ (∃ e ∈ c.chain, e.subject = key) →
      NoCollision key.content.idContent issuer.content.idContent) :
    c.isAuthentic keys certs ≠ .ok true ↔
      (∃ e ∈ c.chain, e.cert.sig = C.sig) ∨ ¬ PassesOtherChecks keys certs C c := by
  constructor
  · intro hrejected
    by_cases hsame : ∃ e ∈ c.chain, e.cert.sig = C.sig
    · exact Or.inl hsame
    · right
      rintro ⟨hlength, hchain, root, hroot, hleads, hclear⟩
      apply hrejected
      refine isAuthentic_eq_true.mpr ⟨hlength, hchain, root, hroot, hleads, ?_⟩
      intro link hlink
      rcases cert_of_issued hlink with ⟨e, he, heq⟩
      have hne : link.2.id ≠ C.id := by
        intro hid
        rw [← heq] at hid
        exact hsame ⟨e, he, sig_eq_of_id (hsignatures e he) hid⟩
      exact hclear link hlink hne
  · rintro (⟨e, he, hsig⟩ | hfails)
    · exact not_accepted_of_sig hstored hrevoked hissuer hkeys he hsig
    · intro haccepted
      apply hfails
      rcases isAuthentic_eq_true.mp haccepted with ⟨hlength, hchain, root, hroot, hleads, hclear⟩
      exact ⟨hlength, hchain, root, hroot, hleads, fun link hlink _ => hclear link hlink⟩

end Lookup

/-! ## A revoked certificate in another signature object -/

namespace Reencoded

/-- The digest tells one signature object from everything else. -/
@[reducible] def primitives : Primitives where
  sha3_256 o :=
    if o = serialised Signature.schema OneLink.sig.val then
      ⟨List.replicate 32 8, by rw [List.length_replicate]⟩
    else
      ⟨List.replicate 32 7, sevens_length⟩
  verifyMessage _ _ _ _ := true

attribute [local instance] primitives

/-- The id of the revoked certificate. -/
def revokedId : Text := ⟨List.replicate 32 8, by decide⟩

def revocation : CertificateRevocation := ⟨.cast int 1, revokedId, OneLink.sig, []⟩

/-- The revoked certificate, as the store has it. -/
def revoked : Certificate := { OneLink.cert with revocation := some revocation }

/-- The same with another version in the signature object. -/
def reencoded : Certificate :=
  { OneLink.cert with sig := { OneLink.sig with version := .cast uint32 3 } }

theorem digest_signature : sha3_256 (serialised Signature.schema OneLink.sig.val) =
    ⟨List.replicate 32 8, by rw [List.length_replicate]⟩ :=
  if_pos rfl

theorem digest_of_ne {o : Octets} (h : o ≠ serialised Signature.schema OneLink.sig.val) :
    sha3_256 o = ⟨List.replicate 32 7, by rw [List.length_replicate]⟩ :=
  if_neg h

theorem revoked_id : revoked.id = revokedId := by
  have hsig : revoked.sig = OneLink.sig := rfl
  unfold Certificate.id
  rw [hsig, digest_signature]
  rfl

/-- The content of a key is no signature. -/
theorem idContent_ne (ids : CertificateIds) :
    (OneLink.content ids).idContent ≠ serialised Signature.schema OneLink.sig.val := by
  have hstart : (OneLink.content ⟨[], .nil⟩).idContent.take 2 ≠
      (serialised Signature.schema OneLink.sig.val).take 2 := by decide +kernel
  intro heq
  exact hstart (congrArg (List.take 2) heq)

theorem constructId_eq (ids : CertificateIds) : (OneLink.content ids).constructId = OneLink.id := by
  unfold KeyContent.constructId
  rw [digest_of_ne (idContent_ne ids)]
  rfl

def root : PublicKey :=
  ⟨OneLink.content ⟨[], CertificateIds.nil_sorted⟩, OneLink.id, fun _ => (constructId_eq _).symm⟩

def subject : PublicKey :=
  ⟨OneLink.content ⟨[OneLink.id], OneLink.id_sorted⟩, OneLink.id,
    fun _ => (constructId_eq _).symm⟩

def keys : PublicKeyAccess := .ofRoot (fun _ => none) (some ⟨root, OneLink.root_isValid⟩)

def certs : CertificateAccess := ⟨fun x => if x = revokedId then some revoked else none⟩

def chain : CertificateChain := ⟨OneLink.id, [⟨subject, reencoded⟩]⟩

theorem find_eq (x : CertificateId) :
    certs.find x = if x = revokedId then some revoked else none := by
  rfl

theorem signature_ne : serialised Signature.schema reencoded.sig.val ≠
    serialised Signature.schema OneLink.sig.val := by decide +kernel

theorem reencoded_id : reencoded.id = OneLink.id := by
  unfold Certificate.id
  rw [digest_of_ne signature_ne]
  rfl

theorem verify_eq (ids : CertificateIds) (h : _) (s : Signature) (data context : Octets)
    (hcontext : context.length ≤ 255) :
    (⟨OneLink.content ids, OneLink.id, h⟩ : PublicKey).verify s data context = true := by
  unfold PublicKey.verify frameMessage
  rw [if_neg (by omega)]
  simp only [KeyContent.verifyFramed, OneLink.content_isValid]
  rfl

theorem revoked_isRevoked : revoked.isRevoked root = true := by
  have hverify : revocation.verifyMe root = true := verify_eq _ _ _ _ _ (by decide)
  have hsome : revoked.revocation = some revocation := rfl
  unfold Certificate.isRevoked
  rw [hsome, revoked_id]
  simp only [Bool.and_eq_true, decide_eq_true_eq]
  exact ⟨⟨rfl, rfl⟩, hverify⟩

theorem extract_reencoded : reencoded.extract = OneLink.cert.extract := by
  have htype : reencoded.certificateType = OneLink.cert.certificateType := rfl
  have hdata : reencoded.certificateData = OneLink.cert.certificateData := rfl
  unfold Certificate.extract
  rw [htype, hdata]

theorem linkCondition : ∃ keyCert, LinkCondition (.ofRoot root) ⟨subject, reencoded⟩ keyCert := by
  have hextract : reencoded.extract = OneLink.cert.extract := extract_reencoded
  have hfields : OneLink.cert.extract.toOption.map
      (fun k => (k.subject, k.caLevel.val, k.restrictions)) =
      some (OneLink.id.val, 0, ⟨[]⟩) := by decide +kernel
  rcases hresult : OneLink.cert.extract with e | keyCert
  · rw [hresult] at hfields
    exact absurd hfields (by simp [Except.toOption])
  simp only [hresult, Except.toOption, Option.map_some, Option.some.injEq, Prod.mk.injEq] at hfields
  refine ⟨keyCert, ?_, ?_, rfl, rfl, hextract.trans hresult, hfields.1, ?_, ?_, ?_⟩
  · have hverify : reencoded.verifyMe root = true := verify_eq _ _ _ _ _ (by decide)
    show (reencoded.verifyMe root && !reencoded.isRevoked root) = true
    rw [hverify]
    rfl
  · have hverify : subject.verify subject.content.sig subject.content.signatureContent
        selfSignatureContext = true := verify_eq _ _ _ _ _ (by decide)
    have hid : subject.content.constructId = subject.id := constructId_eq _
    unfold PublicKey.verifyMe
    rw [hverify, hid]
    simp
  · show subject.referencesCertificate reencoded.id = true
    rw [reencoded_id]
    decide
  · rw [hfields.2.1]
    decide
  · exact KeyCertRestriction.isSubsetOf_none _

theorem chain_isAuthentic : chain.isAuthentic keys certs = .ok true := by
  apply CertificateChain.isAuthentic_eq_true.mpr
  rcases linkCondition with ⟨keyCert, hlink⟩
  have hroot : keys.findRootKey chain.rootKeyId = some root := by
    show (if OneLink.id = root.id then some root else none) = some root
    exact if_pos rfl
  refine ⟨by decide, by decide +kernel, root, hroot, ⟨_, keyCert, hlink, rfl⟩, ?_⟩
  intro link hmem
  rcases List.mem_singleton.mp hmem with rfl
  show ChainVerify.isRevokedInStore certs root reencoded = false
  have hmissing : certs.find OneLink.id = none := by
    rw [find_eq]
    exact if_neg (by decide)
  unfold ChainVerify.isRevokedInStore
  rw [reencoded_id, hmissing]

theorem revoked_stored : certs.find revoked.id = some revoked := by
  rw [revoked_id, find_eq]
  exact if_pos rfl

theorem root_issuer : root.id = revoked.issuer := rfl

/-- The chain with the revoked certificate in another signature object is
accepted. -/
theorem reencoded_accepted :
    certs.find revoked.id = some revoked ∧ root.id = revoked.issuer ∧
      revoked.isRevoked root = true ∧
      (∃ e ∈ chain.chain, e.cert.version = revoked.version ∧
        e.cert.certificateType = revoked.certificateType ∧
        e.cert.certificateData = revoked.certificateData ∧ e.cert.trailing = revoked.trailing ∧
        e.cert.sig.data = revoked.sig.data) ∧
      chain.isAuthentic keys certs = .ok true :=
  ⟨revoked_stored, root_issuer, revoked_isRevoked,
    ⟨_, List.mem_singleton_self _, rfl, rfl, rfl, rfl, rfl⟩, chain_isAuthentic⟩

/-- The content that is digested does not have the certificates of the key. -/
theorem idContent_subject : subject.content.idContent = root.content.idContent := by
  unfold KeyContent.idContent
  rfl

theorem noCollision_reencoded : NoCollision (serialised Signature.schema reencoded.sig.val)
    (serialised Signature.schema revoked.sig.val) := by
  intro hdigest
  have hleft := digest_of_ne signature_ne
  have hright : sha3_256 (serialised Signature.schema revoked.sig.val) = _ := digest_signature
  have hdigests := hleft.symm.trans (hdigest.trans hright)
  exact absurd (congrArg Subtype.val hdigests) (by decide)

theorem rejected_iff_reencoded : chain.isAuthentic keys certs ≠ .ok true ↔
    (∃ e ∈ chain.chain, e.cert.sig = revoked.sig) ∨
      ¬ PassesOtherChecks keys certs revoked chain := by
  refine rejected_iff (C := revoked) revoked_stored revoked_isRevoked root_issuer ?_ ?_
  · intro e he
    rcases List.mem_singleton.mp he with rfl
    exact noCollision_reencoded
  · intro key hkey _
    rcases hkey with hfound | ⟨e, he, hsubject⟩
    · have hroot : keys.findRootKey chain.rootKeyId = some root := by
        show (if OneLink.id = root.id then some root else none) = some root
        exact if_pos rfl
      rw [hroot] at hfound
      rw [Option.some.inj hfound]
    · rcases List.mem_singleton.mp he with rfl
      have hcontent : subject.content.idContent = root.content.idContent := idContent_subject
      rw [← hsubject, hcontent]

end Reencoded

end Securepath.Crypto
