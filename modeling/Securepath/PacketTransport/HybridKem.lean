import Securepath.Crypto.GcmStreaming
import Securepath.KeyServer.ProtocolRoundTrip
import Securepath.Network.HandshakeMessages
import Securepath.PacketTransport.PacketSizes

/-!
# Sealing for a key

The hybrid key encapsulation (`crypto/detail/hybrid_kem.cpp`), `public_key::encrypt` and
`private_key::decrypt`: X25519 or X448 and ML-KEM agree on a key, and AES-256-GCM encrypts
under it, with the id of the recipient as associated data. The ciphertext is decoded from
its octets again before it is opened.
-/

namespace Securepath.PacketTransport

open Serialisation Crypto Network KeyServer StateExcept

/-- What `crypto/` throws here. -/
inductive CryptoError where
  | invalidKey
  | badCiphertext
  | wrongKey
  | invalidTag
  | gcm (e : Gcm.GcmError)
  | serialisation (e : Serialisation.Error)
deriving DecidableEq, Repr

/-- `kem_key_size`. -/
def kemKeySize : Nat := 32

/-- `kem_seed_size` of `suite_parameters`. -/
def kemSeedSize : Nat := 64

/-- `sig_seed_size` of `suite_parameters`. -/
def sigSeedSize : Nat := 32

/-- What Botan computes from keys, seeds and octets that were drawn; `none` is an
exception of Botan. -/
structure Botan extends Gcm.Botan where
  /-- the ML-DSA public key of a seed -/
  sigPublic : (s : Suite) → Octets → Sized s.parameters.sigPublicSize
  /-- the X25519 or X448 public key of a private key -/
  xPublic : (s : Suite) → Octets → Sized s.parameters.xKeySize
  /-- "Raw" agreement of a private key with the public key of a peer -/
  xAgree : Suite → Octets → Octets → Option Octets
  /-- the ML-KEM public key of a seed -/
  kemPublic : (s : Suite) → Octets → Sized s.parameters.kemPublicSize
  /-- encapsulation with octets of the generator: the ciphertext and the shared secret -/
  kemEncrypt : (s : Suite) → Octets → Octets → Option (Sized (kemCiphertextSize s) × Octets)
  kemDecrypt : Suite → Octets → Octets → Option Octets
  /-- "HKDF(SHA-3(256))" of a secret with an info -/
  deriveKey : Octets → Octets → Sized kemKeySize
  /-- "AES-256/GCM" for decryption, from a key, a nonce, associated data and a buffer with
  the tag behind the text -/
  gcmOpen : Octets → Octets → Octets → Octets → Option Octets
  xAgree_comm : ∀ s x y, xAgree s x (xPublic s y).val = xAgree s y (xPublic s x).val
  kemDecrypt_eq : ∀ s seed drawn ct secret,
    kemEncrypt s (kemPublic s seed).val drawn = some (ct, secret) →
      kemDecrypt s seed ct.val = some secret
  gcmOpen_eq_some : ∀ key nonce aad buf plain : Octets, key.length = aesGcmKeySize →
    nonce.length = aesGcmIvSize → (gcmOpen key nonce aad buf = some plain ↔
      plain.length + aesGcmTagSize = buf.length ∧ gcm key nonce aad plain = buf)

/-! ## The hybrid KEM -/

/-- `to_string` of a suite. -/
def suiteName : Suite → String
  | .pq1 => "pq1"
  | .pq1High => "pq1_high"

/-- `combine_shared_secrets`. -/
def combineSharedSecrets (b : Botan) (s : Suite) (ssPq ssX ctX pkX : Octets) : Sized kemKeySize :=
  b.deriveKey (ssPq ++ ssX ++ ctX ++ pkX) ("securepath-kem-v1/" ++ suiteName s).toUTF8.data.toList

/-- `kem_public_key`. -/
structure KemPublicKey where
  id : Suite
  xPk : Text
  pqPk : Text

/-- `kem_private_key`. -/
structure KemPrivateKey where
  id : Suite
  xSk : Octets
  pqSeed : Octets

/-- `kem_encapsulation`. -/
structure KemEncapsulation (s : Suite) where
  ctX : Sized s.parameters.xKeySize
  ctPq : Sized (kemCiphertextSize s)
  key : Sized kemKeySize

/-- `check_private_sizes`. -/
def KemPrivateKey.sizesOk (sk : KemPrivateKey) : Bool :=
  sk.xSk.length = sk.id.parameters.xKeySize ∧ sk.pqSeed.length = kemSeedSize

/-- `check_public_sizes`. -/
def KemPublicKey.sizesOk (pk : KemPublicKey) : Bool :=
  pk.xPk.val.length = pk.id.parameters.xKeySize ∧
    pk.pqPk.val.length = pk.id.parameters.kemPublicSize

/-- Octets of a size that a string may have. -/
def textOf {n : Nat} (o : Sized n) (h : n ≤ maxStructureSize) : Text :=
  ⟨o.val, o.property.le.trans h⟩

theorem xKeySize_le (s : Suite) : s.parameters.xKeySize ≤ maxStructureSize := by
  cases s <;> decide

theorem kemPublicSize_le (s : Suite) : s.parameters.kemPublicSize ≤ maxStructureSize := by
  cases s <;> decide

theorem sigPublicSize_le (s : Suite) : s.parameters.sigPublicSize ≤ maxStructureSize := by
  cases s <;> decide

/-- `kem_public_part`. -/
def kemPublicPart (b : Botan) (sk : KemPrivateKey) : Except CryptoError KemPublicKey :=
  if sk.sizesOk then
    .ok ⟨sk.id, textOf (b.xPublic sk.id sk.xSk) (xKeySize_le _),
      textOf (b.kemPublic sk.id sk.pqSeed) (kemPublicSize_le _)⟩
  else .error .invalidKey

/-- `kem_encapsulate`, with the ephemeral key and what ML-KEM draws. -/
def kemEncapsulate (b : Botan) (pk : KemPublicKey) (ephemeral drawn : Octets) :
    Except CryptoError (KemEncapsulation pk.id) :=
  if pk.sizesOk then
    match b.xAgree pk.id ephemeral pk.xPk.val, b.kemEncrypt pk.id pk.pqPk.val drawn with
    | some ssX, some (ctPq, ssPq) =>
        let ctX := b.xPublic pk.id ephemeral
        .ok ⟨ctX, ctPq, combineSharedSecrets b pk.id ssPq ssX ctX.val pk.xPk.val⟩
    | _, _ => .error .invalidKey
  else .error .invalidKey

/-- `kem_decapsulate`. -/
def kemDecapsulate (b : Botan) (sk : KemPrivateKey) (ctX ctPq : Octets) :
    Except CryptoError (Sized kemKeySize) :=
  if sk.sizesOk then
    if ctX.length ≠ sk.id.parameters.xKeySize ∨ ctPq.length ≠ kemCiphertextSize sk.id then
      .error .badCiphertext
    else
      match b.xAgree sk.id sk.xSk ctX, b.kemDecrypt sk.id sk.pqSeed ctPq with
      | some ssX, some ssPq =>
          .ok (combineSharedSecrets b sk.id ssPq ssX ctX (b.xPublic sk.id sk.xSk).val)
      | _, _ => .error .badCiphertext
  else .error .invalidKey

/-- What an encapsulation is made of. -/
theorem kemEncapsulate_eq_ok {b : Botan} {pk : KemPublicKey} {ephemeral drawn : Octets}
    {e : KemEncapsulation pk.id} (h : kemEncapsulate b pk ephemeral drawn = .ok e) :
    ∃ ssX ssPq, b.xAgree pk.id ephemeral pk.xPk.val = some ssX ∧
      b.kemEncrypt pk.id pk.pqPk.val drawn = some (e.ctPq, ssPq) ∧
      e.ctX = b.xPublic pk.id ephemeral ∧
      e.key = combineSharedSecrets b pk.id ssPq ssX e.ctX.val pk.xPk.val := by
  unfold kemEncapsulate at h
  split at h
  case isFalse => exact nomatch h
  case isTrue =>
    split at h
    case h_1 ssX ctPq ssPq hagree hkem =>
      obtain rfl := Except.ok.inj h
      exact ⟨ssX, ssPq, hagree, hkem, rfl, rfl⟩
    case h_2 => exact nomatch h

/-- The private key finds the key that was encapsulated for its public part. -/
theorem kemDecapsulate_kemEncapsulate {b : Botan} {sk : KemPrivateKey} {pk : KemPublicKey}
    {ephemeral drawn : Octets} {e : KemEncapsulation pk.id}
    (hpk : kemPublicPart b sk = .ok pk) (he : kemEncapsulate b pk ephemeral drawn = .ok e) :
    kemDecapsulate b sk e.ctX.val e.ctPq.val = .ok e.key := by
  unfold kemPublicPart at hpk
  split at hpk
  case isFalse => exact nomatch hpk
  case isTrue hsizes =>
    obtain rfl := Except.ok.inj hpk
    obtain ⟨ssX, ssPq, hagree, hkem, hctX, hkey⟩ := kemEncapsulate_eq_ok he
    have hfits : ¬ (e.ctX.val.length ≠ sk.id.parameters.xKeySize ∨
        e.ctPq.val.length ≠ kemCiphertextSize sk.id) :=
      not_or.mpr ⟨not_not.mpr e.ctX.property, not_not.mpr e.ctPq.property⟩
    have hsame : b.xAgree sk.id sk.xSk e.ctX.val = some ssX := by
      rw [hctX]
      exact (b.xAgree_comm _ _ _).trans hagree
    have hsecret : b.kemDecrypt sk.id sk.pqSeed e.ctPq.val = some ssPq :=
      b.kemDecrypt_eq _ _ _ _ _ hkem
    unfold kemDecapsulate
    rw [if_pos hsizes, if_neg hfits, hsame, hsecret, hkey]
    rfl

/-! ## `hybrid_ciphertext` -/

structure HybridCiphertext where
  version : FixedInt uint16
  id : Suite
  ctX : Octets
  ctPq : Octets
  iv : Octets
  encrypted : Octets
  tag : Octets
deriving DecidableEq

namespace HybridCiphertext

def val (ct : HybridCiphertext) : hybridCiphertextSchema.Val :=
  (ct.version, ct.id.wire, ct.ctX, ct.ctPq, ct.iv, ct.encrypted, ct.tag, ())

/-- The members behind the suite. -/
def partsSchema : Schema .type :=
  [.prim .octets, .prim .octets, .prim .octets, .prim .octets, .prim .octets].foldr
    .fields .nothing

def decode : Dec hybridCiphertextSchema.Val :=
  inSequence (amp (both ((Schema.prim (.int uint16)).deserialise ())
    (both suiteDeserialise (partsSchema.deserialise ()))))

def ofVal (v : hybridCiphertextSchema.Val) : HybridCiphertext :=
  ⟨v.1, suiteOfWire v.2.1, v.2.2.1, v.2.2.2.1, v.2.2.2.2.1, v.2.2.2.2.2.1, v.2.2.2.2.2.2.1⟩

/-- `asn_der_serialise`. -/
def save (ct : HybridCiphertext) : Except CryptoError Octets :=
  (asnDerSerialise hybridCiphertextSchema ct.val).mapError .serialisation

/-- `asn_der_deserialise<hybrid_ciphertext>`. -/
def load (data : Octets) : Except Serialisation.Error HybridCiphertext :=
  (deserialiseAs decode data).map ofVal

theorem ofVal_val (ct : HybridCiphertext) : ofVal ct.val = ct := by
  have hsuite : suiteOfWire ct.id.wire = ct.id := by
    cases ct.id <;> rfl
  unfold ofVal val
  dsimp only
  rw [hsuite]

variable {ct : HybridCiphertext} {b : Octets}

theorem save_eq_ok (h : ct.save = .ok b) :
    ∃ t', hybridCiphertextSchema.encoding ct.val none = .ok (b, t') := by
  rw [save, asnDerSerialise_eq] at h
  cases henc : hybridCiphertextSchema.encoding ct.val none with
  | error e =>
      rw [henc] at h
      exact nomatch h
  | ok r =>
      rw [henc] at h
      obtain rfl : r.1 = b := Except.ok.inj h
      exact ⟨r.2, rfl⟩

/-! ### What was saved is loaded -/

/-- The element of a value: its size, and that no tag is left for the next. -/
theorem length_of_prim {p : Prim} (hplain : (Schema.prim p).IsPlain = true) {v : p.Val} {n : Nat}
    {t' : Option TagInfo} (h : (Schema.prim p).encoding v none = .ok (b, t')) (hsize : p.size v ≤ n)
    (hn : n ≤ maxStructureSize) : b.length ≤ 10 + n ∧ t' = none := by
  have hle : (Schema.prim p).size v ≤ 10 + p.size v := elementSize_le (p.size v)
  simp only [maxStructureSize] at hn
  have hsmall : (Schema.prim p).size v < 2 ^ 64 := by omega
  rw [Schema.length_encoding (.prim p) hplain h hsmall]
  exact ⟨by omega, Schema.pending_of_isPlain (.prim p) hplain h⟩

theorem octets_length_le {v : Octets} {t' : Option TagInfo}
    (h : (Schema.prim .octets).encoding v none = .ok (b, t')) :
    b.length ≤ 10 + maxStructureSize ∧ t' = none :=
  length_of_prim rfl h (octets_le h) le_rfl

theorem uint16_length_le {v : FixedInt uint16} {t' : Option TagInfo}
    (h : (Schema.prim (.int uint16)).encoding v none = .ok (b, t')) :
    b.length ≤ 10 + 3 ∧ t' = none := by
  obtain ⟨c, hc, -, hlen, -⟩ := encodeInteger_spec v
  have hcontent : (Prim.int uint16).content v = .ok c := hc
  refine length_of_prim rfl h ?_ (by decide)
  rw [Prim.size_eq hcontent]
  exact hlen

theorem body_length_le {ct : HybridCiphertext} {t' : Option TagInfo}
    (h : (Schema.fields (.prim (.int uint16)) (.fields (.prim (.int uint16)) partsSchema)).encoding
      ct.val none = .ok (b, t')) : b.length ≤ maxConstructedSize := by
  obtain ⟨b₁, t₁, r₁, h₁, hr₁, rfl⟩ := Encoding.seq_eq_ok.mp h
  obtain ⟨hversion, rfl⟩ := uint16_length_le h₁
  obtain ⟨b₂, t₂, r₂, h₂, hr₂, rfl⟩ := Encoding.seq_eq_ok.mp hr₁
  obtain ⟨hsuite, rfl⟩ := uint16_length_le h₂
  obtain ⟨b₃, t₃, r₃, h₃, hr₃, rfl⟩ := Encoding.seq_eq_ok.mp hr₂
  obtain ⟨hctX, rfl⟩ := octets_length_le h₃
  obtain ⟨b₄, t₄, r₄, h₄, hr₄, rfl⟩ := Encoding.seq_eq_ok.mp hr₃
  obtain ⟨hctPq, rfl⟩ := octets_length_le h₄
  obtain ⟨b₅, t₅, r₅, h₅, hr₅, rfl⟩ := Encoding.seq_eq_ok.mp hr₄
  obtain ⟨hiv, rfl⟩ := octets_length_le h₅
  obtain ⟨b₆, t₆, r₆, h₆, hr₆, rfl⟩ := Encoding.seq_eq_ok.mp hr₅
  obtain ⟨hencrypted, rfl⟩ := octets_length_le h₆
  obtain ⟨b₇, t₇, r₇, h₇, hr₇, rfl⟩ := Encoding.seq_eq_ok.mp hr₆
  obtain ⟨htag, rfl⟩ := octets_length_le h₇
  have hlast : r₇ = [] := (Prod.mk.inj (Except.ok.inj hr₇)).1.symm
  rw [hlast]
  simp only [List.length_append, List.length_nil, maxStructureSize, maxConstructedSize] at *
  omega

/-- Whatever was saved is loaded again. -/
theorem load_of_save (h : ct.save = .ok b) : load b = .ok ct := by
  obtain ⟨t', henc⟩ := save_eq_ok h
  obtain ⟨content, hc, rfl⟩ := Encoding.sequence_eq_ok.mp henc
  have hlen := body_length_le hc
  have haccepts : Accepts decode (· = ct.val) (maxStructureDepth - 1 + 1)
      (element (getIdent none AsnTag.sequence) true content) ⟨[], .endOfOctets⟩ none none := by
    refine .inSequence (.amp ?_) hlen
    refine Schema.accepts_plain_fields rfl hc hlen (Nat.zero_le _) (by decide) (fun _ => trivial)
      trivial fun b₂ h₂ hle₂ => ?_
    refine Schema.accepts_fields h₂ hle₂ (fun b₃ t₃ b₄ h₃ _ hle₃ _ => ?_) fun b₄ h₄ hle₄ => ?_
    · exact ⟨Schema.pending_of_isPlain (.prim (.int uint16)) rfl h₃,
        suiteDeserialise_accepts h₃ hle₃ (by decide)⟩
    · exact Schema.accepts_of_isPlain rfl h₄ hle₄ (by decide) (by decide)
        ⟨trivial, trivial, trivial, trivial, trivial, trivial⟩
        ⟨trivial, trivial, trivial, trivial, trivial, trivial⟩
  obtain ⟨v, d, hrun, rfl⟩ := Accepts.ofOctets haccepts.amp
  rw [load, deserialiseAs, hrun]
  show Except.ok (ofVal ct.val) = _
  rw [ofVal_val]

end HybridCiphertext

/-! ## Keys -/

section Keys

variable [Primitives]

/-- What the generator gives while something is encrypted for a key. -/
structure EncryptDraws where
  ephemeral : Octets
  kem : Octets
  iv : Sized aesGcmIvSize

/-- The KEM halves of a public key. -/
def kemPublicKey (k : KeyContent) : KemPublicKey := ⟨k.suite, k.kemXPk, k.kemPqPk⟩

/-- `public_key::encrypt`. -/
def PublicKey.encrypt (b : Botan) (pk : PublicKey) (draws : EncryptDraws) (plain : Octets) :
    Except CryptoError Octets :=
  if pk.content.isValid then do
    let enc ← kemEncapsulate b (kemPublicKey pk.content) draws.ephemeral draws.kem
    let buf := b.gcm enc.key.val draws.iv.val pk.id.val plain
    let ct : HybridCiphertext := {
      version := .cast uint16 1
      id := pk.content.suite
      ctX := enc.ctX.val
      ctPq := enc.ctPq.val
      iv := draws.iv.val
      encrypted := buf.take (buf.length - aesGcmTagSize)
      tag := buf.drop (buf.length - aesGcmTagSize) }
    ct.save
  else .error .invalidKey

/-- `private_key_impl`. -/
structure PrivateKeyImpl where
  suite : Suite
  publicKey : PublicKey
  sigSeed : Octets
  kemXSk : Octets
  kemPqSeed : Octets

/-- `parse_ciphertext`. -/
def parseCiphertext (cipher : Octets) (expected : Suite) : Except CryptoError HybridCiphertext :=
  match HybridCiphertext.load cipher with
  | .error _ => .error .badCiphertext
  | .ok ct =>
      if ct.version ≠ .cast uint16 1 then .error .badCiphertext
      else if ct.id ≠ expected then .error .badCiphertext
      else if ct.iv.length ≠ aesGcmIvSize ∨ ct.tag.length ≠ aesGcmTagSize then
        .error .badCiphertext
      else .ok ct

/-- `open`. -/
def openCiphertext (b : Botan) (key : Sized kemKeySize) (id : Octets) (ct : HybridCiphertext) :
    Except CryptoError Octets :=
  match b.gcmOpen key.val ct.iv id (ct.encrypted ++ ct.tag) with
  | some plain => .ok plain
  | none => .error .badCiphertext

namespace PrivateKeyImpl

/-- The constructor, with `make_public_key`; `sig` is what the new key signs its public
key with. -/
def make (b : Botan) (s : Suite) (sigSeed : Octets) (kem : KemPrivateKey) (sig : Signature) :
    Except CryptoError PrivateKeyImpl :=
  if sigSeed.length ≠ sigSeedSize then .error .invalidKey
  else do
    let pk ← kemPublicPart b kem
    let content : KeyContent := {
      version := .cast uint16 2
      suite := s
      sigPk := textOf (b.sigPublic s sigSeed) (sigPublicSize_le s)
      kemXPk := pk.xPk
      kemPqPk := pk.pqPk
      certificateIds := ⟨[], CertificateIds.nil_sorted⟩
      sig := sig
      trailing := [] }
    .ok ⟨s, ⟨content, content.constructId, fun _ => rfl⟩, sigSeed, kem.xSk, kem.pqSeed⟩

/-- `is_valid`. -/
def isValid (sk : PrivateKeyImpl) : Bool :=
  sk.sigSeed.length = sigSeedSize ∧ sk.kemXSk.length = sk.suite.parameters.xKeySize ∧
    sk.kemPqSeed.length = kemSeedSize ∧ sk.publicKey.content.isValid = true ∧
      sk.publicKey.content.suite = sk.suite

/-- `decapsulate`. -/
def decapsulate (b : Botan) (sk : PrivateKeyImpl) (ctX ctPq : Octets) :
    Except CryptoError (Sized kemKeySize) :=
  if sk.isValid then kemDecapsulate b ⟨sk.suite, sk.kemXSk, sk.kemPqSeed⟩ ctX ctPq
  else .error .invalidKey

/-- `private_key::id`. -/
def id (sk : PrivateKeyImpl) : PublicKeyId := sk.publicKey.id

/-- `private_key::decrypt`. -/
def decrypt (b : Botan) (sk : PrivateKeyImpl) (cipher : Octets) : Except CryptoError Octets := do
  let ct ← parseCiphertext cipher sk.suite
  let key ← sk.decapsulate b ct.ctX ct.ctPq
  openCiphertext b key sk.id.val ct

/-- The material of the public key is that of the private key. -/
structure Paired (b : Botan) (sk : PrivateKeyImpl) : Prop where
  isValid : sk.publicKey.content.isValid = true → sk.isValid = true
  publicPart : sk.publicKey.content.isValid = true →
    kemPublicPart b ⟨sk.suite, sk.kemXSk, sk.kemPqSeed⟩ =
      .ok (kemPublicKey sk.publicKey.content)

variable {b : Botan} {s : Suite} {sigSeed : Octets} {kem : KemPrivateKey} {sig : Signature}
  {sk : PrivateKeyImpl}

omit [Primitives] in
theorem suite_eq_of_xKeySize {s s' : Suite} (h : s.parameters.xKeySize = s'.parameters.xKeySize) :
    s = s' := by
  cases s <;> cases s' <;> first | rfl | exact absurd h (by decide)

/-- The constructor pairs the keys. Where it was given the halves of another suite, the
public key is not valid. -/
theorem paired_of_make (h : make b s sigSeed kem sig = .ok sk) : sk.Paired b := by
  unfold make at h
  split at h
  case isTrue => exact nomatch h
  case isFalse hseed =>
    cases hpart : kemPublicPart b kem with
    | error e =>
        rw [hpart] at h
        exact nomatch h
    | ok pk =>
        rw [hpart] at h
        obtain rfl := Except.ok.inj h
        unfold kemPublicPart at hpart
        split at hpart
        case isFalse => exact nomatch hpart
        case isTrue hsizes =>
          obtain rfl := Except.ok.inj hpart
          have hkem := of_decide_eq_true hsizes
          -- a valid public key has halves of its own suite
          have hsuite (hx : (b.xPublic kem.id kem.xSk).val.length = s.parameters.xKeySize) :
              kem.id = s :=
            suite_eq_of_xKeySize ((b.xPublic kem.id kem.xSk).property.symm.trans hx)
          constructor
          · intro hvalid
            obtain rfl := hsuite (of_decide_eq_true hvalid).2.1
            exact decide_eq_true ⟨not_not.mp hseed, hkem.1, hkem.2, hvalid, rfl⟩
          · intro hvalid
            obtain rfl := hsuite (of_decide_eq_true hvalid).2.1
            unfold kemPublicPart
            rw [if_pos hsizes]
            rfl

end PrivateKeyImpl

/-- The same key, perhaps with other certificates and another signature. -/
structure SameMaterial (k k' : KeyContent) : Prop where
  suite : k.suite = k'.suite
  sigPk : k.sigPk = k'.sigPk
  kemXPk : k.kemXPk = k'.kemXPk
  kemPqPk : k.kemPqPk = k'.kemPqPk

namespace SameMaterial

variable {k k' : KeyContent}

omit [Primitives] in
theorem isValid_eq (h : SameMaterial k k') : k.isValid = k'.isValid := by
  unfold KeyContent.isValid
  rw [h.suite, h.sigPk, h.kemXPk, h.kemPqPk]

omit [Primitives] in
theorem kemPublicKey_eq (h : SameMaterial k k') : kemPublicKey k = kemPublicKey k' := by
  unfold kemPublicKey
  rw [h.suite, h.kemXPk, h.kemPqPk]

/-- The id depends on the material only. -/
theorem id_eq {pk pk' : PublicKey} (h : SameMaterial pk.content pk'.content)
    (hvalid : pk.content.isValid = true) : pk.id = pk'.id := by
  rw [pk.id_eq hvalid, pk'.id_eq (h.isValid_eq ▸ hvalid)]
  unfold KeyContent.constructId KeyContent.idContent
  rw [h.suite, h.sigPk, h.kemXPk, h.kemPqPk]

end SameMaterial

/-! ## Opening what was sealed -/

namespace PrivateKeyImpl

variable {b : Botan} {sk : PrivateKeyImpl}

/-- Everything that `decrypt` asks of a ciphertext: it is an AES-256-GCM encryption of
`plain` under the encapsulated key, for this key. -/
structure Opens (b : Botan) (sk : PrivateKeyImpl) (cipher : Octets) (ct : HybridCiphertext)
    (key : Sized kemKeySize) (plain : Octets) : Prop where
  loaded : HybridCiphertext.load cipher = .ok ct
  version : ct.version = .cast uint16 1
  suite : ct.id = sk.suite
  iv : ct.iv.length = aesGcmIvSize
  tag : ct.tag.length = aesGcmTagSize
  decapsulated : sk.decapsulate b ct.ctX ct.ctPq = .ok key
  length : plain.length = ct.encrypted.length
  text : b.gcm key.val ct.iv sk.id.val plain = ct.encrypted ++ ct.tag

omit [Primitives] in
theorem parseCiphertext_eq_ok {cipher : Octets} {s : Suite} {ct : HybridCiphertext} :
    parseCiphertext cipher s = .ok ct ↔ HybridCiphertext.load cipher = .ok ct ∧
      ct.version = .cast uint16 1 ∧ ct.id = s ∧ ct.iv.length = aesGcmIvSize ∧
      ct.tag.length = aesGcmTagSize := by
  unfold parseCiphertext
  cases hload : HybridCiphertext.load cipher with
  | error e => simp
  | ok ct' =>
      dsimp only
      split_ifs with hversion hsuite hsizes
      · exact ⟨nofun, fun ⟨h, h', _⟩ => absurd (Except.ok.inj h ▸ h') hversion⟩
      · exact ⟨nofun, fun ⟨h, _, h', _⟩ => absurd (Except.ok.inj h ▸ h') hsuite⟩
      · exact ⟨nofun, fun ⟨h, _, _, hiv, htag⟩ =>
          (hsizes.elim (absurd (Except.ok.inj h ▸ hiv)) (absurd (Except.ok.inj h ▸ htag)))⟩
      · obtain ⟨hiv, htag⟩ := not_or.mp hsizes
        constructor
        · intro h
          obtain rfl := Except.ok.inj h
          exact ⟨rfl, not_not.mp hversion, not_not.mp hsuite, not_not.mp hiv, not_not.mp htag⟩
        · rintro ⟨h, -⟩
          rw [Except.ok.inj h]

omit [Primitives] in
theorem openCiphertext_eq_ok {key : Sized kemKeySize} {id : Octets} {ct : HybridCiphertext}
    {plain : Octets} (hiv : ct.iv.length = aesGcmIvSize) (htag : ct.tag.length = aesGcmTagSize) :
    openCiphertext b key id ct = .ok plain ↔
      plain.length = ct.encrypted.length ∧
        b.gcm key.val ct.iv id plain = ct.encrypted ++ ct.tag := by
  have hlaw := b.gcmOpen_eq_some key.val ct.iv id (ct.encrypted ++ ct.tag) plain key.property hiv
  rw [List.length_append, htag, Nat.add_right_cancel_iff] at hlaw
  rw [← hlaw]
  unfold openCiphertext
  cases b.gcmOpen key.val ct.iv id (ct.encrypted ++ ct.tag) <;> simp

theorem decrypt_eq_ok {cipher plain : Octets} :
    sk.decrypt b cipher = .ok plain ↔ ∃ ct key, sk.Opens b cipher ct key plain := by
  unfold decrypt
  constructor
  · intro h
    cases hparse : parseCiphertext cipher sk.suite with
    | error e =>
        rw [hparse] at h
        exact nomatch h
    | ok ct =>
        rw [hparse] at h
        cases hkey : sk.decapsulate b ct.ctX ct.ctPq with
        | error e =>
            have h : (sk.decapsulate b ct.ctX ct.ctPq >>= _) = _ := h
            rw [hkey] at h
            exact nomatch h
        | ok key =>
            have h : (sk.decapsulate b ct.ctX ct.ctPq >>= _) = _ := h
            rw [hkey] at h
            obtain ⟨hload, hversion, hsuite, hiv, htag⟩ := parseCiphertext_eq_ok.mp hparse
            obtain ⟨hlength, htext⟩ := (openCiphertext_eq_ok hiv htag).mp h
            exact ⟨ct, key, hload, hversion, hsuite, hiv, htag, hkey, hlength, htext⟩
  · rintro ⟨ct, key, h⟩
    have hparse : parseCiphertext cipher sk.suite = .ok ct :=
      parseCiphertext_eq_ok.mpr ⟨h.loaded, h.version, h.suite, h.iv, h.tag⟩
    rw [hparse]
    show (sk.decapsulate b ct.ctX ct.ctPq >>= _) = _
    rw [h.decapsulated]
    exact (openCiphertext_eq_ok h.iv h.tag).mpr ⟨h.length, h.text⟩

omit [Primitives] in
/-- A cipher text and a tag behind it, taken apart. -/
theorem sealed_parts {buf encrypted tag : Octets} (h : buf = encrypted ++ tag)
    (htag : tag.length = aesGcmTagSize) :
    buf.take (buf.length - aesGcmTagSize) = encrypted ∧
      buf.drop (buf.length - aesGcmTagSize) = tag := by
  have hlength : buf.length - aesGcmTagSize = encrypted.length := by
    rw [h, List.length_append, htag, Nat.add_sub_cancel]
  rw [hlength, h]
  exact ⟨List.take_left, List.drop_left⟩

omit [Primitives] in
theorem save_of_lengths {ct : HybridCiphertext} (hctX : ct.ctX.length ≤ maxStructureSize)
    (hctPq : ct.ctPq.length ≤ maxStructureSize) (hiv : ct.iv.length ≤ maxStructureSize)
    (hencrypted : ct.encrypted.length ≤ maxStructureSize)
    (htag : ct.tag.length ≤ maxStructureSize) : ∃ cipher, ct.save = .ok cipher := by
  have hsavable : hybridCiphertextSchema.Savable ct.val :=
    ⟨Schema.savable_int _, Schema.savable_int _, Schema.savable_octets hctX,
      Schema.savable_octets hctPq, Schema.savable_octets hiv, Schema.savable_octets hencrypted,
      Schema.savable_octets htag, trivial⟩
  obtain ⟨cipher, hcipher⟩ := Schema.asnDerSerialise_of_savable hsavable
  exact ⟨cipher, by rw [HybridCiphertext.save, hcipher]; rfl⟩

/-- `encrypt` returns where Botan takes the halves of the key. -/
theorem encrypt_returns {pk : PublicKey} (hvalid : pk.content.isValid = true)
    {draws : EncryptDraws} {enc : KemEncapsulation pk.content.suite}
    (henc : kemEncapsulate b (kemPublicKey pk.content) draws.ephemeral draws.kem = .ok enc)
    {plain : Octets} (hplain : plain.length ≤ maxStructureSize) :
    ∃ cipher, PublicKey.encrypt b pk draws plain = .ok cipher := by
  have hsmall : maxStructureSize ≤ aesGcmMaxDataSize := by decide
  obtain ⟨tag, htag, hgcm⟩ := b.gcm_eq enc.key.val draws.iv.val pk.id.val plain
    enc.key.property draws.iv.property (hplain.trans hsmall)
  obtain ⟨hencrypted, hbehind⟩ := sealed_parts hgcm htag
  have hctX : enc.ctX.val.length ≤ maxStructureSize := enc.ctX.property.le.trans (xKeySize_le _)
  have hctPq : enc.ctPq.val.length ≤ maxStructureSize := by
    rw [enc.ctPq.property]
    cases pk.content.suite <;> decide
  have hiv : draws.iv.val.length ≤ maxStructureSize := by
    rw [draws.iv.property]
    decide
  unfold PublicKey.encrypt
  rw [if_pos hvalid, henc]
  refine save_of_lengths hctX hctPq hiv ?_ ?_
  · refine ((congrArg List.length hencrypted).trans (Keystream.length_apply ..)).le.trans hplain
  · refine ((congrArg List.length hbehind).trans htag).le.trans ?_
    decide

/-- What `encrypt` gives for a public key is opened by its private key. -/
theorem decrypt_encrypt (hpaired : sk.Paired b) {pk : PublicKey}
    (hsame : SameMaterial pk.content sk.publicKey.content) {draws : EncryptDraws}
    {plain cipher : Octets} (hplain : plain.length ≤ aesGcmMaxDataSize)
    (h : PublicKey.encrypt b pk draws plain = .ok cipher) : sk.decrypt b cipher = .ok plain := by
  unfold PublicKey.encrypt at h
  split at h
  case isFalse => exact nomatch h
  case isTrue hvalid =>
    have hvalid' : sk.publicKey.content.isValid = true := hsame.isValid_eq ▸ hvalid
    have hpublic := hpaired.publicPart hvalid'
    have hisValid := hpaired.isValid hvalid'
    rw [← hsame.kemPublicKey_eq] at hpublic
    cases henc : kemEncapsulate b (kemPublicKey pk.content) draws.ephemeral draws.kem with
    | error e =>
        rw [henc] at h
        exact nomatch h
    | ok enc =>
        rw [henc] at h
        obtain ⟨tag, htag, hgcm⟩ := b.gcm_eq enc.key.val draws.iv.val pk.id.val plain
          enc.key.property draws.iv.property hplain
        obtain ⟨hencrypted, hbehind⟩ := sealed_parts hgcm htag
        have hsave : HybridCiphertext.save _ = .ok cipher := h
        have hsuite : pk.content.suite = sk.suite :=
          hsame.suite.trans (of_decide_eq_true hisValid).2.2.2.2
        refine decrypt_eq_ok.mpr ⟨_, enc.key, HybridCiphertext.load_of_save hsave, rfl, hsuite,
          draws.iv.property, ?_, ?_, ?_, ?_⟩
        · exact (congrArg List.length hbehind).trans htag
        · unfold decapsulate
          rw [if_pos hisValid]
          exact kemDecapsulate_kemEncapsulate hpublic henc
        · exact ((congrArg List.length hencrypted).trans (Keystream.length_apply ..)).symm
        · rw [id, ← hsame.id_eq hvalid]
          exact (List.take_append_drop _ _).symm

omit [Primitives] in
theorem parseCiphertext_refuses {cipher : Octets} {s : Suite} {e : CryptoError}
    (h : parseCiphertext cipher s = .error e) : e = .badCiphertext := by
  unfold parseCiphertext at h
  split at h
  · exact (Except.error.inj h).symm
  · split_ifs at h <;> exact (Except.error.inj h).symm

theorem decapsulate_refuses (hvalid : sk.isValid = true) {ctX ctPq : Octets} {e : CryptoError}
    (h : sk.decapsulate b ctX ctPq = .error e) : e = .badCiphertext := by
  obtain ⟨-, hx, hseed, -⟩ := of_decide_eq_true hvalid
  have hsizes : KemPrivateKey.sizesOk ⟨sk.suite, sk.kemXSk, sk.kemPqSeed⟩ = true :=
    decide_eq_true ⟨hx, hseed⟩
  unfold decapsulate kemDecapsulate at h
  rw [if_pos hvalid, if_pos hsizes] at h
  split_ifs at h
  · exact (Except.error.inj h).symm
  · split at h
    · exact nomatch h
    · exact (Except.error.inj h).symm

omit [Primitives] in
theorem openCiphertext_refuses {key : Sized kemKeySize} {id : Octets} {ct : HybridCiphertext}
    {e : CryptoError} (h : openCiphertext b key id ct = .error e) : e = .badCiphertext := by
  unfold openCiphertext at h
  split at h
  · exact nomatch h
  · exact (Except.error.inj h).symm

/-- A valid key refuses with `bad_ciphertext` only. -/
theorem decrypt_refuses (hvalid : sk.isValid = true) {cipher : Octets} {e : CryptoError}
    (h : sk.decrypt b cipher = .error e) : e = .badCiphertext := by
  unfold decrypt at h
  cases hparse : parseCiphertext cipher sk.suite with
  | error e' =>
      rw [hparse] at h
      obtain rfl := Except.error.inj h
      exact parseCiphertext_refuses hparse
  | ok ct =>
      rw [hparse] at h
      have h : (sk.decapsulate b ct.ctX ct.ctPq >>= fun key => openCiphertext b key _ ct) = _ := h
      cases hkey : sk.decapsulate b ct.ctX ct.ctPq with
      | error e' =>
          rw [hkey] at h
          obtain rfl := Except.error.inj h
          exact decapsulate_refuses hvalid hkey
      | ok key =>
          rw [hkey] at h
          exact openCiphertext_refuses h

end PrivateKeyImpl

end Keys

/-! ## A key -/

namespace ConstantKeys

attribute [local instance] OneLink.primitives

open LargePayload (zeros)

/-- The text with ones for keystream, and a constant tag. -/
def gcm (plain : Octets) : Octets := Keystream.apply (fun _ => 1) 0 plain ++ (zeros 16).val

def gcmOpen (buf : Octets) : Option Octets :=
  let plain := Keystream.apply (fun _ => 1) 0 (buf.take (buf.length - 16))
  if gcm plain = buf then some plain else none

theorem gcmOpen_eq_some (buf plain : Octets) :
    gcmOpen buf = some plain ↔ plain.length + 16 = buf.length ∧ gcm plain = buf := by
  unfold gcmOpen
  dsimp only
  constructor
  · intro h
    split_ifs at h with heq
    obtain rfl := Option.some.inj h
    refine ⟨?_, heq⟩
    have hlength := congrArg List.length heq
    rw [gcm, List.length_append, (zeros 16).property, Keystream.length_apply] at hlength
    exact hlength
  · rintro ⟨-, rfl⟩
    have hlength : (gcm plain).length - 16 = (Keystream.apply (fun _ => 1) 0 plain).length := by
      rw [gcm, List.length_append, (zeros 16).property, Nat.add_sub_cancel]
    have htake : (gcm plain).take ((gcm plain).length - 16) =
        Keystream.apply (fun _ => 1) 0 plain := by
      rw [hlength]
      exact List.take_left
    rw [htake, Keystream.apply_apply, if_pos rfl]

/-- All keys agree on the same secret. -/
def botan : Botan where
  keystream _ _ _ := 1
  gcm _ _ _ plain := gcm plain
  gcm_eq _ _ _ _ _ _ _ := ⟨_, (zeros 16).property, rfl⟩
  sigPublic _ _ := zeros _
  xPublic _ _ := zeros _
  xAgree _ _ _ := some []
  kemPublic _ _ := zeros _
  kemEncrypt _ _ _ := some (zeros _, [])
  kemDecrypt _ _ _ := some []
  deriveKey _ _ := zeros _
  gcmOpen _ _ _ buf := gcmOpen buf
  xAgree_comm _ _ _ := rfl
  kemDecrypt_eq _ _ _ _ _ h := congrArg (fun r => r.map Prod.snd) h
  gcmOpen_eq_some _ _ _ buf plain _ _ := gcmOpen_eq_some buf plain

def kem : KemPrivateKey := ⟨.pq1, (zeros 32).val, (zeros 64).val⟩

theorem make_succeeds : ∃ sk, PrivateKeyImpl.make botan .pq1 (zeros 32).val kem OneLink.sig =
    .ok sk ∧ sk.publicKey.content.isValid = true :=
  ⟨_, rfl, decide_eq_true ⟨(zeros _).property, (zeros _).property, (zeros _).property⟩⟩

theorem encapsulates {k : KeyContent} (h : k.isValid = true) (ephemeral drawn : Octets) :
    kemEncapsulate botan (kemPublicKey k) ephemeral drawn = .ok ⟨zeros _, zeros _, zeros _⟩ := by
  have hsizes : (kemPublicKey k).sizesOk = true := decide_eq_true (of_decide_eq_true h).2
  unfold kemEncapsulate
  rw [if_pos hsizes]
  rfl

def draws : EncryptDraws := ⟨[], [], zeros _⟩

end ConstantKeys

namespace PrivateKeyImpl

section Sealed

variable [Primitives] {b : Botan} {sk : PrivateKeyImpl}

/-- A private key that its constructor made opens exactly the AES-256-GCM encryptions under
the key that is encapsulated for it, among them everything that `encrypt` gives for its
public key, and refuses everything else as a bad ciphertext. -/
theorem opens_what_was_sealed {s : Suite} {sigSeed : Octets} {kem : KemPrivateKey}
    {sig : Signature} (hmake : make b s sigSeed kem sig = .ok sk) :
    (∀ (pk : PublicKey) (draws : EncryptDraws) (plain cipher : Octets),
      SameMaterial pk.content sk.publicKey.content → plain.length ≤ aesGcmMaxDataSize →
        PublicKey.encrypt b pk draws plain = .ok cipher → sk.decrypt b cipher = .ok plain) ∧
    (∀ cipher plain, sk.decrypt b cipher = .ok plain ↔ ∃ ct key, sk.Opens b cipher ct key plain) ∧
    (sk.isValid = true → ∀ cipher,
      (∃ plain, sk.decrypt b cipher = .ok plain) ∨
        sk.decrypt b cipher = .error .badCiphertext) := by
  refine ⟨fun pk draws plain cipher hsame hplain h =>
    decrypt_encrypt (paired_of_make hmake) hsame hplain h, fun _ _ => decrypt_eq_ok, ?_⟩
  intro hvalid cipher
  cases hdecrypt : sk.decrypt b cipher with
  | ok plain => exact Or.inl ⟨plain, rfl⟩
  | error e =>
      obtain rfl := decrypt_refuses hvalid hdecrypt
      exact Or.inr rfl

end Sealed

section

attribute [local instance] OneLink.primitives

open ConstantKeys
open LargePayload (zeros)

theorem opens_what_was_sealed_octets : ∃ sk cipher,
    make botan .pq1 (zeros 32).val kem OneLink.sig = .ok sk ∧
      PublicKey.encrypt botan sk.publicKey draws [1, 2, 3] = .ok cipher ∧
      sk.decrypt botan cipher = .ok [1, 2, 3] := by
  obtain ⟨sk, hmake, hvalid⟩ := make_succeeds
  have hplain : ([1, 2, 3] : Octets).length ≤ maxStructureSize := by decide
  have hreturns : ∃ cipher, PublicKey.encrypt botan sk.publicKey draws [1, 2, 3] = .ok cipher :=
    encrypt_returns hvalid (encapsulates hvalid _ _) hplain
  obtain ⟨cipher, hcipher⟩ := hreturns
  exact ⟨sk, cipher, hmake, hcipher, (opens_what_was_sealed hmake).1 sk.publicKey draws [1, 2, 3]
    cipher ⟨rfl, rfl, rfl, rfl⟩ (by decide) hcipher⟩

end

end PrivateKeyImpl

end Securepath.PacketTransport
