import Securepath.Crypto.ChainValidation
import Securepath.Crypto.SignedContent

/-!
# Searching for a chain

`chain_builder` and `create_certificate_chain` (`crypto/certificate_chain.cpp`):
a search from the subject upwards through the certificates that the keys
reference. A step up needs a higher ca level, so the search ends whoever has
certified whom; the proofs are inductions on how far the level can still rise.
-/

namespace Securepath.Crypto

open Serialisation StateExcept

section Builder

variable [Primitives]

/-! ## The search -/

/-- How far the ca level can still rise above `last`. -/
def room : Option (FixedInt uint16) → Nat
  | none => 65537
  | some level => 65536 - level.val.toNat

/-- `!last_ca_level || *last_ca_level < ca_level`. -/
def Rises (last : Option (FixedInt uint16)) (caLevel : FixedInt uint16) : Prop :=
  ∀ l, last = some l → l.val < caLevel.val

instance (last : Option (FixedInt uint16)) (caLevel : FixedInt uint16) :
    Decidable (Rises last caLevel) :=
  match last with
  | none => .isTrue nofun
  | some l =>
      if h : l.val < caLevel.val then .isTrue fun _ h' => Option.some.inj h' ▸ h
      else .isFalse fun hr => h (hr l rfl)

omit [Primitives] in
theorem level_bounds (level : FixedInt uint16) : 0 ≤ level.val ∧ level.val ≤ 65535 := by
  have h := level.property
  simpa [IntType.min, IntType.max, IntType.bytes, IntWidth.bytes, uint16] using h

omit [Primitives] in
theorem room_lt {last : Option (FixedInt uint16)} {caLevel : FixedInt uint16}
    (h : Rises last caLevel) : room (some caLevel) < room last := by
  have hlevel := level_bounds caLevel
  cases last with
  | none =>
      simp only [room]
      omega
  | some l =>
      have hl := level_bounds l
      have hrise := h l rfl
      simp only [room]
      omega

/-- What the search has found: an exception, no chain, or a chain. -/
abbrev Found := Except Error (Option CertificateChain)

/-- Go on with `next` unless there is a chain or an exception. -/
def orElse (found : Found) (next : Found) : Found :=
  match found with
  | .ok none => next
  | _ => found

section Search

variable (keys : PublicKeyAccess) (certs : CertificateAccess)

/-- `try_complete`. -/
def tryComplete (cert : Certificate) (list : List KeyCertPair) : Found :=
  let cc : CertificateChain := ⟨cert.issuer, list.reverse⟩
  match cc.isAuthentic keys certs with
  | .error e => .error e
  | .ok true => .ok (some cc)
  | .ok false => .ok none

mutual

/-- `follow_issuer`. -/
def followIssuer (cert : Certificate) (caLevel : FixedInt uint16) (list : List KeyCertPair) :
    Found :=
  match keys.findRootKey cert.issuer with
  | some _ => tryComplete keys certs cert list
  | none =>
      match keys.find cert.issuer with
      | some key => buildList key (some caLevel) list
      | none => .ok none
termination_by (room (some caLevel), 3, 0)

/-- `consider`. -/
def consider (subject : PublicKey) (cert : Certificate) (last : Option (FixedInt uint16))
    (list : List KeyCertPair) : Found :=
  if cert.certificateType ≠ KeyCertificateData.typeId then .ok none
  else
    match cert.extract with
    | .error e => .error e
    | .ok keyCert =>
        if Rises last keyCert.caLevel then
          followIssuer cert keyCert.caLevel (list ++ [⟨subject, cert⟩])
        else
          .ok none
termination_by (room last, 0, 0)
decreasing_by exact Prod.Lex.left _ _ (room_lt ‹_›)

/-- `build_list`. -/
def buildList (subject : PublicKey) (last : Option (FixedInt uint16)) (list : List KeyCertPair) :
    Found :=
  buildLoop subject last list subject.content.certificateIds.ids
termination_by (room last, 2, 0)

/-- The loop of `build_list`, which stops at a chain. -/
def buildLoop (subject : PublicKey) (last : Option (FixedInt uint16)) (list : List KeyCertPair) :
    List CertificateId → Found
  | [] => .ok none
  | id :: ids =>
      orElse
        (match certs.find id with
          | some cert => consider subject cert last list
          | none => .ok none)
        (buildLoop subject last list ids)
termination_by ids => (room last, 1, ids.length)

end

/-- `create_certificate_chain`. -/
def createCertificateChain (subject : PublicKey) : Found := buildList keys certs subject none []

end Search

variable {keys : PublicKeyAccess} {certs : CertificateAccess} {subject : PublicKey}
  {cert : Certificate} {last : Option (FixedInt uint16)} {list : List KeyCertPair}
  {keyCert : KeyCertificateData}

/-! ## One step of the search -/

theorem orElse_eq_some {found next : Found} {c : CertificateChain}
    (h : orElse found next = .ok (some c)) : found = .ok (some c) ∨ next = .ok (some c) := by
  unfold orElse at h
  split at h
  · exact Or.inr h
  · exact Or.inl h

theorem consider_of_root {root : PublicKey}
    (htype : cert.certificateType = KeyCertificateData.typeId)
    (hextract : cert.extract = .ok keyCert) (hrises : Rises last keyCert.caLevel)
    (hroot : keys.findRootKey cert.issuer = some root) :
    consider keys certs subject cert last list =
      tryComplete keys certs cert (list ++ [⟨subject, cert⟩]) := by
  unfold consider followIssuer
  simp only [htype, hextract, hrises, hroot, ne_eq, not_true, if_false, if_true]

theorem consider_of_key {key : PublicKey}
    (htype : cert.certificateType = KeyCertificateData.typeId)
    (hextract : cert.extract = .ok keyCert) (hrises : Rises last keyCert.caLevel)
    (hroot : keys.findRootKey cert.issuer = none) (hkey : keys.find cert.issuer = some key) :
    consider keys certs subject cert last list =
      buildList keys certs key (some keyCert.caLevel) (list ++ [⟨subject, cert⟩]) := by
  unfold consider followIssuer
  simp only [htype, hextract, hrises, hroot, hkey, ne_eq, not_true, if_false, if_true]

/-- What `consider` can come to. -/
theorem consider_cases (keys : PublicKeyAccess) (certs : CertificateAccess) (subject : PublicKey)
    (cert : Certificate) (last : Option (FixedInt uint16)) (list : List KeyCertPair) :
    consider keys certs subject cert last list = .ok none ∨
    (cert.certificateType = KeyCertificateData.typeId ∧ ∃ e, cert.extract = .error e ∧
      consider keys certs subject cert last list = .error e) ∨
    (cert.certificateType = KeyCertificateData.typeId ∧ ∃ keyCert, cert.extract = .ok keyCert ∧
      Rises last keyCert.caLevel ∧
      (consider keys certs subject cert last list =
          tryComplete keys certs cert (list ++ [⟨subject, cert⟩]) ∨
        ∃ key, consider keys certs subject cert last list =
          buildList keys certs key (some keyCert.caLevel) (list ++ [⟨subject, cert⟩]))) := by
  by_cases htype : cert.certificateType = KeyCertificateData.typeId
  · cases hextract : cert.extract with
    | error e =>
        right
        left
        refine ⟨htype, e, rfl, ?_⟩
        unfold consider
        simp only [htype, hextract, ne_eq, not_true, if_false]
    | ok keyCert =>
        by_cases hrises : Rises last keyCert.caLevel
        · rcases Option.eq_none_or_eq_some (keys.findRootKey cert.issuer) with hroot | ⟨root, hroot⟩
          · rcases Option.eq_none_or_eq_some (keys.find cert.issuer) with hkey | ⟨key, hkey⟩
            · left
              unfold consider followIssuer
              simp only [htype, hextract, hrises, hroot, hkey, ne_eq, not_true, if_false, if_true]
            · right
              right
              exact ⟨htype, keyCert, rfl, hrises,
                Or.inr ⟨key, consider_of_key htype hextract hrises hroot hkey⟩⟩
          · right
            right
            exact ⟨htype, keyCert, rfl, hrises,
              Or.inl (consider_of_root htype hextract hrises hroot)⟩
        · left
          unfold consider
          simp only [htype, hextract, hrises, ne_eq, not_true, if_false]
  · left
    unfold consider
    simp only [htype, ne_eq, not_false_eq_true, if_true]

/-! ## What is found is authentic -/

theorem tryComplete_eq_some {c : CertificateChain}
    (h : tryComplete keys certs cert list = .ok (some c)) :
    c.isAuthentic keys certs = .ok true ∧ c.chain = list.reverse := by
  unfold tryComplete at h
  simp only at h
  split at h
  · cases h
  · rename_i hauthentic
    cases h
    exact ⟨hauthentic, rfl⟩
  · cases h

/-- A chain that is found is authentic, and `list` is its end. -/
theorem buildLoop_sound {n : Nat} {subject : PublicKey} {last : Option (FixedInt uint16)}
    {list : List KeyCertPair} {ids : List CertificateId} {c : CertificateChain}
    (hroom : room last < n) (h : buildLoop keys certs subject last list ids = .ok (some c)) :
    c.isAuthentic keys certs = .ok true ∧
      ∃ (cert : Certificate) (more : List KeyCertPair),
        c.chain = (list ++ ⟨subject, cert⟩ :: more).reverse := by
  induction n generalizing subject last list ids with
  | zero => omega
  | succ n ih =>
      induction ids with
      | nil =>
          unfold buildLoop at h
          cases h
      | cons id ids ihids =>
          unfold buildLoop at h
          rcases orElse_eq_some h with h | h
          · split at h
            · rename_i cert _
              rcases consider_cases keys certs subject cert last list with
                hc | ⟨-, e, -, hc⟩ | ⟨-, keyCert, -, hrises, hc | ⟨key, hc⟩⟩
              · cases hc.symm.trans h
              · cases hc.symm.trans h
              · rcases tryComplete_eq_some (hc.symm.trans h) with ⟨hauthentic, hchain⟩
                exact ⟨hauthentic, cert, [], hchain⟩
              · have hfound := hc.symm.trans h
                unfold buildList at hfound
                have hless := room_lt hrises
                rcases ih (by omega) hfound with ⟨hauthentic, cert', more, hchain⟩
                refine ⟨hauthentic, cert, ⟨key, cert'⟩ :: more, ?_⟩
                rw [hchain, List.append_assoc, List.singleton_append]
            · cases h
          · exact ihids h

/-! ## Nothing is thrown -/

/-- The data of every key certificate of the store decodes. -/
def Decodes (certs : CertificateAccess) : Prop :=
  ∀ id cert, certs.find id = some cert → cert.certificateType = KeyCertificateData.typeId →
    ∃ keyCert, cert.extract = .ok keyCert

theorem checkLink_ne_error {v : ChainVerify} {e : KeyCertPair}
    (h : ∃ keyCert, e.cert.extract = .ok keyCert) (err : Error) :
    checkLink v e.subject e.cert ≠ .error err := by
  rcases h with ⟨keyCert, hk⟩
  unfold checkLink
  split
  · nofun
  · rw [hk]
    simp only
    split
    · nofun
    · nofun

theorem checkChain_ne_error {v : ChainVerify} {es : List KeyCertPair}
    (h : ∀ e ∈ es, ∃ keyCert, e.cert.extract = .ok keyCert) :
    ∃ b, ChainVerify.checkChain certs es v = .ok b := by
  induction es generalizing v with
  | nil => exact ⟨true, rfl⟩
  | cons e es ih =>
      unfold ChainVerify.checkChain
      split
      · rename_i err herr
        unfold ChainVerify.checkChainElement at herr
        split at herr
        · rename_i hlink
          exact absurd hlink (checkLink_ne_error (h e (List.mem_cons_self ..)) _)
        · cases herr
        · cases herr
      · exact ⟨false, rfl⟩
      · exact ih fun e' he' => h e' (List.mem_cons_of_mem _ he')

theorem tryComplete_ok (h : ∀ e ∈ list, ∃ keyCert, e.cert.extract = .ok keyCert) :
    ∃ r, tryComplete keys certs cert list = .ok r := by
  have hauthentic : ∃ b, (⟨cert.issuer, list.reverse⟩ : CertificateChain).isAuthentic keys certs =
      .ok b := by
    unfold CertificateChain.isAuthentic
    split
    · exact ⟨false, rfl⟩
    · split
      · exact ⟨false, rfl⟩
      · split
        · exact ⟨false, rfl⟩
        · exact checkChain_ne_error fun e he => h e (List.mem_reverse.mp he)
  rcases hauthentic with ⟨b, hb⟩
  unfold tryComplete
  simp only [hb]
  cases b with
  | false => exact ⟨_, rfl⟩
  | true => exact ⟨_, rfl⟩

theorem orElse_ok {found next : Found} (h : ∃ r, found = .ok r) (h' : ∃ r, next = .ok r) :
    ∃ r, orElse found next = .ok r := by
  rcases h with ⟨r, rfl⟩
  cases r with
  | none => exact h'
  | some c => exact ⟨_, rfl⟩

theorem buildLoop_ok (hdecodes : Decodes certs) {n : Nat} {subject : PublicKey}
    {last : Option (FixedInt uint16)} {list : List KeyCertPair} {ids : List CertificateId}
    (hroom : room last < n) (hlist : ∀ e ∈ list, ∃ keyCert, e.cert.extract = .ok keyCert) :
    ∃ r, buildLoop keys certs subject last list ids = .ok r := by
  induction n generalizing subject last list ids with
  | zero => omega
  | succ n ih =>
      induction ids with
      | nil =>
          unfold buildLoop
          exact ⟨_, rfl⟩
      | cons id ids ihids =>
          unfold buildLoop
          refine orElse_ok ?_ ihids
          split
          · rename_i cert hfind
            rcases consider_cases keys certs subject cert last list with
              hc | ⟨htype, e, he, -⟩ | ⟨-, keyCert, hextract, hrises, hc⟩
            · exact ⟨_, hc⟩
            · rcases hdecodes id cert hfind htype with ⟨k, hk⟩
              cases hk.symm.trans he
            · have hlist' : ∀ e ∈ list ++ [⟨subject, cert⟩], ∃ k, e.cert.extract = .ok k := by
                intro e he
                rcases List.mem_append.mp he with he | he
                · exact hlist e he
                · obtain rfl := List.mem_singleton.mp he
                  exact ⟨keyCert, hextract⟩
              rcases hc with hc | ⟨key, hc⟩
              · rw [hc]
                exact tryComplete_ok hlist'
              · rw [hc]
                unfold buildList
                have hless := room_lt hrises
                exact ih (by omega) hlist'
          · exact ⟨_, rfl⟩

/-! ## Keys with one id -/

/-- The same material, whatever the keys reference. -/
def SameMaterial (k k' : PublicKey) : Prop :=
  k.content.suite = k'.content.suite ∧ k.content.sigPk = k'.content.sigPk ∧
    k.content.kemXPk = k'.content.kemXPk ∧ k.content.kemPqPk = k'.content.kemPqPk

theorem SameMaterial.verify {k k' : PublicKey} (h : SameMaterial k k') (sig : Signature)
    (data context : Octets) : k.verify sig data context = k'.verify sig data context := by
  rcases h with ⟨hsuite, hsig, hx, hpq⟩
  unfold PublicKey.verify KeyContent.verifyFramed KeyContent.isValid
  rw [hsuite, hsig, hx, hpq]

theorem SameMaterial.isRevoked {k k' : PublicKey} (h : SameMaterial k k') (c : Certificate) :
    c.isRevoked k = c.isRevoked k' := by
  unfold Certificate.isRevoked CertificateRevocation.verifyMe
  simp only [h.verify]

theorem SameMaterial.isAuthentic {k k' : PublicKey} (h : SameMaterial k k') (c : Certificate) :
    c.isAuthentic k = c.isAuthentic k' := by
  unfold Certificate.isAuthentic Certificate.verifyMe
  rw [h.verify, h.isRevoked]

/-- No key of the store is another one than a root key and has its digest. -/
def NoSecondPreimage (keys : PublicKeyAccess) : Prop :=
  ∀ id root key, keys.findRootKey id = some root → keys.find key.id = some key →
    sha3_256 key.content.idContent = sha3_256 root.content.idContent →
    key.content.idContent = root.content.idContent

omit [Primitives] in
theorem octets_length_le (o : Text) {t t' : Option TagInfo} {b : Octets}
    (h : (Schema.prim .octets).encoding o.val t = .ok (b, t')) : b.length ≤ 20 + maxStructureSize := by
  simp only [Schema.encoding, Prim.encoding] at h
  split at h
  · cases h
  · rename_i c hc
    rcases Prim.text_eq_ok.mp hc with ⟨hle, rfl⟩
    cases h
    exact (element_length_le _ _ _).trans (Nat.add_le_add_left hle 20)

omit [Primitives] in
theorem int_length_le {t : IntType} (v : FixedInt t) {u u' : Option TagInfo} {b : Octets}
    (h : (Schema.prim (.int t)).encoding v u = .ok (b, u')) : b.length ≤ 29 := by
  rcases encodeInteger_spec v with ⟨c, hc, -, hlen, -⟩
  have hbytes := t.bytes_le
  simp only [Schema.encoding, Prim.encoding, Prim.content, hc] at h
  cases h
  have := element_length_le (getIdent u (Prim.int t).defaultTag) false c
  split at hlen <;> omega

omit [Primitives] in
theorem idContent_length (k : KeyContent) : k.idContent.length < 2 ^ 64 := by
  have hsavable : KeyContent.idContentSchema.Savable
      (k.suite.wire, k.sigPk.val, k.kemXPk.val, k.kemPqPk.val, ()) :=
    ⟨Schema.savable_int _, Schema.savable_octets k.sigPk.property,
      Schema.savable_octets k.kemXPk.property, Schema.savable_octets k.kemPqPk.property, trivial⟩
  rcases encoding_of_asnDerSerialise (asnDerSerialise_eq_serialised hsavable) with ⟨t, henc⟩
  rcases Encoding.sequence_eq_ok.mp henc with ⟨c, hc, hb⟩
  rcases Encoding.seq_eq_ok.mp hc with ⟨b₁, _, c₁, h₁, hc₁, rfl⟩
  rcases Encoding.seq_eq_ok.mp hc₁ with ⟨b₂, _, c₂, h₂, hc₂, rfl⟩
  rcases Encoding.seq_eq_ok.mp hc₂ with ⟨b₃, _, c₃, h₃, hc₃, rfl⟩
  rcases Encoding.seq_eq_ok.mp hc₃ with ⟨b₄, _, c₄, h₄, hc₄, rfl⟩
  cases hc₄
  have hle₁ := int_length_le k.suite.wire h₁
  have hle₂ := octets_length_le k.sigPk h₂
  have hle₃ := octets_length_le k.kemXPk h₃
  have hle₄ := octets_length_le k.kemPqPk h₄
  have hle := element_length_le (getIdent none AsnTag.sequence) true (b₁ ++ (b₂ ++ (b₃ ++ (b₄ ++ []))))
  rw [← hb] at hle
  simp only [List.length_append, List.length_nil, maxStructureSize] at hle hle₂ hle₃ hle₄
  have hidContent : k.idContent.length ≤ 10000000 := by
    refine hle.trans ?_
    omega
  omega

omit [Primitives] in
theorem idContent_inj {k k' : KeyContent} (h : k.idContent = k'.idContent) :
    k.suite = k'.suite ∧ k.sigPk = k'.sigPk ∧ k.kemXPk = k'.kemXPk ∧ k.kemPqPk = k'.kemPqPk := by
  have hsavable : ∀ k : KeyContent, KeyContent.idContentSchema.Savable
      (k.suite.wire, k.sigPk.val, k.kemXPk.val, k.kemPqPk.val, ()) := fun k =>
    ⟨Schema.savable_int _, Schema.savable_octets k.sigPk.property,
      Schema.savable_octets k.kemXPk.property, Schema.savable_octets k.kemPqPk.property, trivial⟩
  have hdelimits : KeyContent.idContentSchema.Delimits true :=
    .inl ⟨trivial, .inl ⟨trivial, .inl ⟨trivial, .inl ⟨trivial, trivial⟩⟩⟩⟩
  have heq := serialised_inj hdelimits (hsavable k) (hsavable k') h (idContent_length k)
  rcases Prod.mk.inj heq with ⟨hsuite, heq⟩
  rcases Prod.mk.inj heq with ⟨hsig, heq⟩
  rcases Prod.mk.inj heq with ⟨hx, heq⟩
  exact ⟨Suite.wire_inj hsuite, Subtype.ext hsig, Subtype.ext hx, Subtype.ext (Prod.mk.inj heq).1⟩

/-- A key of the store with the id of a root key has its material. -/
theorem sameMaterial_of_id (hcollision : NoSecondPreimage keys) {id : PublicKeyId}
    {root key : PublicKey} (hroot : keys.findRootKey id = some root)
    (hkey : keys.find key.id = some key) (hvalid : key.content.isValid = true)
    (hid : key.id = root.id) : SameMaterial root key := by
  rw [key.id_eq hvalid, root.id_eq (keys.root_spec id root hroot).2] at hid
  have hdigest : sha3_256 key.content.idContent = sha3_256 root.content.idContent := by
    apply Subtype.ext
    have hoctets := congrArg (fun id : PublicKeyId => id.val) hid
    exact hoctets
  rcases idContent_inj (hcollision id root key hroot hkey hdigest) with ⟨h₁, h₂, h₃, h₄⟩
  exact ⟨h₁.symm, h₂.symm, h₃.symm, h₄.symm⟩

/-! ## What there is is found -/

/-- Above the first link a chain stands as well under a key with the material of
the issuer. -/
theorem LinkCondition.ofRoot {v : ChainVerify} {e : KeyCertPair} {root : PublicKey}
    (h : LinkCondition v e keyCert) (hmaterial : SameMaterial root v.previous)
    (hid : root.id = v.previous.id) : LinkCondition (.ofRoot root) e keyCert where
  authentic := (hmaterial.isAuthentic e.cert).trans h.authentic
  selfSigned := h.selfSigned
  isKeyCertificate := h.isKeyCertificate
  issuer := hid.trans h.issuer
  extracted := h.extracted
  subject := h.subject
  referenced := h.referenced
  caLevel := by
    have := level_bounds keyCert.caLevel
    simp only [ChainVerify.ofRoot, intMax]
    omega
  restriction := KeyCertRestriction.isSubsetOf_none _

theorem Certificate.isValid_of_isAuthentic {c : Certificate} {key : PublicKey}
    (h : c.isAuthentic key = true) : key.content.isValid = true := by
  simp only [Certificate.isAuthentic, Certificate.verifyMe, PublicKey.verify, Bool.and_eq_true] at h
  rcases h with ⟨hverify, -⟩
  split at hverify
  · simp only [KeyContent.verifyFramed, Bool.and_eq_true] at hverify
    exact hverify.1
  · cases hverify

/-- The key behind the links. -/
theorem issued_append {v u : ChainVerify} {pre post : List KeyCertPair} (h : Leads u v pre) :
    issued v.previous (pre ++ post) = issued v.previous pre ++ issued u.previous post := by
  induction pre generalizing v with
  | nil =>
      obtain rfl : v = u := h
      rfl
  | cons e es ih =>
      rcases h with ⟨keyCert, -, hrest⟩
      exact congrArg _ (ih hrest)

theorem Leads.split {v w : ChainVerify} {pre post : List KeyCertPair}
    (h : Leads w v (pre ++ post)) : ∃ u, Leads u v pre ∧ Leads w u post := by
  induction pre generalizing v with
  | nil => exact ⟨v, rfl, h⟩
  | cons e es ih =>
      rcases h with ⟨keyCert, hlink, hrest⟩
      rcases ih hrest with ⟨u, hes, hpost⟩
      exact ⟨u, ⟨keyCert, hlink, hes⟩, hpost⟩

/-- The loop finds a chain where one of its certificates leads to one. -/
theorem buildLoop_found (hdecodes : Decodes certs) {ids : List CertificateId} {id : CertificateId}
    (hmem : id ∈ ids) (hfind : certs.find id = some cert)
    (hlist : ∀ e ∈ list, ∃ keyCert, e.cert.extract = .ok keyCert)
    (h : ∃ c, consider keys certs subject cert last list = .ok (some c)) :
    ∃ c, buildLoop keys certs subject last list ids = .ok (some c) := by
  induction ids with
  | nil => cases hmem
  | cons x xs ih =>
      have hhead : ∃ r, (match certs.find x with
          | some cert => consider keys certs subject cert last list
          | none => .ok none : Found) = .ok r := by
        rcases @buildLoop_ok _ keys certs hdecodes _ subject last list [x] (Nat.lt_succ_self _) hlist
          with ⟨r, hr⟩
        unfold buildLoop orElse at hr
        split at hr
        · exact ⟨_, by assumption⟩
        · exact ⟨_, hr⟩
      unfold buildLoop
      rcases hhead with ⟨r, hr⟩
      rw [hr]
      cases r with
      | some c => exact ⟨c, rfl⟩
      | none =>
          rcases List.mem_cons.mp hmem with rfl | hmem
          · rw [hfind] at hr
            rcases h with ⟨c, hc⟩
            cases hr.symm.trans hc
          · exact ih hmem

/-- An authentic chain whose certificates and intermediate keys are in the
stores. -/
structure Available (keys : PublicKeyAccess) (certs : CertificateAccess) (c : CertificateChain) :
    Prop where
  authentic : c.isAuthentic keys certs = .ok true
  stored : ∀ e ∈ c.chain, certs.find e.cert.id = some e.cert
  intermediate : ∀ e ∈ c.chain.dropLast, keys.find e.subject.id = some e.subject

/-- A chain may start anew at a root key that one of its certificates is issued
by. -/
theorem tryComplete_suffix (hcollision : NoSecondPreimage keys) {c : CertificateChain}
    (h : Available keys certs c) {pre post : List KeyCertPair} {e : KeyCertPair}
    (hchain : c.chain = pre ++ e :: post) {root : PublicKey}
    (hroot : keys.findRootKey e.cert.issuer = some root) :
    ∃ c', tryComplete keys certs e.cert (post.reverse ++ [e]) = .ok (some c') := by
  rcases CertificateChain.isAuthentic_eq_true.mp h.authentic with
    ⟨hlen, hvalid, first, hfirst, ⟨w, hw⟩, hrev⟩
  rw [hchain] at hw hlen hrev
  rcases Leads.split hw with ⟨u, hpre, keyCert, hlink, hpost⟩
  rcases keys.root_spec _ _ hroot with ⟨hid, -⟩
  have hid' : root.id = u.previous.id := hid.trans hlink.issuer.symm
  -- the issuer is the first root key again, or a key of the store
  have hmaterial : SameMaterial root u.previous := by
    rcases List.eq_nil_or_concat pre with rfl | ⟨pre', e', rfl⟩
    · obtain rfl : ChainVerify.ofRoot first = u := hpre
      have hfirstId := (keys.root_spec _ _ hfirst).1
      have hsame : c.rootKeyId = e.cert.issuer := hfirstId.symm.trans hlink.issuer
      rw [hsame] at hfirst
      obtain rfl := Option.some.inj (hfirst.symm.trans hroot)
      exact ⟨rfl, rfl, rfl, rfl⟩
    · rw [List.concat_eq_append] at hpre hchain
      rcases Leads.append.mp hpre with ⟨_, -, _, -, rfl⟩
      have hkey := h.intermediate e' (by rw [hchain]; simp)
      exact sameMaterial_of_id hcollision hroot hkey
        (Certificate.isValid_of_isAuthentic hlink.authentic) hid'.symm
  have hauthentic : (⟨e.cert.issuer, (post.reverse ++ [e]).reverse⟩ :
      CertificateChain).isAuthentic keys certs = .ok true := by
    apply CertificateChain.isAuthentic_eq_true.mpr
    have hreverse : (post.reverse ++ [e]).reverse = e :: post := by simp
    simp only [hreverse]
    refine ⟨?_, CertificateChain.isValid_iff.mpr ⟨List.cons_ne_nil _ _,
      CertificateChain.root_id_ne_nil hroot⟩, root, hroot,
      ⟨w, keyCert, hlink.ofRoot hmaterial hid', hpost⟩, ?_⟩
    · simp only [List.length_append, List.length_cons] at hlen ⊢
      omega
    · have hissued := @issued_append _ _ _ _ (e :: post) hpre
      intro link hmem
      rcases List.mem_cons.mp hmem with rfl | hmem
      · have hhead : ChainVerify.isRevokedInStore certs u.previous e.cert = false := by
          refine hrev (u.previous, e.cert) ?_
          rw [show first = (ChainVerify.ofRoot first).previous from rfl, hissued]
          exact List.mem_append_right _ (List.mem_cons_self ..)
        unfold ChainVerify.isRevokedInStore at hhead ⊢
        simpa only [hmaterial.isRevoked] using hhead
      · refine hrev link ?_
        rw [show first = (ChainVerify.ofRoot first).previous from rfl, hissued]
        exact List.mem_append_right _ (List.mem_cons_of_mem _ hmem)
  refine ⟨⟨e.cert.issuer, (post.reverse ++ [e]).reverse⟩, ?_⟩
  unfold tryComplete
  simp only [hauthentic]

/-- From every link of the chain the search comes to a chain. -/
theorem buildList_complete (hdecodes : Decodes certs) (hcollision : NoSecondPreimage keys)
    {c : CertificateChain} (h : Available keys certs c) {pre post : List KeyCertPair}
    {e : KeyCertPair} {last : Option (FixedInt uint16)} (hchain : c.chain = pre ++ e :: post)
    (hrises : ∀ keyCert, e.cert.extract = .ok keyCert → Rises last keyCert.caLevel) :
    ∃ c', buildList keys certs e.subject last post.reverse = .ok (some c') := by
  rcases CertificateChain.isAuthentic_eq_true.mp h.authentic with
    ⟨-, -, first, hfirst, ⟨w, hw⟩, -⟩
  have hextract : ∀ e ∈ c.chain, ∃ keyCert, e.cert.extract = .ok keyCert := by
    intro e he
    rcases CertificateChain.Leads.descends hw e he with ⟨keyCert, hk, -⟩
    exact ⟨keyCert, hk⟩
  induction pre using List.reverseRecOn generalizing e post last with
  | nil =>
      have hmem : e ∈ c.chain := by simp [hchain]
      rw [hchain] at hw
      rcases hw with ⟨keyCert, hlink, -⟩
      -- the first certificate is issued by the root key
      have hissuer : keys.findRootKey e.cert.issuer = some first := by
        have hsame : c.rootKeyId = e.cert.issuer :=
          (keys.root_spec _ _ hfirst).1.symm.trans hlink.issuer
        rw [← hsame]
        exact hfirst
      unfold buildList
      refine buildLoop_found hdecodes (of_decide_eq_true hlink.referenced) (h.stored e hmem) ?_ ?_
      · intro x hx
        exact hextract x (by simp [hchain, List.mem_reverse.mp hx])
      · rw [consider_of_root hlink.isKeyCertificate hlink.extracted
          (hrises keyCert hlink.extracted) hissuer]
        exact tryComplete_suffix hcollision h hchain hissuer
  | append_singleton pre e' ih =>
      have hmem : e ∈ c.chain := by simp [hchain]
      have hw' := hw
      rw [hchain] at hw'
      rcases Leads.split hw' with ⟨u, hpre, keyCert, hlink, -⟩
      rcases Leads.append.mp hpre with ⟨_, -, keyCert', hlink', rfl⟩
      unfold buildList
      refine buildLoop_found hdecodes (of_decide_eq_true hlink.referenced) (h.stored e hmem) ?_ ?_
      · intro x hx
        exact hextract x (by simp [hchain, List.mem_reverse.mp hx])
      · have hup := hrises keyCert hlink.extracted
        rcases Option.eq_none_or_eq_some (keys.findRootKey e.cert.issuer) with hroot | ⟨root, hroot⟩
        · -- one link up, where the level is higher
          have hissuer : e'.subject.id = e.cert.issuer := hlink.issuer
          have hkey := h.intermediate e' (by simp [hchain])
          rw [hissuer] at hkey
          rw [consider_of_key hlink.isKeyCertificate hlink.extracted hup hroot hkey]
          have hnext : c.chain = pre ++ e' :: (e :: post) := by simp [hchain]
          have hrises' : ∀ k, e'.cert.extract = .ok k → Rises (some keyCert.caLevel) k.caLevel := by
            intro k hk l hl
            obtain rfl := Option.some.inj hl
            obtain rfl := hlink'.unique hk
            exact hlink.caLevel
          have hfound := ih hnext hrises'
          rwa [List.reverse_cons] at hfound
        · rw [consider_of_root hlink.isKeyCertificate hlink.extracted hup hroot]
          exact tryComplete_suffix hcollision h hchain hroot

/-- The search ends; what it returns is an authentic chain to the subject; and it
returns a chain where the stores have one. Of the digest it is only used that no
key of the store shares the id of a root key without being that key. -/
theorem createCertificateChain_correct (keys : PublicKeyAccess) (certs : CertificateAccess)
    (subject : PublicKey) (hdecodes : Decodes certs) :
    (∃ r, createCertificateChain keys certs subject = .ok r) ∧
    (∀ c, createCertificateChain keys certs subject = .ok (some c) →
      c.isAuthentic keys certs = .ok true ∧ c.chain.getLast?.map KeyCertPair.subject = some subject) ∧
    (NoSecondPreimage keys → ∀ c, Available keys certs c →
      c.chain.getLast?.map KeyCertPair.subject = some subject →
      ∃ c', createCertificateChain keys certs subject = .ok (some c')) := by
  refine ⟨?_, ?_, ?_⟩
  · unfold createCertificateChain buildList
    refine buildLoop_ok hdecodes (Nat.lt_succ_self _) ?_
    intro e he
    cases he
  · intro c h
    unfold createCertificateChain buildList at h
    rcases buildLoop_sound (Nat.lt_succ_self _) h with ⟨hauthentic, cert, more, hchain⟩
    exact ⟨hauthentic, by simp [hchain]⟩
  · intro hcollision c h hsubject
    rcases Option.map_eq_some_iff.mp hsubject with ⟨e, hlast, rfl⟩
    rcases List.getLast?_eq_some_iff.mp hlast with ⟨pre, hchain⟩
    exact buildList_complete hdecodes hcollision h hchain nofun

end Builder

/-! ## A root key and one key that it has certified -/

namespace OneLink

/-- Primitives that accept what they are shown. -/
@[reducible] def primitives : Primitives where
  sha3_256 _ := ⟨List.replicate 32 7, sevens_length⟩
  verifyMessage _ _ _ _ := true

attribute [local instance] primitives

theorem id_length_le : (List.replicate 32 (7 : UInt8)).length ≤ maxStructureSize := by decide

def id : Text := ⟨List.replicate 32 7, id_length_le⟩

def sig : Signature := ⟨.cast uint32 2, id, ⟨[1], by decide⟩⟩

theorem zeros_length_le (n : Nat) (h : n ≤ maxStructureSize) :
    (List.replicate n (0 : UInt8)).length ≤ maxStructureSize := by
  rwa [List.length_replicate]

def zeros (n : Nat) (h : n ≤ maxStructureSize) : Text :=
  ⟨List.replicate n 0, zeros_length_le n h⟩

theorem sigPk_le : 1952 ≤ maxStructureSize := by decide
theorem kemXPk_le : 32 ≤ maxStructureSize := by decide
theorem kemPqPk_le : 1184 ≤ maxStructureSize := by decide

def content (ids : CertificateIds) : KeyContent where
  version := .cast uint16 2
  suite := .pq1
  sigPk := zeros 1952 sigPk_le
  kemXPk := zeros 32 kemXPk_le
  kemPqPk := zeros 1184 kemPqPk_le
  certificateIds := ids
  sig := sig
  trailing := []

def root : PublicKey := ⟨content ⟨[], CertificateIds.nil_sorted⟩, id, fun _ => rfl⟩

theorem id_sorted : [id].Pairwise fun a b => a.val < b.val := by simp

def subject : PublicKey := ⟨content ⟨[id], id_sorted⟩, id, fun _ => rfl⟩

def cert : Certificate where
  version := .cast int 1
  certificateType := .cast int 1
  certificateData := ⟨[0x30, 0x30, 0x02, 0x01, 0x01, 0x30, 0x22, 0x04, 0x20] ++
    List.replicate 32 7 ++ [0x02, 0x01, 0x00, 0x30, 0x02, 0x14, 0x00, 0x04, 0x00], by decide⟩
  sig := sig
  revocation := none
  trailing := []

theorem content_isValid (ids : CertificateIds) : (content ids).isValid = true := by
  simp only [KeyContent.isValid, content, zeros, List.length_replicate, Suite.parameters]
  rfl

theorem root_isValid : root.content.isValid = true := content_isValid _

def keys : PublicKeyAccess := .ofRoot (fun _ => none) (some ⟨root, root_isValid⟩)

def certs : CertificateAccess := ⟨fun x => if x = id then some cert else none⟩

def chain : CertificateChain := ⟨id, [⟨subject, cert⟩]⟩

theorem verify_eq (ids : CertificateIds) (h : _) (s : Signature) (data context : Octets)
    (hcontext : context.length ≤ 255) :
    (⟨content ids, id, h⟩ : PublicKey).verify s data context = true := by
  unfold PublicKey.verify frameMessage
  rw [if_neg (by omega)]
  simp only [KeyContent.verifyFramed, content_isValid]
  rfl

theorem decodes : Decodes certs := by
  intro x c hc _
  simp only [certs, Option.ite_none_right_eq_some, Option.some.injEq] at hc
  obtain ⟨-, rfl⟩ := hc
  have hsome : cert.extract.toOption.isSome = true := by decide +kernel
  cases hextract : cert.extract with
  | error e => simp [hextract, Except.toOption] at hsome
  | ok keyCert => exact ⟨keyCert, rfl⟩

theorem linkCondition : ∃ keyCert, LinkCondition (.ofRoot root) ⟨subject, cert⟩ keyCert := by
  rcases decodes id cert (by decide +kernel) rfl with ⟨keyCert, hk⟩
  have hfields : cert.extract.toOption.map (fun k => (k.subject, k.caLevel.val, k.restrictions)) =
      some (id.val, 0, ⟨[]⟩) := by decide +kernel
  simp only [hk, Except.toOption, Option.map_some, Option.some.injEq, Prod.mk.injEq] at hfields
  refine ⟨keyCert, ?_, ?_, rfl, rfl, hk, hfields.1, by decide +kernel, ?_, ?_⟩
  · have hverify : cert.verifyMe root = true := verify_eq _ _ _ _ _ (by decide)
    show (cert.verifyMe root && !cert.isRevoked root) = true
    rw [hverify]
    rfl
  · have hverify : subject.verify subject.content.sig subject.content.signatureContent
        selfSignatureContext = true := verify_eq _ _ _ _ _ (by decide)
    unfold PublicKey.verifyMe
    rw [hverify]
    decide +kernel
  · rw [hfields.2.1]
    decide
  · exact KeyCertRestriction.isSubsetOf_none _

theorem isAuthentic_chain : chain.isAuthentic keys certs = .ok true := by
  apply CertificateChain.isAuthentic_eq_true.mpr
  rcases linkCondition with ⟨keyCert, hlink⟩
  have hroot : keys.findRootKey chain.rootKeyId = some root := by
    show (if id = root.id then some root else none) = some root
    exact if_pos rfl
  refine ⟨by decide, by decide +kernel, root, hroot, ⟨_, keyCert, hlink, rfl⟩, ?_⟩
  intro link hmem
  obtain rfl := List.mem_singleton.mp hmem
  rfl

end OneLink

/-- The stores with one certified key. -/
theorem createCertificateChain_one_link :
    ∃ c, @createCertificateChain OneLink.primitives OneLink.keys OneLink.certs OneLink.subject =
      .ok (some c) := by
  have hmissing : @NoSecondPreimage OneLink.primitives OneLink.keys := by
    intro _ _ key _ h
    cases h
  refine (@createCertificateChain_correct OneLink.primitives OneLink.keys OneLink.certs
    OneLink.subject OneLink.decodes).2.2 hmissing OneLink.chain
    (@Available.mk OneLink.primitives _ _ _ OneLink.isAuthentic_chain ?_ ?_) rfl
  · intro e he
    obtain rfl := List.mem_singleton.mp he
    rfl
  · intro e he
    cases he

end Securepath.Crypto
