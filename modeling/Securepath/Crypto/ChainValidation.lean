import Securepath.Crypto.CertificateChain

/-!
# Validating a chain as a whole and link by link

`LinkCondition` lists what makes a link good in the state behind the links
before it, and `Leads` follows the states along a chain. `is_authentic` and
`add_link` both come down to it; they differ in the cap on the length and in the
revocations of the store, which `add_link` does not look at.
-/

namespace Securepath.Crypto

open Serialisation StateExcept

/-! ## Restrictions -/

theorem suffix_subDomainSuffix (host : Octets) : host <:+ subDomainSuffix host := by
  unfold subDomainSuffix
  split
  · exact List.suffix_rfl
  · exact List.suffix_cons _ _

theorem subDomainSuffix_ne_nil (host : Octets) : subDomainSuffix host ≠ [] := by
  unfold subDomainSuffix
  split
  · rename_i h
    intro hnil
    rw [hnil] at h
    cases h
  · exact List.cons_ne_nil _ _

namespace KeyCertRestriction

variable {a b c : KeyCertRestriction}

theorem isSubsetOf_iff : a.isSubsetOf b = true ↔ b.hostname = [] ∨
    toLower a.hostname = toLower b.hostname ∨
      subDomainSuffix (toLower b.hostname) <:+ toLower a.hostname := by
  by_cases h : b.hostname = []
  · simp [isSubsetOf, hasHostname, h]
  · simp [isSubsetOf, hasHostname, h]

theorem isSubsetOf_none (a : KeyCertRestriction) : a.isSubsetOf none = true :=
  isSubsetOf_iff.mpr (Or.inl rfl)

/-- A name below another one is a name. -/
theorem hostname_ne_nil (h : a.isSubsetOf b = true) (hb : b.hostname ≠ []) : a.hostname ≠ [] := by
  intro ha
  rcases isSubsetOf_iff.mp h with hnil | heq | hsuffix
  · exact hb hnil
  · rw [ha] at heq
    exact hb (List.map_eq_nil_iff.mp heq.symm)
  · rw [ha] at hsuffix
    exact subDomainSuffix_ne_nil _ (List.suffix_nil.mp hsuffix)

/-- A sub-domain of a sub-domain is a sub-domain. -/
theorem isSubsetOf_trans (hab : a.isSubsetOf b = true) (hbc : b.isSubsetOf c = true) :
    a.isSubsetOf c = true := by
  by_cases hc : c.hostname = []
  · exact isSubsetOf_iff.mpr (Or.inl hc)
  · have hb := hostname_ne_nil hbc hc
    apply isSubsetOf_iff.mpr
    right
    rcases (isSubsetOf_iff.mp hbc).resolve_left hc with hbc | hbc
    · rcases (isSubsetOf_iff.mp hab).resolve_left hb with hab | hab
      · exact Or.inl (hab.trans hbc)
      · exact Or.inr (hbc ▸ hab)
    · rcases (isSubsetOf_iff.mp hab).resolve_left hb with hab | hab
      · exact Or.inr (hab ▸ hbc)
      · exact Or.inr ((hbc.trans (suffix_subDomainSuffix _)).trans hab)

end KeyCertRestriction

/-! ## Links -/

variable [Primitives]

/-- What is checked of a link in the state `v`, but for the store. -/
structure LinkCondition (v : ChainVerify) (e : KeyCertPair) (keyCert : KeyCertificateData) :
    Prop where
  authentic : e.cert.isAuthentic v.previous = true
  selfSigned : e.subject.verifyMe = true
  isKeyCertificate : e.cert.certificateType = KeyCertificateData.typeId
  issuer : v.previous.id = e.cert.issuer
  extracted : e.cert.extract = .ok keyCert
  subject : keyCert.subject = e.subject.id.val
  referenced : e.subject.referencesCertificate e.cert.id = true
  caLevel : keyCert.caLevel.val < v.previousCaLevel
  restriction : keyCert.restrictions.isSubsetOf v.previousRestriction = true

/-- The state behind a link. -/
def behind (e : KeyCertPair) (keyCert : KeyCertificateData) : ChainVerify :=
  ⟨e.subject, keyCert.caLevel.val, keyCert.restrictions⟩

/-- Every link is good in the state behind the links before it, and the last
state is `w`. -/
def Leads (w : ChainVerify) : ChainVerify → List KeyCertPair → Prop
  | v, [] => v = w
  | v, e :: es => ∃ keyCert, LinkCondition v e keyCert ∧ Leads w (behind e keyCert) es

/-- The links with the key that has to have signed each of them. -/
def issued (previous : PublicKey) : List KeyCertPair → List (PublicKey × Certificate)
  | [] => []
  | e :: es => (previous, e.cert) :: issued e.subject es

/-- No certificate of the chain is revoked in the store. -/
def NotRevoked (certs : CertificateAccess) (root : PublicKey) (es : List KeyCertPair) : Prop :=
  ∀ link ∈ issued root es, ChainVerify.isRevokedInStore certs link.1 link.2 = false

variable {v w : ChainVerify} {e : KeyCertPair} {es : List KeyCertPair}

theorem LinkCondition.unique {k k' : KeyCertificateData} (h : LinkCondition v e k)
    (h' : e.cert.extract = .ok k') : k = k' :=
  Except.ok.inj (h.extracted.symm.trans h')

/-- `check_link` checks the conditions. -/
theorem checkLink_eq_ok : checkLink v e.subject e.cert = .ok (.ok w) ↔
    ∃ keyCert, LinkCondition v e keyCert ∧ w = behind e keyCert := by
  constructor
  · intro h
    unfold checkLink at h
    cases hcert : checkLinkCertificate e.subject e.cert v.previous with
    | some err =>
        rw [hcert] at h
        cases h
    | none =>
        rw [hcert] at h
        cases hextract : e.cert.extract with
        | error err =>
            rw [hextract] at h
            cases h
        | ok keyCert =>
            rw [hextract] at h
            cases hdata : checkLinkData e.subject e.cert keyCert v.previousCaLevel
                v.previousRestriction with
            | some err =>
                simp only [hdata] at h
                cases h
            | none =>
                simp only [hdata, Except.ok.injEq] at h
                refine ⟨keyCert, ?_, h.symm⟩
                unfold checkLinkCertificate at hcert
                unfold checkLinkData at hdata
                split_ifs at hcert with h₁ h₂ h₃ h₄
                split_ifs at hdata with h₅ h₆ h₇ h₈
                exact ⟨by simpa using h₁, by simpa using h₂, not_not.mp h₃, not_not.mp h₄, hextract,
                  not_not.mp h₅, by simpa using h₆, not_le.mp h₇, by simpa using h₈⟩
  · rintro ⟨keyCert, h, rfl⟩
    have hcert : checkLinkCertificate e.subject e.cert v.previous = none := by
      simp [checkLinkCertificate, h.authentic, h.selfSigned, h.isKeyCertificate, h.issuer]
    have hdata : checkLinkData e.subject e.cert keyCert v.previousCaLevel
        v.previousRestriction = none := by
      simp [checkLinkData, h.subject, h.referenced, not_le.mpr h.caLevel, h.restriction]
    simp only [checkLink, hcert, h.extracted, hdata]
    rfl

theorem Leads.append : Leads w v (es ++ [e]) ↔
    ∃ u, Leads u v es ∧ ∃ keyCert, LinkCondition u e keyCert ∧ behind e keyCert = w := by
  induction es generalizing v with
  | nil =>
      constructor
      · rintro ⟨keyCert, hlink, hw⟩
        exact ⟨v, rfl, keyCert, hlink, hw⟩
      · rintro ⟨u, rfl, keyCert, hlink, hw⟩
        exact ⟨keyCert, hlink, hw⟩
  | cons x xs ih =>
      constructor
      · rintro ⟨keyCert, hlink, hrest⟩
        rcases ih.mp hrest with ⟨u, hxs, he⟩
        exact ⟨u, ⟨keyCert, hlink, hxs⟩, he⟩
      · rintro ⟨u, ⟨keyCert, hlink, hxs⟩, he⟩
        exact ⟨keyCert, hlink, ih.mpr ⟨u, hxs, he⟩⟩

theorem Leads.unique {u u' : ChainVerify} (h : Leads u v es) (h' : Leads u' v es) : u = u' := by
  induction es generalizing v with
  | nil => exact h.symm.trans h'
  | cons e es ih =>
      rcases h with ⟨k, hlink, hrest⟩
      rcases h' with ⟨k', hlink', hrest'⟩
      obtain rfl := hlink.unique hlink'.extracted
      exact ih hrest hrest'

theorem Leads.take (h : Leads w v es) (n : Nat) : ∃ u, Leads u v (es.take n) := by
  induction n generalizing v es with
  | zero => exact ⟨v, rfl⟩
  | succ n ih =>
      cases es with
      | nil => exact ⟨v, rfl⟩
      | cons e es =>
          rcases h with ⟨k, hlink, hrest⟩
          rcases ih hrest with ⟨u, hu⟩
          exact ⟨u, k, hlink, hu⟩

/-- The state behind a chain is that of its last link. -/
theorem Leads.last (h : Leads w v es) {e : KeyCertPair} (he : es.getLast? = some e) :
    ∃ u keyCert, LinkCondition u e keyCert ∧ w = behind e keyCert := by
  rcases List.getLast?_eq_some_iff.mp he with ⟨init, rfl⟩
  rcases Leads.append.mp h with ⟨u, -, keyCert, hlink, rfl⟩
  exact ⟨u, keyCert, hlink, rfl⟩

/-! ## The whole chain -/

/-- The loop of `is_authentic` checks the conditions of every link and the store. -/
theorem checkChain_eq_true {certs : CertificateAccess} :
    ChainVerify.checkChain certs es v = .ok true ↔
      (∃ w, Leads w v es) ∧ NotRevoked certs v.previous es := by
  induction es generalizing v with
  | nil => simp [ChainVerify.checkChain, Leads, NotRevoked, issued]
  | cons e es ih =>
      have hstep : ∀ r, v.checkChainElement certs e = .ok (some r) ↔
          (∃ keyCert, LinkCondition v e keyCert ∧ r = behind e keyCert) ∧
            ChainVerify.isRevokedInStore certs v.previous e.cert = false := by
        intro r
        rw [← checkLink_eq_ok]
        unfold ChainVerify.checkChainElement
        split
        · rename_i h
          simp [h]
        · rename_i h
          simp [h]
        · rename_i r' h
          cases hrev : ChainVerify.isRevokedInStore certs v.previous e.cert <;> simp [h]
      unfold ChainVerify.checkChain
      constructor
      · intro h
        split at h
        · cases h
        · cases h
        · rename_i r hr
          rcases (hstep r).mp hr with ⟨⟨keyCert, hlink, rfl⟩, hrev⟩
          rcases ih.mp h with ⟨⟨w, hw⟩, hrest⟩
          refine ⟨⟨w, keyCert, hlink, hw⟩, ?_⟩
          intro link hmem
          rcases List.mem_cons.mp hmem with rfl | hmem
          · exact hrev
          · exact hrest link hmem
      · rintro ⟨⟨w, keyCert, hlink, hw⟩, hrev⟩
        have hhead : ChainVerify.isRevokedInStore certs v.previous e.cert = false :=
          hrev (v.previous, e.cert) (List.mem_cons_self ..)
        rw [(hstep (behind e keyCert)).mpr ⟨⟨keyCert, hlink, rfl⟩, hhead⟩]
        exact ih.mpr ⟨⟨w, hw⟩, fun link hmem => hrev link (List.mem_cons_of_mem _ hmem)⟩

namespace CertificateChain

variable {keys : PublicKeyAccess} {certs : CertificateAccess} {c c' : CertificateChain}
  {key : PublicKey} {cert : Certificate}

theorem isAuthentic_eq_true : c.isAuthentic keys certs = .ok true ↔
    c.chain.length ≤ maxChainLength ∧ c.isValid = true ∧
      ∃ root, keys.findRootKey c.rootKeyId = some root ∧ (∃ w, Leads w (.ofRoot root) c.chain) ∧
        NotRevoked certs root c.chain := by
  unfold isAuthentic
  split
  · rename_i h
    simp only [Except.ok.injEq, Bool.false_eq_true, false_iff]
    omega
  · rename_i h
    split
    · rename_i hvalid
      simp only [Except.ok.injEq, Bool.false_eq_true, false_iff]
      simp only [Bool.not_eq_true'] at hvalid
      simp [hvalid]
    · rename_i hvalid
      cases hroot : keys.findRootKey c.rootKeyId with
      | none => simp
      | some root =>
          have hcheck := @checkChain_eq_true _ (.ofRoot root) c.chain certs
          simp only [hcheck, Option.some.injEq, exists_eq_left']
          simp only [Bool.not_eq_true', Bool.not_eq_false] at hvalid
          simp only [hvalid, true_and]
          exact ⟨fun hr => ⟨by omega, hr⟩, fun hr => hr.2⟩

/-! ## One link more -/

/-- The chain with one link more. -/
def extend (c : CertificateChain) (key : PublicKey) (cert : Certificate) : CertificateChain :=
  { c with chain := c.chain ++ [⟨key, cert⟩] }

theorem checkedLink_spec (v : ChainVerify) (key : PublicKey) (cert : Certificate)
    (c : CertificateChain) :
    ((∃ keyCert, LinkCondition v ⟨key, cert⟩ keyCert) ∧ checkedLink v key cert c = .ok () c) ∨
    ((∀ keyCert, ¬ LinkCondition v ⟨key, cert⟩ keyCert) ∧
      ∃ err, checkedLink v key cert c = .error err c) := by
  have hlink : ∀ w, checkLink v key cert = .ok (.ok w) ↔
      ∃ keyCert, LinkCondition v ⟨key, cert⟩ keyCert ∧ w = behind ⟨key, cert⟩ keyCert :=
    fun w => @checkLink_eq_ok _ v w ⟨key, cert⟩
  rcases h : checkLink v key cert with err | (err | w)
  · right
    refine ⟨fun keyCert hk => ?_, err, by simp only [checkedLink, h]; rfl⟩
    rw [(hlink _).mpr ⟨keyCert, hk, rfl⟩] at h
    cases h
  · right
    refine ⟨fun keyCert hk => ?_, .failed err, by simp only [checkedLink, h]; rfl⟩
    rw [(hlink _).mpr ⟨keyCert, hk, rfl⟩] at h
    cases h
  · left
    rcases (hlink w).mp h with ⟨keyCert, hk, -⟩
    exact ⟨⟨keyCert, hk⟩, by simp only [checkedLink, h]; rfl⟩

/-- Behind a valid chain the next link is checked in the state of its last one. -/
theorem subjectState_of_leads {w v : ChainVerify} (hvalid : c.isValid = true)
    (h : Leads w v c.chain) : c.subjectState = .ok w := by
  have hne : c.chain ≠ [] := by
    unfold isValid at hvalid
    simp only [Bool.decide_and, Bool.and_eq_true, decide_eq_true_eq] at hvalid
    exact hvalid.1
  rcases Option.ne_none_iff_exists'.mp (mt List.getLast?_eq_none_iff.mp hne) with ⟨last, hlast⟩
  rcases h.last hlast with ⟨u, keyCert, hlink, rfl⟩
  simp only [subjectState, hvalid, hlast, hlink.extracted]
  rfl

/-- Behind a state the link is added, or what is thrown leaves the chain as it is. -/
theorem pushLink_spec (v : ChainVerify) (key : PublicKey) (cert : Certificate)
    (c : CertificateChain) :
    ((∃ keyCert, LinkCondition v ⟨key, cert⟩ keyCert) ∧
      (do checkedLink v key cert; pushBack key cert : Update) c = .ok () (c.extend key cert)) ∨
    ((∀ keyCert, ¬ LinkCondition v ⟨key, cert⟩ keyCert) ∧
      ∃ err, (do checkedLink v key cert; pushBack key cert : Update) c = .error err c) := by
  rcases checkedLink_spec v key cert c with ⟨hlink, hrun⟩ | ⟨hlink, err, hrun⟩
  · left
    exact ⟨hlink, bind_of_ok hrun⟩
  · right
    exact ⟨hlink, err, bind_of_error hrun⟩

theorem addLink_of_empty (h : c.chain = []) :
    addLink key cert c = .error (.failed .noSuchRootKey) c := by
  have hget : (get : EStateM Error CertificateChain CertificateChain) c = .ok c c := rfl
  unfold addLink
  rw [bind_of_ok hget, if_pos h]
  rfl

theorem addLink_of_ne (h : c.chain ≠ []) : addLink key cert c = match c.subjectState with
    | .error e => .error e c
    | .ok v => (do checkedLink v key cert; pushBack key cert : Update) c := by
  have hget : (get : EStateM Error CertificateChain CertificateChain) c = .ok c c := rfl
  unfold addLink
  rw [bind_of_ok hget, if_neg h]
  cases hstate : c.subjectState with
  | error e => rfl
  | ok v => rfl

/-- Onto a good chain a link is added exactly when the longer chain is good. -/
theorem addLink_iff {v w : ChainVerify} (hvalid : c.isValid = true) (h : Leads w v c.chain) :
    (∃ c', addLink key cert c = .ok () c') ↔ ∃ u, Leads u v (c.extend key cert).chain := by
  have hne : c.chain ≠ [] := by
    unfold isValid at hvalid
    simp only [Bool.decide_and, Bool.and_eq_true, decide_eq_true_eq] at hvalid
    exact hvalid.1
  rw [addLink_of_ne hne, subjectState_of_leads hvalid h]
  have hextend : (∃ u, Leads u v (c.extend key cert).chain) ↔
      ∃ keyCert, LinkCondition w ⟨key, cert⟩ keyCert := by
    unfold extend
    constructor
    · rintro ⟨u, hu⟩
      rcases Leads.append.mp hu with ⟨w', hw', keyCert, hlink, -⟩
      exact ⟨keyCert, hw'.unique h ▸ hlink⟩
    · rintro ⟨keyCert, hlink⟩
      exact ⟨_, Leads.append.mpr ⟨w, h, keyCert, hlink, rfl⟩⟩
  rw [hextend]
  rcases pushLink_spec w key cert c with ⟨hlink, hrun⟩ | ⟨hlink, err, hrun⟩
  · exact ⟨fun _ => hlink, fun _ => ⟨_, hrun⟩⟩
  · constructor
    · rintro ⟨c', hc'⟩
      cases hrun.symm.trans hc'
    · rintro ⟨keyCert, hk⟩
      exact absurd hk (hlink keyCert)

theorem addLink_eq_ok (h : addLink key cert c = .ok () c') :
    c.isValid = true ∧ c' = c.extend key cert := by
  by_cases hne : c.chain = []
  · rw [addLink_of_empty hne] at h
    cases h
  · rw [addLink_of_ne hne] at h
    by_cases hvalid : c.isValid = true
    · refine ⟨hvalid, ?_⟩
      split at h
      · cases h
      · rename_i v _
        rcases pushLink_spec v key cert c with ⟨-, hrun⟩ | ⟨-, err, hrun⟩
        · cases hrun.symm.trans h
          rfl
        · cases hrun.symm.trans h
    · have hstate : c.subjectState = .error (.failed .invalidCertificateChain) := by
        simp only [subjectState, hvalid]
        rfl
      rw [hstate] at h
      cases h

/-! ## Both ways -/

/-- An id that was made of a key is not empty. -/
theorem constructId_ne_nil (k : KeyContent) : k.constructId.val ≠ [] := by
  intro h
  have hlen := (sha3_256 k.idContent).property
  have : (sha3_256 k.idContent).val = [] := h
  rw [this] at hlen
  cases hlen

theorem root_id_ne_nil {id : PublicKeyId} {root : PublicKey}
    (h : keys.findRootKey id = some root) : id.val ≠ [] := by
  rcases keys.root_spec id root h with ⟨rfl, hvalid⟩
  rw [root.id_eq hvalid]
  exact constructId_ne_nil _

theorem isValid_iff : c.isValid = true ↔ c.chain ≠ [] ∧ c.rootKeyId.val ≠ [] := by
  simp [isValid]

/-- Along good links every later one is below every earlier one. -/
theorem Leads.descends {v w : ChainVerify} {es : List KeyCertPair} (h : Leads w v es) :
    ∀ e ∈ es, ∃ keyCert, e.cert.extract = .ok keyCert ∧
      keyCert.caLevel.val < v.previousCaLevel ∧
      keyCert.restrictions.isSubsetOf v.previousRestriction = true := by
  induction es generalizing v with
  | nil =>
      intro e he
      cases he
  | cons x xs ih =>
      rcases h with ⟨k, hlink, hrest⟩
      intro e he
      rcases List.mem_cons.mp he with rfl | he
      · exact ⟨k, hlink.extracted, hlink.caLevel, hlink.restriction⟩
      · rcases ih hrest e he with ⟨k', hextract, hlevel, hsubset⟩
        exact ⟨k', hextract, lt_trans hlevel hlink.caLevel,
          KeyCertRestriction.isSubsetOf_trans hsubset hlink.restriction⟩

end CertificateChain

end Securepath.Crypto
