import Securepath.Crypto.Objects

/-!
# What a signature stands for

A signature is made over framed content octets. The frame determines context and
content, the content determines the signed fields of the object, and each kind
of object has a context of its own: a signature counts for one statement only.
-/

namespace Securepath.Crypto

open Serialisation

/-! ## Frames -/

/-- The length octet tells where the context ends. -/
theorem frameMessage_inj {c c' m m' b : Octets} (h : frameMessage c m = .ok b)
    (h' : frameMessage c' m' = .ok b) : c = c' ∧ m = m' := by
  unfold frameMessage at h h'
  split at h
  · cases h
  · rename_i hc
    split at h'
    · cases h'
    · rename_i hc'
      rw [Except.ok.injEq] at h h'
      have heq := h.trans h'.symm
      simp only [List.append_assoc, List.append_cancel_left_eq] at heq
      rcases List.cons.inj heq with ⟨hsize, hrest⟩
      have hlen : c.length = c'.length := by
        have := congrArg UInt8.toNat hsize
        simp only [UInt8.toNat_ofNat'] at this
        omega
      exact List.append_inj hrest hlen

/-! ## Content -/

theorem Suite.wire_inj {s s' : Suite} (h : s.wire = s'.wire) : s = s' := by
  cases s <;> cases s' <;> first | rfl | exact absurd h (by decide)

theorem ids_inj {a b : List Text}
    (h : (a.map fun id => (id.val, ())) = b.map fun id => (id.val, ())) : a = b := by
  refine List.map_injective_iff.mpr ?_ h
  intro x y hxy
  exact Subtype.ext (Prod.mk.inj hxy).1

namespace KeyContent

/-- Everything but the signature. -/
def SameSignedFields (k k' : KeyContent) : Prop :=
  k.version = k'.version ∧ k.suite = k'.suite ∧ k.sigPk = k'.sigPk ∧ k.kemXPk = k'.kemXPk ∧
    k.kemPqPk = k'.kemPqPk ∧ k.certificateIds = k'.certificateIds ∧ k.trailing = k'.trailing

theorem savable_signatureContent (k : KeyContent) : signatureSchema.Savable
    (k.version, k.suite.wire, k.sigPk.val, k.kemXPk.val, k.kemPqPk.val,
      k.certificateIds.ids.map fun id => (id.val, ()), k.trailing, ()) := by
  refine ⟨Schema.savable_int _, Schema.savable_int _, Schema.savable_octets k.sigPk.property,
    Schema.savable_octets k.kemXPk.property, Schema.savable_octets k.kemPqPk.property, ?_, trivial,
    trivial⟩
  intro e he
  rcases List.mem_map.mp he with ⟨id, -, rfl⟩
  exact savable_id id

theorem delimits_signatureSchema : signatureSchema.Delimits true :=
  .inl ⟨trivial, .inl ⟨trivial, .inl ⟨trivial, .inl ⟨trivial, .inl ⟨trivial,
    .inl ⟨⟨.inl ⟨trivial, trivial⟩, rfl⟩, .inr ⟨rfl, rfl⟩⟩⟩⟩⟩⟩⟩

theorem signatureContent_inj {k k' : KeyContent} (h : k.signatureContent = k'.signatureContent)
    (hlen : k.signatureContent.length < 2 ^ 64) : k.SameSignedFields k' := by
  have heq := serialised_inj delimits_signatureSchema k.savable_signatureContent
    k'.savable_signatureContent h hlen
  rcases Prod.mk.inj heq with ⟨hversion, heq⟩
  rcases Prod.mk.inj heq with ⟨hsuite, heq⟩
  rcases Prod.mk.inj heq with ⟨hsig, heq⟩
  rcases Prod.mk.inj heq with ⟨hx, heq⟩
  rcases Prod.mk.inj heq with ⟨hpq, heq⟩
  rcases Prod.mk.inj heq with ⟨hids, heq⟩
  have htrailing := (Prod.mk.inj heq).1
  have hids' := ids_inj hids
  refine ⟨hversion, Suite.wire_inj hsuite, Subtype.ext hsig, Subtype.ext hx, Subtype.ext hpq, ?_,
    htrailing⟩
  cases hk : k.certificateIds
  cases hk' : k'.certificateIds
  simp only [hk, hk'] at hids'
  simp only [hids']

end KeyContent

namespace Certificate

def SameSignedFields (c c' : Certificate) : Prop :=
  c.version = c'.version ∧ c.certificateType = c'.certificateType ∧
    c.certificateData = c'.certificateData ∧ c.trailing = c'.trailing

theorem savable_sigData (c : Certificate) : sigSchema.Savable
    (c.version, c.certificateType, c.certificateData.val, c.trailing, ()) :=
  ⟨Schema.savable_int _, Schema.savable_int _, Schema.savable_octets c.certificateData.property,
    trivial, trivial⟩

theorem delimits_sigSchema : sigSchema.Delimits true :=
  .inl ⟨trivial, .inl ⟨trivial, .inl ⟨trivial, .inr ⟨rfl, rfl⟩⟩⟩⟩

theorem makeSigData_inj {c c' : Certificate} (h : c.makeSigData = c'.makeSigData)
    (hlen : c.makeSigData.length < 2 ^ 64) : c.SameSignedFields c' := by
  have heq := serialised_inj delimits_sigSchema c.savable_sigData c'.savable_sigData h hlen
  rcases Prod.mk.inj heq with ⟨hversion, heq⟩
  rcases Prod.mk.inj heq with ⟨htype, heq⟩
  rcases Prod.mk.inj heq with ⟨hdata, heq⟩
  exact ⟨hversion, htype, Subtype.ext hdata, (Prod.mk.inj heq).1⟩

end Certificate

namespace CertificateRevocation

def SameSignedFields (r r' : CertificateRevocation) : Prop :=
  r.version = r'.version ∧ r.cid = r'.cid ∧ r.trailing = r'.trailing

theorem savable_sigData (r : CertificateRevocation) :
    sigSchema.Savable (r.version, (r.cid.val, ()), r.trailing, ()) :=
  ⟨Schema.savable_int _, savable_id r.cid, trivial, trivial⟩

theorem delimits_sigSchema : sigSchema.Delimits true :=
  .inl ⟨trivial, .inl ⟨.inl ⟨trivial, trivial⟩, .inr ⟨rfl, rfl⟩⟩⟩

theorem makeSigData_inj {r r' : CertificateRevocation} (h : r.makeSigData = r'.makeSigData)
    (hlen : r.makeSigData.length < 2 ^ 64) : r.SameSignedFields r' := by
  have heq := serialised_inj delimits_sigSchema r.savable_sigData r'.savable_sigData h hlen
  rcases Prod.mk.inj heq with ⟨hversion, heq⟩
  rcases Prod.mk.inj heq with ⟨hcid, heq⟩
  exact ⟨hversion, Subtype.ext (Prod.mk.inj hcid).1, (Prod.mk.inj heq).1⟩

end CertificateRevocation

/-! ## Statements -/

/-- The objects that are signed, each kind in a context of its own. -/
inductive SignedObject where
  | key (k : KeyContent)
  | certificate (c : Certificate)
  | revocation (r : CertificateRevocation)

namespace SignedObject

def context : SignedObject → Octets
  | key _ => selfSignatureContext
  | certificate _ => certificateContext
  | revocation _ => revocationContext

def content : SignedObject → Octets
  | key k => k.signatureContent
  | certificate c => c.makeSigData
  | revocation r => r.makeSigData

/-- The message that the signature is made over. -/
def framed (x : SignedObject) : Except Error Octets := frameMessage x.context x.content

def SameSignedFields : SignedObject → SignedObject → Prop
  | key k, key k' => k.SameSignedFields k'
  | certificate c, certificate c' => c.SameSignedFields c'
  | revocation r, revocation r' => r.SameSignedFields r'
  | _, _ => False

theorem key_ne_certificate : selfSignatureContext ≠ certificateContext := by decide

theorem key_ne_revocation : selfSignatureContext ≠ revocationContext := by decide

theorem certificate_ne_revocation : certificateContext ≠ revocationContext := by decide

theorem content_inj {x y : SignedObject} (hcontext : x.context = y.context)
    (hcontent : x.content = y.content) (hlen : x.content.length < 2 ^ 64) :
    x.SameSignedFields y := by
  cases x with
  | key k =>
      cases y with
      | key k' => exact KeyContent.signatureContent_inj hcontent hlen
      | certificate c => exact absurd hcontext key_ne_certificate
      | revocation r => exact absurd hcontext key_ne_revocation
  | certificate c =>
      cases y with
      | key k => exact absurd hcontext key_ne_certificate.symm
      | certificate c' => exact Certificate.makeSigData_inj hcontent hlen
      | revocation r => exact absurd hcontext certificate_ne_revocation
  | revocation r =>
      cases y with
      | key k => exact absurd hcontext key_ne_revocation.symm
      | certificate c => exact absurd hcontext certificate_ne_revocation.symm
      | revocation r' => exact CertificateRevocation.makeSigData_inj hcontent hlen

end SignedObject

/-- Equal frames have equal context and content, objects of one kind with equal
content agree in every signed field, and objects with equal frames are of one
kind. Content octets are counted with 64 bits. -/
theorem signedContent_inj :
    (∀ c c' m m' b, frameMessage c m = .ok b → frameMessage c' m' = .ok b → c = c' ∧ m = m') ∧
    (∀ k k' : KeyContent, k.signatureContent.length < 2 ^ 64 →
      k.signatureContent = k'.signatureContent → k.SameSignedFields k') ∧
    (∀ c c' : Certificate, c.makeSigData.length < 2 ^ 64 →
      c.makeSigData = c'.makeSigData → c.SameSignedFields c') ∧
    (∀ r r' : CertificateRevocation, r.makeSigData.length < 2 ^ 64 →
      r.makeSigData = r'.makeSigData → r.SameSignedFields r') ∧
    ∀ (x y : SignedObject) (b : Octets), x.content.length < 2 ^ 64 →
      x.framed = .ok b → y.framed = .ok b → x.SameSignedFields y := by
  refine ⟨fun c c' m m' b => frameMessage_inj, fun k k' hlen h => KeyContent.signatureContent_inj h hlen,
    fun c c' hlen h => Certificate.makeSigData_inj h hlen,
    fun r r' hlen h => CertificateRevocation.makeSigData_inj h hlen, ?_⟩
  intro x y b hlen hx hy
  rcases frameMessage_inj hx hy with ⟨hcontext, hcontent⟩
  exact SignedObject.content_inj hcontext hcontent hlen

end Securepath.Crypto
