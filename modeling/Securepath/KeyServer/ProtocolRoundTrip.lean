import Securepath.KeyServer.Protocol

/-!
# Round trips of the key server protocol

Every message is decoded to itself, with one exception. Where a response has no
key, the decoder tries the error as a key: the error's code stands where the
version of a key does, and a code that is no 16-bit version is refused as corrupt
data instead of showing that there is no key.
-/

namespace Securepath.KeyServer

open Serialisation Crypto StateExcept

variable {α β : Type} {n : Nat} {b : Octets} {after : After} {t' : Option TagInfo}

/-! ## Codes as versions -/

theorem decodeInteger_neg_iff (typeBits : Nat) (b : Octets) (s sizeHint : Nat) :
    decodeInteger typeBits b s sizeHint < 0 ↔ b.headD 0 &&& 0x80 ≠ 0 := by
  rw [decodeInteger]
  split
  · rename_i hset
    simp only [hset, ne_eq, not_false_eq_true, iff_true]
    have : Int.neg ((decodeFromOctets 64 (b.take s) ^^^
        (2 ^ ((highestBitBlock (decodeFromOctets 64 (b.take s)) false sizeHint 8 + 1) * 8) - 1) :
          Nat) : Int) ≤ 0 := Int.neg_nonpos_of_nonneg (Int.natCast_nonneg _)
    omega
  · rename_i hclear
    simp only [hclear, iff_false, not_lt]
    exact Int.natCast_nonneg _

/-- The content of the element `c` is one of the type `p`. -/
def Readable (p : Prim) (c : Octets) : Prop :=
  c.length ≤ maxStructureSize ∧ p.checkLength c.length = .ok () ∧ ∃ v, p.ofContent c = .ok v

/-- It is not, and no optional takes that for an absent value. -/
def Unreadable (p : Prim) (c : Octets) : Prop :=
  (∃ e, p.checkLength c.length = .error e ∧ e.isElementNotPresent = false) ∨
    p.checkLength c.length = .ok () ∧
      ∃ e, p.ofContent c = .error e ∧ e.isElementNotPresent = false

section Version

variable {z : FixedInt int} {c : Octets}

theorem readable_int (hc : (Prim.int int).content z = .ok c) : Readable (.int int) c := by
  obtain ⟨hle, hcheck, v, hv, -⟩ := Prim.content_accepted hc trivial
  exact ⟨hle, hcheck, v, hv⟩

/-- The octets of a code that is not negative. -/
theorem length_of_nonneg (hc : (Prim.int int).content z = .ok c) (hz : 0 ≤ z.val) :
    0 < c.length ∧ (z.val < 2 ^ 23 ↔ c.length ≤ 3) := by
  have hmax : z.val < 2 ^ (4 * 8) := by
    have := z.property.2
    simp only [IntType.max, int, IntType.bytes, IntWidth.bytes] at this
    norm_num at this ⊢
    omega
  obtain ⟨k, hrun, hlow, -, hshort⟩ := encodeInteger_nonneg 64 9 4 hz (by omega) (by omega) hmax
  have hrun' : encodeInteger z.val 64 9 4 = .ok c := hc
  rw [hrun'] at hrun
  obtain rfl := Except.ok.inj hrun
  simp only [ofDigits_length, Positional.digits_length]
  refine ⟨by omega, fun hsmall => hshort 3 (by simpa using hsmall) (by omega), fun hle => ?_⟩
  have hpow : 2 ^ ((k + 1) * 8 - 1) ≤ 2 ^ 23 := Nat.pow_le_pow_right (by omega) (by omega)
  omega

theorem sign_content (hc : (Prim.int int).content z = .ok c) :
    c ≠ [] ∧ (c.headD 0 &&& 0x80 ≠ 0 ↔ z.val < 0) := by
  obtain ⟨b, hb, hne, -, -, hback⟩ := encodeInteger_spec z
  have hb' : (Prim.int int).content z = .ok b := hb
  rw [hc] at hb'
  obtain rfl := Except.ok.inj hb'
  exact ⟨hne, by rw [← hback]; exact (decodeInteger_neg_iff ..).symm⟩

/-- A code of at most three octets that is not negative is a version, if not the same number. -/
theorem readable_uint16 (hc : (Prim.int int).content z = .ok c) (hz : 0 ≤ z.val)
    (hsmall : z.val < 2 ^ 23) : Readable (.int uint16) c := by
  obtain ⟨hpos, hlength⟩ := length_of_nonneg hc hz
  have hle := hlength.mp hsmall
  refine ⟨by simp only [maxStructureSize]; omega, Prim.checkLength_fixed hpos hle, ?_⟩
  have hsign : ¬ (c.headD 0 &&& 0x80 ≠ 0 ∧ uint16.isSigned = false) := by
    rintro ⟨hset, -⟩
    have := (sign_content hc).2.mp hset
    omega
  exact ⟨_, by rw [Prim.ofContent, if_neg hsign]⟩

/-- Any other code is refused. -/
theorem unreadable_uint16 (hc : (Prim.int int).content z = .ok c)
    (hz : ¬ (0 ≤ z.val ∧ z.val < 2 ^ 23)) : Unreadable (.int uint16) c := by
  obtain ⟨hne, hsign⟩ := sign_content hc
  by_cases hlong : 3 < c.length
  · refine Or.inl ⟨Error.integerDoesNotFit, ?_, rfl⟩
    rw [Prim.checkLength, Prim.checkLength.fixed]
    exact if_pos hlong
  · have hneg : z.val < 0 := by
      by_contra hnot
      exact hz ⟨by omega, (length_of_nonneg hc (by omega)).2.mpr (by omega)⟩
    refine Or.inr ⟨Prim.checkLength_fixed (List.length_pos_iff.mpr hne) (by
      simp only [uint16, IntType.bytes, IntWidth.bytes]; simpa using hlong), Error.signMismatch, ?_,
      rfl⟩
    rw [Prim.ofContent, if_pos ⟨hsign.mpr hneg, rfl⟩]

end Version

/-! ## The error behind an absent value -/

/-- The parts of an encoded error. -/
theorem NetError.encoding_eq {e : NetError}
    (henc : NetError.schema.encoding e.val none = .ok (b, t')) :
    ∃ c r, (Prim.int int).content e.code = .ok c ∧
      b = element (.universal, AsnTag.sequence) true
        (element (.universal, AsnTag.integer) false c ++
          (element (.universal, AsnTag.t61string) false e.message.val ++ r)) := by
  obtain ⟨content, hc, rfl⟩ := Encoding.sequence_eq_ok.mp henc
  obtain ⟨b₁, t₁, b₂, h₁, h₂, rfl⟩ := Encoding.seq_eq_ok.mp hc
  obtain ⟨b₃, t₃, b₄, h₃, -, rfl⟩ := Encoding.seq_eq_ok.mp h₂
  simp only [Schema.encoding, Prim.encoding] at h₁
  split at h₁
  · cases h₁
  · rename_i c hcode
    cases h₁
    simp only [Schema.encoding, Prim.encoding] at h₃
    split at h₃
    · cases h₃
    · rename_i c' hmessage
      cases h₃
      obtain ⟨-, hsame⟩ := Prim.text_eq_ok.mp hmessage
      obtain rfl : e.message.val = c' := hsame
      exact ⟨c, b₄, hcode, rfl⟩

/-- A type whose first two members are numbers, tried on an error. -/
theorem decides_absent {version : IntType} {tail : Dec β} {e : NetError} {Ok : Prop}
    (htail : StartsWith tail (.universal, AsnTag.integer) none none)
    (hread : ∀ c, (Prim.int int).content e.code = .ok c → Ok → Readable (.int version) c)
    (hnot : ∀ c, (Prim.int int).content e.code = .ok c → ¬ Ok → Unreadable (.int version) c)
    (henc : NetError.schema.encoding e.val none = .ok (b, t'))
    (hlen : b.length ≤ maxConstructedSize) :
    Decides (handleOptional none (amp (inSequence
      (amp (both ((Schema.prim (.int version)).deserialise ()) tail))))) Ok (· = none) (n + 1) []
      ⟨b ++ after.octets, after.behind⟩ none none := by
  obtain ⟨c, r, hcode, rfl⟩ := e.encoding_eq henc
  have hbody := (element_length (.universal, AsnTag.sequence) true _).trans hlen
  have hc : c.length < 2 ^ 64 := by
    have := element_length (.universal, AsnTag.integer) false c
    simp only [List.length_append, maxConstructedSize] at hbody
    omega
  have hmessage : e.message.val.length ≤ 2097152 := e.message.property
  have hsize : sizeOf64 e.message.val = e.message.val.length := sizeOf64_eq (by omega)
  refine .missing (fun hok => ?_) fun hok => ?_
  -- the code is read as the version, and the string behind it stands for no number
  · obtain ⟨hle, hcheck, v, hv⟩ := hread c hcode hok
    have hversion : ∀ after, Accepts ((Schema.prim (.int version)).deserialise ()) (· = v) n
        (element (.universal, AsnTag.integer) false c) after none none :=
      fun _ => Accepts.content (t := none) hle hcheck hv
    refine Misses.amp (Misses.inSequence (t := none) (.amp (.both_right (hversion _) ?_)) hbody)
    let h : AsnHeader := ⟨.universal, AsnTag.t61string, e.message.val.length, false⟩
    have hfit : h.length ≤ h.maxSize := hmessage
    have hword : h.length < 2 ^ 64 := lt_of_le_of_lt hmessage (by norm_num)
    have hahead : element (.universal, AsnTag.t61string) false e.message.val ++ r =
        headerOctets h ++ (e.message.val ++ r) := by
      rw [element, hsize, List.append_assoc]
    have hparse := (parseHeader_headerOctets (h := h) hword (e.message.val ++ r)).trans
      (if_pos hfit)
    rw [hahead]
    refine .of_startsWith htail (Or.inr ⟨h, e.message.val ++ r, ?_, hword, ?_⟩) ?_
    · exact List.append_nil _
    · intro hident
      have htag : AsnTag.t61string = AsnTag.integer := congrArg Prod.snd hident
      exact absurd htag (by decide)
    · rw [show After.endOfSequence.octets = [] from rfl, List.append_nil]
      exact headerFits_of_ok hparse
  -- the code is refused as a version, with an error that does not stand for absence
  · refine (Rejects.inSequence (t := none) ?_ ?_).amp
    · simp only [maxConstructedSize] at hbody
      omega
    · refine Or.inr (Or.inr ⟨n, rfl, ?_⟩)
      have hversion : ∀ after, Rejects ((Schema.prim (.int version)).deserialise ()) n
          (element (.universal, AsnTag.integer) false c) after none :=
        fun _ => Rejects.content (t := none) hc (Or.inr (hnot c hcode hok))
      exact .amp (.both_left (hversion _) tail)

/-! ## Values that are there -/

/-- An id is written, whatever tag is pending. -/
theorem idSchema_octets (id : Text) (t : Option TagInfo) :
    (idSchema.encoding (id.val, ())).octets t ≠ [] := by
  obtain ⟨b, t', henc⟩ := Schema.encoding_of_savable idSchema (savable_id id) t
  obtain ⟨c, hc, rfl⟩ := Encoding.sequence_eq_ok.mp henc
  rw [Encoding.octets_of_ok henc]
  exact element_ne_nil _ _ _

theorem materialSchema_unambiguous (k : KeyContent) :
    materialSchema.Unambiguous (keyVal k).2.2 none .endOfSequence := by
  refine ⟨trivial, trivial, trivial, Schema.each_of_forall (fun v hv t after => ?_) _,
    ⟨trivial, ⟨trivial, trivial⟩, trivial, trivial⟩, fun _ => rfl, trivial⟩
  obtain ⟨id, -, rfl⟩ := List.mem_map.mp hv
  rw [if_neg (idSchema_octets id t)]
  exact ⟨trivial, trivial⟩

theorem materialSchema_exact (k : KeyContent) : materialSchema.Exact (keyVal k).2.2 none := by
  refine ⟨trivial, trivial, trivial, ⟨?_, Schema.each_of_forall (fun v hv t _ => ?_) _⟩,
    ⟨trivial, ⟨trivial, trivial⟩, trivial, trivial⟩, trivial, trivial⟩
  · refine List.pairwise_map.mpr (k.certificateIds.sorted.imp fun {x y} hlt => ?_)
    exact ⟨decide_eq_true hlt, decide_eq_false (List.lt_asymm hlt)⟩
  · obtain ⟨id, -, rfl⟩ := List.mem_map.mp hv
    exact ⟨idSchema_octets id t, trivial, trivial⟩

theorem suiteDeserialise_accepts {s : Suite}
    (henc : (Schema.prim (.int uint16)).encoding s.wire none = .ok (b, t'))
    (hlen : b.length ≤ maxConstructedSize) (hn : n < maxStructureDepth) :
    Accepts suiteDeserialise (· = s.wire) n b after none none := by
  have hnumber : Accepts (amp ((Schema.prim (.int uint16)).deserialise ())) (· = s.wire) n b
      ⟨[] ++ after.octets, after.behind⟩ none none :=
    (Schema.accepts_of_isPlain rfl henc hlen (Nat.zero_le _) hn trivial trivial).amp
  rw [← b.append_nil]
  refine .bind hnumber fun v hv => ?_
  subst hv
  rw [if_pos (by cases s <;> simp)]
  exact .pure rfl

theorem keyMembers_accepts {k : KeyContent} {content : Octets}
    (henc : (Schema.fields (.prim (.int uint16)) (.fields (.prim (.int uint16))
      materialSchema)).encoding (keyVal k) none = .ok (content, t'))
    (hlen : content.length ≤ maxConstructedSize) (hdepth : 2 ≤ n) (hn : n < maxStructureDepth) :
    Accepts keyDeserialise (· = keyVal k) (n + 1)
      (element (getIdent none AsnTag.sequence) true content) after none none := by
  refine .inSequence (.amp ?_) hlen
  refine Schema.accepts_plain_fields rfl henc hlen (Nat.zero_le n) hn (fun _ => trivial) trivial
    fun b₂ h₂ hle₂ => ?_
  refine Schema.accepts_fields h₂ hle₂ (fun b₃ t₃ b₄ h₃ _ hle₃ _ => ?_) fun b₄ h₄ hle₄ => ?_
  · exact ⟨Schema.pending_of_isPlain (.prim (.int uint16)) rfl h₃,
      suiteDeserialise_accepts h₃ hle₃ hn⟩
  · exact Schema.accepts_of_isPlain rfl h₄ hle₄ hdepth hn (materialSchema_unambiguous k)
      (materialSchema_exact k)

theorem keyDeserialise_accepts {k : KeyContent}
    (henc : keySchema.encoding (keyVal k) none = .ok (b, t'))
    (hlen : b.length ≤ maxConstructedSize) (hdepth : 2 ≤ n) (hn : n < maxStructureDepth) :
    Accepts keyDeserialise (· = keyVal k) (n + 1) b after none none := by
  obtain ⟨content, hc, rfl⟩ := Encoding.sequence_eq_ok.mp henc
  exact keyMembers_accepts hc ((element_length _ true content).trans hlen) hdepth hn

/-! ## Certificates -/

/-- What follows an absent revocation is not the start of a sequence. -/
def TrailingApart (c : Certificate) : Prop :=
  c.revocation = none →
    After.Differs ⟨c.trailing, .endOfSequence⟩ (.universal, AsnTag.sequence) ∧
      HeaderFits c.trailing

theorem revocation_accepts [KeyOrder] {r : Option CertificateRevocation}
    (henc : (Schema.optional CertificateRevocation.schema).encoding
      (r.map CertificateRevocation.val) none = .ok (b, t'))
    (hlen : b.length ≤ maxConstructedSize) (hdepth : 3 ≤ n) (hn : n < maxStructureDepth)
    (hclear : r = none → Accepts ((Schema.optional CertificateRevocation.schema).deserialise ())
      (· = none) n [] after none none) :
    t' = none ∧ Accepts ((Schema.optional CertificateRevocation.schema).deserialise ())
      (· = r.map CertificateRevocation.val) n b after none none := by
  cases r with
  | none =>
      cases henc
      exact ⟨rfl, hclear rfl⟩
  | some r =>
      have hr : CertificateRevocation.schema.encoding r.val none = .ok (b, t') := henc
      refine ⟨Schema.pending_of_isPlain CertificateRevocation.schema rfl hr, ?_⟩
      refine .optional (.amp (Schema.accepts_of_isPlain rfl hr hlen hdepth hn ?_ ?_)) ?_
      · exact ⟨trivial, ⟨trivial, trivial⟩, ⟨trivial, ⟨trivial, trivial⟩, trivial, trivial⟩,
          fun _ => rfl, trivial⟩
      · exact ⟨trivial, ⟨trivial, trivial⟩, ⟨trivial, ⟨trivial, trivial⟩, trivial, trivial⟩,
          trivial, trivial⟩
      · rintro v rfl
        rfl

/-- The members of a certificate. -/
def certificateMembers : Schema .type :=
  [.prim (.int int), .prim (.int int), .prim .octets, Signature.schema,
    .optional CertificateRevocation.schema, .trailing].foldr .fields .nothing

theorem certificateMembers_accepts [KeyOrder] {c : Certificate} {content : Octets}
    (henc : certificateMembers.encoding c.val none = .ok (content, t'))
    (hlen : content.length ≤ maxConstructedSize) (hdepth : 3 ≤ n) (hn : n < maxStructureDepth)
    (hclear : c.revocation = none →
      Accepts ((Schema.optional CertificateRevocation.schema).deserialise ()) (· = none) n []
        ⟨c.trailing, .endOfSequence⟩ none none) :
    Accepts (Certificate.schema.deserialise ()) (· = c.val) (n + 1)
      (element (getIdent none AsnTag.sequence) true content) after none none := by
  refine .inSequence (.amp ?_) hlen
  refine Schema.accepts_plain_fields rfl henc hlen (Nat.zero_le n) hn (fun _ => trivial) trivial
    fun b₂ h₂ hle₂ => ?_
  refine Schema.accepts_plain_fields rfl h₂ hle₂ (Nat.zero_le n) hn (fun _ => trivial) trivial
    fun b₃ h₃ hle₃ => ?_
  refine Schema.accepts_plain_fields rfl h₃ hle₃ (Nat.zero_le n) hn (fun _ => trivial) trivial
    fun b₄ h₄ hle₄ => ?_
  refine Schema.accepts_plain_fields rfl h₄ hle₄ (Nat.le_of_succ_le hdepth) hn
    (fun _ => ⟨trivial, ⟨trivial, trivial⟩, trivial, trivial⟩)
    ⟨trivial, ⟨trivial, trivial⟩, trivial, trivial⟩ fun b₅ h₅ hle₅ => ?_
  refine Schema.accepts_fields h₅ hle₅ (fun b₆ t₆ b₇ h₆ h₇ hle₆ _ => ?_) fun b₇ h₇ hle₇ => ?_
  · -- the trailing data, the last member, is behind the revocation
    have hlast : b₇ ++ After.endOfSequence.octets = c.trailing := by
      cases h₇
      simp [After.endOfSequence]
      rfl
    refine revocation_accepts h₆ hle₆ hdepth hn fun hnone => ?_
    rw [hlast]
    exact hclear hnone
  · exact Schema.accepts_of_isPlain rfl h₇ hle₇ (Nat.zero_le n) hn ⟨fun _ => rfl, trivial⟩
      ⟨trivial, trivial⟩

theorem certificate_accepts {c : Certificate}
    (henc : Certificate.schema.encoding c.val none = .ok (b, t'))
    (hlen : b.length ≤ maxConstructedSize) (hdepth : 3 ≤ n) (hn : n < maxStructureDepth)
    (hclear : TrailingApart c) :
    Accepts (Certificate.schema.deserialise ()) (· = c.val) (n + 1) b after none none := by
  obtain ⟨content, hc, rfl⟩ := Encoding.sequence_eq_ok.mp henc
  refine certificateMembers_accepts hc ((element_length _ true content).trans hlen) hdepth hn
    fun hnone => ?_
  obtain ⟨hdiffers, hfits⟩ := hclear hnone
  exact (Schema.decides_none CertificateRevocation.schema ⟨_, rfl, hdiffers⟩).accepts hfits

theorem certificate_pending {c : Certificate}
    (henc : Certificate.schema.encoding c.val none = .ok (b, t')) : t' = none := by
  obtain ⟨content, hc, rfl⟩ := Encoding.sequence_eq_ok.mp henc
  obtain ⟨b₁, t₁, r₁, h₁, hr₁, rfl⟩ := Encoding.seq_eq_ok.mp hc
  obtain rfl := Schema.pending_of_isPlain (.prim (.int int)) rfl h₁
  obtain ⟨b₂, t₂, r₂, h₂, hr₂, rfl⟩ := Encoding.seq_eq_ok.mp hr₁
  obtain rfl := Schema.pending_of_isPlain (.prim (.int int)) rfl h₂
  obtain ⟨b₃, t₃, r₃, h₃, hr₃, rfl⟩ := Encoding.seq_eq_ok.mp hr₂
  obtain rfl := Schema.pending_of_isPlain (.prim .octets) rfl h₃
  obtain ⟨b₄, t₄, r₄, h₄, hr₄, rfl⟩ := Encoding.seq_eq_ok.mp hr₃
  obtain rfl := Schema.pending_of_isPlain Signature.schema rfl h₄
  obtain ⟨b₅, t₅, r₅, h₅, hr₅, rfl⟩ := Encoding.seq_eq_ok.mp hr₄
  obtain rfl : t₅ = none := by
    cases hrev : c.revocation with
    | none =>
        have hval : c.val.2.2.2.2.1 = none := by simp [Certificate.val, hrev]
        rw [hval] at h₅
        cases h₅
        rfl
    | some r =>
        have hval : c.val.2.2.2.2.1 = some r.val := by simp [Certificate.val, hrev]
        rw [hval] at h₅
        exact Schema.pending_of_isPlain CertificateRevocation.schema rfl h₅
  exact Schema.pending_of_isPlain (.fields .trailing .nothing) rfl hr₅

/-! ## Bodies of messages -/

namespace Message

/-- What a response without a key needs of its error. -/
def ErrorApart : Message → Prop
  | findKeyResponse _ none error => 0 ≤ error.code.val ∧ error.code.val < 2 ^ 23
  | _ => True

/-- What a response needs of the trailing data of its certificate. -/
def CertificateApart : Message → Prop
  | findCertificateResponse _ (some c) _ => TrailingApart c
  | _ => True

/-- The octets of the members. -/
def content (m : Message) : Octets := (m.value.1.body.encoding m.value.2).octets none

/-- The members fit into one element. -/
def Fits (m : Message) : Prop := m.content.length ≤ maxConstructedSize

end Message

theorem netError_savable (e : NetError) : NetError.schema.Savable e.val :=
  ⟨Schema.savable_int _, ⟨_, Prim.text_eq_ok.mpr ⟨e.message.property, rfl⟩⟩,
    ⟨_, Prim.text_eq_ok.mpr ⟨e.category.property, rfl⟩⟩,
    ⟨_, Prim.text_eq_ok.mpr ⟨e.auxMessage.property, rfl⟩⟩, trivial⟩

theorem key_savable (k : KeyContent) : keySchema.Savable (keyVal k) := by
  refine ⟨Schema.savable_int _, Schema.savable_int _, Schema.savable_octets k.sigPk.property,
    Schema.savable_octets k.kemXPk.property, Schema.savable_octets k.kemPqPk.property, ?_,
    k.sig.savable, trivial, trivial⟩
  intro v hv
  obtain ⟨id, -, rfl⟩ := List.mem_map.mp hv
  exact savable_id id

theorem savable_map {γ : Type} {T : Schema .type} {f : γ → T.Val} (h : ∀ x, T.Savable (f x))
    (o : Option γ) : (Schema.optional T).Savable (o.map f) := by
  intro v hv
  obtain ⟨x, -, rfl⟩ := Option.map_eq_some_iff.mp hv
  exact h x

theorem Message.savable (m : Message) : m.value.1.body.Savable m.value.2 := by
  cases m with
  | registerKeyRequest id key => exact ⟨Schema.savable_int _, key_savable key, trivial⟩
  | findKeyRequest id kid => exact ⟨Schema.savable_int _, savable_id kid, trivial⟩
  | findCertificateRequest id cid => exact ⟨Schema.savable_int _, savable_id cid, trivial⟩
  | registerKeyResponse id error => exact ⟨Schema.savable_int _, netError_savable error, trivial⟩
  | findKeyResponse id key error =>
      exact ⟨Schema.savable_int _, savable_map key_savable key, netError_savable error, trivial⟩
  | findCertificateResponse id cert error =>
      exact ⟨Schema.savable_int _, savable_map Certificate.savable cert, netError_savable error,
        trivial⟩

theorem Message.encoding_eq (m : Message) :
    ∃ t', m.value.1.body.encoding m.value.2 none = .ok (m.content, t') := by
  obtain ⟨b, t', henc⟩ := Schema.encoding_of_savable m.value.1.body m.savable none
  exact ⟨t', by rw [henc, Message.content, Encoding.octets_of_ok henc]⟩

/-- The error at the end of a response. -/
theorem error_accepts {e : NetError}
    (henc : (Schema.fields NetError.schema .nothing).encoding (e.val, ()) none = .ok (b, t'))
    (hlen : b.length ≤ maxConstructedSize) (hdepth : 1 ≤ n) (hn : n < maxStructureDepth) :
    Accepts (both (NetError.schema.deserialise ()) (pure ())) (· = (e.val, ())) n b after none
      none :=
  Schema.accepts_plain_fields (U := .nothing) rfl henc hlen hdepth hn
    (fun _ => ⟨trivial, trivial, trivial, trivial, trivial⟩)
    ⟨trivial, trivial, trivial, trivial, trivial⟩ fun b₂ h₂ _ => by
      cases h₂
      exact .pure rfl

theorem keyTail_startsWith : StartsWith (both suiteDeserialise (materialSchema.deserialise ()))
    (.universal, AsnTag.integer) none none :=
  StartsWith.both (.bind (.amp (Schema.startsWith_head (.prim (.int uint16)) rfl)) _) _

/-- The key of a response is found, or not. -/
theorem optionalKey_accepts {key : Option KeyContent} {e : NetError} {b₁ b₂ : Octets}
    {t₁ : Option TagInfo} {id : FixedInt uint32}
    (happart : (Message.findKeyResponse id key e).ErrorApart)
    (h₁ : (Schema.optional keySchema).encoding (key.map keyVal) none = .ok (b₁, t₁))
    (h₂ : (Schema.fields NetError.schema .nothing).encoding (e.val, ()) t₁ = .ok (b₂, t'))
    (hle₁ : b₁.length ≤ maxConstructedSize) (hle₂ : b₂.length ≤ maxConstructedSize) :
    t₁ = none ∧ Accepts (handleOptional none (amp keyDeserialise)) (· = key.map keyVal) 63 b₁
      ⟨b₂ ++ After.endOfSequence.octets, After.endOfSequence.behind⟩ none none := by
  cases key with
  | some k =>
      have hk : keySchema.encoding (keyVal k) none = .ok (b₁, t₁) := h₁
      refine ⟨Schema.pending_of_isPlain keySchema rfl hk, .optional (.amp
        (keyDeserialise_accepts hk hle₁ (by decide) (by decide))) ?_⟩
      rintro v rfl
      rfl
  | none =>
      cases h₁
      obtain ⟨b₃, t₃, b₄, h₃, h₄, rfl⟩ := Encoding.seq_eq_ok.mp h₂
      cases h₄
      refine ⟨rfl, ?_⟩
      rw [List.append_nil] at hle₂ ⊢
      exact (decides_absent keyTail_startsWith (fun c hc hok => readable_uint16 hc hok.1 hok.2)
        (fun c hc hnot => unreadable_uint16 hc hnot) h₃ hle₂).accepts happart

/-- The certificate of a response is found, or not. -/
theorem optionalCertificate_accepts {cert : Option Certificate} {e : NetError} {b₁ b₂ : Octets}
    {t₁ : Option TagInfo} {id : FixedInt uint32}
    (happart : (Message.findCertificateResponse id cert e).CertificateApart)
    (h₁ : (Schema.optional Certificate.schema).encoding (cert.map Certificate.val) none =
      .ok (b₁, t₁))
    (h₂ : (Schema.fields NetError.schema .nothing).encoding (e.val, ()) t₁ = .ok (b₂, t'))
    (hle₁ : b₁.length ≤ maxConstructedSize) (hle₂ : b₂.length ≤ maxConstructedSize) :
    t₁ = none ∧ Accepts ((Schema.optional Certificate.schema).deserialise ())
      (· = cert.map Certificate.val) 63 b₁
      ⟨b₂ ++ After.endOfSequence.octets, After.endOfSequence.behind⟩ none none := by
  cases cert with
  | some c =>
      have hc : Certificate.schema.encoding c.val none = .ok (b₁, t₁) := h₁
      refine ⟨certificate_pending hc, .optional (.amp
        (certificate_accepts hc hle₁ (by decide) (by decide) happart)) ?_⟩
      rintro v rfl
      rfl
  | none =>
      cases h₁
      obtain ⟨b₃, t₃, b₄, h₃, h₄, rfl⟩ := Encoding.seq_eq_ok.mp h₂
      cases h₄
      refine ⟨rfl, ?_⟩
      rw [List.append_nil] at hle₂ ⊢
      exact (decides_absent (Schema.startsWith_head (.fields (.prim (.int int)) _) rfl)
        (fun c hc _ => readable_int hc) (fun c hc hnot => absurd trivial hnot) h₃ hle₂).accepts
        trivial

/-- A body that fits is decoded, unless one of its optionals is mistaken. -/
theorem body_accepts {m : Message} (henc : m.value.1.body.encoding m.value.2 none = .ok (b, t'))
    (hfits : b.length ≤ maxConstructedSize) (herror : m.ErrorApart) (hcert : m.CertificateApart) :
    Accepts m.value.1.bodyDeserialise (· = m.value.2) 63 b .endOfSequence none none := by
  have hn : 63 < maxStructureDepth := by decide
  cases m with
  | registerKeyRequest id key =>
      refine Schema.accepts_plain_fields rfl henc hfits (Nat.zero_le _) hn (fun _ => trivial)
        trivial fun b₂ h₂ hle₂ => ?_
      refine Schema.accepts_fields (U := .nothing) h₂ hle₂ (fun b₃ t₃ _ h₃ _ hle₃ _ => ?_)
        fun b₄ h₄ _ => ?_
      · exact ⟨Schema.pending_of_isPlain keySchema rfl h₃,
          keyDeserialise_accepts h₃ hle₃ (by decide) (by decide)⟩
      · cases h₄
        exact .pure rfl
  | findKeyRequest id kid =>
      exact Schema.accepts_of_isPlain rfl henc hfits (by decide) hn
        ⟨trivial, ⟨trivial, trivial⟩, trivial⟩ ⟨trivial, ⟨trivial, trivial⟩, trivial⟩
  | findCertificateRequest id cid =>
      exact Schema.accepts_of_isPlain rfl henc hfits (by decide) hn
        ⟨trivial, ⟨trivial, trivial⟩, trivial⟩ ⟨trivial, ⟨trivial, trivial⟩, trivial⟩
  | registerKeyResponse id error =>
      exact Schema.accepts_of_isPlain rfl henc hfits (by decide) hn
        ⟨trivial, ⟨trivial, trivial, trivial, trivial, trivial⟩, trivial⟩
        ⟨trivial, ⟨trivial, trivial, trivial, trivial, trivial⟩, trivial⟩
  | findKeyResponse id key error =>
      refine Schema.accepts_plain_fields rfl henc hfits (Nat.zero_le _) hn (fun _ => trivial)
        trivial fun b₂ h₂ hle₂ => ?_
      exact Schema.accepts_fields h₂ hle₂
        (fun _ _ _ h₃ h₄ hle₃ hle₄ => optionalKey_accepts herror h₃ h₄ hle₃ hle₄)
        fun _ h₄ hle₄ => error_accepts h₄ hle₄ (by decide) hn
  | findCertificateResponse id cert error =>
      refine Schema.accepts_plain_fields rfl henc hfits (Nat.zero_le _) hn (fun _ => trivial)
        trivial fun b₂ h₂ hle₂ => ?_
      exact Schema.accepts_fields h₂ hle₂
        (fun _ _ _ h₃ h₄ hle₃ hle₄ => optionalCertificate_accepts hcert h₃ h₄ hle₃ hle₄)
        fun _ h₄ hle₄ => error_accepts h₄ hle₄ (by decide) hn

/-- A body whose error is taken for a key of no known version is refused. -/
theorem body_rejects {m : Message} (henc : m.value.1.body.encoding m.value.2 none = .ok (b, t'))
    (hfits : b.length ≤ maxConstructedSize) (herror : ¬ m.ErrorApart) :
    Rejects m.value.1.bodyDeserialise 63 b .endOfSequence none := by
  cases m with
  | findKeyResponse id key error =>
      cases key with
      | some k => exact absurd trivial herror
      | none =>
          -- the id of the request is read, and then the error as a key
          obtain ⟨b₁, t₁, b₂, h₁, h₂, rfl⟩ := Encoding.seq_eq_ok.mp henc
          obtain rfl := Schema.pending_of_isPlain (.prim (.int uint32)) rfl h₁
          obtain ⟨b₃, t₃, b₄, h₃, h₄, rfl⟩ := Encoding.seq_eq_ok.mp h₂
          cases h₃
          obtain ⟨b₅, t₅, b₆, h₅, h₆, rfl⟩ := Encoding.seq_eq_ok.mp h₄
          cases h₆
          rw [List.length_append, List.nil_append, List.append_nil] at hfits
          refine .both_right (Schema.accepts_of_isPlain rfl h₁ (by omega) (Nat.zero_le _)
            (by decide) trivial trivial) ?_
          have hrejects : Rejects (handleOptional none (amp keyDeserialise)) 63 []
              ⟨b₅ ++ After.endOfSequence.octets, After.endOfSequence.behind⟩ none :=
            (decides_absent keyTail_startsWith (fun c hc hok => readable_uint16 hc hok.1 hok.2)
              (fun c hc hnot => unreadable_uint16 hc hnot) h₅ (by omega)).rejects herror (by simp)
          rw [List.append_nil]
          exact .both_left hrejects _
  | _ => exact absurd trivial herror

/-! ## Messages -/

theorem visit_all (k : MessageType) {peeked : TagInfo} (h : peeked.tag = k.tag) :
    visit MessageType.all peeked = (do
      let v ← amp (handleTag .implicitTag ⟨none, k.tag⟩ (amp (inSequence (amp k.bodyDeserialise))))
      return ⟨k, v⟩) := by
  cases k <;> simp [visit, MessageType.all, h, MessageType.tag]

theorem asnDerSerialiseChoice_eq (m : Message) : asnDerSerialiseChoice m =
    .ok (element (.contextSpecific, m.value.1.tag) true m.content) := by
  obtain ⟨t', henc⟩ := m.encoding_eq
  have hseq : (Schema.sequence m.value.1.body).encoding m.value.2 (some ⟨none, m.value.1.tag⟩) =
      .ok (element (.contextSpecific, m.value.1.tag) true m.content, t') :=
    Encoding.sequence_eq_ok.mpr ⟨m.content, henc, rfl⟩
  rw [asnDerSerialiseChoice, asnDerSerialise_eq]
  have htagged : (Schema.tagged .implicitTag ⟨none, m.value.1.tag⟩
      (.sequence m.value.1.body)).encoding m.value.2 none = _ := hseq
  rw [htagged]
  rfl

/-- The header of an encoded message. -/
def Message.header (m : Message) : AsnHeader :=
  ⟨.contextSpecific, m.value.1.tag, m.content.length, true⟩

/-- The octets of a message. -/
def Message.octets (m : Message) : Octets :=
  element (.contextSpecific, m.value.1.tag) true m.content

/-- What becomes of a message is up to its body. -/
theorem message_decides {m : Message} {Ok : Prop} (hlen : m.content.length < 2 ^ 64)
    (hfits : m.Fits) (hbody : Decides m.value.1.bodyDeserialise Ok (· = m.value.2) 63 m.content
      .endOfSequence none none) :
    Decides (do let tag ← nextTag; visit MessageType.all tag) Ok (· = m.value) maxStructureDepth
      m.octets ⟨[], .endOfOctets⟩ none none := by
  have hb : m.octets = headerOctets m.header ++ m.content := by
    rw [Message.octets, element, sizeOf64_eq hlen]
    rfl
  have hobject : Decides (amp (handleTag .implicitTag ⟨none, m.value.1.tag⟩
      (amp (inSequence (amp m.value.1.bodyDeserialise))))) _ (· = m.value.2) maxStructureDepth
      m.octets ⟨[], .endOfOctets⟩ none none :=
    .amp (.implicitTag (.amp (.inSequence (t := some ⟨none, m.value.1.tag⟩) (.amp hbody))))
  have halternative := hobject.map (Q := (· = m.value))
    (fun v => (⟨m.value.1, v⟩ : AnyMessage)) fun v hv => by rw [hv]
  have hvisit : visit MessageType.all ⟨some m.header.asnClass, m.header.tag⟩ = _ :=
    visit_all m.value.1 rfl
  rw [← hvisit] at halternative
  refine (Decides.choice hlen hb halternative).congr ⟨fun h => h.2.2.2, fun h => ?_⟩
  refine ⟨?_, by decide, hfits, h⟩
  rw [hb]
  exact headerFits_of_ok ((parseHeader_headerOctets (h := m.header) hlen _).trans (if_pos hfits))

theorem asnDerDeserialiseChoice_of_accepts {m : Message} {P : AnyMessage → Prop}
    (h : Accepts (do let tag ← nextTag; visit MessageType.all tag) P maxStructureDepth m.octets
      ⟨[], .endOfOctets⟩ none none) :
    ∃ v, asnDerDeserialiseChoice m.octets = .ok v ∧ P v := by
  obtain ⟨v, d, hrun, hP⟩ := h.ofOctets
  exact ⟨v, by rw [asnDerDeserialiseChoice, hrun], hP⟩

theorem asnDerDeserialiseChoice_of_rejects {m : Message}
    (h : Rejects (do let tag ← nextTag; visit MessageType.all tag) maxStructureDepth m.octets
      ⟨[], .endOfOctets⟩ none) :
    ∃ e, asnDerDeserialiseChoice m.octets = .error e := by
  obtain ⟨e, d, hrun⟩ := h.ofOctets
  exact ⟨e, by rw [asnDerDeserialiseChoice, hrun]⟩

theorem message_accepted {m : Message} (hfits : m.Fits) (herror : m.ErrorApart)
    (hcert : m.CertificateApart) : asnDerDeserialiseChoice m.octets = .ok m.value := by
  obtain ⟨t', henc⟩ := m.encoding_eq
  have hlen : m.content.length < 2 ^ 64 := lt_of_le_of_lt hfits (by decide)
  have hbody : Decides m.value.1.bodyDeserialise True (· = m.value.2) 63 m.content .endOfSequence
      none none := ⟨fun _ => body_accepts henc hfits herror hcert, fun h => absurd trivial h⟩
  obtain ⟨v, hrun, rfl⟩ := asnDerDeserialiseChoice_of_accepts
    ((message_decides hlen hfits hbody).accepts trivial)
  exact hrun

theorem message_refused {m : Message} (hlen : m.octets.length < 2 ^ 64)
    (hnot : ¬ (m.Fits ∧ m.ErrorApart)) : ∃ e, asnDerDeserialiseChoice m.octets = .error e := by
  obtain ⟨t', henc⟩ := m.encoding_eq
  have hlen' : m.content.length < 2 ^ 64 := lt_of_le_of_lt (element_length _ _ _) hlen
  by_cases hfits : m.Fits
  · have hbody : Decides m.value.1.bodyDeserialise False (· = m.value.2) 63 m.content .endOfSequence
        none none :=
      ⟨False.elim, fun _ _ => body_rejects henc hfits fun herror => hnot ⟨hfits, herror⟩⟩
    exact asnDerDeserialiseChoice_of_rejects
      ((message_decides hlen' hfits hbody).rejects not_false hlen)
  · refine asnDerDeserialiseChoice_of_rejects ?_
    have hb : m.octets = headerOctets m.header ++ m.content := by
      rw [Message.octets, element, sizeOf64_eq hlen']
      rfl
    rw [hb]
    exact .choice hlen' fun hfit => absurd hfit hfits

/-- The visitor is called with the message itself. -/
def Message.RoundTrips (m : Message) : Prop :=
  ∃ b, asnDerSerialiseChoice m = .ok b ∧ asnDerDeserialiseChoice b = .ok m.value

/-- A message comes back when its members fit into an element and, without a key
before it, its error has a code of at most three octets that is not negative. The
trailing data of a certificate without a revocation must not look like one. -/
theorem message_round_trips (m : Message) (hlen : m.octets.length < 2 ^ 64) :
    (m.RoundTrips → m.Fits ∧ m.ErrorApart) ∧
      (m.CertificateApart → m.Fits → m.ErrorApart → m.RoundTrips) := by
  constructor
  · rintro ⟨b, hb, hback⟩
    rw [asnDerSerialiseChoice_eq] at hb
    obtain rfl := Except.ok.inj hb
    by_contra hnot
    obtain ⟨e, hrun⟩ := message_refused hlen hnot
    have hback' : asnDerDeserialiseChoice m.octets = .ok m.value := hback
    rw [hrun] at hback'
    cases hback'
  · intro hcert hfits herror
    exact ⟨m.octets, asnDerSerialiseChoice_eq m, message_accepted hfits herror hcert⟩

namespace NegativeCode

/-- An error with a negative code. -/
def error : NetError :=
  ⟨.cast int (-1), ⟨[0x6e, 0x6f], by decide⟩, ⟨[], nil_length_le⟩, ⟨[], nil_length_le⟩⟩

/-- The answer to a request for a key that is not there. -/
def response : Message := .findKeyResponse (.cast uint32 1) none error

theorem response_length : response.octets.length < 2 ^ 64 := by
  decide +kernel

/-- The response is written, and not read. -/
theorem response_refused : ¬ response.RoundTrips := by
  rintro ⟨b, hb, hback⟩
  rw [asnDerSerialiseChoice_eq] at hb
  obtain rfl := Except.ok.inj hb
  have hrun : asnDerDeserialiseChoice response.octets = .ok response.value := hback
  have hcode : ¬ response.ErrorApart := fun h => absurd h.1 (by decide)
  obtain ⟨e, he⟩ := message_refused response_length fun h => hcode h.2
  rw [he] at hrun
  cases hrun

/-- The same answer, with a code that is not negative. -/
def answer : Message := .findKeyResponse (.cast uint32 1) none { error with code := .cast int 2 }

theorem answer_round_trips : answer.RoundTrips := by
  have hfits : answer.content.length ≤ maxConstructedSize := by decide +kernel
  have herror : answer.ErrorApart := ⟨by decide, by decide⟩
  exact (message_round_trips answer (by decide +kernel)).2 trivial hfits herror

end NegativeCode

end Securepath.KeyServer
