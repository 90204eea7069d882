import Securepath.KeyServer.ProtocolRoundTrip
import Securepath.Crypto.Revocation
import Securepath.Serialisation.Alignment

/-!
# Signed objects of a newer version

A newer writer appends members to a certificate or a public key that an older reader does not know.
The reader keeps them as trailing data, writes them back and takes them into the signed content.
The revocation of a certificate is optional and has no tag of its own, so in a certificate without
one the first unknown member is tried as a revocation.
-/

namespace Securepath.Serialisation

variable {x : Octets}

namespace Schema

/-- The octets of `w` are those of `v` and then `x`. -/
def Extends {T : Schema .type} (v w : T.Val) (x : Octets) : Prop :=
  ∀ t b t', T.encoding v t = .ok (b, t') → T.encoding w t = .ok (b ++ x, t')

theorem Extends.trailing : @Extends (fields trailing nothing) ([], ()) (x, ()) x := by
  intro t b t' henc
  cases henc
  change Except.ok (x ++ [], t) = _
  rw [List.append_nil]
  rfl

theorem Extends.fields {T U : Schema .type} {u : T.Val} {v w : U.Val} (h : Extends v w x) :
    @Extends (fields T U) (u, v) (u, w) x := by
  intro t b t' henc
  obtain ⟨b₁, t₁, b₂, h₁, h₂, rfl⟩ := Encoding.seq_eq_ok.mp henc
  refine Encoding.seq_eq_ok.mpr ⟨b₁, t₁, b₂ ++ x, h₁, h t₁ b₂ t' h₂, ?_⟩
  exact List.append_assoc ..

theorem Extends.encoding {members : Schema .type} {v w : members.Val} (h : Extends v w x)
    (hv : (sequence members).Savable v) :
    ∃ t', members.encoding w none = .ok ((members.encoding v).octets none ++ x, t') := by
  obtain ⟨b, t', henc⟩ := encoding_of_savable members (v := v) hv none
  exact ⟨t', by rw [Encoding.octets_of_ok henc]; exact h none b t' henc⟩

end Schema

/-- The members of `v` within a sequence and then `x`. -/
def extended {members : Schema .type} (v : (Schema.sequence members).Val) (x : Octets) : Octets :=
  element (getIdent none AsnTag.sequence) true ((members.encoding v).octets none ++ x)

end Securepath.Serialisation

namespace Securepath.KeyServer

open Serialisation Crypto StateExcept BufferedStream

variable {x : Octets} {c : Certificate} {k : KeyContent}

/-- What is serialised of a struct of a newer version. -/
theorem serialised_eq_extended {members : Schema .type} {v w : (Schema.sequence members).Val}
    (h : @Schema.Extends members v w x) (hv : (Schema.sequence members).Savable v) :
    serialised (.sequence members) w = extended v x := by
  obtain ⟨t', henc⟩ := h.encoding hv
  have hsequence : (Schema.sequence members).encoding w none =
      .ok (extended v x, t') := Encoding.sequence_eq_ok.mpr ⟨_, henc, rfl⟩
  rw [serialised, asnDerSerialise_eq, hsequence]
  rfl

/-! ## The octets of a newer version -/

def certificateExtended (c : Certificate) (x : Octets) : Octets :=
  @extended certificateMembers c.val x

/-- What a newer version signs of a certificate. -/
def certificateSigExtended (c : Certificate) (x : Octets) : Octets :=
  @extended ([.prim (.int int), .prim (.int int), .prim .octets, .trailing].foldr .fields .nothing)
    (c.version, c.certificateType, c.certificateData.val, c.trailing, ()) x

/-- The members of a public key. -/
def keyMembers : Schema .type :=
  .fields (.prim (.int uint16)) (.fields (.prim (.int uint16)) materialSchema)

def keyExtended (k : KeyContent) (x : Octets) : Octets := @extended keyMembers (keyVal k) x

/-- What a newer version signs of a public key. -/
def keySigExtended (k : KeyContent) (x : Octets) : Octets :=
  @extended ([.prim (.int uint16), .prim (.int uint16), .prim .octets, .prim .octets,
      .prim .octets, .container .set idSchema, .trailing].foldr .fields .nothing)
    (k.version, k.suite.wire, k.sigPk.val, k.kemXPk.val, k.kemPqPk.val,
      k.certificateIds.ids.map fun id => (id.val, ()), k.trailing, ()) x

/-- `asn_der_deserialise<public_key>`: the value that is read. -/
def keyLoad (o : Octets) : Except Serialisation.Error keySchema.Val :=
  match amp keyDeserialise (.ofOctets o) with
  | .ok v _ => .ok v
  | .error e _ => .error e

theorem certificate_extends (htrailing : c.trailing = []) :
    @Schema.Extends certificateMembers c.val ({ c with trailing := x } : Certificate).val x := by
  rcases c with ⟨version, certificateType, data, sig, revocation, trailing⟩
  obtain rfl : trailing = [] := htrailing
  exact .fields (.fields (.fields (.fields (.fields .trailing))))

theorem certificate_save_extended (htrailing : c.trailing = []) :
    ({ c with trailing := x } : Certificate).save = certificateExtended c x :=
  @serialised_eq_extended x certificateMembers _ _ (certificate_extends htrailing) c.savable

theorem certificate_sigData_extended (htrailing : c.trailing = []) :
    ({ c with trailing := x } : Certificate).makeSigData = certificateSigExtended c x := by
  rcases c with ⟨version, certificateType, data, sig, revocation, trailing⟩
  obtain rfl : trailing = [] := htrailing
  refine serialised_eq_extended (.fields (.fields (.fields .trailing))) ?_
  exact ⟨Schema.savable_int _, Schema.savable_int _, Schema.savable_octets data.property, trivial,
    trivial⟩

theorem key_extends (htrailing : k.trailing = []) :
    @Schema.Extends keyMembers (keyVal k) (keyVal { k with trailing := x }) x := by
  rcases k with ⟨version, suite, sigPk, kemXPk, kemPqPk, ids, sig, trailing⟩
  obtain rfl : trailing = [] := htrailing
  exact .fields (.fields (.fields (.fields (.fields (.fields (.fields .trailing))))))

theorem key_save_extended (htrailing : k.trailing = []) :
    serialised keySchema (keyVal { k with trailing := x }) = keyExtended k x :=
  @serialised_eq_extended x keyMembers _ _ (key_extends htrailing) (key_savable k)

theorem key_signatureContent_extended (htrailing : k.trailing = []) :
    ({ k with trailing := x } : KeyContent).signatureContent = keySigExtended k x := by
  rcases k with ⟨version, suite, sigPk, kemXPk, kemPqPk, ids, sig, trailing⟩
  obtain rfl : trailing = [] := htrailing
  refine serialised_eq_extended
    (.fields (.fields (.fields (.fields (.fields (.fields .trailing)))))) ?_
  refine ⟨Schema.savable_int _, Schema.savable_int _, Schema.savable_octets sigPk.property,
    Schema.savable_octets kemXPk.property, Schema.savable_octets kemPqPk.property, ?_, trivial,
    trivial⟩
  intro v hv
  obtain ⟨id, -, rfl⟩ := List.mem_map.mp hv
  exact savable_id id

/-! ## Octets that are no revocation -/

/-- A decoder of octets that are the rest of a sequence. -/
def inFront (x : Octets) : Deserialiser := { Deserialiser.ofOctets x with seqPos := [x.length] }

/-- `decode` of an optional revocation. -/
def revocationDecode : Dec (Option CertificateRevocation.schema.Val) :=
  handleOptional none (amp (@Schema.deserialise .unordered _ CertificateRevocation.schema ()))

/-- Of these octets as the rest of a sequence no revocation is read, and nothing fails. -/
def NoRevocation (x : Octets) : Prop :=
  ∃ d, revocationDecode (inFront x) = .ok none d ∧ d.ex = none

/-- The first unknown member is no sequence. -/
theorem noRevocation_of_differs
    (hdiffers : After.Differs ⟨x, .endOfSequence⟩ (.universal, AsnTag.sequence))
    (hfits : HeaderFits x) : NoRevocation x := by
  have hready : Ready [] x (inFront x) [] ⟨x, .endOfSequence⟩ := by
    refine ⟨represents_ofOctets x, rfl, [], ?_, [], ?_⟩
    · exact (List.append_nil x).symm
    · change [x.length] = [0 + 0 + x.length]
      rw [Nat.zero_add]
  obtain ⟨v, s, hrun, -, -, rfl⟩ := (@Schema.decides_none .unordered CertificateRevocation.schema
    63 none none ⟨x, .endOfSequence⟩ ⟨_, rfl, hdiffers⟩).accepts hfits _ _ _ hready rfl rfl
  exact ⟨_, hrun, rfl⟩

theorem prim_alike (o : Offset) (p : Prim) :
    o.Alike (amp (@Schema.deserialise .unordered _ (.prim p) ())) :=
  .amp (.bind .useCurrentTag fun t => .decodePrim p t)

theorem id_alike (o : Offset) :
    o.Alike (amp (@Schema.deserialise .unordered _ idSchema ())) :=
  .inSequence (.amp (.both (prim_alike o .octets) (.amp (.pure ()))))

theorem signature_alike (o : Offset) :
    o.Alike (amp (@Schema.deserialise .unordered _ Signature.schema ())) :=
  .inSequence (.amp (.both (prim_alike o _) (.amp (.both (id_alike o)
    (.amp (.both (prim_alike o .octets) (.amp (.pure ()))))))))

theorem revocation_alike (o : Offset) :
    o.Alike (amp (@Schema.deserialise .unordered _ CertificateRevocation.schema ())) :=
  .inSequence (.amp (.both (prim_alike o _) (.amp (.both (id_alike o)
    (.amp (.both (signature_alike o) (.amp (.both (.amp .decodeTrailing) (.amp (.pure ()))))))))))

/-! ## Certificates without a revocation -/

variable {saved : List Peek} {data content : Octets} {d d' : Deserialiser} {t' : Option TagInfo}

/-- The revocation and the trailing data. -/
def lastMembers : Dec (Option CertificateRevocation.schema.Val × Octets × Unit) :=
  both revocationDecode (both decodeTrailing (pure ()))

/-- The decoder comes to the last members behind those that are always there. -/
theorem certificate_run
    (henc : certificateMembers.encoding c.val none = .ok (content, t'))
    (hlen : content.length ≤ maxConstructedSize) (hnone : c.revocation = none)
    (hready : Ready saved data d content .endOfSequence) (htag : d.currentTag = none)
    (hdepth : d.seqPos.length + 63 = maxStructureDepth) :
    ∃ s, Ready saved data { d with s := s, currentTag := none } c.trailing .endOfSequence ∧
      ∀ (v : certificateMembers.Val) d',
        @Schema.deserialise .unordered _ certificateMembers () d = .ok v d' ↔
          v.1 = c.version ∧ (v.2.1 = c.certificateType ∧ (v.2.2.1 = c.certificateData.val ∧
            (v.2.2.2.1 = c.sig.val ∧
              lastMembers { d with s := s, currentTag := none } = .ok v.2.2.2.2 d' ∧
                d'.ex = none) ∧ d'.ex = none) ∧ d'.ex = none) ∧ d'.ex = none := by
  rcases c with ⟨version, certificateType, certificateData, sig, revocation, trailing⟩
  obtain rfl : revocation = none := hnone
  obtain ⟨b₁, t₁, r₁, h₁, hr₁, rfl⟩ := Encoding.seq_eq_ok.mp henc
  obtain rfl := Schema.pending_of_isPlain (.prim (.int int)) rfl h₁
  obtain ⟨b₂, t₂, r₂, h₂, hr₂, rfl⟩ := Encoding.seq_eq_ok.mp hr₁
  obtain rfl := Schema.pending_of_isPlain (.prim (.int int)) rfl h₂
  obtain ⟨b₃, t₃, r₃, h₃, hr₃, rfl⟩ := Encoding.seq_eq_ok.mp hr₂
  obtain rfl := Schema.pending_of_isPlain (.prim .octets) rfl h₃
  obtain ⟨b₄, t₄, r₄, h₄, hr₄, rfl⟩ := Encoding.seq_eq_ok.mp hr₃
  obtain rfl := Schema.pending_of_isPlain Signature.schema rfl h₄
  obtain rfl : r₄ = trailing := by
    cases hr₄
    change [] ++ (trailing ++ []) = trailing
    rw [List.append_nil, List.nil_append]
  simp only [List.length_append] at hlen
  let _ : KeyOrder := .unordered
  obtain ⟨s₁, hready₁, hiff₁⟩ := Accepts.both_run (Schema.accepts_of_isPlain (n := 63)
    rfl h₁ (by omega) (by decide) (by decide) trivial trivial) hready htag hdepth
    (@Schema.deserialise .unordered _ (.fields (.prim (.int int)) (.fields (.prim .octets)
      (.fields Signature.schema (.fields (.optional CertificateRevocation.schema)
        (.fields .trailing .nothing))))) ())
  obtain ⟨s₂, hready₂, hiff₂⟩ := Accepts.both_run (Schema.accepts_of_isPlain (n := 63)
    rfl h₂ (by omega) (by decide) (by decide) trivial trivial) hready₁ rfl hdepth
    (@Schema.deserialise .unordered _ (.fields (.prim .octets)
      (.fields Signature.schema (.fields (.optional CertificateRevocation.schema)
        (.fields .trailing .nothing)))) ())
  obtain ⟨s₃, hready₃, hiff₃⟩ := Accepts.both_run (Schema.accepts_of_isPlain (n := 63)
    rfl h₃ (by omega) (by decide) (by decide) trivial trivial) hready₂ rfl hdepth
    (@Schema.deserialise .unordered _ (.fields Signature.schema
      (.fields (.optional CertificateRevocation.schema) (.fields .trailing .nothing))) ())
  obtain ⟨s₄, hready₄, hiff₄⟩ := Accepts.both_run (Schema.accepts_of_isPlain (n := 63)
    rfl h₄ (by omega) (by decide) (by decide) ⟨trivial, ⟨trivial, trivial⟩, trivial, trivial⟩
    ⟨trivial, ⟨trivial, trivial⟩, trivial, trivial⟩) hready₃ rfl hdepth lastMembers
  refine ⟨s₄, hready₄, fun v d' => (hiff₁ v d').trans (and_congr_right fun _ =>
    and_congr_left fun _ => (hiff₂ v.2 d').trans (and_congr_right fun _ =>
      and_congr_left fun _ => (hiff₃ v.2.2 d').trans (and_congr_right fun _ =>
        and_congr_left fun _ => hiff₄ v.2.2.2 d')))⟩

/-- Where the sequence ends with the octets, so does what is ahead. -/
theorem ready_last (hready : Ready [] data d x .endOfSequence) (hseq : d.seqPos = [data.length]) :
    data.take d.pos ++ x = data ∧ data.length = d.pos + x.length := by
  obtain ⟨rest, hrest, es, hes⟩ := hready.ahead
  have hend : data.length = d.pos + x.length := (List.cons.inj (hseq.symm.trans hes)).1
  have hlen := congrArg List.length hrest
  simp only [After.endOfSequence, List.nil_append, List.length_append, List.length_drop] at hlen
  obtain rfl : rest = [] := List.length_eq_zero_iff.mp (by omega)
  have hdrop : data.drop d.pos = x := by simpa [After.endOfSequence] using hrest
  exact ⟨by rw [← hdrop, List.take_append_drop], hend⟩

/-- A decoder in front of the last octets of a sequence is aligned with one that has only these. -/
theorem aligned_inFront (hready : Ready [] data d x .endOfSequence) (hseq : d.seqPos = [data.length])
    (htag : d.currentTag = none) :
    Offset.Aligned ⟨data.take d.pos, x, [], []⟩ d (inFront x) := by
  obtain ⟨hdata, hend⟩ := ready_last hready hseq
  have hbefore : (data.take d.pos).length = d.pos := by
    rw [List.length_take]
    omega
  refine ⟨⟨?_, hready.ex⟩, ⟨represents_ofOctets x, rfl⟩, ?_, ?_, htag, rfl⟩
  · rw [hdata]
    exact hready.represents
  · rw [hbefore]
    rfl
  · change d.seqPos = [(data.take d.pos).length + x.length]
    rw [hbefore, hseq, hend]

/-- No revocation is read, and the rest is the trailing data. -/
theorem lastMembers_of_noRevocation (h : NoRevocation x)
    (hready : Ready [] data d x .endOfSequence) (hseq : d.seqPos = [data.length])
    (htag : d.currentTag = none) :
    ∃ s, lastMembers d = .ok (none, x, ()) { d with s := s } ∧ Represents [] data s := by
  obtain ⟨d₂, hnone, hex⟩ := h
  obtain ⟨s, hrun, hrep, hpos⟩ :=
    (aligned_inFront hready hseq htag).absent_first revocation_alike hnone hex
  rw [(ready_last hready hseq).1] at hrep
  have hfirst : Ready [] data d ([] ++ x) .endOfSequence := hready
  obtain ⟨v, s', hrun', hrep', -, rfl⟩ := (Accepts.trailing (n := 63) (by decide)
    fun _ => rfl) _ _ _ (hfirst.second hrep hpos d.currentTag) htag (by rw [hseq]; rfl)
  have hex : d.ex = none := hready.ex
  refine ⟨s', both_eq_ok.mpr ⟨{ d with s := s }, amp_of_ok hrun hex, ?_, hex⟩, hrep'⟩
  rw [← htag] at hrun'
  exact both_eq_ok.mpr ⟨{ d with s := s' }, amp_of_ok hrun' hex, rfl, hex⟩

/-- With no revocation in the value, none was read. -/
theorem noRevocation_of_lastMembers {v : Option CertificateRevocation.schema.Val × Octets × Unit}
    (hready : Ready [] data d x .endOfSequence) (hseq : d.seqPos = [data.length])
    (htag : d.currentTag = none) (hrun : lastMembers d = .ok v d') (hnone : v.1 = none) :
    NoRevocation x := by
  obtain ⟨d₁, hfirst, -⟩ := both_eq_ok.mp hrun
  obtain ⟨hrun₁, hex⟩ := amp_eq_ok.mp hfirst
  rw [hnone] at hrun₁
  exact (aligned_inFront hready hseq htag).absent_second revocation_alike hrun₁ hex

/-! ## Loading -/

theorem certificate_load_extended (htrailing : c.trailing = []) (hsome : c.revocation ≠ none)
    (hlen : ((certificateMembers.encoding c.val).octets none ++ x).length ≤ maxConstructedSize) :
    Certificate.load (certificateExtended c x) = .ok { c with trailing := x } := by
  obtain ⟨t', henc⟩ := (certificate_extends htrailing (x := x)).encoding c.savable
  let _ : KeyOrder := .unordered
  have haccepts : Accepts (Certificate.schema.deserialise ())
      (· = ({ c with trailing := x } : Certificate).val) maxStructureDepth (certificateExtended c x)
      ⟨[], .endOfOctets⟩ none none :=
    certificateMembers_accepts (n := 63) henc hlen (by decide) (by decide)
      fun hnone => absurd hnone hsome
  obtain ⟨v, d, hrun, rfl⟩ := haccepts.amp.ofOctets
  have hrun' : Certificate.schema.decode (.ofOctets (certificateExtended c x)) = _ := hrun
  rw [Certificate.load]
  simp only [asnDerDeserialise, hrun', Certificate.ofVal_val]

theorem revocation_of_ofVal {v : Certificate.schema.Val} (hval : Certificate.ofVal v = .ok c)
    (hnone : c.revocation = none) : v.2.2.2.2.1 = none := by
  rcases v with ⟨version, certificateType, data, sig, revocation, trailing, rest⟩
  cases revocation with
  | none => rfl
  | some r =>
      simp only [Certificate.ofVal] at hval
      cases hdata : asText data with
      | error e => simp only [hdata] at hval; cases hval
      | ok data' =>
          cases hsig : Signature.ofVal sig with
          | error e => simp only [hdata, hsig] at hval; cases hval
          | ok sig' =>
              cases hr : CertificateRevocation.ofVal r with
              | error e => simp only [hdata, hsig, hr] at hval; cases hval
              | ok r' =>
                  simp only [hdata, hsig, hr] at hval
                  cases hval
                  cases hnone

/-- Inside of a sequence that was entered. -/
theorem inSequence_eq_ok {α : Type} {body : Dec α} {d₀ d₁ : Deserialiser} {v : α}
    (hstart : startConstructed (getIdent none AsnTag.sequence) Error.invalidSequence
      { d₀ with currentTag := none } = .ok () d₁) (htag : d₀.currentTag = none) :
    amp (inSequence body) d₀ = .ok v d' ↔
      ∃ d₂, body d₁ = .ok v d₂ ∧ endSequence d₂ = d' ∧ d'.ex = none := by
  have henter : inSequence body d₀ = withDestructor body endSequence d₁ := by
    rw [inSequence, bind_of_ok (useCurrentTag_apply d₀), htag, startSequence, bind_of_ok hstart]
  rw [amp_eq_ok, henter]
  cases hrun : body d₁ with
  | ok w d₂ =>
      rw [withDestructor, scopeExit_of_ok hrun]
      constructor
      · rintro ⟨h, hex⟩
        cases h
        exact ⟨d₂, rfl, rfl, hex⟩
      · rintro ⟨d₃, h, rfl, hex⟩
        cases h
        exact ⟨rfl, hex⟩
  | error e d₂ =>
      rw [withDestructor, scopeExit_of_error hrun]
      refine iff_of_false ?_ ?_
      · rintro ⟨h, -⟩
        cases h
      · rintro ⟨d₃, h, -⟩
        cases h

/-- The end of a sequence that ends with the octets. -/
theorem endSequence_last {s : BufferedStream} (hrep : Represents [] data s)
    (hseq : d.seqPos = [data.length]) :
    ∃ s', endSequence { d with s := s } = { d with s := s', seqPos := [] } := by
  obtain ⟨s', hpop, -⟩ := pop_of_le (d := { d with s := s }) hrep hseq le_rfl
  exact ⟨s', by rw [endSequence, hpop]⟩

theorem certificate_load_iff (htrailing : c.trailing = []) (hnone : c.revocation = none)
    (hlen : ((certificateMembers.encoding c.val).octets none ++ x).length ≤ maxConstructedSize) :
    Certificate.load (certificateExtended c x) = .ok { c with trailing := x } ↔
      NoRevocation x := by
  obtain ⟨t', henc⟩ := (certificate_extends htrailing (x := x)).encoding c.savable
  obtain ⟨content, hcontent⟩ :
      ∃ content, content = (certificateMembers.encoding c.val).octets none ++ x := ⟨_, rfl⟩
  have hoctets : certificateExtended c x = element (getIdent none AsnTag.sequence) true content := by
    rw [hcontent]
    rfl
  rw [← hcontent] at henc hlen
  rw [hoctets]
  have hready := Schema.ready_ofOctets (element (getIdent none AsnTag.sequence) true content) []
    .endOfOctets (by decide) (by simp)
  rw [List.append_nil] at hready
  rcases startConstructed_ready Error.invalidSequence hready (lt_of_le_of_lt hlen (by decide)) with
    ⟨hbig | hdeep, -⟩ | ⟨-, -, s₀, hstart, hready₁⟩
  · omega
  · cases hdeep
  obtain ⟨s₁, hready₂, hrun⟩ := certificate_run (c := { c with trailing := x }) henc hlen hnone
    hready₁ rfl rfl
  have hseq : ({ Deserialiser.ofOctets (element (getIdent none AsnTag.sequence) true content) with
      s := s₁, seqPos := [0 + (element (getIdent none AsnTag.sequence) true content).length] } :
      Deserialiser).seqPos = [(element (getIdent none AsnTag.sequence) true content).length] :=
    congrArg (fun n => [n]) (Nat.zero_add _)
  constructor
  · intro hload
    unfold Certificate.load at hload
    split at hload
    · cases hload
    next v hv =>
      split at hload
      · cases hload
      next c' hval =>
        cases hload
        unfold asnDerDeserialise at hv
        split at hv
        next v' d' hdec =>
          cases hv
          obtain ⟨d₂, hbody, -⟩ := (inSequence_eq_ok hstart rfl).mp hdec
          obtain ⟨-, ⟨-, ⟨-, ⟨-, hlast, -⟩, -⟩, -⟩, -⟩ := (hrun v d₂).mp (amp_eq_ok.mp hbody).1
          exact noRevocation_of_lastMembers hready₂ hseq rfl hlast (revocation_of_ofVal hval hnone)
        next => cases hv
  · intro h
    obtain ⟨s₂, hlast, hrep⟩ := lastMembers_of_noRevocation h hready₂ hseq rfl
    have hvalue : ({ c with trailing := x } : Certificate).val.2.2.2.2 = (none, x, ()) := by
      change (c.revocation.map CertificateRevocation.val, x, ()) = _
      rw [hnone]
      rfl
    have hbody := (hrun ({ c with trailing := x } : Certificate).val _).mpr
      ⟨rfl, ⟨rfl, ⟨rfl, ⟨rfl, by rw [hvalue]; exact hlast, rfl⟩, rfl⟩, rfl⟩, rfl⟩
    obtain ⟨s₃, hend⟩ := endSequence_last hrep hseq
    have hdec : amp (inSequence (amp (@Schema.deserialise .unordered _ certificateMembers ())))
        (.ofOctets (element (getIdent none AsnTag.sequence) true content)) =
          .ok ({ c with trailing := x } : Certificate).val _ :=
      (inSequence_eq_ok hstart rfl).mpr ⟨_, amp_of_ok hbody rfl, hend, rfl⟩
    have hdec' : @Schema.decode .unordered Certificate.schema
        (.ofOctets (element (getIdent none AsnTag.sequence) true content)) = _ := hdec
    simp only [Certificate.load, asnDerDeserialise, hdec', Certificate.ofVal_val]

theorem certificate_refused (hlen : (certificateExtended c x).length < 2 ^ 64)
    (hbig : maxConstructedSize < ((certificateMembers.encoding c.val).octets none ++ x).length) :
    ∃ e, Certificate.load (certificateExtended c x) = .error e := by
  have hrejects : Rejects (inSequence (amp (@Schema.deserialise .unordered _ certificateMembers ())))
      maxStructureDepth (certificateExtended c x) ⟨[], .endOfOctets⟩ none :=
    .inSequence (lt_of_le_of_lt (element_length _ true _) hlen) (.inl hbig)
  obtain ⟨e, d, hrun⟩ := hrejects.amp.ofOctets
  have hrun' : @Schema.decode .unordered Certificate.schema
      (.ofOctets (certificateExtended c x)) = _ := hrun
  refine ⟨.serialisation e, ?_⟩
  simp only [Certificate.load, asnDerDeserialise, hrun']

theorem key_load_extended (htrailing : k.trailing = [])
    (hlen : ((keyMembers.encoding (keyVal k)).octets none ++ x).length ≤ maxConstructedSize) :
    keyLoad (keyExtended k x) = .ok (keyVal { k with trailing := x }) := by
  obtain ⟨t', henc⟩ := (key_extends htrailing (x := x)).encoding (key_savable k)
  have haccepts : Accepts keyDeserialise (· = keyVal { k with trailing := x }) maxStructureDepth
      (keyExtended k x) ⟨[], .endOfOctets⟩ none none :=
    keyMembers_accepts (n := 63) henc hlen (by decide) (by decide)
  obtain ⟨v, d, hrun, rfl⟩ := haccepts.amp.ofOctets
  rw [keyLoad, hrun]

theorem key_refused (hlen : (keyExtended k x).length < 2 ^ 64)
    (hbig : maxConstructedSize < ((keyMembers.encoding (keyVal k)).octets none ++ x).length) :
    ∃ e, keyLoad (keyExtended k x) = .error e := by
  have hrejects : Rejects keyDeserialise maxStructureDepth (keyExtended k x) ⟨[], .endOfOctets⟩
      none := .inSequence (lt_of_le_of_lt (element_length _ true _) hlen) (.inl hbig)
  obtain ⟨e, d, hrun⟩ := hrejects.amp.ofOctets
  exact ⟨e, by rw [keyLoad, hrun]⟩

/-! ## What an older reader keeps -/

/-- An older reader reads the members it knows and keeps the others, and what it writes, identifies
and verifies is what the newer writer does. -/
def CertificateKept (c : Certificate) (x : Octets) : Prop :=
  let c' : Certificate := { c with trailing := x }
  Certificate.load (certificateExtended c x) = .ok c' ∧ c'.save = certificateExtended c x ∧
    c'.makeSigData = certificateSigExtended c x ∧
    ∀ P : Primitives, @Certificate.id P c' = @Certificate.id P c

/-- The same of a public key. -/
def KeyKept (k : KeyContent) (x : Octets) : Prop :=
  let k' : KeyContent := { k with trailing := x }
  keyLoad (keyExtended k x) = .ok (keyVal k') ∧
    serialised keySchema (keyVal k') = keyExtended k x ∧
    k'.signatureContent = keySigExtended k x ∧
    ∀ P : Primitives, @KeyContent.constructId P k' = @KeyContent.constructId P k

theorem certificateKept_iff (htrailing : c.trailing = [])
    (hlen : (certificateExtended c x).length < 2 ^ 64) :
    CertificateKept c x ↔
      ((certificateMembers.encoding c.val).octets none ++ x).length ≤ maxConstructedSize ∧
        (c.revocation = none → NoRevocation x) := by
  constructor
  · rintro ⟨hload, -⟩
    have hfits : ((certificateMembers.encoding c.val).octets none ++ x).length ≤
        maxConstructedSize := by
      by_contra hbig
      obtain ⟨e, hrefused⟩ := certificate_refused hlen (Nat.lt_of_not_le hbig)
      cases hload.symm.trans hrefused
    exact ⟨hfits, fun hnone => (certificate_load_iff htrailing hnone hfits).mp hload⟩
  · rintro ⟨hfits, hnone⟩
    refine ⟨?_, certificate_save_extended htrailing, certificate_sigData_extended htrailing,
      fun _ => rfl⟩
    by_cases hrevocation : c.revocation = none
    · exact (certificate_load_iff htrailing hrevocation hfits).mpr (hnone hrevocation)
    · exact certificate_load_extended htrailing hrevocation hfits

theorem keyKept_iff (htrailing : k.trailing = []) (hlen : (keyExtended k x).length < 2 ^ 64) :
    KeyKept k x ↔
      ((keyMembers.encoding (keyVal k)).octets none ++ x).length ≤ maxConstructedSize := by
  constructor
  · rintro ⟨hload, -⟩
    by_contra hbig
    obtain ⟨e, hrefused⟩ := key_refused hlen (Nat.lt_of_not_le hbig)
    cases hload.symm.trans hrefused
  · intro hfits
    exact ⟨key_load_extended htrailing hfits, key_save_extended htrailing,
      key_signatureContent_extended htrailing, fun _ => rfl⟩

/-- An older reader keeps unknown members within the limit on constructed elements, but for those
behind an absent revocation that are read as one or fail as one. -/
theorem unknown_members_kept_iff (c : Certificate) (k : KeyContent) (x : Octets) :
    (c.trailing = [] → (certificateExtended c x).length < 2 ^ 64 →
      (CertificateKept c x ↔
        ((certificateMembers.encoding c.val).octets none ++ x).length ≤ maxConstructedSize ∧
          (c.revocation = none → NoRevocation x))) ∧
    (k.trailing = [] → (keyExtended k x).length < 2 ^ 64 →
      (KeyKept k x ↔
        ((keyMembers.encoding (keyVal k)).octets none ++ x).length ≤ maxConstructedSize)) :=
  ⟨fun htrailing hlen => certificateKept_iff htrailing hlen,
    fun htrailing hlen => keyKept_iff htrailing hlen⟩

/-- A certificate of empty strings. -/
def bareCertificate : Certificate where
  version := .cast int 1
  certificateType := .cast int 0
  certificateData := ⟨[], nil_length_le⟩
  sig := ⟨.cast uint32 1, ⟨[], nil_length_le⟩, ⟨[], nil_length_le⟩⟩
  revocation := none
  trailing := []

/-- A public key of empty strings. -/
def bareKey : KeyContent where
  version := .cast uint16 1
  suite := .pq1
  sigPk := ⟨[], nil_length_le⟩
  kemXPk := ⟨[], nil_length_le⟩
  kemPqPk := ⟨[], nil_length_le⟩
  certificateIds := ⟨[], CertificateIds.nil_sorted⟩
  sig := bareCertificate.sig
  trailing := []

/-- A number behind a certificate and behind a public key. -/
theorem unknown_members_kept_number :
    (CertificateKept bareCertificate [0x02, 0x01, 0x2a] ↔
      ((certificateMembers.encoding bareCertificate.val).octets none ++
        [0x02, 0x01, 0x2a]).length ≤ maxConstructedSize ∧
        (bareCertificate.revocation = none → NoRevocation [0x02, 0x01, 0x2a])) ∧
    (KeyKept bareKey [0x02, 0x01, 0x2a] ↔
      ((keyMembers.encoding (keyVal bareKey)).octets none ++
        [0x02, 0x01, 0x2a]).length ≤ maxConstructedSize) :=
  ⟨(unknown_members_kept_iff bareCertificate bareKey [0x02, 0x01, 0x2a]).1 rfl (by decide +kernel),
    (unknown_members_kept_iff bareCertificate bareKey [0x02, 0x01, 0x2a]).2 rfl
      (by decide +kernel)⟩

/-- The octets of DER elements. -/
def elementOctets (elements : List (Ident × Bool × Octets)) : Octets :=
  elements.flatMap fun e => element e.1 e.2.1 e.2.2

/-- A sequence of a number with five octets, behind a certificate without a revocation, is tried as
a revocation, and its version does not fit. -/
theorem unknown_members_kept_fails :
    ¬ ∀ (c : Certificate) (unknown : List (Ident × Bool × Octets)), c.trailing = [] →
      (certificateExtended c (elementOctets unknown)).length ≤ 100 →
      CertificateKept c (elementOctets unknown) := by
  intro h
  have hoctets : elementOctets [((.universal, AsnTag.sequence), true,
      [0x02, 0x05, 0x01, 0x00, 0x00, 0x00, 0x00])] =
      [0x30, 0x07, 0x02, 0x05, 0x01, 0x00, 0x00, 0x00, 0x00] := by decide +kernel
  have hkept := h bareCertificate [((.universal, AsnTag.sequence), true,
      [0x02, 0x05, 0x01, 0x00, 0x00, 0x00, 0x00])] rfl
  rw [hoctets] at hkept
  obtain ⟨hload, -⟩ := hkept (by decide +kernel)
  have hthrows : (match Certificate.load (certificateExtended bareCertificate
      [0x30, 0x07, 0x02, 0x05, 0x01, 0x00, 0x00, 0x00, 0x00]) with
      | .ok _ => false
      | .error _ => true) = true := by decide +kernel
  rw [hload] at hthrows
  cases hthrows

end Securepath.KeyServer
