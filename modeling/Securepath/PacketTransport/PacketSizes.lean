import Securepath.Crypto.ChainBuilder
import Securepath.PacketTransport.SendPacket

/-!
# Packets that every stage takes

The size of an encoded packet is a sum over its parts. The frames and the decoder have
room for every packet that `send_packet` makes; the two packet deserialisers keep at most
1 MiB, which is less than a payload may have.
-/

namespace Securepath.PacketTransport

open Serialisation Crypto Network StateExcept

variable {p : TransportPacket} {b : Octets} {t' : Option TagInfo}

/-! ## The encoding of a packet -/

theorem choice_encoding (henc : transportPacketBody.encoding p.val none = .ok (b, t')) :
    (Schema.choice types).encoding p.choiceVal none =
      .ok (element (.contextSpecific, 2) true b, t') := by
  have hsequence : (Schema.sequence transportPacketBody).encoding p.val (some ⟨none, 2⟩) =
      .ok (element (.contextSpecific, 2) true b, t') :=
    Encoding.sequence_eq_ok.mpr ⟨b, henc, rfl⟩
  exact hsequence

theorem serialiseChoice_eq (henc : transportPacketBody.encoding p.val none = .ok (b, t')) :
    p.serialiseChoice = .ok (element (.contextSpecific, 2) true b) := by
  rw [TransportPacket.serialiseChoice, asnDerSerialise_eq, choice_encoding henc]
  rfl

/-- Another number changes the last member only. -/
theorem forwarded_encoding (henc : transportPacketBody.encoding p.val none = .ok (b, t'))
    (ack : FixedInt int64) :
    ∃ b', transportPacketBody.encoding (p.forwarded ack).val none = .ok (b', none) := by
  obtain ⟨b₁, t₁, b₂, h₁, h₂, rfl⟩ := Encoding.seq_eq_ok.mp henc
  obtain ⟨b₃, t₃, b₄, h₃, -, rfl⟩ := Encoding.seq_eq_ok.mp h₂
  obtain ⟨c, hc⟩ := Schema.savable_int ack
  have hack : (Schema.fields (.prim (.int int64)) .nothing).encoding (ack, ()) t₃ =
      .ok (element (getIdent t₃ AsnTag.integer) false c ++ [], none) := by
    refine Encoding.seq_eq_ok.mpr ⟨_, none, [], ?_, rfl, rfl⟩
    simp only [Schema.encoding, Prim.encoding, hc]
    rfl
  exact ⟨_, Encoding.seq_eq_ok.mpr ⟨b₁, t₁, _, h₁,
    Encoding.seq_eq_ok.mpr ⟨b₃, t₃, _, h₃, hack, rfl⟩, rfl⟩⟩

/-- The encrypted keys of a packet, as they are written. -/
theorem keys_encoding (henc : transportPacketBody.encoding p.val none = .ok (b, t')) :
    ∃ b t', Encoding.elements encryptedKeySchema.encoding (p.data.keys.map EncryptedKey.val) none =
      .ok (b, t') := by
  obtain ⟨b₁, t₁, b₂, h₁, h₂, rfl⟩ := Encoding.seq_eq_ok.mp henc
  obtain ⟨b₃, t₃, b₄, h₃, -, rfl⟩ := Encoding.seq_eq_ok.mp h₂
  obtain ⟨payload, hpayload, -⟩ := Encoding.sequence_eq_ok.mp h₃
  obtain ⟨b₅, t₅, b₆, h₅, -, -⟩ := Encoding.seq_eq_ok.mp hpayload
  obtain ⟨content, hcontent, -⟩ := Encoding.sequence_eq_ok.mp h₅
  obtain ⟨b₇, t₇, b₈, h₇, h₈, -⟩ := Encoding.seq_eq_ok.mp hcontent
  obtain ⟨b₉, t₉, -, h₉, -, -⟩ := Encoding.seq_eq_ok.mp h₈
  obtain ⟨keys, hkeys, -⟩ := Encoding.sequence_eq_ok.mp h₉
  exact ⟨keys, t₉, hkeys⟩

/-! ## Decoding a packet -/

theorem key_written {k : encryptedKeySchema.Val} {t t' : Option TagInfo} {b : Octets}
    (h : encryptedKeySchema.encoding k t = .ok (b, t')) :
    (encryptedKeySchema.encoding k).octets t ≠ [] := by
  rw [Encoding.octets_of_ok h]
  rintro rfl
  exact Schema.writes_of_isElement rfl k t t' h

theorem body_unambiguous (henc : transportPacketBody.encoding p.val none = .ok (b, t')) :
    transportPacketBody.Unambiguous p.val none .endOfSequence := by
  obtain ⟨keys, tk, hkeys⟩ := keys_encoding henc
  refine ⟨⟨⟨trivial, trivial⟩, trivial⟩, ⟨⟨trivial, ?_, trivial, trivial, trivial, trivial⟩,
    ⟨trivial, ⟨trivial, trivial⟩, trivial, trivial⟩, trivial⟩, trivial, trivial⟩
  refine Schema.each_of_elements (fun v t t' b after h _ => ?_) hkeys le_rfl
  rw [if_neg (key_written h)]
  exact ⟨trivial, ⟨trivial, trivial⟩, trivial, trivial⟩

theorem body_exact (henc : transportPacketBody.encoding p.val none = .ok (b, t')) :
    transportPacketBody.Exact p.val none := by
  obtain ⟨keys, tk, hkeys⟩ := keys_encoding henc
  refine ⟨⟨⟨trivial, trivial⟩, trivial⟩, ⟨⟨trivial, ⟨trivial, ?_⟩, trivial, trivial, trivial,
    trivial⟩, ⟨trivial, ⟨trivial, trivial⟩, trivial, trivial⟩, trivial⟩, trivial, trivial⟩
  exact Schema.each_of_elements (fun v t t' b after h _ =>
    ⟨key_written h, trivial, ⟨trivial, trivial⟩, trivial, trivial⟩) hkeys le_rfl

theorem choice_accepts (henc : transportPacketBody.encoding p.val none = .ok (b, t'))
    (hlen : b.length ≤ maxConstructedSize) :
    Accepts ((Schema.choice types).deserialise ()) (· = p.choiceVal) maxStructureDepth
      (element (.contextSpecific, 2) true b) ⟨[], .anything⟩ none t' := by
  have hword : b.length < 2 ^ 64 := lt_of_le_of_lt hlen (by decide)
  let h : AsnHeader := ⟨.contextSpecific, 2, b.length, true⟩
  have hb : element (.contextSpecific, 2) true b = headerOctets h ++ b := by
    rw [element, sizeOf64_eq hword]
  have hchoice := choice_encoding henc
  have hoctets : (types.encoding p.choiceVal).octets none =
      element (.contextSpecific, 2) true b := Encoding.octets_of_ok hchoice
  -- the first type has another tag
  have hother : (1 : UInt64) ≠ 2 := by decide
  have hclear : (Schema.choice types).Unambiguous p.choiceVal none ⟨[], .anything⟩ :=
    ⟨⟨h, b, hoctets.trans hb, hword, ⟨hother, rfl⟩⟩, rfl, body_unambiguous henc⟩
  refine ((Schema.decides (.choice types) trivial hchoice hclear).accepts ⟨?_, ?_⟩).mono
    fun v hv => hv (body_exact henc)
  · rw [hoctets, hb]
    exact headerFits_of_ok ((parseHeader_headerOctets (h := h) hword b).trans (if_pos hlen))
  · refine ⟨by decide, ?_, ?_⟩
    · rw [Encoding.octets_of_ok henc]
      exact hlen
    · exact Schema.within_of_isPlain transportPacketBody rfl henc hlen (by decide) (by decide)

/-- A packet deserialiser takes a packet that its buffer has room for. -/
theorem deserialisesAlone_iff (henc : transportPacketBody.encoding p.val none = .ok (b, t'))
    (hlen : b.length ≤ maxConstructedSize) :
    DeserialisesAlone (element (.contextSpecific, 2) true b) p ↔
      (element (.contextSpecific, 2) true b).length ≤ bufMaxSize := by
  have hword : b.length < 2 ^ 64 := lt_of_le_of_lt hlen (by decide)
  have hall : elementLength (element (.contextSpecific, 2) true b) =
    (element (.contextSpecific, 2) true b).length := elementLength_element hword hlen
  rw [DeserialisesAlone, doCheck_alone visitPacket (element_ne_nil _ _ _) hall]
  -- the cap is looked at before the visitor is called
  by_cases hbig : (element (.contextSpecific, 2) true b).length > bufMaxSize
  · rw [if_pos hbig]
    simp only [reduceCtorEq, false_iff, not_le]
    exact hbig
  · rw [if_neg hbig]
    have hne : elementLength (element (.contextSpecific, 2) true b) ≠ 0 := by
      rw [hall]
      exact (List.length_pos_iff.mpr (element_ne_nil _ _ _)).ne'
    obtain ⟨rest, hrep, hpos, hseq, htag, hex⟩ := firstCall_atPacket hne
    have hpacket : (firstCall (element (.contextSpecific, 2) true b)).packet =
        element (.contextSpecific, 2) true b := by
      simp only [firstCall, hall, List.take_length]
    rw [hpacket] at hrep
    have hready : Ready [] (element (.contextSpecific, 2) true b ++ rest)
        (firstCall (element (.contextSpecific, 2) true b)).deser
        (element (.contextSpecific, 2) true b) ⟨[], .anything⟩ :=
      ⟨hrep, hex, rest, by rw [hpos]; rfl, hseq⟩
    obtain ⟨v, s, hrun, -, -, rfl⟩ := choice_accepts henc hlen _ _ _ hready htag (by rw [hseq]; rfl)
    have hcallback : visitPacket (firstCall (element (.contextSpecific, 2) true b)).deser
        (element (.contextSpecific, 2) true b) [] = .ok () [p.choiceVal] := by
      simp only [visitPacket, hrun, List.nil_append]
    rw [hcallback]
    simp only [true_iff]
    omega

/-! ## Frames -/

theorem readsFrame_of_length {payload : Octets} (hne : payload ≠ [])
    (h : payload.length ≤ maxFrameSize) : ReadsFrame payload := by
  have hpos := List.length_pos_iff.mpr hne
  have hlength : decodeFrameLength (frameHeader payload.length) = payload.length := by
    rw [decodeFrameLength_frameHeader]
    exact Nat.mod_eq_of_lt (lt_of_le_of_lt h (by decide))
  let buffer := resize (frameHeader payload.length) payload.length
  let reading : FrameReader := ⟨buffer, 0, payload.length, maxFrameSize, true, true⟩
  have hheader : FrameReader.init.receiveFrame.onRead (frameHeader payload.length) =
      (reading, none) := by
    simp [FrameReader.onRead, FrameReader.write, FrameReader.receiveFrame, FrameReader.init, resize,
      hlength, Nat.not_lt.mpr h, hne, reading, buffer]
  have hdrop : buffer.drop payload.length = [] :=
    List.drop_eq_nil_of_le (Receiver.length_resize _ _).le
  have hpayload : reading.onRead payload =
      (⟨[], payload.length, payload.length, maxFrameSize, true, false⟩, some (.ok payload)) := by
    simp [FrameReader.onRead, FrameReader.write, FrameReader.complete, reading, hdrop]
  exact ⟨reading, _, hheader, hpayload⟩

/-! ## Sizes -/

/-- An id of `n` octets. -/
def idSize (n : Nat) : Nat := elementSize (elementSize n)

/-- The content key, encrypted for a key of the suite. -/
def sealedSize (key : Suite) : Nat :=
  elementSize (6 + (elementSize key.parameters.xKeySize + elementSize (kemCiphertextSize key) +
    elementSize aesGcmIvSize + elementSize aesGcmKeySize + elementSize aesGcmTagSize))

/-- An `encrypted_key`; a valid key has an id of 32 octets. -/
def encryptedKeySize (key : Suite) : Nat :=
  elementSize (3 + idSize 32 + elementSize (sealedSize key))

/-- A `signature`. -/
def signatureElementSize (mine : Suite) : Nat :=
  elementSize (3 + idSize 32 + elementSize (signatureSize mine))

/-- A `transport_payload` around `n` octets. -/
def payloadSize (n : Nat) (key mine : Suite) : Nat :=
  elementSize (elementSize (3 + elementSize (encryptedKeySize key) + elementSize aesGcmIvSize +
    elementSize n + elementSize aesGcmTagSize) + signatureElementSize mine)

/-- A `transport_packet` for a receiver whose id has `receiver` octets, with a number of
`ack` octets. -/
def packetSize (receiver n : Nat) (key mine : Suite) (ack : Nat) : Nat :=
  elementSize (elementSize (idSize receiver) + payloadSize n key mine + elementSize ack)

theorem elementSize_encryptedKeySize_le (key : Suite) :
    elementSize (encryptedKeySize key) ≤ 1800 := by
  cases key <;> decide

theorem signatureElementSize_le (mine : Suite) : signatureElementSize mine ≤ 4700 := by
  cases mine <;> decide

theorem packetSize_le (receiver n : Nat) (key mine : Suite) (ack : Nat) :
    packetSize receiver n key mine ack ≤ receiver + n + ack + 6700 := by
  have hiv : elementSize aesGcmIvSize = 14 := by decide
  have htag : elementSize aesGcmTagSize = 18 := by decide
  have hkey := elementSize_encryptedKeySize_le key
  have hsig := signatureElementSize_le mine
  have h₁ := elementSize_le receiver
  have h₂ := elementSize_le (elementSize receiver)
  have h₃ := elementSize_le (elementSize (elementSize receiver))
  have h₄ := elementSize_le n
  have h₅ := elementSize_le (3 + elementSize (encryptedKeySize key) + elementSize aesGcmIvSize +
    elementSize n + elementSize aesGcmTagSize)
  have h₆ := elementSize_le (elementSize (3 + elementSize (encryptedKeySize key) +
    elementSize aesGcmIvSize + elementSize n + elementSize aesGcmTagSize) +
    signatureElementSize mine)
  have h₇ := elementSize_le ack
  have h₈ := elementSize_le (elementSize (idSize receiver) + payloadSize n key mine +
    elementSize ack)
  simp only [packetSize, payloadSize, idSize] at *
  omega

/-- A shorter number makes no longer packet. -/
theorem packetSize_mono {receiver n ack ack' : Nat} (key mine : Suite) (h : ack ≤ ack')
    (hsmall : receiver + n + ack' < 2 ^ 62) :
    packetSize receiver n key mine ack ≤ packetSize receiver n key mine ack' := by
  have hle := packetSize_le receiver n key mine ack'
  have hmono : elementSize ack ≤ elementSize ack' := elementSize_mono h (by omega)
  refine elementSize_mono (by omega) ?_
  have hbody : ∀ m, m ≤ elementSize m := fun m => by
    rw [elementSize]
    omega
  have := hbody (elementSize (idSize receiver) + payloadSize n key mine + elementSize ack')
  simp only [packetSize] at hle
  omega

/-- A number has at most eight octets, and some have eight. -/
theorem ack_size_le (ack : FixedInt int64) : (Prim.int int64).size ack ≤ 8 := by
  obtain ⟨b, hb, -, hlen, -⟩ := encodeInteger_spec ack
  have hcontent : (Prim.int int64).content ack = .ok b := hb
  rw [Prim.size_eq hcontent]
  simpa [int64, IntType.bytes, IntWidth.bytes] using hlen

def longAck : FixedInt int64 := .cast int64 (2 ^ 62)

theorem longAck_size : (Prim.int int64).size longAck = 8 := by
  decide

/-! ## Packets that are sent -/

section Built

variable [Primitives] {c : PacketClient} {data receiver : Octets}
  {drawn : ∀ key mine, Drawn key mine data.length} {inserted : Option (FixedInt int64)}

omit [Primitives] in
theorem serialiseOrThrow_eq_ok {T : Schema .type} {v : T.Val}
    (h : serialiseOrThrow T v = .ok b) : ∃ t', T.encoding v none = .ok (b, t') := by
  rw [serialiseOrThrow, asnDerSerialise_eq] at h
  cases henc : T.encoding v none with
  | error e =>
      rw [henc] at h
      cases h
  | ok r =>
      rw [henc] at h
      cases h
      exact ⟨r.2, rfl⟩

theorem encryptKey_eq_ok {key : PublicKey} {mine : Suite} {n : Nat}
    {r : Drawn key.content.suite mine n} (h : encryptKey key r = .ok b) :
    key.content.isValid = true ∧ serialiseOrThrow hybridCiphertextSchema r.ciphertext = .ok b := by
  rw [encryptKey] at h
  split at h
  · rename_i hvalid
    exact ⟨hvalid, h⟩
  · cases h

theorem signContent_eq_ok {myKey : PrivateKey} {content : EnvelopedContent} {key : Suite} {n : Nat}
    {r : Drawn key myKey.publicKey.content.suite n} (h : signContent myKey content r = .ok b) :
    myKey.isValid = true ∧ b = r.signature.val := by
  rw [signContent] at h
  cases hcontent : serialiseOrThrow envelopedContentSchema content.val with
  | error e =>
      rw [hcontent] at h
      cases h
  | ok octets =>
      rw [hcontent] at h
      simp only [bind, Except.bind] at h
      split at h
      · rename_i hvalid
        cases h
        exact ⟨hvalid, rfl⟩
      · cases h

/-- The packet that is made of what was drawn. -/
def madePacket (receiver : Octets) {key : PublicKey} {myKey : PrivateKey} {n : Nat}
    (r : Drawn key.content.suite myKey.publicKey.content.suite n) (sealed : Octets)
    (ack : FixedInt int64) : TransportPacket :=
  ⟨receiver, ⟨[⟨key.id.val, sealed⟩], r.iv.val, r.encrypted.val, r.tag.val⟩,
    myKey.publicKey.id.val, r.signature.val, ack⟩

/-- What `send_packet` has found, checked and written when it returns. -/
theorem sendPacket_eq_ok (h : c.sendPacket data receiver drawn inserted = .ok p) :
    ∃ (myKey : PrivateKey) (key : PublicKey) (sealed : Octets) (ack : FixedInt int64),
      c.myPrivateKey = some myKey ∧ c.find receiver = some key ∧ myKey.isValid = true ∧
      key.content.isValid = true ∧
      serialiseOrThrow hybridCiphertextSchema
        (drawn key.content.suite myKey.publicKey.content.suite).ciphertext = .ok sealed ∧
      p = madePacket receiver (drawn key.content.suite myKey.publicKey.content.suite) sealed ack ∧
      ∃ b, serialiseOrThrow (.sequence transportPacketBody) (p.forwarded (.cast int64 0)).val =
        .ok b := by
  rw [PacketClient.sendPacket] at h
  split at h
  · cases h
  · cases h
  · rename_i myKey key hmine hkey
    simp only [bind, Except.bind] at h
    split at h
    · cases h
    · rename_i sealed hsealed
      obtain ⟨hvalid, hcipher⟩ := encryptKey_eq_ok hsealed
      split at h
      · cases h
      · split at h
        · cases h
        · rename_i signature hsignature
          obtain ⟨hmyvalid, rfl⟩ := signContent_eq_ok hsignature
          split at h
          · cases h
          · rename_i octets hoctets
            split at h
            · cases h
            · rename_i ack
              have hp : p = madePacket receiver
                  (drawn key.content.suite myKey.publicKey.content.suite) sealed ack := by
                split at h
                · split at h
                  · cases h
                  · cases h
                    rfl
                · cases h
                  rfl
              refine ⟨myKey, key, sealed, ack, hmine, hkey, hmyvalid, hvalid, hcipher, hp, octets,
                ?_⟩
              rw [hp]
              exact hoctets

omit [Primitives] in
theorem octets_le {v : Octets} {t t' : Option TagInfo}
    (h : (Schema.prim .octets).encoding v t = .ok (b, t')) : v.length ≤ maxStructureSize := by
  simp only [Schema.encoding, Prim.encoding] at h
  split at h
  · cases h
  · rename_i content hc
    exact (Prim.text_eq_ok.mp hc).1

omit [Primitives] in
/-- What was written for the database has room for its strings. -/
theorem lengths_of_encoding (henc : transportPacketBody.encoding p.val none = .ok (b, t')) :
    p.receiver.length ≤ maxStructureSize ∧ p.data.encrypted.length ≤ maxStructureSize := by
  obtain ⟨b₁, t₁, b₂, h₁, h₂, rfl⟩ := Encoding.seq_eq_ok.mp henc
  constructor
  · obtain ⟨receiver, hreceiver, -⟩ := Encoding.sequence_eq_ok.mp h₁
    obtain ⟨b₃, t₃, b₄, h₃, -, -⟩ := Encoding.seq_eq_ok.mp hreceiver
    obtain ⟨id, hid, -⟩ := Encoding.sequence_eq_ok.mp h₃
    obtain ⟨b₅, t₅, b₆, h₅, -, -⟩ := Encoding.seq_eq_ok.mp hid
    exact octets_le h₅
  · obtain ⟨b₃, t₃, b₄, h₃, -, rfl⟩ := Encoding.seq_eq_ok.mp h₂
    obtain ⟨payload, hpayload, -⟩ := Encoding.sequence_eq_ok.mp h₃
    obtain ⟨b₅, t₅, b₆, h₅, -, -⟩ := Encoding.seq_eq_ok.mp hpayload
    obtain ⟨content, hcontent, -⟩ := Encoding.sequence_eq_ok.mp h₅
    obtain ⟨b₇, t₇, b₈, -, h₈, -⟩ := Encoding.seq_eq_ok.mp hcontent
    obtain ⟨b₉, t₉, b₁₀, -, h₁₀, -⟩ := Encoding.seq_eq_ok.mp h₈
    obtain ⟨b₁₁, t₁₁, b₁₂, -, h₁₂, -⟩ := Encoding.seq_eq_ok.mp h₁₀
    obtain ⟨b₁₃, t₁₃, b₁₄, h₁₃, -, -⟩ := Encoding.seq_eq_ok.mp h₁₂
    exact octets_le h₁₃

theorem made_lengths {key : PublicKey} {myKey : PrivateKey} {n : Nat} {sealed : Octets}
    {r : Drawn key.content.suite myKey.publicKey.content.suite n} {ack : FixedInt int64}
    (henc : transportPacketBody.encoding (madePacket receiver r sealed ack).val none =
      .ok (b, t')) : receiver.length ≤ maxStructureSize ∧ n ≤ maxStructureSize := by
  obtain ⟨hreceiver, hdata⟩ := lengths_of_encoding henc
  have hencrypted : r.encrypted.val.length ≤ maxStructureSize := hdata
  rw [r.encrypted.property] at hencrypted
  exact ⟨hreceiver, hencrypted⟩

theorem id_length {key : PublicKey} (h : key.content.isValid = true) : key.id.val.length = 32 := by
  rw [key.id_eq h]
  exact (sha3_256 key.content.idContent).property

omit [Primitives] in
theorem size_octets (v : Octets) : Prim.octets.size v = v.length := rfl

omit [Primitives] in
/-- The octets of the encrypted content key. -/
theorem sealed_length {key mine : Suite} {n : Nat} {r : Drawn key mine n} {sealed : Octets}
    (h : serialiseOrThrow hybridCiphertextSchema r.ciphertext = .ok sealed) :
    sealed.length = sealedSize key := by
  obtain ⟨t', henc⟩ := serialiseOrThrow_eq_ok h
  have hversion : elementSize ((Prim.int uint16).size (.cast uint16 1)) = 3 := by decide
  have hsuite : elementSize ((Prim.int uint16).size key.wire) = 3 := by
    cases key <;> decide
  have hsize : hybridCiphertextSchema.size r.ciphertext = sealedSize key := by
    simp only [hybridCiphertextSchema, Schema.struct, List.foldr, Schema.size, Drawn.ciphertext,
      size_octets, hversion, hsuite, r.ctX.property, r.ctPq.property, r.keyIv.property,
      r.encryptedKey.property, r.keyTag.property, sealedSize]
    congr 1
    omega
  have hsmall : sealedSize key < 2 ^ 64 := by
    cases key <;> decide
  rw [← hsize] at hsmall ⊢
  exact Schema.length_encoding hybridCiphertextSchema rfl henc hsmall

theorem encryptedKey_size {key : PublicKey} {sealed : Octets} (hkey : key.content.isValid = true)
    (hsealed : sealed.length = sealedSize key.content.suite) :
    (List.map encryptedKeySchema.size ([⟨key.id.val, sealed⟩].map EncryptedKey.val)).sum =
      encryptedKeySize key.content.suite := by
  have hid := id_length hkey
  have hversion : elementSize ((Prim.int uint32).size (.cast uint32 1)) = 3 := by decide
  change encryptedKeySchema.size (EncryptedKey.val ⟨key.id.val, sealed⟩) + 0 = _
  simp only [encryptedKeySchema, idSchema, Schema.struct, List.foldr, Schema.size, EncryptedKey.val,
    size_octets, hversion, hid, hsealed, Nat.add_zero, idSize, encryptedKeySize, Nat.add_assoc]

theorem madePacket_size {receiver : Octets} {key : PublicKey} {myKey : PrivateKey} {n : Nat}
    {r : Drawn key.content.suite myKey.publicKey.content.suite n} {sealed : Octets}
    {ack : FixedInt int64} (hkey : key.content.isValid = true) (hmine : myKey.isValid = true)
    (hsealed : sealed.length = sealedSize key.content.suite) :
    transportPacketBody.size (madePacket receiver r sealed ack).val =
      elementSize (idSize receiver.length) +
        payloadSize n key.content.suite myKey.publicKey.content.suite +
        elementSize ((Prim.int int64).size ack) := by
  have hkeys := encryptedKey_size hkey hsealed
  have hmyid := id_length (myKey.valid_public hmine)
  have henvelope : elementSize ((Prim.int uint32).size (.cast uint32 0)) = 3 := by decide
  have hsignature : elementSize ((Prim.int uint32).size (.cast uint32 2)) = 3 := by decide
  simp only [transportPacketBody, transportPayloadSchema, envelopedContentSchema, Signature.schema,
    idSchema, Schema.struct, List.foldr, Schema.size, madePacket, TransportPacket.val,
    EnvelopedContent.val, size_octets, henvelope, hsignature, hkeys, hmyid, r.iv.property,
    r.encrypted.property, r.tag.property, r.signature.property, Nat.add_zero, idSize, payloadSize,
    signatureElementSize, Nat.add_assoc]

/-- The packet that is sent and all that are forwarded, with their sizes. -/
theorem sent_encoding {myKey : PrivateKey} {key : PublicKey} {sealed : Octets}
    {r : Drawn key.content.suite myKey.publicKey.content.suite data.length} {ack : FixedInt int64}
    (hkey : key.content.isValid = true) (hmine : myKey.isValid = true)
    (hsealed : sealed.length = sealedSize key.content.suite)
    (henc : transportPacketBody.encoding (madePacket receiver r sealed ack).val none =
      .ok (b, t')) (ack' : FixedInt int64) :
    ∃ b', transportPacketBody.encoding (madePacket receiver r sealed ack').val none =
        .ok (b', none) ∧ b'.length ≤ maxConstructedSize ∧
      (element (.contextSpecific, 2) true b').length =
        packetSize receiver.length data.length key.content.suite myKey.publicKey.content.suite
          ((Prim.int int64).size ack') ∧
      (element (.contextSpecific, 2) true b').length ≤ maxFrameSize := by
  obtain ⟨hreceiver, hdata⟩ := made_lengths henc
  obtain ⟨b', hb'⟩ := forwarded_encoding henc ack'
  have hbody : transportPacketBody.encoding (madePacket receiver r sealed ack').val none =
    .ok (b', none) := hb'
  have hsize : transportPacketBody.size (madePacket receiver r sealed ack').val = _ :=
    madePacket_size hkey hmine hsealed
  have hpacket : packetSize receiver.length data.length key.content.suite
      myKey.publicKey.content.suite ((Prim.int int64).size ack') =
      elementSize (transportPacketBody.size (madePacket receiver r sealed ack').val) := by
    rw [hsize]
    rfl
  have hle := packetSize_le receiver.length data.length key.content.suite
    myKey.publicKey.content.suite ((Prim.int int64).size ack')
  have hack := ack_size_le ack'
  have hinside := le_elementSize
    (transportPacketBody.size (madePacket receiver r sealed ack').val)
  simp only [maxStructureSize] at hreceiver hdata
  have hlen := Schema.length_encoding transportPacketBody rfl hbody (by omega)
  have hwhole : (element (.contextSpecific, 2) true b').length = elementSize b'.length :=
    length_element (by decide) (by omega)
  refine ⟨b', hbody, ?_, hwhole.trans (by rw [hlen, ← hpacket]), ?_⟩
  · simp only [maxConstructedSize]
    omega
  · rw [hwhole, hlen, ← hpacket]
    simp only [maxFrameSize]
    omega

/-- There is room for the packet, with a number of eight octets, where a deserialiser
keeps what has arrived. -/
def PacketClient.HasRoom (c : PacketClient) (data receiver : Octets) : Prop :=
  ∀ myKey key, c.myPrivateKey = some myKey → c.find receiver = some key →
    packetSize receiver.length data.length key.content.suite myKey.publicKey.content.suite 8 ≤
      bufMaxSize

theorem passes_iff (h : c.sendPacket data receiver drawn inserted = .ok p) :
    Passes p ↔ c.HasRoom data receiver := by
  obtain ⟨myKey, key, sealed, ack, hmine, hkey, hmyvalid, hvalid, hcipher, rfl, octets, hoctets⟩ :=
    sendPacket_eq_ok h
  obtain ⟨t, hsequence⟩ := serialiseOrThrow_eq_ok hoctets
  obtain ⟨content, hcontent, -⟩ := Encoding.sequence_eq_ok.mp hsequence
  have henc : transportPacketBody.encoding (madePacket receiver
      (drawn key.content.suite myKey.publicKey.content.suite) sealed (.cast int64 0)).val none =
    .ok (content, t) := hcontent
  have hsealed := sealed_length hcipher
  have hsent := sent_encoding hvalid hmyvalid hsealed henc
  have hroom : c.HasRoom data receiver ↔ packetSize receiver.length data.length key.content.suite
      myKey.publicKey.content.suite 8 ≤ bufMaxSize :=
    ⟨fun hall => hall myKey key hmine hkey, fun hle myKey' key' hmine' hkey' => by
      obtain rfl := Option.some.inj (hmine.symm.trans hmine')
      obtain rfl := Option.some.inj (hkey.symm.trans hkey')
      exact hle⟩
  obtain ⟨hreceiver, hdata⟩ := made_lengths henc
  rw [hroom]
  constructor
  -- the server may give the packet a number of eight octets
  · intro hpasses
    obtain ⟨b', hb', halone⟩ := hpasses.forwarded longAck
    obtain ⟨b, hbody, hfit, hsize, -⟩ := hsent longAck
    have hsame : element (.contextSpecific, 2) true b = b' :=
      Except.ok.inj ((serialiseChoice_eq hbody).symm.trans hb')
    rw [← hsame] at halone
    rw [← longAck_size, ← hsize]
    exact (deserialisesAlone_iff hbody hfit).mp halone
  · intro hle
    have hshort : ∀ ack', packetSize receiver.length data.length key.content.suite
        myKey.publicKey.content.suite ((Prim.int int64).size ack') ≤ bufMaxSize := fun ack' => by
      refine (packetSize_mono _ _ (ack_size_le ack') ?_).trans hle
      simp only [maxStructureSize] at hreceiver hdata
      omega
    constructor
    · obtain ⟨b, hbody, hfit, hsize, hframe⟩ := hsent ack
      exact ⟨_, serialiseChoice_eq hbody, Nat.not_lt.mpr hframe,
        readsFrame_of_length (element_ne_nil _ _ _) hframe,
        (deserialisesAlone_iff hbody hfit).mpr (hsize.le.trans (hshort ack))⟩
    · intro ack'
      obtain ⟨b, hbody, hfit, hsize, -⟩ := hsent ack'
      exact ⟨_, serialiseChoice_eq hbody,
        (deserialisesAlone_iff hbody hfit).mpr (hsize.le.trans (hshort ack'))⟩

/-! ## Payloads that can be sent -/

omit [Primitives] in
theorem serialiseOrThrow_of_savable {T : Schema .type} {v : T.Val} (h : T.Savable v) :
    ∃ b, serialiseOrThrow T v = .ok b := by
  obtain ⟨b, hb⟩ := Schema.asnDerSerialise_of_savable h
  exact ⟨b, by rw [serialiseOrThrow, hb]; rfl⟩

omit [Primitives] in
theorem savable_sized {n : Nat} (o : Sized n) (h : n ≤ maxStructureSize) :
    (Schema.prim .octets).Savable o.val :=
  Schema.savable_octets (by rw [o.property]; exact h)

omit [Primitives] in
theorem ciphertext_savable {key mine : Suite} {n : Nat} (r : Drawn key mine n) :
    hybridCiphertextSchema.Savable r.ciphertext := by
  refine ⟨Schema.savable_int _, Schema.savable_int _, savable_sized r.ctX ?_,
    savable_sized r.ctPq ?_, savable_sized r.keyIv (by decide),
    savable_sized r.encryptedKey (by decide), savable_sized r.keyTag (by decide), trivial⟩
  · cases key <;> decide
  · cases key <;> decide

theorem content_savable {key : PublicKey} {sealed : Octets} {mine : Suite} {n : Nat}
    (r : Drawn key.content.suite mine n) (hsealed : sealed.length ≤ maxStructureSize)
    (hn : n ≤ maxStructureSize) :
    envelopedContentSchema.Savable
      (EnvelopedContent.val ⟨[⟨key.id.val, sealed⟩], r.iv.val, r.encrypted.val, r.tag.val⟩) := by
  refine ⟨Schema.savable_int _, ?_, savable_sized r.iv (by decide), savable_sized r.encrypted hn,
    savable_sized r.tag (by decide), trivial⟩
  intro v hv
  obtain rfl := List.mem_singleton.mp hv
  exact ⟨Schema.savable_int _, savable_id key.id, Schema.savable_octets hsealed, trivial⟩

theorem madePacket_savable {receiver : Octets} {key : PublicKey} {myKey : PrivateKey}
    {sealed : Octets} {n : Nat} (r : Drawn key.content.suite myKey.publicKey.content.suite n)
    (ack : FixedInt int64) (hsealed : sealed.length ≤ maxStructureSize) (hn : n ≤ maxStructureSize)
    (hreceiver : receiver.length ≤ maxStructureSize) :
    transportPacketBody.Savable (madePacket receiver r sealed ack).val := by
  refine ⟨⟨savable_id ⟨receiver, hreceiver⟩, trivial⟩,
    ⟨content_savable r hsealed hn, ⟨Schema.savable_int _, savable_id myKey.publicKey.id,
      savable_sized r.signature ?_, trivial⟩, trivial⟩, Schema.savable_int ack, trivial⟩
  cases myKey.publicKey.content.suite <;> decide

/-- `send_packet` returns for every payload of at most 2 MiB. -/
theorem sendPacket_returns {myKey : PrivateKey} {key : PublicKey} {ack : FixedInt int64}
    (hmine : c.myPrivateKey = some myKey) (hkey : c.find receiver = some key)
    (hmyvalid : myKey.isValid = true) (hvalid : key.content.isValid = true)
    (hdata : data.length ≤ maxStructureSize) (hreceiver : receiver.length ≤ maxStructureSize) :
    ∃ p, c.sendPacket data receiver drawn (some ack) = .ok p := by
  obtain ⟨r, hr⟩ : ∃ r, r = drawn key.content.suite myKey.publicKey.content.suite := ⟨_, rfl⟩
  obtain ⟨sealed, hsealed⟩ := serialiseOrThrow_of_savable (ciphertext_savable r)
  have hlength : sealed.length ≤ maxStructureSize := by
    rw [sealed_length hsealed]
    cases key.content.suite <;> decide
  obtain ⟨envelope, henvelope⟩ := serialiseOrThrow_of_savable (content_savable r hlength hdata)
  obtain ⟨stored, hstored⟩ := serialiseOrThrow_of_savable (T := .sequence transportPacketBody)
    (madePacket_savable r (.cast int64 0) hlength hdata hreceiver)
  obtain ⟨b, t, hbody⟩ := Schema.encoding_of_savable transportPacketBody
    (madePacket_savable r ack hlength hdata hreceiver) none
  have hchoice := serialiseChoice_eq hbody
  have hencrypt : encryptKey key r = .ok sealed := by rw [encryptKey, if_pos hvalid, hsealed]
  have hsign : signContent myKey ⟨[⟨key.id.val, sealed⟩], r.iv.val, r.encrypted.val, r.tag.val⟩ r =
      .ok r.signature.val := by
    rw [signContent, henvelope]
    simp only [bind, Except.bind, if_pos hmyvalid]
    rfl
  have hroom : ¬ aesGcmMaxDataSize < data.length := by
    simp only [maxStructureSize, aesGcmMaxDataSize] at *
    omega
  refine ⟨madePacket receiver r sealed ack, ?_⟩
  rw [PacketClient.sendPacket, hmine, hkey]
  simp only [← hr, hencrypt, bind, Except.bind, if_neg hroom, hsign]
  have hstored' : serialiseOrThrow (.sequence transportPacketBody) (TransportPacket.val
    ⟨receiver, ⟨[⟨key.id.val, sealed⟩], r.iv.val, r.encrypted.val, r.tag.val⟩,
      myKey.publicKey.id.val, r.signature.val, .cast int64 0⟩) = .ok stored := hstored
  have hchoice' : TransportPacket.serialiseChoice
    ⟨receiver, ⟨[⟨key.id.val, sealed⟩], r.iv.val, r.encrypted.val, r.tag.val⟩,
      myKey.publicKey.id.val, r.signature.val, ack⟩ = _ := hchoice
  simp only [hstored', hchoice']
  split <;> rfl

/-- A packet that `send_packet` makes goes through every stage exactly if the deserialisers
have room for it. -/
theorem sent_packets_pass (h : c.sendPacket data receiver drawn inserted = .ok p) :
    Passes p ↔ c.HasRoom data receiver :=
  passes_iff h

end Built

namespace LargePayload

attribute [local instance] OneLink.primitives

def zeros (n : Nat) : Sized n := ⟨List.replicate n 0, List.length_replicate⟩

def drawn (key mine : Suite) (n : Nat) : Drawn key mine n :=
  ⟨zeros _, zeros _, zeros _, zeros _, zeros _, zeros _, zeros _, zeros _, zeros _⟩

def myKey : PrivateKey := ⟨OneLink.root, true, fun _ => OneLink.content_isValid _⟩

def client : PacketClient := ⟨some myKey, fun _ => some OneLink.subject, true⟩

/-- A payload of 1.5 million octets. -/
def payload : Octets := List.replicate 1500000 0

theorem payload_length : payload.length = 1500000 := List.length_replicate

theorem sendPacket_payload : ∃ p, client.sendPacket payload OneLink.id.val
    (fun key mine => drawn key mine _) (some (.cast int64 1)) = .ok p :=
  sendPacket_returns rfl rfl rfl (OneLink.content_isValid _)
    (by rw [payload_length]; decide) OneLink.id.property

theorem not_hasRoom : ¬ client.HasRoom payload OneLink.id.val := by
  intro h
  have hle := h myKey OneLink.subject rfl rfl
  rw [payload_length] at hle
  exact absurd hle (by decide)

/-- The payload is sent, and the packet does not get through. -/
theorem payload_stuck : ∃ p, client.sendPacket payload OneLink.id.val
    (fun key mine => drawn key mine _) (some (.cast int64 1)) = .ok p ∧ ¬ Passes p := by
  obtain ⟨p, hsend⟩ := sendPacket_payload
  exact ⟨p, hsend, fun hpasses => not_hasRoom ((passes_iff hsend).mp hpasses)⟩

theorem sent_payload_passes : ∃ p, client.sendPacket payload OneLink.id.val
    (fun key mine => drawn key mine _) (some (.cast int64 1)) = .ok p ∧
      (Passes p ↔ client.HasRoom payload OneLink.id.val) := by
  obtain ⟨p, hsend⟩ := sendPacket_payload
  exact ⟨p, hsend, sent_packets_pass hsend⟩

end LargePayload

end Securepath.PacketTransport
