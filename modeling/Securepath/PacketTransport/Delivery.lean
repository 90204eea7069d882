import Securepath.PacketTransport.Authenticity
import Securepath.PacketTransport.Envelope

/-!
# Everything that is delivered can be read

`send_packet` seals its data for the receiver and signs the envelope; the transport
carries envelopes and signatures. What a client finds in `in_packets` is opened by its
private key, and gives the data of a call of `send_packet` for it (`received_opens`).
-/

namespace Securepath.PacketTransport

open Serialisation Crypto Network KeyServer StateExcept

/-! ## Calls -/

namespace Transport

section Calls

variable {K P : Type} [DecidableEq K] {issuer : P → K} {t t' : Transport K P}

/-- The packets that were sent came with the calls of `C`. -/
def SentBy (C : K → K → P → Prop) (t : Transport K P) : Prop :=
  ∀ k, ∀ p ∈ (t.clients k).sent, C k p.receiver p.packet

omit [DecidableEq K] in
theorem sentBy_of_eq {C : K → K → P → Prop} (h : SentBy C t)
    (hsent : ∀ k, (t'.clients k).sent = (t.clients k).sent) : SentBy C t' := by
  intro k p hp
  rw [hsent k] at hp
  exact h k p hp

theorem sentBy_step {C : K → K → P → Prop} {a : TransportAction K P} (h : SentBy C t)
    (hC : ∀ k receiver packet, a = .client k (.insertPacket receiver packet) → C k receiver packet)
    (hstep : step issuer a t = some t') : SentBy C t' := by
  cases step_cases hstep with
  | connect k s hs => exact sentBy_of_eq h (forall_connect k Client.sent fun _ => rfl)
  | insertPacket k receiver packet hissuer =>
      intro k' p hp
      by_cases hk : k' = k
      · subst hk
        rw [clients_setClient] at hp
        rcases List.mem_append.mp hp with hp | hp
        · exact h k' p hp
        · obtain rfl := List.mem_singleton.mp hp
          exact hC k' receiver packet rfl
      · rw [clients_setClient_of_ne hk] at hp
        exact h k' p hp
  | client k a client out ha hclient =>
      exact sentBy_of_eq h (forall_setClient (Q := fun s s' => s'.sent = s.sent) (fun _ => rfl)
        (Client.frame_of_step ha hclient).sent out)
  | receive k c m rest hconnection hm hpending =>
      exact sentBy_of_eq h (forall_setClient (Q := fun s s' => s'.sent = s.sent) (fun _ => rfl)
        (Client.sent_handle m) ((t.clients k).handle m).2)
  | deliver c m rest s hm hs => exact h
  | server a s ha hs => exact h
  | crash => exact h

/-- What is received came with a call of `send_packet` by the client that signed it. -/
theorem called_of_received {actions : List (TransportAction K P)}
    (hrun : Machine.run (step issuer) actions (init []) = some t) {k : K} {row : InPacket P}
    (hrow : row ∈ (t.clients k).received) :
    .client (issuer row.packet) (.insertPacket k row.packet) ∈ actions := by
  have h : t.Inv ∧ Authentic issuer [] t ∧
      SentBy (fun k receiver packet => .client k (.insertPacket receiver packet) ∈ actions) t := by
    refine @Machine.invariant_of_forall _ _ (step issuer)
      (fun t => t.Inv ∧ Authentic issuer [] t ∧
        SentBy (fun k receiver packet => .client k (.insertPacket receiver packet) ∈ actions) t)
      (· ∈ actions) ?_ actions _ t (fun _ ha => ha)
      ⟨init_inv History.isPacketsTable_nil, init_authentic [], fun k p hp =>
        absurd hp List.not_mem_nil⟩ hrun
    intro a s s' ha hs hstep
    refine ⟨step_inv hs.1 hstep, authentic_step hs.1 hs.2.1 hstep, sentBy_step hs.2.2 ?_ hstep⟩
    rintro k receiver packet rfl
    exact ha
  obtain ⟨-, hauthentic, hsent⟩ := h
  rcases hauthentic.received k row.packet ⟨row, hrow, rfl⟩ with
    ⟨p, hp, rfl, hpacket⟩ | ⟨_, hfirst, _⟩
  · have hcall := hsent _ p hp
    rwa [hpacket] at hcall
  · exact absurd hfirst List.not_mem_nil

end Calls

end Transport

section Envelopes

variable [Primitives]

/-! ## The envelope of `send_packet` -/

/-- What was drawn is what the enveloper computes: the ciphertext of the content key, and
that of the data under it. -/
structure Drawn.Computed (b : Botan) (pk : PublicKey) {mine : Suite} {data : Octets}
    (r : Drawn pk.content.suite mine data.length) (symKey : Sized aesGcmKeySize)
    (draws : EncryptDraws) (enc : KemEncapsulation (kemPublicKey pk.content).id) :
    Prop where
  encapsulated :
    kemEncapsulate b (kemPublicKey pk.content) draws.ephemeral draws.kem = .ok enc
  ctX : enc.ctX.val = r.ctX.val
  ctPq : enc.ctPq.val = r.ctPq.val
  keyIv : draws.iv.val = r.keyIv.val
  key : b.gcm enc.key.val draws.iv.val pk.id.val symKey.val = r.encryptedKey.val ++ r.keyTag.val
  pass : aesGcmPass b.toBotan true symKey.val r.iv.val data = .ok (r.encrypted.val, r.tag.val)

section SendPacket

variable {b : Botan} {pk : PublicKey} {mine : Suite} {data : Octets}
  {r : Drawn pk.content.suite mine data.length} {symKey : Sized aesGcmKeySize}
  {draws : EncryptDraws} {enc : KemEncapsulation (kemPublicKey pk.content).id}

omit [Primitives] in
theorem asnDerSerialise_of_serialiseOrThrow {T : Schema .type} {v : T.Val} {octets : Octets}
    (h : serialiseOrThrow T v = .ok octets) : asnDerSerialise T v = .ok octets := by
  unfold serialiseOrThrow at h
  cases hv : asnDerSerialise T v with
  | error e =>
      rw [hv] at h
      exact nomatch h
  | ok octets' =>
      rw [hv] at h
      rw [show octets' = octets from Except.ok.inj h]

/-- `send_packet` encrypts the content key as `encrypt_key` does. -/
theorem Drawn.Computed.encrypt_eq (h : r.Computed b pk symKey draws enc)
    (hvalid : pk.content.isValid = true) {sealed : Octets}
    (hsealed : serialiseOrThrow hybridCiphertextSchema r.ciphertext = .ok sealed) :
    EncryptedKey.encrypt b pk draws symKey.val = .ok ⟨pk.id.val, sealed⟩ := by
  obtain ⟨hencrypted, htag⟩ := PrivateKeyImpl.sealed_parts h.key r.keyTag.property
  have hsave : HybridCiphertext.save
      ⟨.cast uint16 1, pk.content.suite, enc.ctX.val, enc.ctPq.val, draws.iv.val,
        r.encryptedKey.val, r.keyTag.val⟩ = .ok sealed := by
    unfold HybridCiphertext.save HybridCiphertext.val
    dsimp only
    rw [h.ctX, h.ctPq, h.keyIv]
    exact congrArg (Except.mapError CryptoError.serialisation)
      (asnDerSerialise_of_serialiseOrThrow hsealed)
  unfold EncryptedKey.encrypt PublicKey.encrypt
  rw [if_pos hvalid, h.encapsulated]
  show (HybridCiphertext.save ⟨.cast uint16 1, pk.content.suite, enc.ctX.val, enc.ctPq.val,
    draws.iv.val, _, _⟩ >>= _) = _
  rw [hencrypted, htag, hsave]
  rfl

end SendPacket

/-- `transport_payload`. -/
structure Payload where
  data : EnvelopedContent
  issuer : Octets
  signature : Octets
deriving DecidableEq

def TransportPacket.payload (p : TransportPacket) : Payload := ⟨p.data, p.issuer, p.signature⟩

/-- A call of `send_packet` with `data` for the holder of `sk`, by the client `k`, gave the
payload. The receiver's id finds a public key of the receiver. -/
def SentWith (b : Botan) (sk : PrivateKeyImpl) (k : Octets) (packet : Payload) (data : Octets) :
    Prop :=
  ∃ (c : PacketClient) (drawn : ∀ key mine, Drawn key mine data.length)
    (inserted : Option (FixedInt int64)) (p : TransportPacket),
    c.sendPacket data sk.id.val drawn inserted = .ok p ∧ packet = p.payload ∧
    (∀ myKey, c.myPrivateKey = some myKey → myKey.publicKey.id.val = k) ∧
    ∀ key, c.find sk.id.val = some key → SameMaterial key.content sk.publicKey.content ∧
      ∀ mine, ∃ symKey draws enc, (drawn key.content.suite mine).Computed b key symKey draws enc

/-- The payload of a call is signed by the caller, and the receiver finds the data in it. -/
theorem SentWith.opens {b : Botan} {sk : PrivateKeyImpl} (hpaired : sk.Paired b) {k data : Octets}
    {packet : Payload} (h : SentWith b sk k packet data) :
    packet.issuer = k ∧ packet.data.decrypt b sk = .ok data := by
  obtain ⟨c, drawn, inserted, p, hsend, rfl, hmine, hfind⟩ := h
  obtain ⟨myKey, key, sealed, ack, hmyKey, hkey, -, hvalid, hsealed, rfl, -⟩ :=
    sendPacket_eq_ok hsend
  obtain ⟨hsame, hcomputed⟩ := hfind key hkey
  obtain ⟨symKey, draws, enc, hcomputed⟩ := hcomputed myKey.publicKey.content.suite
  have hencrypt := hcomputed.encrypt_eq hvalid hsealed
  refine ⟨hmine myKey hmyKey, ?_⟩
  have hopen := EnvelopedContent.decrypt_eq (P := (· = key)) hpaired
    (fun pk hpk _ => hpk ▸ hsame)
    (c := (madePacket sk.id.val (drawn key.content.suite myKey.publicKey.content.suite) sealed
      ack).data) (by
      intro k hk
      obtain rfl := List.mem_singleton.mp hk
      exact ⟨key, draws, rfl, hencrypt⟩)
    hcomputed.pass
  refine hopen.trans (if_pos ?_)
  exact List.mem_singleton.mpr (congrArg Subtype.val (hsame.id_eq hvalid)).symm

end Envelopes

namespace ConstantKeys

attribute [local instance] OneLink.primitives

open LargePayload (zeros)

/-- What is drawn for a packet with ones for keystream and zeros for everything else. -/
def drawn (data : Octets) (key mine : Suite) : Drawn key mine data.length where
  ctX := zeros _
  ctPq := zeros _
  keyIv := zeros _
  encryptedKey := ⟨List.replicate 32 1, rfl⟩
  keyTag := zeros _
  iv := zeros _
  encrypted := ⟨Keystream.apply (fun _ => 1) 0 data, Keystream.length_apply ..⟩
  tag := zeros _
  signature := zeros _

theorem drawn_computed {pk : PublicKey} (h : pk.content.isValid = true) (mine : Suite) :
    (drawn [1, 2, 3] pk.content.suite mine).Computed botan pk (zeros _) draws
      ⟨zeros _, zeros _, zeros _⟩ where
  encapsulated := encapsulates h _ _
  ctX := rfl
  ctPq := rfl
  keyIv := rfl
  key := rfl
  pass := by
    show aesGcmPass botan.toBotan true (zeros 32).val (zeros 12).val [1, 2, 3] =
      .ok (Keystream.apply (fun _ => 1) 0 [1, 2, 3], (zeros 16).val)
    decide +kernel

/-- A payload for the holder of a key, sent by a client with the id of all keys. -/
theorem sentWith {sk : PrivateKeyImpl} (h : sk.publicKey.content.isValid = true) :
    ∃ packet, SentWith botan sk OneLink.id.val packet [1, 2, 3] := by
  let c : PacketClient := ⟨some LargePayload.myKey, fun _ => some sk.publicKey, true⟩
  have hreturns : ∃ p, c.sendPacket [1, 2, 3] sk.id.val (drawn [1, 2, 3])
      (some (.cast int64 1)) = .ok p :=
    sendPacket_returns rfl rfl rfl h (by decide) sk.id.property
  obtain ⟨p, hp⟩ := hreturns
  refine ⟨p.payload, c, drawn [1, 2, 3], _, p, hp, rfl, ?_, ?_⟩
  · intro myKey hmine
    obtain rfl := Option.some.inj hmine
    rfl
  · intro key hkey
    obtain rfl := Option.some.inj hkey
    exact ⟨⟨rfl, rfl, rfl, rfl⟩, fun mine => ⟨zeros _, draws, _, drawn_computed h mine⟩⟩

/-- A client connects and sends a packet to itself. -/
def toItself (packet : Payload) : List (TransportAction Octets Payload) :=
  let k := OneLink.id.val
  [.connect k, .client k .becomeConnected, .client k .onConnected, .deliver 0,
    .server (.connection 0 .readIndex), .server (.connection 0 .readStored),
    .server (.connection 0 .insertPending), .server (.connection 0 .sendNext), .receive k,
    .client k (.insertPacket k packet), .client k (.testConnection 0), .client k (.sendPacket 0),
    .deliver 0, .server (.connection 0 .forward), .receive k]

theorem run_toItself {packet : Payload} (h : packet.issuer = OneLink.id.val) :
    ∃ t, Machine.run (Transport.step Payload.issuer) (toItself packet) (Transport.init []) =
      some t ∧ (t.clients OneLink.id.val).received = [⟨1, packet⟩] := by
  obtain ⟨data, issuer, signature⟩ := packet
  obtain rfl : issuer = OneLink.id.val := h
  exact ⟨_, rfl, rfl⟩

end ConstantKeys

namespace Transport

section

variable [Primitives]

/-- Whatever drops, restarts and comes back in whichever order: every payload that the holder
of a private key gets came with a call of `send_packet` for it, by the client that signed
the payload, and the private key opens it and gives the data of this call. -/
theorem received_opens {b : Botan} {s : Suite} {sigSeed : Octets} {kem : KemPrivateKey}
    {sig : Signature} {sk : PrivateKeyImpl}
    (hmake : PrivateKeyImpl.make b s sigSeed kem sig = .ok sk)
    {actions : List (TransportAction Octets Payload)} {t : Transport Octets Payload}
    (hcalls : ∀ k packet, .client k (.insertPacket sk.id.val packet) ∈ actions →
      ∃ data, SentWith b sk k packet data)
    (hrun : Machine.run (step Payload.issuer) actions (init []) = some t) :
    ∀ row ∈ (t.clients sk.id.val).received,
      .client row.packet.issuer (.insertPacket sk.id.val row.packet) ∈ actions ∧
      ∃ data, SentWith b sk row.packet.issuer row.packet data ∧
        row.packet.data.decrypt b sk = .ok data := by
  intro row hrow
  have hcall := called_of_received hrun hrow
  obtain ⟨data, hsent⟩ := hcalls _ _ hcall
  exact ⟨hcall, data, hsent, (hsent.opens (PrivateKeyImpl.paired_of_make hmake)).2⟩

end

section

attribute [local instance] OneLink.primitives

open ConstantKeys

theorem received_opens_itself : ∃ sk packet t data,
    Machine.run (step Payload.issuer) (toItself packet) (init []) = some t ∧
      (t.clients sk.id.val).received = [⟨1, packet⟩] ∧
      packet.data.decrypt botan sk = .ok data := by
  obtain ⟨sk, hmake, hvalid⟩ := make_succeeds
  have hid : sk.id.val = OneLink.id.val := congrArg Subtype.val (sk.publicKey.id_eq hvalid)
  obtain ⟨packet, hsent⟩ := sentWith hvalid
  obtain ⟨hissuer, -⟩ := hsent.opens (PrivateKeyImpl.paired_of_make hmake)
  obtain ⟨t, hrun, hreceived⟩ := run_toItself hissuer
  have hcalls : ∀ k packet', .client k (.insertPacket sk.id.val packet') ∈ toItself packet →
      ∃ data, SentWith botan sk k packet' data := by
    intro k packet' hcall
    have hsame : k = OneLink.id.val ∧ sk.id.val = OneLink.id.val ∧ packet' = packet := by
      simpa [toItself] using hcall
    obtain ⟨rfl, -, rfl⟩ := hsame
    exact ⟨_, hsent⟩
  rw [← hid] at hreceived
  have hrow : (⟨1, packet⟩ : InPacket Payload) ∈ (t.clients sk.id.val).received := by
    rw [hreceived]
    exact List.mem_singleton_self _
  obtain ⟨-, data, -, hopens⟩ := received_opens hmake hcalls hrun _ hrow
  exact ⟨sk, packet, t, data, hrun, hreceived, hopens⟩

end

end Transport

end Securepath.PacketTransport
