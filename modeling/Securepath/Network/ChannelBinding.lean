import Securepath.Network.HandshakeSafety

/-!
# The handshake and its channel

What a peer has to show is a signature, or a mac, over the binding of its role on this channel.
The role is in the context that the exporter is given, and every channel exports values of its
own: what was made elsewhere, or sent by this side itself, verifies over nothing that is asked
for here.
-/

namespace Securepath.Network

open Serialisation Crypto

/-- The exporters of all channels give a value for one context of one channel. -/
def IdealExporters {ι : Type} (exporters : ι → Exporter) : Prop :=
  ∀ i j context context' b, exporters i bindingLabel context bindingSize = some b →
    exporters j bindingLabel context' bindingSize = some b → i = j ∧ context = context'

/-- A binding of another channel, or for another role than `role`. -/
def MadeElsewhere {ι : Type} (exporters : ι → Exporter) (channel : ι) (role : EndpointRole)
    (b : Octets) : Prop :=
  ∃ channel' role' clientId serverId,
    bindingOf (exporters channel') role' clientId serverId = some b ∧
      (channel' ≠ channel ∨ role' ≠ role)

/-- What verifies was made by the one who can, and what was made was made elsewhere. -/
structure Replayed {ι : Type} (exporters : ι → Exporter) (channel : ι) (role : EndpointRole)
    (Verifies Made : Octets → Prop) : Prop where
  unforgeable : ∀ b, Verifies b → Made b
  elsewhere : ∀ b, Made b → MadeElsewhere exporters channel role b

theorem EndpointRole.byte_injective {role role' : EndpointRole} (h : role.byte = role'.byte) :
    role = role' := by
  cases role <;> cases role' <;> first | rfl | cases h

theorem EndpointRole.other_ne (role : EndpointRole) : role ≠ role.other := by
  cases role <;> exact EndpointRole.noConfusion

section Exporters

variable {ι : Type} {exporters : ι → Exporter} {channel : ι} {role : EndpointRole}

/-- The role is told from the binding, whatever the ids are. -/
theorem not_madeElsewhere (hideal : IdealExporters exporters) {clientId serverId b : Octets}
    (hb : bindingOf (exporters channel) role clientId serverId = some b) :
    ¬ MadeElsewhere exporters channel role b := by
  rintro ⟨channel', role', clientId', serverId', hb', hother⟩
  obtain ⟨rfl, hcontext⟩ := hideal channel' channel _ _ b hb' hb
  rcases hother with hchannel | hrole
  · exact hchannel rfl
  · exact hrole (EndpointRole.byte_injective (List.cons.inj hcontext).1)

theorem Replayed.refused {Verifies Made : Octets → Prop} (hideal : IdealExporters exporters)
    (h : Replayed exporters channel role Verifies Made) {clientId serverId b : Octets}
    (hb : bindingOf (exporters channel) role clientId serverId = some b) : ¬ Verifies b :=
  fun hverifies => not_madeElsewhere hideal hb (h.elsewhere b (h.unforgeable b hverifies))

end Exporters

section Handshakes

variable [Primitives] {c : Context}

theorem ConcreteHandshake.authenticates_of_authenticateRemote {concrete : ConcreteHandshake}
    (hsecret : concrete.isSecret = false) (hremote : c.authenticateRemote = true) :
    concrete.authenticates c = true := by
  cases concrete with
  | clientPk data remoteKey serverVerified => rfl
  | serverPk binding remoteKey => exact hremote
  | clientSs secretId binding => cases hsecret
  | serverSs secretId binding => cases hsecret

variable [MacPrimitive]

/-- A handshake of either role, against an adversary who sends whatever it likes. A key is set
only by credentials with a signature of it over the binding of the peer on this very channel for
the ids of this handshake; a success comes with such a key when it is asked for, and with such a
mac when the handshake goes by a secret. Signatures and macs that were made for another channel
or for the role of this side, what this side has made among them, lead to neither. -/
theorem handshake_bound_to_channel {ι : Type} (exporters : ι → Exporter) (channel : ι)
    (c : Context) {role : EndpointRole} {start s : HandshakeRun} {packets : List PeerPacket}
    (hstart : HandshakeRun.IsStart c role start)
    (hrun : Machine.run (HandshakeRun.step c (exporters channel)) packets start = some s) :
    (∀ key, s.handshake.remotePublicKey = some key →
      ∃ p ∈ packets, ∃ msg creds binding, p.Presents msg ∧ Auth.load msg = .ok ⟨some creds⟩ ∧
        creds.key = key ∧
        bindingOf (exporters channel) role.other s.handshake.clientId s.handshake.serverId =
          some binding ∧
        creds.key.verify creds.sig binding authContext = true) ∧
    (∀ r ∈ s.results, r.state = .succeeded →
      ∃ concrete, s.handshake.handshake = some concrete ∧
        (concrete.isSecret = false → c.authenticateRemote = true →
          s.handshake.remotePublicKey ≠ none) ∧
        (concrete.isSecret = true →
          ∃ p ∈ packets, ∃ text msg binding, p.Presents text ∧ AuthSs.load text = .ok msg ∧
            bindingOf (exporters channel) role.other s.handshake.clientId
              s.handshake.serverId = some binding ∧
            ∃ secret, c.sharedSecrets msg.secretId = some secret ∧
              hmac secret binding = some msg.mac)) ∧
    (∀ concrete, s.handshake.handshake = some concrete →
      MadeElsewhere exporters channel role.other concrete.binding.own) ∧
    (IdealExporters exporters → ∀ Signed : PublicKey → Signature → Octets → Prop,
      (∀ p ∈ packets, ∀ msg creds, p.Presents msg → Auth.load msg = .ok ⟨some creds⟩ →
        Replayed exporters channel role.other
          (fun b => creds.key.verify creds.sig b authContext = true)
          (Signed creds.key creds.sig)) →
      s.handshake.remotePublicKey = none) ∧
    (IdealExporters exporters → ∀ Maced : Octets → Octets → Octets → Prop,
      (∀ p ∈ packets, ∀ text msg secret, p.Presents text → AuthSs.load text = .ok msg →
        c.sharedSecrets msg.secretId = some secret →
        Replayed exporters channel role.other (fun b => hmac secret b = some msg.mac)
          (Maced secret msg.mac)) →
      ∀ r ∈ s.results, r.state = .succeeded → ∀ concrete,
        s.handshake.handshake = some concrete → concrete.isSecret = false) := by
  have hinv : RunInv c (exporters channel) packets role s := .of_run hstart hrun
  have hkey : ∀ key, s.handshake.remotePublicKey = some key →
      ∃ p ∈ packets, ∃ msg creds binding, p.Presents msg ∧ Auth.load msg = .ok ⟨some creds⟩ ∧
        creds.key = key ∧
        bindingOf (exporters channel) role.other s.handshake.clientId s.handshake.serverId =
          some binding ∧
        creds.key.verify creds.sig binding authContext = true := by
    intro key hkey
    obtain ⟨concrete, hsome, hkey⟩ := Option.bind_eq_some_iff.mp hkey
    obtain ⟨p, hp, msg, creds, binding, hmsg, hload, heq, hbinding, hverified⟩ :=
      (hinv.concrete concrete hsome).key key hkey
    rw [hinv.role_eq] at hbinding
    exact ⟨p, hp, msg, creds, binding, hmsg, hload, heq, hbinding, hverified.signature⟩
  have hsuccess : ∀ r ∈ s.results, r.state = .succeeded →
      ∃ concrete, s.handshake.handshake = some concrete ∧
        SuccessInv c (exporters channel) packets s.handshake concrete := hinv.success
  refine ⟨hkey, ?_, ?_, ?_, ?_⟩
  · intro r hr hsucceeded
    obtain ⟨concrete, hsome, hauthenticated, hmac⟩ := hsuccess r hr hsucceeded
    refine ⟨concrete, hsome, ?_, ?_⟩
    · intro hsecret hremote
      unfold Handshake.remotePublicKey
      rw [hsome]
      exact hauthenticated
        (ConcreteHandshake.authenticates_of_authenticateRemote hsecret hremote)
    · intro hsecret
      obtain ⟨p, hp, text, msg, binding, hmsg, hload, hbinding, hverified⟩ := hmac hsecret
      rw [hinv.role_eq] at hbinding
      exact ⟨p, hp, text, msg, binding, hmsg, hload, hbinding, hverified⟩
  -- what this side signs is the binding of its own role
  · intro concrete hsome
    refine ⟨channel, role, s.handshake.clientId, s.handshake.serverId, ?_,
      Or.inr role.other_ne⟩
    rw [← hinv.role_eq]
    exact (hinv.concrete concrete hsome).own
  -- a replayed signature is of another binding, and an ideal exporter gives each only once
  · intro hideal Signed hreplayed
    by_contra hset
    obtain ⟨key, hkey'⟩ := Option.ne_none_iff_exists'.mp hset
    obtain ⟨p, hp, msg, creds, binding, hmsg, hload, -, hbinding, hverify⟩ := hkey key hkey'
    exact (hreplayed p hp msg creds hmsg hload).refused hideal hbinding hverify
  -- the same for a replayed mac
  · intro hideal Maced hreplayed r hr hsucceeded concrete hsome
    obtain ⟨concrete', hsome', -, hmac⟩ := hsuccess r hr hsucceeded
    obtain rfl := Option.some.inj (hsome.symm.trans hsome')
    by_contra hsecret
    obtain ⟨p, hp, text, msg, binding, hmsg, hload, hbinding, secret, hfound, hverify⟩ :=
      hmac (Bool.not_eq_false _ ▸ hsecret)
    rw [hinv.role_eq] at hbinding
    exact (hreplayed p hp text msg secret hmsg hload hfound).refused hideal hbinding hverify

end Handshakes

/-! ## A shared secret -/

namespace Shared

/-- Primitives that accept what they are shown. -/
@[reducible] def primitives : Primitives where
  sha3_256 _ := ⟨List.replicate 32 7, sevens_length⟩
  verifyMessage _ _ _ _ := true

/-- A mac that hides nothing. -/
@[reducible] def mac : MacPrimitive := ⟨fun secret message => some (secret ++ message)⟩

attribute [local instance] primitives mac

/-- Exporters that hand back what they are given, with the number of the channel. -/
def exporters (channel : UInt8) : Exporter := fun _ context _ => some (channel :: context)

theorem exporters_ideal : IdealExporters exporters := by
  intro i j context context' b hb hb'
  obtain ⟨hchannel, hcontext⟩ := List.cons.inj (Option.some.inj (hb.trans hb'.symm))
  exact ⟨hchannel, hcontext⟩

def context : Context where
  suite := .pq1
  publicKeys := .ofRoot (fun _ => none) none
  certificates := ⟨fun _ => none⟩
  sharedSecrets id := if id = [1] then some [9] else none
  privateData := ⟨none, none⟩
  handshakes tag := if tag = sharedSecretTag then some .serverSs else none
  authenticateRemote := true
  sharedSecretId := []

def clientHello : Octets :=
  [0x30, 0x0d, 0x02, 0x01, 0x02, 0x02, 0x01, 0x01, 0x02, 0x01, 0x04, 0x04, 0x02, 0x0a, 0x0b]

/-- The mac of the client: the secret, the channel 5, the role, its id and that of the server. -/
def auth : Octets := [0x30, 0x0c, 0x04, 0x01, 0x01, 0x04, 0x07, 9, 5, 1, 0x0a, 0x0b, 0x0c, 0x0d]

def helloPacket : PeerPacket := ⟨[0x0c, 0x0d], clientHello⟩

def authPacket : PeerPacket := ⟨[], auth⟩

def first : HandshakeResult × Handshake :=
  (Handshake.init .server).handlePacket context (exporters 5) helloPacket.random
    helloPacket.packet

theorem first_state : first.1.state = .inProgress := by decide +kernel

theorem second_state : (first.2.handlePacket context (exporters 5) authPacket.random
    authPacket.packet).1.state = .succeeded := by decide +kernel

/-- A server that succeeds by a mac over the binding of the client. -/
theorem server_succeeds_by_mac :
    ∃ s, Machine.run (HandshakeRun.step context (exporters 5)) [helloPacket, authPacket]
        ⟨.init .server, []⟩ = some s ∧
      ∃ concrete, s.handshake.handshake = some concrete ∧ (concrete.isSecret = true →
        ∃ p ∈ [helloPacket, authPacket], ∃ text msg binding,
          p.Presents text ∧ AuthSs.load text = .ok msg ∧
          bindingOf (exporters 5) .client s.handshake.clientId s.handshake.serverId =
            some binding ∧
          ∃ secret, context.sharedSecrets msg.secretId = some secret ∧
            hmac secret binding = some msg.mac) := by
  have hfirst := HandshakeRun.run_cons (h := .init .server) context (exporters 5) helloPacket
    [authPacket] (fun r hr => absurd hr List.not_mem_nil)
  have hstate := first_state
  have hsucceeded := second_state
  unfold first at hstate hsucceeded
  generalize (Handshake.init .server).handlePacket context (exporters 5) helloPacket.random
    helloPacket.packet = r at hfirst hstate hsucceeded
  have hlive : (HandshakeRun.mk r.2 ([] ++ [r.1])).isLive := by
    intro r' hr'
    obtain rfl := List.mem_singleton.mp hr'
    exact hstate ▸ HandshakeOpState.noConfusion
  have hrun := hfirst.trans (HandshakeRun.run_cons context (exporters 5) authPacket [] hlive)
  generalize r.2.handlePacket context (exporters 5) authPacket.random authPacket.packet = r'
    at hrun hsucceeded
  obtain ⟨-, hsuccess, -⟩ := handshake_bound_to_channel exporters 5 context .server hrun
  obtain ⟨concrete, hconcrete, -, hmac⟩ :=
    hsuccess r'.1 (List.mem_append_right _ (List.mem_cons_self ..)) hsucceeded
  exact ⟨_, hrun, concrete, hconcrete, hmac⟩

end Shared

end Securepath.Network
