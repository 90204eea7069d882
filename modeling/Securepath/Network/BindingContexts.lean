import Securepath.Network.ChannelBinding

/-!
# The contexts of the bindings

`binding_context` puts the ids behind each other without their lengths. The ids
that are drawn have `hello_id_size` octets; the ones that the peer sends are taken
as they come. At one end of the channel one of the two ids is always drawn, so
that the contexts of that end can be told apart; what is drawn at the one end is
not what is drawn at the other one, and there the ids can run into each other.
-/

namespace Securepath.Network

open Serialisation Crypto Handshake

/-! ## Contexts -/

/-- The contexts of the two handshakes are the same for the same roles and ids only. -/
def Unambiguous [Primitives] (h₁ h₂ : Handshake) : Prop :=
  ∀ role₁ role₂, bindingContext role₁ h₁.clientId h₁.serverId =
      bindingContext role₂ h₂.clientId h₂.serverId →
    role₁ = role₂ ∧ h₁.clientId = h₂.clientId ∧ h₁.serverId = h₂.serverId

theorem bindingContext_inj {role₁ role₂ : EndpointRole} {c₁ s₁ c₂ s₂ : Octets} :
    bindingContext role₁ c₁ s₁ = bindingContext role₂ c₂ s₂ ↔
      role₁ = role₂ ∧ c₁ ++ s₁ = c₂ ++ s₂ := by
  unfold bindingContext
  constructor
  · intro h
    obtain ⟨hrole, hids⟩ := List.cons.inj h
    exact ⟨EndpointRole.byte_injective hrole, hids⟩
  · rintro ⟨rfl, hids⟩
    rw [hids]

/-- The role is told apart by its octet; it is the ids that matter. -/
theorem unambiguous_iff [Primitives] {h₁ h₂ : Handshake} : Unambiguous h₁ h₂ ↔
    (h₁.clientId ++ h₁.serverId = h₂.clientId ++ h₂.serverId →
      h₁.clientId = h₂.clientId ∧ h₁.serverId = h₂.serverId) := by
  unfold Unambiguous
  simp only [bindingContext_inj]
  constructor
  · intro h hids
    exact (h .client .client ⟨rfl, hids⟩).2
  · rintro h role₁ role₂ ⟨hrole, hids⟩
    exact ⟨hrole, h hids⟩

/-- The octets between the id that the peer sent and the one that was drawn, where
a server and a client divide the same octets at different places. -/
def Overlap (serverOwn serverPeer clientOwn clientPeer : Octets) : Prop :=
  (∃ x ≠ [], serverPeer = clientOwn ++ x ∧ clientPeer = x ++ serverOwn) ∨
    ∃ x ≠ [], clientOwn = serverPeer ++ x ∧ serverOwn = x ++ clientPeer

/-- Octets that are divided at two places. -/
theorem overlap_iff {serverOwn serverPeer clientOwn clientPeer : Octets} :
    Overlap serverOwn serverPeer clientOwn clientPeer ↔
      serverPeer ++ serverOwn = clientOwn ++ clientPeer ∧ serverPeer ≠ clientOwn := by
  unfold Overlap
  rw [List.append_eq_append_iff]
  constructor
  · rintro (⟨x, hx, rfl, rfl⟩ | ⟨x, hx, rfl, rfl⟩)
    · exact ⟨Or.inr ⟨x, rfl, rfl⟩, by simpa using hx⟩
    · exact ⟨Or.inl ⟨x, rfl, rfl⟩, by simpa using hx⟩
  · rintro ⟨⟨x, rfl, rfl⟩ | ⟨x, rfl, rfl⟩, hne⟩
    · exact Or.inr ⟨x, by rintro rfl; simp at hne, rfl, rfl⟩
    · exact Or.inl ⟨x, by rintro rfl; simp at hne, rfl, rfl⟩

/-- Ids of `hello_id_size` octets do not overlap. -/
theorem not_overlap_of_length {serverOwn serverPeer clientOwn clientPeer : Octets}
    (hown : clientOwn.length = helloIdSize) (hpeer : serverPeer.length = helloIdSize) :
    ¬ Overlap serverOwn serverPeer clientOwn clientPeer := by
  rw [overlap_iff]
  rintro ⟨happend, hne⟩
  exact hne (List.append_inj happend (hpeer.trans hown.symm)).1

/-! ## Accepted hellos -/

section Ends

variable [Primitives] [MacPrimitive]

/-- A hello was accepted at an end of a channel: the id that was drawn there, the
one that the peer sent, and the handshake behind it. -/
inductive Accepted (c : Context) (exporter : Exporter) :
    EndpointRole → Octets → Octets → Handshake → Prop
  | clientHello (h : Handshake) (random packet : Octets) (hello : ClientHello)
      (drawn : random.length = helloIdSize) (loaded : ClientHello.load packet = .ok hello)
      (accepted : (handleClientHello c exporter h random packet).1.state ≠ .error) :
      Accepted c exporter .server random hello.clientId
        (handleClientHello c exporter h random packet).2
  | serverHello (h₀ h : Handshake) (r : HandshakeResult) (data : HandshakeData)
      (random packet : Octets) (hello : ServerHello) (drawn : random.length = helloIdSize)
      (started : h₀.start c random data = .ok (r, h))
      (loaded : ServerHello.load packet = .ok hello)
      (accepted :
        (handleServerHello c exporter { h with clientHelloSent := false } packet).1.state ≠
          .error) :
      Accepted c exporter .client random hello.serverId
        (handleServerHello c exporter { h with clientHelloSent := false } packet).2

variable {c c₁ c₂ : Context} {exporter exporter₁ exporter₂ : Exporter}

theorem clientHello_ids {h : Handshake} {random packet : Octets} {hello : ClientHello}
    (hload : ClientHello.load packet = .ok hello)
    (haccepted : (handleClientHello c exporter h random packet).1.state ≠ .error) :
    (handleClientHello c exporter h random packet).2.clientId = hello.clientId ∧
      (handleClientHello c exporter h random packet).2.serverId = random := by
  rcases handleClientHello_cases c exporter h random packet with
    ⟨_, _, _, hfailed⟩ | ⟨hello', b, concrete, r, hload', -, -, heq⟩
  · rw [hfailed] at haccepted
    exact absurd rfl haccepted
  · obtain rfl := Except.ok.inj (hload.symm.trans hload')
    rw [heq]
    exact ⟨rfl, rfl⟩

theorem serverHello_ids {h : Handshake} {packet : Octets} {hello : ServerHello}
    (hload : ServerHello.load packet = .ok hello)
    (haccepted : (handleServerHello c exporter h packet).1.state ≠ .error) :
    (handleServerHello c exporter h packet).2.clientId = h.clientId ∧
      (handleServerHello c exporter h packet).2.serverId = hello.serverId := by
  rcases handleServerHello_cases c exporter h packet with
    ⟨_, _, hfailed⟩ | ⟨hello', b, concrete, hload', -, heq⟩
  · rw [hfailed] at haccepted
    exact absurd rfl haccepted
  · obtain rfl := Except.ok.inj (hload.symm.trans hload')
    rw [heq]
    split
    · exact ⟨rfl, rfl⟩
    · exact ⟨rfl, rfl⟩

omit [MacPrimitive] in
/-- `start` throws only where the hello cannot be written. -/
theorem start_eq {h₀ h : Handshake} {r : HandshakeResult} {data : HandshakeData}
    {random : Octets} (hstart : h₀.start c random data = .ok (r, h)) :
    h = { h₀ with requested := data, clientHelloSent := true, clientId := random } := by
  unfold Handshake.start at hstart
  dsimp only at hstart
  cases hsave : ClientHello.save ⟨currentVersion, c.suite, data.tag, random⟩ with
  | error e =>
      rw [hsave] at hstart
      cases hstart
  | ok packet =>
      rw [hsave] at hstart
      exact (congrArg Prod.snd (Except.ok.inj hstart)).symm

/-- The ids of an accepted handshake: the drawn one has its size. -/
theorem Accepted.ids {side : EndpointRole} {own peer : Octets} {h : Handshake}
    (ha : Accepted c exporter side own peer h) : own.length = helloIdSize ∧
      match side with
      | .server => h.clientId = peer ∧ h.serverId = own
      | .client => h.clientId = own ∧ h.serverId = peer := by
  cases ha with
  | clientHello h random packet hello hdrawn hload haccepted =>
      exact ⟨hdrawn, clientHello_ids hload haccepted⟩
  | serverHello h₀ h r data random packet hello hdrawn hstart hload haccepted =>
      obtain ⟨hclient, hserver⟩ := serverHello_ids hload haccepted
      have hdrawn' : h.clientId = own := by rw [start_eq hstart]
      exact ⟨hdrawn, hclient.trans hdrawn', hserver⟩

/-- The handshakes are those of two ends, and their ids run into each other. -/
def Crossed : EndpointRole → Octets → Octets → EndpointRole → Octets → Octets → Prop
  | .server, own₁, peer₁, .client, own₂, peer₂ => Overlap own₁ peer₁ own₂ peer₂
  | .client, own₁, peer₁, .server, own₂, peer₂ => Overlap own₂ peer₂ own₁ peer₁
  | _, _, _, _, _, _ => False

/-- Two accepted handshakes have different contexts for different roles and ids,
unless they are those of two ends whose ids run into each other. -/
theorem bindings_unambiguous_iff {side₁ side₂ : EndpointRole} {own₁ peer₁ own₂ peer₂ : Octets}
    {h₁ h₂ : Handshake} (ha₁ : Accepted c₁ exporter₁ side₁ own₁ peer₁ h₁)
    (ha₂ : Accepted c₂ exporter₂ side₂ own₂ peer₂ h₂) :
    Unambiguous h₁ h₂ ↔ ¬ Crossed side₁ own₁ peer₁ side₂ own₂ peer₂ := by
  obtain ⟨hown₁, hids₁⟩ := ha₁.ids
  obtain ⟨hown₂, hids₂⟩ := ha₂.ids
  have hown := hown₁.trans hown₂.symm
  rw [unambiguous_iff]
  cases side₁ with
  | server =>
    obtain ⟨hclient₁, hserver₁⟩ := hids₁
    cases side₂ with
    | server =>
      -- the server draws the last id
      obtain ⟨hclient₂, hserver₂⟩ := hids₂
      rw [hclient₁, hserver₁, hclient₂, hserver₂]
      exact ⟨fun _ h => h, fun _ happend => List.append_inj' happend hown⟩
    | client =>
      obtain ⟨hclient₂, hserver₂⟩ := hids₂
      rw [hclient₁, hserver₁, hclient₂, hserver₂]
      show _ ↔ ¬ Overlap own₁ peer₁ own₂ peer₂
      rw [overlap_iff, not_and, not_not]
      refine forall_congr' fun happend => ⟨And.left, fun heq => ⟨heq, ?_⟩⟩
      rw [heq] at happend
      exact List.append_cancel_left happend
  | client =>
    obtain ⟨hclient₁, hserver₁⟩ := hids₁
    cases side₂ with
    | server =>
      obtain ⟨hclient₂, hserver₂⟩ := hids₂
      rw [hclient₁, hserver₁, hclient₂, hserver₂]
      show _ ↔ ¬ Overlap own₂ peer₂ own₁ peer₁
      rw [overlap_iff, not_and, not_not, eq_comm (a := own₁ ++ peer₁)]
      refine forall_congr' fun happend => ⟨fun h => h.1.symm, fun heq => ⟨heq.symm, ?_⟩⟩
      rw [heq] at happend
      exact (List.append_cancel_left happend).symm
    | client =>
      -- the client draws the first id
      obtain ⟨hclient₂, hserver₂⟩ := hids₂
      rw [hclient₁, hserver₁, hclient₂, hserver₂]
      exact ⟨fun _ h => h, fun _ happend => List.append_inj happend hown⟩

end Ends

/-! ## Two ends -/

namespace Divided

attribute [local instance] Shared.primitives Shared.mac

/-- A client that asks for the shared secret. -/
def clientContext : Context :=
  { Shared.context with
    handshakes tag := if tag = sharedSecretTag then some .clientSs else none
    sharedSecretId := [1] }

/-- What the two ends draw. -/
def serverOwn : Octets := List.replicate 16 9

def clientOwn : Octets := List.replicate 16 0

/-- What the peers of the two ends send: one octet too many each. -/
def serverPeer : Octets := clientOwn ++ [7]

def clientPeer : Octets := 7 :: serverOwn

def clientHello : Octets :=
  [0x30, 0x1c, 0x02, 0x01, 0x02, 0x02, 0x01, 0x01, 0x02, 0x01, 0x04, 0x04, 0x11] ++ serverPeer

def serverHello : Octets :=
  [0x30, 0x1e, 0x02, 0x01, 0x02, 0x02, 0x01, 0x01, 0x02, 0x01, 0x04, 0x04, 0x11] ++ clientPeer ++
    [0x04, 0x00]

theorem crossed : Crossed .server serverOwn serverPeer .client clientOwn clientPeer :=
  Or.inl ⟨[7], by decide, rfl, rfl⟩

theorem server_accepts :
    ∃ h, Accepted Shared.context (Shared.exporters 5) .server serverOwn serverPeer h := by
  have hload : (match ClientHello.load clientHello with
      | .ok hello => decide (hello.clientId = serverPeer)
      | .error _ => false) = true := by decide +kernel
  have haccepted : (handleClientHello Shared.context (Shared.exporters 5) (.init .server) serverOwn
      clientHello).1.state ≠ .error := by decide +kernel
  cases hhello : ClientHello.load clientHello with
  | error e =>
      rw [hhello] at hload
      cases hload
  | ok hello =>
      rw [hhello] at hload
      dsimp only at hload
      rw [← of_decide_eq_true hload]
      exact ⟨_, .clientHello (.init .server) serverOwn clientHello hello rfl hhello haccepted⟩

/-- The client behind its hello. -/
def started : Handshake :=
  { Handshake.init .client with
    requested := .ofTag sharedSecretTag
    clientHelloSent := true
    clientId := clientOwn }

theorem started_eq : ∃ r h, (Handshake.init .client).start clientContext clientOwn
    (.ofTag sharedSecretTag) = .ok (r, h) ∧ h = started := by
  have hstart : (match (Handshake.init .client).start clientContext clientOwn
        (.ofTag sharedSecretTag) with
      | .ok _ => true
      | .error _ => false) = true := by decide +kernel
  cases hstarted : (Handshake.init .client).start clientContext clientOwn
      (.ofTag sharedSecretTag) with
  | error e =>
      rw [hstarted] at hstart
      cases hstart
  | ok s => exact ⟨s.1, s.2, rfl, start_eq hstarted⟩

theorem client_accepts :
    ∃ h, Accepted clientContext (Shared.exporters 6) .client clientOwn clientPeer h := by
  have hload : (match ServerHello.load serverHello with
      | .ok hello => decide (hello.serverId = clientPeer)
      | .error _ => false) = true := by decide +kernel
  obtain ⟨r, h, hstarted, hh⟩ := started_eq
  have haccepted : (handleServerHello clientContext (Shared.exporters 6)
      { h with clientHelloSent := false } serverHello).1.state ≠ .error := by
    rw [hh]
    decide +kernel
  cases hhello : ServerHello.load serverHello with
  | error e =>
      rw [hhello] at hload
      cases hload
  | ok hello =>
      rw [hhello] at hload
      dsimp only at hload
      rw [← of_decide_eq_true hload]
      exact ⟨_, .serverHello _ h r _ clientOwn serverHello hello rfl hstarted hhello haccepted⟩

/-- The ends have different ids and one context. -/
theorem bindings_ambiguous : ¬ ∀ (side₁ side₂ : EndpointRole) (own₁ peer₁ own₂ peer₂ : Octets)
    (h₁ h₂ : Handshake),
    Accepted Shared.context (Shared.exporters 5) side₁ own₁ peer₁ h₁ →
      Accepted clientContext (Shared.exporters 6) side₂ own₂ peer₂ h₂ → Unambiguous h₁ h₂ := by
  intro hclaim
  obtain ⟨h₁, hserver⟩ := server_accepts
  obtain ⟨h₂, hclient⟩ := client_accepts
  obtain ⟨hclient₁, hserver₁⟩ := hserver.ids.2
  obtain ⟨hclient₂, hserver₂⟩ := hclient.ids.2
  have hids := unambiguous_iff.mp (hclaim _ _ _ _ _ _ _ _ hserver hclient)
  rw [hclient₁, hserver₁, hclient₂, hserver₂] at hids
  exact absurd (hids (by decide)).1 (by decide)

theorem divided_ambiguous : ∃ h₁ h₂,
    Accepted Shared.context (Shared.exporters 5) .server serverOwn serverPeer h₁ ∧
      Accepted clientContext (Shared.exporters 6) .client clientOwn clientPeer h₂ ∧
      ¬ Unambiguous h₁ h₂ := by
  obtain ⟨h₁, hserver⟩ := server_accepts
  obtain ⟨h₂, hclient⟩ := client_accepts
  exact ⟨h₁, h₂, hserver, hclient,
    (bindings_unambiguous_iff hserver hclient).not_left.mpr crossed⟩

end Divided

end Securepath.Network
