import Securepath.Crypto.ChainValidation
import Securepath.Network.Handshake

/-!
# The safety of the handshake

A handshake accepts a key, or a mac, only over the binding of the other role: that of its own
channel and of the two ids that were exchanged. What was made on another channel, or for its
own role, is of no use to the peer.
-/

namespace Securepath.Network

open Serialisation Crypto HandshakeResult

variable [Primitives] {c : Context} {exporter : Exporter}

/-! ## Credentials -/

/-- What `verify_credentials` checks. -/
structure CredentialsVerified (c : Context) (rest : Option KeyCertRestriction)
    (creds : AuthCredentials) (binding : Octets) : Prop where
  authentic : creds.chain.chain.isAuthenticFor c.publicKeys c.certificates rest = .ok true
  subject : ∃ key, creds.chain.chain.subject = .ok key ∧ key.id = creds.key.id
  signature : creds.key.verify creds.sig binding authContext = true

theorem verifyCredentials_eq_true {creds : AuthCredentials} {binding : HandshakeBinding}
    {rest : Option KeyCertRestriction} (h : verifyCredentials c creds binding rest = .ok true) :
    CredentialsVerified c rest creds binding.remote := by
  unfold verifyCredentials at h
  split at h
  · cases h
  · cases h
  next hauthentic =>
  split at h
  · cases h
  next subject hsubject =>
  split at h
  · cases h
  next hid =>
  exact ⟨hauthentic, ⟨subject, hsubject, not_not.mp hid⟩, Except.ok.inj h⟩

theorem verifyServer_eq_some {data : HandshakeData} {packet : Octets} {key : PublicKey}
    (h : verifyServer c data packet = .ok (some key)) :
    ∃ creds, Auth.load packet = .ok ⟨some creds⟩ ∧ creds.key = key ∧
      CredentialsVerified c data.restriction creds data.binding.remote := by
  unfold verifyServer at h
  split at h
  · cases h
  · cases h
  next creds hload =>
  cases hverify : verifyCredentials c creds data.binding data.restriction with
  | error e =>
      rw [hverify] at h
      cases h
  | ok ok =>
      rw [hverify] at h
      cases ok with
      | false => cases h
      | true =>
          have hkey : some creds.key = some key := Except.ok.inj h
          exact ⟨creds, hload, Option.some.inj hkey, verifyCredentials_eq_true hverify⟩

namespace ConcreteHandshake

/-- The binding that the handshake was made with. -/
def binding : ConcreteHandshake → HandshakeBinding
  | clientPk data _ _ => data.binding
  | serverPk binding _ => binding
  | clientSs _ binding => binding
  | serverSs _ binding => binding

/-- The restriction that the chain of the peer has to fulfil. -/
def restriction : ConcreteHandshake → Option KeyCertRestriction
  | clientPk data _ _ => data.restriction
  | _ => none

/-- The variants with a shared secret. -/
def isSecret : ConcreteHandshake → Bool
  | clientSs _ _ => true
  | serverSs _ _ => true
  | _ => false

/-- A success comes with a key of the peer. -/
def authenticates (c : Context) : ConcreteHandshake → Bool
  | clientPk _ _ _ => true
  | serverPk _ _ => c.authenticateRemote
  | _ => false

/-- A client that goes on has the key of the server. -/
def IsSound : ConcreteHandshake → Prop
  | clientPk _ remoteKey serverVerified => serverVerified = true → remoteKey ≠ none
  | _ => True

end ConcreteHandshake

/-! ## The concrete handshake that is made -/

/-- The concrete handshake that `make_concrete` has made for `h`. -/
structure Constructed (c : Context) (exporter : Exporter) (h : Handshake)
    (b : HandshakeBinding) (concrete : ConcreteHandshake) : Prop where
  own : bindingOf exporter h.role h.clientId h.serverId = some b.own
  remote : bindingOf exporter h.role.other h.clientId h.serverId = some b.remote
  made : c.constructHandshake { h.requested with binding := b, role := h.role } = .ok concrete

/-- What `make_concrete` leaves behind. -/
def Handshake.withConcrete (h : Handshake) (b : HandshakeBinding)
    (concrete : ConcreteHandshake) : Handshake :=
  { h with requested := { h.requested with binding := b, role := h.role }
           handshake := some concrete }

theorem Context.constructHandshake_spec {data : HandshakeData} {concrete : ConcreteHandshake}
    (h : c.constructHandshake data = .ok concrete) :
    concrete.binding = data.binding ∧ concrete.remotePublicKey = none ∧ concrete.IsSound := by
  unfold Context.constructHandshake at h
  split at h
  · cases h
  · obtain rfl := Except.ok.inj h
    exact ⟨rfl, rfl, Bool.noConfusion⟩
  · obtain rfl := Except.ok.inj h
    exact ⟨rfl, rfl, trivial⟩
  · split at h
    · obtain rfl := Except.ok.inj h
      exact ⟨rfl, rfl, trivial⟩
    · obtain rfl := Except.ok.inj h
      exact ⟨rfl, rfl, Bool.noConfusion⟩
  · obtain rfl := Except.ok.inj h
    exact ⟨rfl, rfl, trivial⟩
  · obtain rfl := Except.ok.inj h
    exact ⟨rfl, rfl, trivial⟩

theorem Handshake.deriveBinding_eq_ok {h : Handshake} {b : HandshakeBinding}
    (hb : h.deriveBinding exporter = .ok b) :
    bindingOf exporter h.role h.clientId h.serverId = some b.own ∧
      bindingOf exporter h.role.other h.clientId h.serverId = some b.remote := by
  unfold Handshake.deriveBinding at hb
  split at hb
  next own remote hown hremote =>
    obtain rfl := Except.ok.inj hb
    exact ⟨hown, hremote⟩
  next => cases hb

theorem Handshake.makeConcrete_cases (h : Handshake) (c : Context) (exporter : Exporter) :
    (∃ e data, h.makeConcrete c exporter = (.error e, { h with requested := data })) ∨
    ∃ b concrete, Constructed c exporter h b concrete ∧
      h.makeConcrete c exporter = (.ok concrete, h.withConcrete b concrete) := by
  unfold Handshake.makeConcrete
  cases hb : h.deriveBinding exporter with
  | error e => exact Or.inl ⟨e, h.requested, rfl⟩
  | ok b =>
      obtain ⟨hown, hremote⟩ := Handshake.deriveBinding_eq_ok hb
      simp only
      cases hmade : c.constructHandshake { h.requested with binding := b, role := h.role } with
      | error e => exact Or.inl ⟨e, _, rfl⟩
      | ok concrete => exact Or.inr ⟨b, concrete, ⟨hown, hremote, hmade⟩, rfl⟩

/-! ## One packet -/

variable [MacPrimitive]

/-- The mac of a message is that of the binding, by the secret that the message names. -/
def MacVerified (c : Context) (msg : AuthSs) (binding : Octets) : Prop :=
  ∃ secret, c.sharedSecrets msg.secretId = some secret ∧ hmac secret binding = some msg.mac

theorem verifyAuthSs_eq_true {msg : AuthSs} {binding : HandshakeBinding}
    (h : verifyAuthSs c msg binding = .ok true) : MacVerified c msg binding.remote := by
  unfold verifyAuthSs at h
  split at h
  · cases h
  next secret hsecret =>
  split at h
  · cases h
  next mac hmac =>
  have heq : mac = msg.mac := of_decide_eq_true (Except.ok.inj h)
  exact ⟨secret, hsecret, heq ▸ hmac⟩

/-- What a packet changes of the concrete handshake. -/
structure ConcreteStep (c : Context) (packet : Octets) (concrete : ConcreteHandshake)
    (r : HandshakeResult × ConcreteHandshake) : Prop where
  binding_eq : r.2.binding = concrete.binding
  restriction_eq : r.2.restriction = concrete.restriction
  isSecret_eq : r.2.isSecret = concrete.isSecret
  authenticates_eq : r.2.authenticates c = concrete.authenticates c
  sound : concrete.IsSound → r.2.IsSound
  keeps : concrete.remotePublicKey ≠ none → r.2.remotePublicKey ≠ none
  key : ∀ key, r.2.remotePublicKey = some key → concrete.remotePublicKey = some key ∨
    ∃ creds, Auth.load packet = .ok ⟨some creds⟩ ∧ creds.key = key ∧
      CredentialsVerified c concrete.restriction creds concrete.binding.remote
  mac : r.1.state = .succeeded → concrete.isSecret = true →
    ∃ msg, AuthSs.load packet = .ok msg ∧ MacVerified c msg concrete.binding.remote
  authenticated : r.1.state = .succeeded → concrete.IsSound →
    concrete.authenticates c = true → r.2.remotePublicKey ≠ none

variable {concrete : ConcreteHandshake} {packet : Octets}

/-- The concrete handshake stays as it was. -/
theorem ConcreteStep.same {r : HandshakeResult}
    (hmac : r.state = .succeeded → concrete.isSecret = true →
      ∃ msg, AuthSs.load packet = .ok msg ∧ MacVerified c msg concrete.binding.remote)
    (hauthenticated : r.state = .succeeded → concrete.IsSound →
      concrete.authenticates c = true → concrete.remotePublicKey ≠ none) :
    ConcreteStep c packet concrete (r, concrete) :=
  ⟨rfl, rfl, rfl, rfl, id, id, fun _ h => Or.inl h, hmac, hauthenticated⟩

theorem ConcreteStep.failed : ConcreteStep c packet concrete (HandshakeResult.failed, concrete) :=
  .same (fun h => by cases h) (fun h => by cases h)

omit [MacPrimitive] in
theorem clientSs_succeeded [MacPrimitive] {secretId : Octets} {binding : HandshakeBinding}
    (h : (clientSsPacket c secretId binding packet).state = .succeeded) :
    ∃ msg, AuthSs.load packet = .ok msg ∧ MacVerified c msg binding.remote := by
  unfold clientSsPacket at h
  split at h
  · cases h
  next msg hload =>
  split at h
  next hguard => exact ⟨msg, hload, verifyAuthSs_eq_true hguard.2⟩
  · cases h

theorem serverSs_succeeded {binding : HandshakeBinding}
    (h : (serverSsPacket c binding packet).state = .succeeded) :
    ∃ msg, AuthSs.load packet = .ok msg ∧ MacVerified c msg binding.remote := by
  unfold serverSsPacket at h
  split at h
  · cases h
  next msg hload =>
  split at h
  next hguard => exact ⟨msg, hload, verifyAuthSs_eq_true hguard⟩
  · cases h

theorem ConcreteHandshake.handlePacket_verified {data : HandshakeData} {key : PublicKey}
    (remoteKey : Option PublicKey) (h : verifyServer c data packet = .ok (some key)) :
    (clientPk data remoteKey false).handlePacket c packet =
      (replyToServer c data, clientPk data (some key) true) := by
  unfold ConcreteHandshake.handlePacket
  simp only [h]

theorem ConcreteHandshake.handlePacket_unverified {data : HandshakeData}
    (remoteKey : Option PublicKey) (h : ∀ key, verifyServer c data packet ≠ .ok (some key)) :
    (clientPk data remoteKey false).handlePacket c packet =
      (HandshakeResult.failed, clientPk data remoteKey false) := by
  unfold ConcreteHandshake.handlePacket
  cases hverify : verifyServer c data packet with
  | error e => simp only [hverify]
  | ok verified =>
      cases verified with
      | none => simp only [hverify]
      | some key => exact absurd hverify (h key)

theorem ConcreteHandshake.handlePacket_spec (concrete : ConcreteHandshake) (packet : Octets) :
    ConcreteStep c packet concrete (concrete.handlePacket c packet) := by
  cases concrete with
  | clientPk data remoteKey serverVerified =>
      cases serverVerified with
      | true => exact .same (fun _ h => by cases h) (fun _ hsound _ => hsound rfl)
      | false =>
          by_cases hverify : ∃ key, verifyServer c data packet = .ok (some key)
          · obtain ⟨key, hverify⟩ := hverify
            rw [handlePacket_verified remoteKey hverify]
            refine ⟨rfl, rfl, rfl, rfl, fun _ _ => Option.some_ne_none _,
              fun _ => Option.some_ne_none _, ?_, ?_, fun _ _ _ => Option.some_ne_none _⟩
            · intro key' hkey
              obtain rfl := Option.some.inj hkey
              exact Or.inr (verifyServer_eq_some hverify)
            · intro _ h
              cases h
          · rw [handlePacket_unverified remoteKey (not_exists.mp hverify)]
            exact .failed
  | serverPk binding remoteKey =>
      unfold ConcreteHandshake.handlePacket
      simp only
      split
      next => exact .failed
      next =>
        split
        next => exact .failed
        next hoff =>
          exact .same (fun _ h => by cases h) (fun _ _ hon => absurd hon hoff)
      next creds hload =>
        split
        next hverify =>
          refine ⟨rfl, rfl, rfl, rfl, id, fun _ => Option.some_ne_none _, ?_, ?_,
            fun _ _ _ => Option.some_ne_none _⟩
          · intro key hkey
            obtain rfl := Option.some.inj hkey
            exact Or.inr ⟨creds, hload, rfl, verifyCredentials_eq_true hverify⟩
          · intro _ h
            cases h
        next => exact .failed
  | clientSs secretId binding =>
      exact .same (fun h _ => clientSs_succeeded h) (fun _ _ h => by cases h)
  | serverSs secretId binding =>
      exact .same (fun h _ => serverSs_succeeded h) (fun _ _ h => by cases h)

omit [Primitives] [MacPrimitive] in
theorem ofSaved_inProgress_ne (o : Except Serialisation.Error Octets) :
    (ofSaved .inProgress o).state ≠ .succeeded := by
  cases o with
  | ok packet => exact HandshakeOpState.noConfusion
  | error e => exact HandshakeOpState.noConfusion

omit [Primitives] [MacPrimitive] in
theorem orFailed_inProgress_ne (o : Except HandshakeError Octets) :
    (orFailed (o.map (⟨.inProgress, ·⟩))).state ≠ .succeeded := by
  cases o with
  | ok packet => exact HandshakeOpState.noConfusion
  | error e => exact HandshakeOpState.noConfusion

theorem ConcreteHandshake.start_ne_succeeded (concrete : ConcreteHandshake) :
    (concrete.start c).state ≠ .succeeded := by
  cases concrete with
  | clientPk data remoteKey serverVerified => exact HandshakeOpState.noConfusion
  | serverPk binding remoteKey =>
      unfold ConcreteHandshake.start
      simp only
      split
      · exact HandshakeOpState.noConfusion
      · exact ofSaved_inProgress_ne _
  | clientSs secretId binding =>
      exact orFailed_inProgress_ne _
  | serverSs secretId binding => exact HandshakeOpState.noConfusion

/-! ## The hellos -/

/-- The concrete handshake of `h` goes on with a message. -/
def Handshake.deliver (h : Handshake) (c : Context) (concrete : ConcreteHandshake)
    (msg : Octets) : HandshakeResult × Handshake :=
  let r := concrete.handlePacket c msg
  (r.1, { h with handshake := some r.2 })

/-- Everything that a `server_hello` can do. -/
theorem Handshake.handleServerHello_cases (c : Context) (exporter : Exporter) (h : Handshake)
    (packet : Octets) :
    (∃ serverId data, handleServerHello c exporter h packet =
      (failed, { h with serverId := serverId, requested := data })) ∨
    ∃ hello b concrete, ServerHello.load packet = .ok hello ∧
      Constructed c exporter { h with serverId := hello.serverId } b concrete ∧
      handleServerHello c exporter h packet =
        if hello.serverAuth ≠ [] then
          ({ h with serverId := hello.serverId }.withConcrete b concrete).deliver c concrete
            hello.serverAuth
        else
          (concrete.start c, { h with serverId := hello.serverId }.withConcrete b concrete) := by
  unfold handleServerHello
  cases hload : ServerHello.load packet with
  | error e => exact Or.inl ⟨h.serverId, h.requested, rfl⟩
  | ok hello =>
      simp only
      split
      · exact Or.inl ⟨h.serverId, h.requested, rfl⟩
      split
      · exact Or.inl ⟨h.serverId, h.requested, rfl⟩
      rcases makeConcrete_cases { h with serverId := hello.serverId } c exporter with
        ⟨e, data, hmake⟩ | ⟨b, concrete, hmade, hmake⟩
      · rw [hmake]
        exact Or.inl ⟨hello.serverId, data, rfl⟩
      · rw [hmake]
        exact Or.inr ⟨hello, b, concrete, rfl, hmade, rfl⟩

/-- Everything that a `client_hello` can do. -/
theorem Handshake.handleClientHello_cases (c : Context) (exporter : Exporter) (h : Handshake)
    (random packet : Octets) :
    (∃ clientId serverId data, handleClientHello c exporter h random packet =
      (failed, { h with clientId := clientId, serverId := serverId, requested := data })) ∨
    ∃ (hello : ClientHello) (b : HandshakeBinding) (concrete : ConcreteHandshake)
      (r : HandshakeResult),
      let h' : Handshake := { h with
        clientId := hello.clientId
        serverId := random
        requested := .ofTag hello.handshakeRequest }
      ClientHello.load packet = .ok hello ∧ Constructed c exporter h' b concrete ∧
        r.state ≠ .succeeded ∧
        handleClientHello c exporter h random packet = (r, h'.withConcrete b concrete) := by
  unfold handleClientHello
  cases hload : ClientHello.load packet with
  | error e => exact Or.inl ⟨h.clientId, h.serverId, h.requested, rfl⟩
  | ok hello =>
      simp only
      split
      · exact Or.inl ⟨h.clientId, h.serverId, h.requested, rfl⟩
      split
      · exact Or.inl ⟨h.clientId, h.serverId, h.requested, rfl⟩
      rcases makeConcrete_cases { h with
        clientId := hello.clientId
        serverId := random
        requested := .ofTag hello.handshakeRequest } c exporter with
        ⟨e, data, hmake⟩ | ⟨b, concrete, hmade, hmake⟩
      · rw [hmake]
        exact Or.inl ⟨hello.clientId, random, data, rfl⟩
      · rw [hmake]
        simp only
        split
        · exact Or.inr ⟨hello, b, concrete, failed, rfl, hmade, HandshakeOpState.noConfusion, rfl⟩
        · exact Or.inr ⟨hello, b, concrete, _, rfl, hmade, ofSaved_inProgress_ne _, rfl⟩

/-! ## Runs -/

/-- A message that the concrete handshake may get from a packet. -/
def PeerPacket.Presents (p : PeerPacket) (msg : Octets) : Prop :=
  p.packet = msg ∨ ∃ hello, ServerHello.load p.packet = .ok hello ∧ hello.serverAuth = msg

/-- Credentials for `key` that were presented and verified over the binding of the peer. -/
def KeyPresented (c : Context) (exporter : Exporter) (packets : List PeerPacket) (h : Handshake)
    (rest : Option KeyCertRestriction) (key : PublicKey) : Prop :=
  ∃ p ∈ packets, ∃ msg creds binding, p.Presents msg ∧ Auth.load msg = .ok ⟨some creds⟩ ∧
    creds.key = key ∧ bindingOf exporter h.role.other h.clientId h.serverId = some binding ∧
    CredentialsVerified c rest creds binding

/-- A mac that was presented and verified over the binding of the peer. -/
def MacPresented (c : Context) (exporter : Exporter) (packets : List PeerPacket)
    (h : Handshake) : Prop :=
  ∃ p ∈ packets, ∃ text msg binding, p.Presents text ∧ AuthSs.load text = .ok msg ∧
    bindingOf exporter h.role.other h.clientId h.serverId = some binding ∧
    MacVerified c msg binding

/-- What a concrete handshake in a handshake has to show for itself. -/
structure ConcreteInv (c : Context) (exporter : Exporter) (packets : List PeerPacket)
    (h : Handshake) (concrete : ConcreteHandshake) : Prop where
  remote : bindingOf exporter h.role.other h.clientId h.serverId = some concrete.binding.remote
  own : bindingOf exporter h.role h.clientId h.serverId = some concrete.binding.own
  sound : concrete.IsSound
  key : ∀ key, concrete.remotePublicKey = some key →
    KeyPresented c exporter packets h concrete.restriction key

/-- What a success has to show for itself. -/
structure SuccessInv (c : Context) (exporter : Exporter) (packets : List PeerPacket)
    (h : Handshake) (concrete : ConcreteHandshake) : Prop where
  authenticated : concrete.authenticates c = true → concrete.remotePublicKey ≠ none
  mac : concrete.isSecret = true → MacPresented c exporter packets h

structure RunInv (c : Context) (exporter : Exporter) (packets : List PeerPacket)
    (role : EndpointRole) (s : HandshakeRun) : Prop where
  role_eq : s.handshake.role = role
  waiting : s.handshake.clientHelloSent = true → s.handshake.handshake = none
  concrete : ∀ concrete, s.handshake.handshake = some concrete →
    ConcreteInv c exporter packets s.handshake concrete
  success : ∀ r ∈ s.results, r.state = .succeeded →
    ∃ concrete, s.handshake.handshake = some concrete ∧
      SuccessInv c exporter packets s.handshake concrete

variable {packets : List PeerPacket} {role : EndpointRole} {p : PeerPacket} {h : Handshake}

omit [MacPrimitive] in
theorem Constructed.inv {b : HandshakeBinding} (hmade : Constructed c exporter h b concrete) :
    ConcreteInv c exporter packets (h.withConcrete b concrete) concrete := by
  obtain ⟨hbinding, hkey, hsound⟩ := Context.constructHandshake_spec hmade.made
  refine ⟨?_, ?_, hsound, ?_⟩
  · rw [hbinding]
    exact hmade.remote
  · rw [hbinding]
    exact hmade.own
  · intro key h
    rw [hkey] at h
    cases h

theorem ConcreteInv.deliver {msg : Octets} (hinv : ConcreteInv c exporter packets h concrete)
    (hp : p ∈ packets) (hmsg : p.Presents msg) :
    ConcreteInv c exporter packets (h.deliver c concrete msg).2
      (concrete.handlePacket c msg).2 := by
  have hstep := concrete.handlePacket_spec (c := c) msg
  refine ⟨?_, ?_, hstep.sound hinv.sound, ?_⟩
  · rw [hstep.binding_eq]
    exact hinv.remote
  · rw [hstep.binding_eq]
    exact hinv.own
  · intro key hkey
    rw [hstep.restriction_eq]
    rcases hstep.key key hkey with hold | ⟨creds, hload, rfl, hverified⟩
    · exact hinv.key key hold
    · exact ⟨p, hp, msg, creds, _, hmsg, hload, rfl, hinv.remote, hverified⟩

theorem ConcreteInv.success {msg : Octets} (hinv : ConcreteInv c exporter packets h concrete)
    (hp : p ∈ packets) (hmsg : p.Presents msg)
    (hsucceeded : (concrete.handlePacket c msg).1.state = .succeeded) :
    SuccessInv c exporter packets (h.deliver c concrete msg).2
      (concrete.handlePacket c msg).2 := by
  have hstep := concrete.handlePacket_spec (c := c) msg
  refine ⟨?_, ?_⟩
  · intro hauth
    exact hstep.authenticated hsucceeded hinv.sound (hstep.authenticates_eq ▸ hauth)
  · intro hsecret
    obtain ⟨m, hload, hverified⟩ := hstep.mac hsucceeded (hstep.isSecret_eq ▸ hsecret)
    exact ⟨p, hp, msg, m, _, hmsg, hload, hinv.remote, hverified⟩

/-- A success stays one when the concrete handshake goes on. -/
theorem SuccessInv.deliver {msg : Octets} (hinv : SuccessInv c exporter packets h concrete) :
    SuccessInv c exporter packets (h.deliver c concrete msg).2
      (concrete.handlePacket c msg).2 := by
  have hstep := concrete.handlePacket_spec (c := c) msg
  refine ⟨?_, ?_⟩
  · intro hauth
    exact hstep.keeps (hinv.authenticated (hstep.authenticates_eq ▸ hauth))
  · intro hsecret
    exact hinv.mac (hstep.isSecret_eq ▸ hsecret)

variable {s s' : HandshakeRun} {r : HandshakeResult}

/-- Without a concrete handshake nothing has succeeded; what the next result shows is enough. -/
theorem RunInv.ofNone (hinv : RunInv c exporter packets role s)
    (hnone : s.handshake.handshake = none) (hrole : h.role = role)
    (hwaiting : h.clientHelloSent = false)
    (hconcrete : ∀ concrete, h.handshake = some concrete →
      ConcreteInv c exporter packets h concrete)
    (hsuccess : r.state = .succeeded → ∃ concrete, h.handshake = some concrete ∧
      SuccessInv c exporter packets h concrete) :
    RunInv c exporter packets role ⟨h, s.results ++ [r]⟩ := by
  refine ⟨hrole, ?_, hconcrete, ?_⟩
  · intro hsent
    exact absurd (hwaiting.symm.trans hsent) Bool.noConfusion
  · intro r' hr' hsucceeded
    rcases List.mem_append.mp hr' with hold | hnew
    · obtain ⟨concrete, hsome, -⟩ := hinv.success r' hold hsucceeded
      exact absurd (hnone.symm.trans hsome) (Option.some_ne_none _).symm
    · obtain rfl := List.mem_singleton.mp hnew
      exact hsuccess hsucceeded

/-- A packet is refused before there is a concrete handshake. -/
theorem RunInv.refused (hinv : RunInv c exporter packets role s)
    (hnone : s.handshake.handshake = none) (hrole : h.role = role)
    (hwaiting : h.clientHelloSent = false) (hstill : h.handshake = none) :
    RunInv c exporter packets role ⟨h, s.results ++ [failed]⟩ := by
  refine hinv.ofNone hnone hrole hwaiting ?_ (fun hsucceeded => by cases hsucceeded)
  intro concrete hsome
  exact absurd (hstill.symm.trans hsome) (Option.some_ne_none _).symm

/-- A concrete handshake is made and has not succeeded. -/
theorem RunInv.made {b : HandshakeBinding} (hinv : RunInv c exporter packets role s)
    (hnone : s.handshake.handshake = none) (hmade : Constructed c exporter h b concrete)
    (hrole : h.role = role) (hwaiting : h.clientHelloSent = false)
    (hsucceeded : r.state ≠ .succeeded) :
    RunInv c exporter packets role ⟨h.withConcrete b concrete, s.results ++ [r]⟩ := by
  refine hinv.ofNone hnone hrole hwaiting ?_ (fun h => absurd h hsucceeded)
  intro concrete' hsome
  obtain rfl := Option.some.inj hsome
  exact hmade.inv

/-- A message is delivered to a concrete handshake that was just made. -/
theorem RunInv.madeDelivered {b : HandshakeBinding} {msg : Octets}
    (hinv : RunInv c exporter packets role s) (hnone : s.handshake.handshake = none)
    (hmade : Constructed c exporter h b concrete) (hrole : h.role = role)
    (hwaiting : h.clientHelloSent = false) (hp : p ∈ packets) (hmsg : p.Presents msg) :
    RunInv c exporter packets role
      ⟨((h.withConcrete b concrete).deliver c concrete msg).2,
        s.results ++ [((h.withConcrete b concrete).deliver c concrete msg).1]⟩ := by
  refine hinv.ofNone hnone hrole hwaiting ?_ ?_
  · intro concrete' hsome
    obtain rfl := Option.some.inj hsome
    exact hmade.inv.deliver hp hmsg
  · intro hsucceeded
    exact ⟨_, rfl, hmade.inv.success hp hmsg hsucceeded⟩

/-- A packet is delivered to the concrete handshake. -/
theorem RunInv.delivered (hinv : RunInv c exporter packets role s) (hp : p ∈ packets)
    (hsome : s.handshake.handshake = some concrete) :
    RunInv c exporter packets role
      ⟨(s.handshake.deliver c concrete p.packet).2,
        s.results ++ [(s.handshake.deliver c concrete p.packet).1]⟩ := by
  have hconcrete := hinv.concrete concrete hsome
  refine ⟨hinv.role_eq, ?_, ?_, ?_⟩
  · intro hsent
    exact absurd ((hinv.waiting hsent).symm.trans hsome) (Option.some_ne_none _).symm
  · intro concrete' hsome'
    obtain rfl := Option.some.inj hsome'
    exact hconcrete.deliver hp (Or.inl rfl)
  · intro r' hr' hsucceeded
    refine ⟨_, rfl, ?_⟩
    rcases List.mem_append.mp hr' with hold | hnew
    · obtain ⟨concrete', hsome', hsuccess⟩ := hinv.success r' hold hsucceeded
      obtain rfl := Option.some.inj (hsome.symm.trans hsome')
      exact hsuccess.deliver
    · obtain rfl := List.mem_singleton.mp hnew
      exact hconcrete.success hp (Or.inl rfl) hsucceeded

theorem Handshake.handlePacket_of_some {random packet : Octets} (hsent : h.clientHelloSent = false)
    (hsome : h.handshake = some concrete) :
    h.handlePacket c exporter random packet = h.deliver c concrete packet := by
  obtain ⟨role, requested, clientId, serverId, sent, handshake⟩ := h
  cases hsent
  cases hsome
  rfl

theorem HandshakeRun.step_eq_some :
    HandshakeRun.step c exporter p s = some s' ↔ s.isLive ∧
      s' = ⟨(s.handshake.handlePacket c exporter p.random p.packet).2,
        s.results ++ [(s.handshake.handlePacket c exporter p.random p.packet).1]⟩ := by
  unfold HandshakeRun.step
  split
  next hlive =>
    constructor
    · intro h
      exact ⟨hlive, (Option.some.inj h).symm⟩
    · rintro ⟨-, rfl⟩
      rfl
  next hdead =>
    constructor
    · intro h
      cases h
    · rintro ⟨hlive, -⟩
      exact absurd hlive hdead

/-- A run goes on with what a packet leaves. -/
theorem HandshakeRun.run_cons (c : Context) (exporter : Exporter) (p : PeerPacket)
    (packets : List PeerPacket) {results : List HandshakeResult}
    (hlive : (HandshakeRun.mk h results).isLive) :
    Machine.run (HandshakeRun.step c exporter) (p :: packets) ⟨h, results⟩ =
      Machine.run (HandshakeRun.step c exporter) packets
        ⟨(h.handlePacket c exporter p.random p.packet).2,
          results ++ [(h.handlePacket c exporter p.random p.packet).1]⟩ := by
  have hstep : HandshakeRun.step c exporter p ⟨h, results⟩ = some
      ⟨(h.handlePacket c exporter p.random p.packet).2,
        results ++ [(h.handlePacket c exporter p.random p.packet).1]⟩ :=
    HandshakeRun.step_eq_some.mpr ⟨hlive, rfl⟩
  rw [Machine.run, hstep, Option.bind_some]

theorem RunInv.step (hinv : RunInv c exporter packets role s) (hp : p ∈ packets)
    (hstep : HandshakeRun.step c exporter p s = some s') :
    RunInv c exporter packets role s' := by
  obtain ⟨-, rfl⟩ := HandshakeRun.step_eq_some.mp hstep
  cases hsome : s.handshake.handshake with
  | some concrete =>
      have hsent : s.handshake.clientHelloSent = false := by
        cases hsent : s.handshake.clientHelloSent with
        | false => rfl
        | true => exact absurd ((hinv.waiting hsent).symm.trans hsome) (Option.some_ne_none _).symm
      rw [Handshake.handlePacket_of_some hsent hsome]
      exact hinv.delivered hp hsome
  | none =>
      unfold Handshake.handlePacket
      split
      next =>
        -- the answer to the hello of the client
        rcases Handshake.handleServerHello_cases c exporter
          { s.handshake with clientHelloSent := false } p.packet with
          ⟨serverId, data, heq⟩ | ⟨hello, b, concrete, hload, hmade, heq⟩
        · rw [heq]
          exact hinv.refused hsome hinv.role_eq rfl hsome
        · rw [heq]
          split
          next => exact hinv.madeDelivered hsome hmade hinv.role_eq rfl hp (Or.inr ⟨hello, hload, rfl⟩)
          next => exact hinv.made hsome hmade hinv.role_eq rfl concrete.start_ne_succeeded
      next hsent =>
        rw [hsome]
        simp only
        rcases Handshake.handleClientHello_cases c exporter s.handshake
          p.random p.packet with
          ⟨clientId, serverId, data, heq⟩ | ⟨hello, b, concrete, r, -, hmade, hr, heq⟩
        · rw [heq]
          exact hinv.refused hsome hinv.role_eq (Bool.eq_false_iff.mpr hsent) hsome
        · rw [heq]
          exact hinv.made hsome hmade hinv.role_eq (Bool.eq_false_iff.mpr hsent) hr

/-- A handshake that waits for its first packet. -/
inductive HandshakeRun.IsStart (c : Context) : EndpointRole → HandshakeRun → Prop
  | client {random : Octets} {data : HandshakeData} {hello : HandshakeResult} {h : Handshake}
      (hstart : (Handshake.init .client).start c random data = .ok (hello, h)) :
      IsStart c .client ⟨h, [hello]⟩
  | server : IsStart c .server ⟨.init .server, []⟩

omit [MacPrimitive] in
theorem Handshake.start_eq_ok {random : Octets} {data : HandshakeData} {hello : HandshakeResult}
    {h : Handshake} (hstart : (Handshake.init role).start c random data = .ok (hello, h)) :
    hello.state = .inProgress ∧ h = { Handshake.init role with
      requested := data, clientHelloSent := true, clientId := random } := by
  unfold Handshake.start at hstart
  simp only at hstart
  cases hsave : (ClientHello.mk currentVersion c.suite data.tag random).save with
  | error e =>
      rw [hsave] at hstart
      cases hstart
  | ok packet =>
      rw [hsave] at hstart
      obtain ⟨rfl, rfl⟩ := Prod.mk.inj (Except.ok.inj hstart)
      exact ⟨rfl, rfl⟩

theorem RunInv.init (hstart : HandshakeRun.IsStart c role s) :
    RunInv c exporter packets role s := by
  cases hstart with
  | server =>
      refine ⟨rfl, fun _ => rfl, ?_, ?_⟩
      · intro concrete h
        cases h
      · intro r hr
        cases hr
  | client hstart =>
      obtain ⟨hhello, rfl⟩ := Handshake.start_eq_ok hstart
      refine ⟨rfl, fun _ => rfl, ?_, ?_⟩
      · intro concrete h
        cases h
      · intro r hr hsucceeded
        obtain rfl := List.mem_singleton.mp hr
        rw [hhello] at hsucceeded
        cases hsucceeded

/-- The invariant holds behind every run. -/
theorem RunInv.of_run (hstart : HandshakeRun.IsStart c role s)
    (hrun : Machine.run (HandshakeRun.step c exporter) packets s = some s') :
    RunInv c exporter packets role s' :=
  Machine.invariant_of_forall (fun _ _ _ (hp : _ ∈ packets) hinv hstep => hinv.step hp hstep)
    (fun _ hp => hp) (.init hstart) hrun

end Securepath.Network
