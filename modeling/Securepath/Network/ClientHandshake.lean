import Securepath.Network.HandshakeSafety

/-!
# The client of the handshake with public keys

The client verifies the server before it says anything about itself: until then whatever it
sends is the same for any private data.
-/

namespace Securepath.Network

open Serialisation Crypto HandshakeResult

section Client

variable [Primitives] {c : Context} {exporter : Exporter} {packet : Octets}
  {concrete : ConcreteHandshake} {rest : Option KeyCertRestriction}

/-- The client of the variant with public keys, with the restriction of its host. -/
def ConcreteHandshake.IsClientPk (rest : Option KeyCertRestriction) : ConcreteHandshake → Prop
  | clientPk data _ _ => data.restriction = rest
  | _ => False

theorem ConcreteHandshake.IsClientPk.restriction_eq (h : concrete.IsClientPk rest) :
    concrete.restriction = rest := by
  cases concrete with
  | clientPk data remoteKey serverVerified => exact h
  | _ => exact h.elim

theorem ConcreteHandshake.IsClientPk.authenticates (h : concrete.IsClientPk rest) :
    concrete.authenticates c = true := by
  cases concrete with
  | clientPk data remoteKey serverVerified => rfl
  | _ => exact h.elim

/-- What is registered for the tag makes a client. -/
theorem Constructed.isClientPk {h : Handshake} {b : HandshakeBinding}
    (hpk : c.handshakes publicKeyTag = some .clientPk ∨ c.handshakes publicKeyTag = some .pk)
    (htag : h.requested.tag = publicKeyTag) (hrole : h.role = .client)
    (hmade : Constructed c exporter h b concrete) :
    concrete.IsClientPk h.requested.restriction := by
  have hmade := hmade.made
  unfold Context.constructHandshake at hmade
  simp only [htag, hrole] at hmade
  rcases hpk with hpk | hpk
  · rw [hpk] at hmade
    obtain rfl := Except.ok.inj hmade
    rfl
  · rw [hpk] at hmade
    obtain rfl := Except.ok.inj hmade
    rfl

/-- The same context with other private data. -/
def Context.withPrivateData (c : Context) (d : PrivateData) : Context :=
  { c with privateData := d }

variable [MacPrimitive]

theorem ConcreteHandshake.IsClientPk.handlePacket (h : concrete.IsClientPk rest)
    (packet : Octets) : (concrete.handlePacket c packet).2.IsClientPk rest := by
  cases concrete with
  | clientPk data remoteKey serverVerified =>
      cases serverVerified with
      | true => exact h
      | false =>
          by_cases hverify : ∃ key, verifyServer c data packet = .ok (some key)
          · obtain ⟨key, hverify⟩ := hverify
            rw [handlePacket_verified remoteKey hverify]
            exact h
          · rw [handlePacket_unverified remoteKey (not_exists.mp hverify)]
            exact h
  | _ => exact h.elim

/-- As long as the server is not verified, the private data have no part in it. -/
theorem ConcreteHandshake.IsClientPk.handlePacket_withPrivateData (h : concrete.IsClientPk rest)
    (hnone : (concrete.handlePacket c packet).2.remotePublicKey = none) (d : PrivateData) :
    concrete.handlePacket (c.withPrivateData d) packet = concrete.handlePacket c packet := by
  cases concrete with
  | clientPk data remoteKey serverVerified =>
      cases serverVerified with
      | true => rfl
      | false =>
          by_cases hverify : ∃ key, verifyServer c data packet = .ok (some key)
          · obtain ⟨key, hverify⟩ := hverify
            rw [handlePacket_verified remoteKey hverify] at hnone
            cases hnone
          · have hverify := not_exists.mp hverify
            rw [handlePacket_unverified remoteKey hverify]
            exact handlePacket_unverified remoteKey hverify
  | _ => exact h.elim

theorem ConcreteHandshake.IsClientPk.start_withPrivateData (h : concrete.IsClientPk rest)
    (d : PrivateData) : concrete.start (c.withPrivateData d) = concrete.start c := by
  cases concrete with
  | clientPk data remoteKey serverVerified => rfl
  | _ => exact h.elim

theorem Handshake.handleServerHello_withPrivateData {h : Handshake}
    (hpk : ∀ serverId b concrete, Constructed c exporter { h with serverId := serverId } b concrete →
      concrete.IsClientPk rest)
    (hnone : (handleServerHello c exporter h packet).2.remotePublicKey = none) (d : PrivateData) :
    handleServerHello (c.withPrivateData d) exporter h packet =
      handleServerHello c exporter h packet := by
  unfold handleServerHello at hnone ⊢
  cases hload : ServerHello.load packet with
  | error e => rfl
  | ok hello =>
      simp only [hload] at hnone ⊢
      by_cases hversion : hello.version ≠ currentVersion
      · rw [if_pos hversion, if_pos hversion]
      rw [if_neg hversion] at hnone
      rw [if_neg hversion, if_neg hversion]
      by_cases hmatch : hello.handshakeResponse ≠ h.requested.tag ∨ hello.suite ≠ c.suite
      · exact (if_pos hmatch).trans (if_pos hmatch).symm
      rw [if_neg hmatch] at hnone
      refine (if_neg hmatch).trans (Eq.trans ?_ (if_neg hmatch).symm)
      -- what is made goes by the table of the context, not by its private data
      have hsame : makeConcrete { h with serverId := hello.serverId } (c.withPrivateData d)
          exporter = makeConcrete { h with serverId := hello.serverId } c exporter := rfl
      rw [hsame]
      rcases makeConcrete_cases { h with serverId := hello.serverId } c exporter with
        ⟨e, data, hmake⟩ | ⟨b, concrete, hmade, hmake⟩
      · rw [hmake]
      · have hclient := hpk _ _ _ hmade
        rw [hmake] at hnone ⊢
        simp only at hnone ⊢
        split
        next hauth =>
          rw [if_pos hauth] at hnone
          rw [hclient.handlePacket_withPrivateData hnone]
        next => rw [hclient.start_withPrivateData]

/-! ## Runs of the client -/

/-- A run of a client that asked for the variant with public keys. -/
structure ClientInv (data : HandshakeData) (random : Octets) (s : HandshakeRun) : Prop where
  role_eq : s.handshake.role = .client
  clientId_eq : s.handshake.clientId = random
  concrete : ∀ concrete, s.handshake.handshake = some concrete →
    s.handshake.clientHelloSent = false ∧ concrete.IsClientPk data.restriction
  waiting : s.isLive → s.handshake.handshake = none →
    s.handshake.clientHelloSent = true ∧ s.handshake.requested = data

variable {data : HandshakeData} {random : Octets} {s s' : HandshakeRun} {p : PeerPacket}

omit [MacPrimitive] in
theorem HandshakeRun.not_isLive_append {h : Handshake} {results : List HandshakeResult} :
    ¬ (HandshakeRun.mk h (results ++ [failed])).isLive := by
  intro hlive
  exact hlive failed (List.mem_append_right _ (List.mem_singleton.mpr rfl)) rfl

omit [MacPrimitive] in
theorem ClientInv.constructed
    (hpk : c.handshakes publicKeyTag = some .clientPk ∨ c.handshakes publicKeyTag = some .pk)
    (htag : data.tag = publicKeyTag) (hinv : ClientInv data random s)
    (hrequested : s.handshake.requested = data) {serverId : Octets} {b : HandshakeBinding}
    (hmade : Constructed c exporter
      { s.handshake with clientHelloSent := false, serverId := serverId } b concrete) :
    concrete.IsClientPk data.restriction := by
  have htag' : s.handshake.requested.tag = publicKeyTag := hrequested ▸ htag
  have hclient := Constructed.isClientPk (h := { s.handshake with
    clientHelloSent := false, serverId := serverId }) hpk htag' hinv.role_eq hmade
  rw [← hrequested]
  exact hclient

/-- Every step of a run: the invariant, and what the private data have to do with it. -/
theorem ClientInv.step
    (hpk : c.handshakes publicKeyTag = some .clientPk ∨ c.handshakes publicKeyTag = some .pk)
    (htag : data.tag = publicKeyTag) (hinv : ClientInv data random s)
    (hstep : HandshakeRun.step c exporter p s = some s') :
    ClientInv data random s' := by
  obtain ⟨hlive, rfl⟩ := HandshakeRun.step_eq_some.mp hstep
  cases hsome : s.handshake.handshake with
  | some concrete =>
      obtain ⟨hsent, hclient⟩ := hinv.concrete concrete hsome
      rw [Handshake.handlePacket_of_some hsent hsome]
      refine ⟨hinv.role_eq, hinv.clientId_eq, ?_, ?_⟩
      · intro concrete' hsome'
        obtain rfl := Option.some.inj hsome'
        exact ⟨hsent, hclient.handlePacket _⟩
      · intro _ hnone
        cases hnone
  | none =>
      obtain ⟨hsent, hrequested⟩ := hinv.waiting hlive hsome
      unfold Handshake.handlePacket
      rw [if_pos hsent]
      rcases Handshake.handleServerHello_cases c exporter
        { s.handshake with clientHelloSent := false } p.packet with
        ⟨serverId, data', heq⟩ | ⟨hello, b, concrete, -, hmade, heq⟩
      · rw [heq]
        refine ⟨hinv.role_eq, hinv.clientId_eq, ?_, fun h => absurd h HandshakeRun.not_isLive_append⟩
        intro concrete hsome'
        exact absurd (hsome.symm.trans hsome') (Option.some_ne_none _).symm
      · have hclient := hinv.constructed hpk htag hrequested hmade
        rw [heq]
        split
        next =>
          refine ⟨hinv.role_eq, hinv.clientId_eq, ?_, ?_⟩
          · intro concrete' hsome'
            obtain rfl := Option.some.inj hsome'
            exact ⟨rfl, hclient.handlePacket _⟩
          · intro _ hnone
            cases hnone
        next =>
          refine ⟨hinv.role_eq, hinv.clientId_eq, ?_, ?_⟩
          · intro concrete' hsome'
            obtain rfl := Option.some.inj hsome'
            exact ⟨rfl, hclient⟩
          · intro _ hnone
            cases hnone

/-- A step that leaves the server unverified is the same for any private data. -/
theorem ClientInv.step_withPrivateData
    (hpk : c.handshakes publicKeyTag = some .clientPk ∨ c.handshakes publicKeyTag = some .pk)
    (htag : data.tag = publicKeyTag) (hinv : ClientInv data random s)
    (hstep : HandshakeRun.step c exporter p s = some s')
    (hnone : s'.handshake.remotePublicKey = none) (d : PrivateData) :
    HandshakeRun.step (c.withPrivateData d) exporter p s = some s' := by
  obtain ⟨hlive, rfl⟩ := HandshakeRun.step_eq_some.mp hstep
  suffices hsame : s.handshake.handlePacket (c.withPrivateData d) exporter p.random p.packet =
      s.handshake.handlePacket c exporter p.random p.packet by
    exact HandshakeRun.step_eq_some.mpr ⟨hlive, by rw [hsame]⟩
  cases hsome : s.handshake.handshake with
  | some concrete =>
      obtain ⟨hsent, hclient⟩ := hinv.concrete concrete hsome
      rw [Handshake.handlePacket_of_some hsent hsome] at hnone
      rw [Handshake.handlePacket_of_some hsent hsome, Handshake.handlePacket_of_some hsent hsome]
      unfold Handshake.deliver
      rw [hclient.handlePacket_withPrivateData hnone]
  | none =>
      obtain ⟨hsent, hrequested⟩ := hinv.waiting hlive hsome
      unfold Handshake.handlePacket at hnone ⊢
      simp only [if_pos hsent] at hnone ⊢
      exact Handshake.handleServerHello_withPrivateData
        (fun _ _ _ hmade => hinv.constructed hpk htag hrequested hmade) hnone d

/-- The key of the server is kept. -/
theorem ClientInv.keeps (hinv : ClientInv data random s)
    (hstep : HandshakeRun.step c exporter p s = some s')
    (hkey : s.handshake.remotePublicKey ≠ none) : s'.handshake.remotePublicKey ≠ none := by
  obtain ⟨-, rfl⟩ := HandshakeRun.step_eq_some.mp hstep
  cases hsome : s.handshake.handshake with
  | some concrete =>
      obtain ⟨hsent, -⟩ := hinv.concrete concrete hsome
      rw [Handshake.handlePacket_of_some hsent hsome]
      unfold Handshake.remotePublicKey at hkey
      rw [hsome] at hkey
      exact (concrete.handlePacket_spec p.packet).keeps hkey
  | none =>
      unfold Handshake.remotePublicKey at hkey
      rw [hsome] at hkey
      exact absurd rfl hkey

omit [MacPrimitive] in
theorem ClientInv.init {hello : HandshakeResult} {h : Handshake}
    (hstart : (Handshake.init .client).start c random data = .ok (hello, h)) :
    ClientInv data random ⟨h, [hello]⟩ := by
  obtain ⟨-, rfl⟩ := Handshake.start_eq_ok hstart
  refine ⟨rfl, rfl, ?_, fun _ _ => ⟨rfl, rfl⟩⟩
  intro concrete hsome
  cases hsome

variable {packets : List PeerPacket}

theorem ClientInv.of_run
    (hpk : c.handshakes publicKeyTag = some .clientPk ∨ c.handshakes publicKeyTag = some .pk)
    (htag : data.tag = publicKeyTag) (hinv : ClientInv data random s)
    (hrun : Machine.run (HandshakeRun.step c exporter) packets s = some s') :
    ClientInv data random s' :=
  Machine.invariant_of_forall (fun _ _ _ (_ : True) hinv hstep => hinv.step hpk htag hstep)
    (fun _ _ => trivial) hinv hrun

theorem ClientInv.run_keeps
    (hpk : c.handshakes publicKeyTag = some .clientPk ∨ c.handshakes publicKeyTag = some .pk)
    (htag : data.tag = publicKeyTag) (hinv : ClientInv data random s)
    (hkey : s.handshake.remotePublicKey ≠ none)
    (hrun : Machine.run (HandshakeRun.step c exporter) packets s = some s') :
    s'.handshake.remotePublicKey ≠ none := by
  induction packets generalizing s with
  | nil =>
      obtain rfl := Option.some.inj hrun
      exact hkey
  | cons p packets ih =>
      obtain ⟨t, hstep, hrun'⟩ := Machine.run_cons_eq_some.mp hrun
      exact ih (hinv.step hpk htag hstep) (hinv.keeps hstep hkey) hrun'

/-- A run that leaves the server unverified is the same for any private data. -/
theorem ClientInv.run_withPrivateData
    (hpk : c.handshakes publicKeyTag = some .clientPk ∨ c.handshakes publicKeyTag = some .pk)
    (htag : data.tag = publicKeyTag) (d : PrivateData) (hinv : ClientInv data random s)
    (hrun : Machine.run (HandshakeRun.step c exporter) packets s = some s')
    (hnone : s'.handshake.remotePublicKey = none) :
    Machine.run (HandshakeRun.step (c.withPrivateData d) exporter) packets s = some s' := by
  induction packets generalizing s with
  | nil =>
      obtain rfl := Option.some.inj hrun
      rfl
  | cons p packets ih =>
      obtain ⟨t, hstep, hrun'⟩ := Machine.run_cons_eq_some.mp hrun
      have hinv' := hinv.step hpk htag hstep
      -- the key would still be there at the end
      have hunverified : t.handshake.remotePublicKey = none := by
        by_contra hkey
        exact hinv'.run_keeps hpk htag hkey hrun' hnone
      exact Machine.run_cons_eq_some.mpr
        ⟨t, hinv.step_withPrivateData hpk htag hstep hunverified d, ih hinv' hrun'⟩

/-- A client succeeds, or has a key of the server, only once it was given credentials for that
key: a chain that is authentic for the host, whose subject is the key, and a signature over what
the channel of the client exports for the server and the two ids. What it has sent until then is
the same for any private data. -/
theorem client_handshake_safe (c : Context) (exporter : Exporter) {random : Octets}
    {data : HandshakeData} {hello : HandshakeResult} {h : Handshake} {packets : List PeerPacket}
    {s : HandshakeRun} (htag : data.tag = publicKeyTag)
    (hpk : c.handshakes publicKeyTag = some .clientPk ∨ c.handshakes publicKeyTag = some .pk)
    (hstart : (Handshake.init .client).start c random data = .ok (hello, h))
    (hrun : Machine.run (HandshakeRun.step c exporter) packets ⟨h, [hello]⟩ = some s) :
    ((∃ r ∈ s.results, r.state = .succeeded) → s.handshake.remotePublicKey ≠ none) ∧
    (∀ key, s.handshake.remotePublicKey = some key →
      ∃ p ∈ packets, ∃ msg creds binding, p.Presents msg ∧ Auth.load msg = .ok ⟨some creds⟩ ∧
        creds.key = key ∧
        bindingOf exporter .server random s.handshake.serverId = some binding ∧
        CredentialsVerified c data.restriction creds binding) ∧
    (s.handshake.remotePublicKey = none → ∀ d : PrivateData,
      (Handshake.init .client).start { c with privateData := d } random data = .ok (hello, h) ∧
        Machine.run (HandshakeRun.step { c with privateData := d } exporter) packets
          ⟨h, [hello]⟩ = some s) := by
  have hrunInv : RunInv c exporter packets .client s := .of_run (.client hstart) hrun
  have hinv := ClientInv.of_run hpk htag (.init hstart) hrun
  refine ⟨?_, ?_, ?_⟩
  · rintro ⟨r, hr, hsucceeded⟩
    obtain ⟨concrete, hsome, hsuccess⟩ := hrunInv.success r hr hsucceeded
    have hkey := hsuccess.authenticated (hinv.concrete concrete hsome).2.authenticates
    unfold Handshake.remotePublicKey
    rw [hsome]
    exact hkey
  · intro key hkey
    obtain ⟨concrete, hsome, hkey⟩ := Option.bind_eq_some_iff.mp hkey
    obtain ⟨p, hp, msg, creds, binding, hmsg, hload, heq, hbinding, hverified⟩ :=
      (hrunInv.concrete concrete hsome).key key hkey
    rw [hinv.role_eq, hinv.clientId_eq] at hbinding
    rw [(hinv.concrete concrete hsome).2.restriction_eq] at hverified
    exact ⟨p, hp, msg, creds, binding, hmsg, hload, heq, hbinding, hverified⟩
  · intro hnone d
    exact ⟨hstart, ClientInv.run_withPrivateData hpk htag d (.init hstart) hrun hnone⟩

end Client

/-! ## A server without credentials -/

namespace Anonymous

/-- Primitives that accept what they are shown. -/
@[reducible] def primitives : Primitives where
  sha3_256 _ := ⟨List.replicate 32 7, sevens_length⟩
  verifyMessage _ _ _ _ := true

/-- A mac that hides nothing. -/
@[reducible] def mac : MacPrimitive := ⟨fun secret message => some (secret ++ message)⟩

attribute [local instance] primitives mac

/-- An exporter that hands back what it is given. -/
def exporter : Exporter := fun label context _ => some (label ++ context)

def context : Context where
  suite := .pq1
  publicKeys := .ofRoot (fun _ => none) none
  certificates := ⟨fun _ => none⟩
  sharedSecrets _ := none
  privateData := ⟨none, none⟩
  handshakes tag := if tag = publicKeyTag then some .clientPk else none
  authenticateRemote := true
  sharedSecretId := []

def clientId : Octets := List.replicate 16 3

/-- A `server_hello` that carries an `auth` without credentials. -/
def serverHello : Octets :=
  [0x30, 0x1f, 0x02, 0x01, 0x02, 0x02, 0x01, 0x01, 0x02, 0x01, 0x02, 0x04, 0x10] ++
    List.replicate 16 4 ++ [0x04, 0x02, 0x30, 0x00]

def hello : HandshakeResult :=
  ⟨.inProgress, [0x30, 0x1b, 0x02, 0x01, 0x02, 0x02, 0x01, 0x01, 0x02, 0x01, 0x02, 0x04, 0x10] ++
    clientId⟩

def started : Handshake :=
  { Handshake.init .client with
    requested := .ofTag publicKeyTag
    clientHelloSent := true
    clientId := clientId }

theorem start_eq : (Handshake.init .client).start context clientId (.ofTag publicKeyTag) =
    .ok (hello, started) := by
  have hsave : (ClientHello.mk currentVersion Suite.pq1 publicKeyTag clientId).save =
      .ok hello.packet := by decide +kernel
  unfold Handshake.start
  simp only [HandshakeData.ofTag, context]
  rw [hsave]
  rfl

def answer : PeerPacket := ⟨[], serverHello⟩

theorem isLive_started : (HandshakeRun.mk started [hello]).isLive := by
  intro r hr
  obtain rfl := List.mem_singleton.mp hr
  exact HandshakeOpState.noConfusion

/-- The client learns no key of such a server. -/
theorem client_refuses_anonymous :
    ∃ s, Machine.run (HandshakeRun.step context exporter) [answer] ⟨started, [hello]⟩ = some s ∧
      ((∃ r ∈ s.results, r.state = .succeeded) → s.handshake.remotePublicKey ≠ none) := by
  have hrun := HandshakeRun.run_cons context exporter answer [] isLive_started
  generalize started.handlePacket context exporter answer.random answer.packet = r at hrun
  have hpk : context.handshakes publicKeyTag = some .clientPk := by
    show (if publicKeyTag = publicKeyTag then some HandshakeConstructor.clientPk else none) = _
    exact if_pos rfl
  have htag : (HandshakeData.ofTag publicKeyTag).tag = publicKeyTag := rfl
  exact ⟨_, hrun,
    (client_handshake_safe context exporter htag (Or.inl hpk) start_eq hrun).1⟩

end Anonymous

end Securepath.Network
