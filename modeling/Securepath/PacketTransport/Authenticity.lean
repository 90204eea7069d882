import Securepath.PacketTransport.TransportSafety

/-!
# Every packet is its sender's

A packet that a client inserts into `in_packets` was given to `send_packet` by the
client whose signature it has, for this receiver, or the server had it in its
table from the start (`received_authentic`). This holds in every state, late acks
and keys that are given out twice included.
-/

namespace Securepath.PacketTransport

namespace Transport

variable {K P : Type} [DecidableEq K] {issuer : P → K}

/-- The issuer of the packet sent it to the receiver, or it was in the first table. -/
def Genuine (issuer : P → K) (table : List (Row K P)) (t : Transport K P) (receiver : K)
    (packet : P) : Prop :=
  (∃ p ∈ (t.clients (issuer packet)).sent, p.receiver = receiver ∧ p.packet = packet) ∨
    ∃ row ∈ table, row.receiver = receiver ∧ row.packet = packet

/-- Whatever is on its way has been sent. -/
structure Authentic (issuer : P → K) (table : List (Row K P)) (t : Transport K P) : Prop where
  outPackets : ∀ k, ∀ p ∈ (t.clients k).outPackets, p ∈ (t.clients k).sent
  underWay : ∀ k, ∀ p ∈ (t.clients k).underWay, p ∈ (t.clients k).sent
  transport : ∀ c k p, t.server.remoteKey c = some k → .transportPacket p ∈ t.toServer c →
    p ∈ (t.clients k).sent
  known : ∀ row, t.server.store.ledger.Known row → Genuine issuer table t row.receiver row.packet
  offered : ∀ k c n packet, (t.clients k).connection = some c →
    .transportPacket n packet ∈ t.toClient c → Genuine issuer table t k packet
  received : ∀ k packet, (t.clients k).Received packet → Genuine issuer table t k packet

variable {t t' : Transport K P} {k : K} {table : List (Row K P)}

omit [DecidableEq K] in
theorem genuine_mono {receiver : K} {packet : P}
    (hsent : ∀ k, ∀ p ∈ (t.clients k).sent, p ∈ (t'.clients k).sent)
    (h : Genuine issuer table t receiver packet) : Genuine issuer table t' receiver packet := by
  rcases h with ⟨p, hp, hpacket⟩ | hrow
  · exact Or.inl ⟨p, hsent _ p hp, hpacket⟩
  · exact Or.inr hrow

omit [DecidableEq K] in
theorem init_authentic (table : List (Row K P)) :
    Authentic issuer table (init table : Transport K P) where
  outPackets := fun k p hp => absurd hp List.not_mem_nil
  underWay := fun k p hp => absurd hp List.not_mem_nil
  transport := fun c k p _ hm => absurd hm List.not_mem_nil
  known := by
    rintro row (hrow | ⟨q, hq, _⟩)
    · exact Or.inr ⟨row, hrow, rfl, rfl⟩
    · exact absurd hq List.not_mem_nil
  offered := fun k c n packet hc => absurd hc (by simp [init, Client.init])
  received := by
    rintro k packet ⟨row, hrow, _⟩
    exact absurd hrow List.not_mem_nil

omit [DecidableEq K] in
theorem authentic_channels (h : Authentic issuer table t)
    {toServer : ConnectionId → List (ToServer K P)} {toClient : ConnectionId → List (ToClient P)}
    (hserver : ∀ c, ∀ m ∈ toServer c, m ∈ t.toServer c)
    (hclient : ∀ c, ∀ m ∈ toClient c, m ∈ t.toClient c) :
    Authentic issuer table { t with toServer := toServer, toClient := toClient } where
  outPackets := h.outPackets
  underWay := h.underWay
  transport := fun c k p hk hm => h.transport c k p hk (hserver c _ hm)
  known := h.known
  offered := fun k c n packet hc hm => h.offered k c n packet hc (hclient c _ hm)
  received := h.received

/-- A client goes on: what it has was sent before or is sent now, and what it
receives is genuine. -/
theorem authentic_setClient (hinv : t.Inv) (h : Authentic issuer table t) {client : Client K P}
    {out : List (ToServer K P)}
    (hsent : ∀ p ∈ (t.clients k).sent, p ∈ client.sent)
    (hrows : ∀ p ∈ client.outPackets, p ∈ client.sent)
    (hunderWay : ∀ p ∈ client.underWay, p ∈ client.sent)
    (hout : ∀ p, .transportPacket p ∈ out → p ∈ client.sent)
    (hconnection : client.connection = (t.clients k).connection ∨ client.connection = none)
    (hreceived : ∀ packet, client.Received packet → (t.clients k).Received packet ∨
      Genuine issuer table t k packet) :
    Authentic issuer table (t.setClient k client out) := by
  have hall : ∀ k', ∀ p ∈ (t.clients k').sent, p ∈ ((t.setClient k client out).clients k').sent :=
    forall_setClient (Q := fun s s' => ∀ p ∈ s.sent, p ∈ s'.sent) (fun _ _ hp => hp) hsent out
  have hgenuine : ∀ {receiver : K} {packet : P}, Genuine issuer table t receiver packet →
      Genuine issuer table (t.setClient k client out) receiver packet := genuine_mono hall
  -- the client itself, or another one
  have hself : ∀ {Q : Client K P → Prop}, Q client → ∀ k', (k' ≠ k → Q (t.clients k')) →
      Q ((t.setClient k client out).clients k') := by
    intro Q hQ k' hother
    by_cases hsame : k' = k
    · rw [hsame, clients_setClient]
      exact hQ
    · rw [clients_setClient_of_ne hsame]
      exact hother hsame
  refine ⟨?_, ?_, ?_, ?_, ?_, ?_⟩
  · intro k'
    exact hself (Q := fun s => ∀ p ∈ s.outPackets, p ∈ s.sent) hrows k'
      (fun _ => h.outPackets k')
  · intro k'
    exact hself (Q := fun s => ∀ p ∈ s.underWay, p ∈ s.sent) hunderWay k' (fun _ => h.underWay k')
  · intro c k' p hk hm
    rcases mem_toServer_setClient hm with hold | ⟨hc, hnew⟩
    · exact hall k' p (h.transport c k' p hk hold)
    -- a client sends on connections of its own
    · obtain rfl := hinv.owner k c k' hc hk
      rw [clients_setClient]
      exact hout p hnew
  · intro row hrow
    exact hgenuine (h.known row hrow)
  · intro k' c n packet hc hm
    exact hgenuine (h.offered k' c n packet (connection_setClient hconnection hc) hm)
  · intro k' packet hp
    by_cases hsame : k' = k
    · rw [hsame, clients_setClient] at hp
      rw [hsame]
      rcases hreceived packet hp with hold | hnew
      · exact hgenuine (h.received k packet hold)
      · exact hgenuine hnew
    · rw [clients_setClient_of_ne hsame] at hp
      exact hgenuine (h.received k' packet hp)

theorem authentic_effect (hinv : t.Inv) (h : Authentic issuer table t) {a : ServerAction K P}
    {s : Server K P} (hstep : t.server.step issuer a = some s)
    (htransport : ∀ c receiver packet n, a = .connection c (.transportPacket receiver packet n) →
      .transportPacket ⟨n, receiver, packet⟩ ∈ t.toServer c)
    (clients : K → Client K P) (next : ConnectionId)
    (hrows : ∀ k, (clients k).outPackets = (t.clients k).outPackets)
    (hunderWay : ∀ k, (clients k).underWay = (t.clients k).underWay)
    (hsent : ∀ k, (clients k).sent = (t.clients k).sent)
    (hreceived : ∀ k, (clients k).received = (t.clients k).received)
    (hconnection : ∀ k c, (clients k).connection = some c →
      (t.clients k).connection = some c ∨ t.nextConnection ≤ c)
    (hnew : ∀ c k, a = .connected c k → c = t.nextConnection) :
    Authentic issuer table { t with
      server := s, toClient := t.post (t.server.emitted a), clients := clients
      nextConnection := next } := by
  rcases hinv.server with ⟨first, hserver⟩
  have heffect := Server.effect_step hserver hinv.wired hstep
  have hgenuine : ∀ {receiver : K} {packet : P}, Genuine issuer table t receiver packet →
      Genuine issuer table { t with
        server := s, toClient := t.post (t.server.emitted a), clients := clients
        nextConnection := next } receiver packet := by
    refine genuine_mono ?_
    intro k p hp
    simp only [hsent]
    exact hp
  refine ⟨?_, ?_, ?_, ?_, ?_, ?_⟩
  · intro k
    simp only [hrows, hsent]
    exact h.outPackets k
  · intro k
    simp only [hunderWay, hsent]
    exact h.underWay k
  · intro c k p hk hm
    simp only [hsent]
    rcases heffect.remoteKeyNew c k hk with hk | ha
    · exact h.transport c k p hk hm
    · exact absurd hm (not_mem_toServer hinv (Nat.le_of_eq (hnew c k ha).symm) _)
  · intro row hrow
    rcases heffect.knownNew row hrow with hold | ⟨c, n, ha, hk⟩
    · exact hgenuine (h.known row hold)
    · -- the connection is the issuer's, which is why its client sent the packet
      have hp := h.transport c _ _ hk (htransport c _ _ n ha)
      exact hgenuine (Or.inl ⟨_, hp, rfl, rfl⟩)
  · intro k c n packet hc hm
    rcases mem_post.mp hm with hm | hm
    · rcases hconnection k c hc with hc | hc
      · exact hgenuine (h.offered k c n packet hc hm)
      · rcases (hinv.unused c hc).2 _ hm with ⟨e, he⟩
        exact absurd he (by simp)
    · rcases heffect.offered c n packet hm with ⟨k', hk, hknown⟩
      rcases hconnection k c hc with hc | hc
      · obtain rfl := hinv.owner k c k' hc hk
        exact hgenuine (h.known _ hknown)
      · exact absurd (hinv.remoteKey_lt c k' hk) (Nat.not_lt.mpr hc)
  · intro k packet hp
    unfold Client.Received at hp
    simp only [hreceived] at hp
    exact hgenuine (h.received k packet hp)

theorem authentic_crash (hinv : t.Inv) (h : Authentic issuer table t) :
    Authentic issuer table t.crash := by
  refine ⟨h.outPackets, h.underWay, ?_, ?_, h.offered, h.received⟩
  · intro c k p hk
    exact absurd hk (by simp [crash, Server.init, Server.remoteKey])
  · rintro row (hrow | ⟨q, hq, _⟩)
    · exact h.known row (table_known hinv hrow)
    · exact absurd hq List.not_mem_nil

omit [DecidableEq K] in
/-- What a client receives is what the server sent it. -/
theorem received_of_handle {s : Client K P} {m : ToClient P} {packet : P}
    (h : (s.handle m).1.Received packet) :
    s.Received packet ∨ ∃ n, m = .transportPacket n packet := by
  cases m with
  | hello e => cases e <;> exact Or.inl h
  | transportPacket n packet' =>
      rcases h with ⟨row, hrow, rfl⟩
      rcases List.mem_append.mp hrow with hrow | hrow
      · exact Or.inl ⟨row, hrow, rfl⟩
      · rw [List.mem_singleton.mp hrow]
        exact Or.inr ⟨n, rfl⟩
  | _ => exact Or.inl h

theorem authentic_step {a : TransportAction K P} (hinv : t.Inv) (h : Authentic issuer table t)
    (hstep : step issuer a t = some t') : Authentic issuer table t' := by
  cases step_cases hstep with
  | connect k s hs =>
      have hsame := fun {β : Type} => forall_connect (β := β) (t := t) k
      refine authentic_effect hinv h hs (by simp) _ _ (hsame Client.outPackets fun _ => rfl)
        (hsame Client.underWay fun _ => rfl) (hsame Client.sent fun _ => rfl)
        (hsame Client.received fun _ => rfl) (connection_connect k) ?_
      intro c k' ha
      cases ha
      rfl
  | insertPacket k receiver packet hissuer =>
      refine authentic_setClient hinv h (fun p hp => List.mem_append_left _ hp) ?_ ?_ ?_
        (Or.inl rfl) (fun _ hp => Or.inl hp)
      · intro p hp
        rcases List.mem_append.mp hp with hp | hp
        · exact List.mem_append_left _ (h.outPackets k p hp)
        · exact List.mem_append_right _ hp
      · intro p hp
        have hp' : p ∈ (t.clients k).underWay ∨
            p = ⟨(t.clients k).outKey, receiver, packet⟩ := by
          simp only [Client.underWay, Client.insertPacket, List.mem_append, List.mem_singleton]
            at hp ⊢
          tauto
        rcases hp' with hp | rfl
        · exact List.mem_append_left _ (h.underWay k p hp)
        · exact List.mem_append_right _ (List.mem_singleton_self _)
      · exact fun p hp => absurd hp List.not_mem_nil
  | client k a client out ha hclient =>
      have hframe := Client.frame_of_step ha hclient
      refine authentic_setClient hinv h ?_ ?_ ?_ ?_ hframe.connection ?_
      · rw [hframe.sent]
        exact fun _ hp => hp
      · rw [hframe.sent, hframe.outPackets]
        exact h.outPackets k
      · rw [hframe.sent]
        exact fun p hp => h.underWay k p (hframe.underWay p hp)
      · rw [hframe.sent]
        intro p hp
        rcases hframe.out _ hp with heq | ⟨p', hp', heq⟩
        · exact absurd heq (by simp)
        · obtain rfl : p = p' := by simpa using heq
          exact h.underWay k p hp'
      · intro packet hp
        left
        unfold Client.Received at hp ⊢
        rw [hframe.received] at hp
        exact hp
  | receive k c m rest hconnection hm hpending =>
      have hset : Authentic issuer table (t.setClient k ((t.clients k).handle m).1
          ((t.clients k).handle m).2) := by
        refine authentic_setClient hinv h ?_ ?_ ?_ ?_ (Client.connection_handle m) ?_
        · rw [Client.sent_handle]
          exact fun _ hp => hp
        · rw [Client.sent_handle]
          exact fun p hp => h.outPackets k p ((Client.outPackets_handle m).mp hp).1
        · rw [Client.sent_handle]
          intro p hp
          rcases Client.underWay_handle m hp with hp | hp
          · exact h.underWay k p hp
          · exact h.outPackets k p hp
        · exact fun p hp => absurd hp (Client.out_handle m)
        · intro packet hp
          rcases received_of_handle hp with hold | ⟨n, rfl⟩
          · exact Or.inl hold
          · exact Or.inr (h.offered k c n packet hconnection
              (by rw [hm]; exact List.mem_cons_self ..))
      exact authentic_channels hset (fun _ _ hx => hx) (fun d x hx => mem_of_update_tail hm hx)
  | deliver c m rest s hm hs =>
      have hnext := authentic_effect hinv h hs
        (fun _ _ _ _ ha => transportPacket_of_action hm ha) t.clients t.nextConnection
        (fun _ => rfl) (fun _ => rfl)
        (fun _ => rfl) (fun _ => rfl) (fun _ _ hd => Or.inl hd) (by simp)
      exact authentic_channels hnext (fun d x hx => mem_of_update_tail hm hx) (fun _ _ hx => hx)
  | server a s ha hs =>
      rcases not_ackPacket_of_ofServer ha with ⟨_, htransport, hnot⟩
      exact authentic_effect hinv h hs
        (fun c receiver packet n heq => absurd heq (htransport c receiver packet n)) _ _
        (fun _ => rfl) (fun _ => rfl) (fun _ => rfl) (fun _ => rfl) (fun _ _ hc => Or.inl hc)
        (fun c k heq => absurd heq (hnot c k))
  | crash => exact authentic_crash hinv h

/-- A packet that is received was sent to its receiver by the client whose
signature it has. -/
theorem received_authentic {table : List (Row K P)} (htable : History.IsPacketsTable table)
    {as : List (TransportAction K P)}
    (hrun : Machine.run (step issuer) as (init table) = some t) :
    ∀ k, ∀ row ∈ (t.clients k).received,
      (∃ p ∈ (t.clients (issuer row.packet)).sent, p.receiver = k ∧ p.packet = row.packet) ∨
      ∃ first ∈ table, first.receiver = k ∧ first.packet = row.packet := by
  have h : t.Inv ∧ Authentic issuer table t := by
    refine @Machine.invariant_of_forall _ _ (step issuer)
      (fun t => t.Inv ∧ Authentic issuer table t) (fun _ => True) ?_ as _ t
      (fun _ _ => trivial) ⟨init_inv htable, init_authentic table⟩ hrun
    intro a s s' _ hs hstep
    exact ⟨step_inv hs.1 hstep, authentic_step hs.1 hs.2 hstep⟩
  intro k row hrow
  exact h.2.received k row.packet ⟨row, hrow, rfl⟩

namespace Session

/-- The packet 51 of the client 5 comes to 7 while the server forgets it. -/
def forwarded : List (TransportAction Nat Nat) :=
  greet 5 0 ++ greet 7 1 ++
    [.client 5 (.insertPacket 7 51), .client 5 (.testConnection 0), .client 5 (.sendPacket 0),
      .deliver 0, .server (.connection 0 .forward), .crash, .receive 7]

end Session

theorem received_authentic_forwarded : ∃ t : Transport Nat Nat,
    Machine.run (step fun packet => packet / 10) Session.forwarded (init []) = some t ∧
    (t.clients 7).received = [⟨1, 51⟩] ∧
    ∀ k, ∀ row ∈ (t.clients k).received,
      (∃ p ∈ (t.clients (row.packet / 10)).sent, p.receiver = k ∧ p.packet = row.packet) ∨
      ∃ first ∈ ([] : List (Row Nat Nat)), first.receiver = k ∧ first.packet = row.packet := by
  refine ⟨_, rfl, rfl, ?_⟩
  exact @received_authentic Nat Nat _ (fun packet => packet / 10) _ [] History.isPacketsTable_nil
    Session.forwarded rfl

end Transport

end Securepath.PacketTransport
