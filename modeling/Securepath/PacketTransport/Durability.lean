import Securepath.PacketTransport.TransportSafety

/-!
# No packet is lost

A packet that `send_packet` was called with is on a disk at any time: in
`out_packets` of its sender, in the table of the server, or its receiver has
inserted it (`sent_durable`). Nothing is assumed of the network, of the database
or of who ends when. What is needed is that `out_packets` does not give out a key
while a packet or an ack with that key is still on its way; the key of a row that
is gone is given out again, and an ack that comes late then removes the new row
(`late_ack_loses`).
-/

namespace Securepath.PacketTransport

namespace Transport

variable {K P : Type} [DecidableEq K] {issuer : P → K}

/-- The table of the server has the packet, or its receiver was given it. -/
def Durable (t : Transport K P) (receiver : K) (packet : P) : Prop :=
  (∃ row ∈ t.server.store.storage.table, row.receiver = receiver ∧ row.packet = packet) ∨
    (t.clients receiver).Received packet

/-- Nothing with the key of a client is on its way. -/
structure Unused (t : Transport K P) (k : K) (key : Nat) : Prop where
  underWay : ∀ p ∈ (t.clients k).underWay, p.ack ≠ key
  transport : ∀ c p, t.server.remoteKey c = some k → .transportPacket p ∈ t.toServer c →
    p.ack ≠ key
  untold : ∀ q ∈ t.server.store.storage.untold, q.sender = k → q.senderAck ≠ key
  removed : ∀ c m, (t.clients k).connection = some c → m ∈ t.toClient c → m.removed ≠ some key

/-- `send_packet` gets a key that nothing on its way has. -/
def KeyUnused (a : TransportAction K P) (t : Transport K P) : Prop :=
  match a with
  | .client k (.insertPacket _ _) => t.Unused k (t.clients k).outKey
  | _ => True

/-- A key on its way means the row that the sender has under it. -/
structure Coherent (t : Transport K P) : Prop where
  keys : ∀ k, ∀ row ∈ (t.clients k).outPackets, ∀ row' ∈ (t.clients k).outPackets,
    row.ack = row'.ack → row = row'
  underWay : ∀ k, ∀ p ∈ (t.clients k).underWay, ∀ row ∈ (t.clients k).outPackets,
    row.ack = p.ack → row = p
  transport : ∀ c k p, t.server.remoteKey c = some k → .transportPacket p ∈ t.toServer c →
    ∀ row ∈ (t.clients k).outPackets, row.ack = p.ack → row = p
  untold : ∀ q ∈ t.server.store.storage.untold, ∀ row ∈ (t.clients q.sender).outPackets,
    row.ack = q.senderAck → row.receiver = q.receiver ∧ row.packet = q.packet
  removed : ∀ k c m, (t.clients k).connection = some c → m ∈ t.toClient c →
    ∀ row ∈ (t.clients k).outPackets, m.removed = some row.ack →
      t.Durable row.receiver row.packet
  kept : ∀ k, ∀ p ∈ (t.clients k).sent,
    p ∈ (t.clients k).outPackets ∨ t.Durable p.receiver p.packet

variable {t t' : Transport K P} {k : K}

omit [DecidableEq K] in
theorem init_coherent (table : List (Row K P)) : (init table : Transport K P).Coherent := by
  have hnothing : ∀ k : K, ((init table : Transport K P).clients k).outPackets = [] :=
    fun _ => rfl
  have hsent : ∀ k : K, ((init table : Transport K P).clients k).sent = [] := fun _ => rfl
  refine ⟨?_, ?_, ?_, ?_, ?_, ?_⟩ <;> intros <;> simp_all

/-! ## Packets that are lost or handled -/

omit [DecidableEq K] in
theorem coherent_channels (h : t.Coherent) {toServer : ConnectionId → List (ToServer K P)}
    {toClient : ConnectionId → List (ToClient P)}
    (hserver : ∀ c, ∀ m ∈ toServer c, m ∈ t.toServer c)
    (hclient : ∀ c, ∀ m ∈ toClient c, m ∈ t.toClient c) :
    Coherent { t with toServer := toServer, toClient := toClient } where
  keys := h.keys
  underWay := h.underWay
  transport := fun c k p hk hm => h.transport c k p hk (hserver c _ hm)
  untold := h.untold
  removed := fun k c m hc hm => h.removed k c m hc (hclient c m hm)
  kept := h.kept

/-! ## The clients -/

theorem durable_setClient (client : Client K P) {out : List (ToServer K P)}
    (hreceived : ∀ packet, (t.clients k).Received packet → client.Received packet) {receiver : K}
    {packet : P} (h : t.Durable receiver packet) :
    (t.setClient k client out).Durable receiver packet := by
  refine h.imp_right ?_
  exact forall_setClient (Q := fun s s' => ∀ packet, s.Received packet → s'.Received packet)
    (fun _ _ hp => hp) hreceived out receiver packet

/-- A client goes on with the rows that it has, or with fewer. -/
theorem coherent_setClient (hinv : t.Inv) (h : t.Coherent) {client : Client K P}
    {out : List (ToServer K P)}
    (hrows : ∀ row ∈ client.outPackets, row ∈ (t.clients k).outPackets)
    (hunderWay : ∀ p ∈ client.underWay,
      p ∈ (t.clients k).underWay ∨ p ∈ (t.clients k).outPackets)
    (hout : ∀ p, .transportPacket p ∈ out → p ∈ (t.clients k).underWay)
    (hconnection : client.connection = (t.clients k).connection ∨ client.connection = none)
    (hreceived : ∀ packet, (t.clients k).Received packet → client.Received packet)
    (hsent : client.sent = (t.clients k).sent)
    (hkept : ∀ row ∈ (t.clients k).outPackets,
      row ∈ client.outPackets ∨ t.Durable row.receiver row.packet) :
    (t.setClient k client out).Coherent := by
  have hall : ∀ k', ∀ row ∈ ((t.setClient k client out).clients k').outPackets,
      row ∈ (t.clients k').outPackets :=
    forall_setClient (Q := fun s s' => ∀ row ∈ s'.outPackets, row ∈ s.outPackets)
      (fun _ _ hrow => hrow) hrows out
  have hway : ∀ k', ∀ p ∈ ((t.setClient k client out).clients k').underWay,
      p ∈ (t.clients k').underWay ∨ p ∈ (t.clients k').outPackets :=
    forall_setClient (Q := fun s s' => ∀ p ∈ s'.underWay, p ∈ s.underWay ∨ p ∈ s.outPackets)
      (fun _ _ hp => Or.inl hp) hunderWay out
  have hdurable : ∀ {receiver : K} {packet : P}, t.Durable receiver packet →
      (t.setClient k client out).Durable receiver packet := durable_setClient client hreceived
  refine ⟨?_, ?_, ?_, ?_, ?_, ?_⟩
  · intro k' row hrow row' hrow'
    exact h.keys k' row (hall k' row hrow) row' (hall k' row' hrow')
  · intro k' p hp row hrow hack
    rcases hway k' p hp with hp | hp
    · exact h.underWay k' p hp row (hall k' row hrow) hack
    · exact h.keys k' row (hall k' row hrow) p hp hack
  · intro c k' p hk hm row hrow hack
    have hrow' := hall k' row hrow
    rcases mem_toServer_setClient hm with hold | ⟨hc, hnew⟩
    · exact h.transport c k' p hk hold row hrow' hack
    · -- a client sends on connections of its own
      obtain rfl := hinv.owner k c k' hc hk
      exact h.underWay k' p (hout p hnew) row hrow' hack
  · intro q hq row hrow hack
    exact h.untold q hq row (hall q.sender row hrow) hack
  · intro k' c m hc hm row hrow hremoved
    have hc' : (t.clients k').connection = some c := connection_setClient hconnection hc
    exact hdurable (h.removed k' c m hc' hm row (hall k' row hrow) hremoved)
  · intro k' p hp
    by_cases hsame : k' = k
    · rw [hsame, clients_setClient, hsent] at hp
      rw [hsame, clients_setClient]
      rcases h.kept k p hp with hrow | hdone
      · exact (hkept p hrow).imp_right hdurable
      · exact Or.inr (hdurable hdone)
    · rw [clients_setClient_of_ne hsame] at hp ⊢
      exact (h.kept k' p hp).imp_right hdurable

/-- `send_packet` adds a row whose key nothing on its way has. -/
theorem coherent_insertPacket (h : t.Coherent) {receiver : K} {packet : P}
    (hunused : t.Unused k (t.clients k).outKey) :
    (t.setClient k ((t.clients k).insertPacket receiver packet) []).Coherent := by
  have hdurable : ∀ {receiver' : K} {packet' : P}, t.Durable receiver' packet' →
      (t.setClient k ((t.clients k).insertPacket receiver packet) []).Durable receiver' packet' :=
    fun hd => durable_setClient ((t.clients k).insertPacket receiver packet)
      (fun _ hp => hp) hd
  have hold : ∀ row ∈ (t.clients k).outPackets, row.ack < (t.clients k).outKey :=
    fun row hrow => lt_nextKey (List.mem_map_of_mem hrow)
  -- a row of the client is one that it had, or the new one
  have hcases : ∀ row ∈ ((t.clients k).insertPacket receiver packet).outPackets,
      row ∈ (t.clients k).outPackets ∨ row = ⟨(t.clients k).outKey, receiver, packet⟩ := by
    intro row hrow
    simpa [Client.insertPacket] using hrow
  have hmsg : ∀ {c : ConnectionId} {m : ToServer K P},
      m ∈ (t.setClient k ((t.clients k).insertPacket receiver packet) []).toServer c →
        m ∈ t.toServer c := by
    intro c m hm
    rcases mem_toServer_setClient hm with hm | ⟨_, hm⟩
    · exact hm
    · exact absurd hm List.not_mem_nil
  refine ⟨?_, ?_, ?_, ?_, ?_, ?_⟩
  · intro k' row hrow row' hrow' hack
    by_cases hsame : k' = k
    · rw [hsame, clients_setClient] at hrow hrow'
      rcases hcases row hrow with hrow | rfl <;> rcases hcases row' hrow' with hrow' | rfl
      · exact h.keys k row hrow row' hrow' hack
      · exact absurd hack (Nat.ne_of_lt (hold row hrow))
      · exact absurd hack.symm (Nat.ne_of_lt (hold row' hrow'))
      · rfl
    · rw [clients_setClient_of_ne hsame] at hrow hrow'
      exact h.keys k' row hrow row' hrow' hack
  · intro k' p hp row hrow hack
    by_cases hsame : k' = k
    · rw [hsame, clients_setClient] at hp hrow
      have hp' : p ∈ (t.clients k).underWay ∨
          p = ⟨(t.clients k).outKey, receiver, packet⟩ := by
        simp only [Client.underWay, Client.insertPacket, List.mem_append, List.mem_singleton]
          at hp ⊢
        tauto
      -- what is under way has not the key of the new row, and the old rows have smaller keys
      rcases hp' with hp | rfl <;> rcases hcases row hrow with hrow | rfl
      · exact h.underWay k p hp row hrow hack
      · exact absurd hack.symm (hunused.underWay p hp)
      · exact absurd hack (Nat.ne_of_lt (hold row hrow))
      · rfl
    · rw [clients_setClient_of_ne hsame] at hp hrow
      exact h.underWay k' p hp row hrow hack
  · intro c k' p hk hm row hrow hack
    by_cases hsame : k' = k
    · rw [hsame, clients_setClient] at hrow
      rw [hsame] at hk
      rcases hcases row hrow with hrow | rfl
      · exact h.transport c k p hk (hmsg hm) row hrow hack
      · exact absurd hack.symm (hunused.transport c p hk (hmsg hm))
    · rw [clients_setClient_of_ne hsame] at hrow
      exact h.transport c k' p hk (hmsg hm) row hrow hack
  · intro q hq row hrow hack
    by_cases hsame : q.sender = k
    · rw [hsame, clients_setClient] at hrow
      rcases hcases row hrow with hrow | rfl
      · exact h.untold q hq row (by rw [hsame]; exact hrow) hack
      · exact absurd hack.symm (hunused.untold q hq hsame)
    · rw [clients_setClient_of_ne hsame] at hrow
      exact h.untold q hq row hrow hack
  · intro k' c m hc hm row hrow hremoved
    by_cases hsame : k' = k
    · rw [hsame, clients_setClient] at hc hrow
      rcases hcases row hrow with hrow | rfl
      · exact hdurable (h.removed k c m hc hm row hrow hremoved)
      · exact absurd hremoved (hunused.removed c m hc hm)
    · rw [clients_setClient_of_ne hsame] at hc hrow
      exact hdurable (h.removed k' c m hc hm row hrow hremoved)
  · intro k' p hp
    by_cases hsame : k' = k
    · rw [hsame, clients_setClient] at hp ⊢
      have hp' : p ∈ (t.clients k).sent ∨ p = ⟨(t.clients k).outKey, receiver, packet⟩ := by
        simpa [Client.insertPacket] using hp
      rcases hp' with hp | rfl
      · rcases h.kept k p hp with hrow | hdone
        · exact Or.inl (List.mem_append_left _ hrow)
        · exact Or.inr (hdurable hdone)
      · exact Or.inl (List.mem_append_right _ (List.mem_singleton_self _))
    · rw [clients_setClient_of_ne hsame] at hp ⊢
      exact (h.kept k' p hp).imp_right hdurable

/-! ## The server -/

/-- A row leaves the table when its receiver has the packet. -/
theorem durable_of_table (hinv : t.Inv) (row : Row K P)
    (h : t.server.store.ledger.Known row ∧
      (row ∈ t.server.store.storage.table ∨ row.ack ∈ t.server.store.acked)) :
    t.Durable row.receiver row.packet := by
  rcases h with ⟨hknown, hrow | hacked⟩
  · exact Or.inl ⟨row, hrow, rfl, rfl⟩
  · exact Or.inr (received_of_acked hinv hknown hacked)

/-- The server takes a step, as in `inv_effect`. -/
theorem coherent_effect (hinv : t.Inv) (h : t.Coherent) {a : ServerAction K P} {s : Server K P}
    (hstep : t.server.step issuer a = some s)
    (htransport : ∀ c receiver packet n, a = .connection c (.transportPacket receiver packet n) →
      .transportPacket ⟨n, receiver, packet⟩ ∈ t.toServer c)
    (clients : K → Client K P) (next : ConnectionId)
    (hrows : ∀ k, (clients k).outPackets = (t.clients k).outPackets)
    (hunderWay : ∀ k, (clients k).underWay = (t.clients k).underWay)
    (hsent : ∀ k, (clients k).sent = (t.clients k).sent)
    (hreceived : ∀ k, (clients k).received = (t.clients k).received)
    (hconnection : ∀ k c, (clients k).connection = some c →
      (t.clients k).connection = some c ∨ t.nextConnection ≤ c)
    (hnew : ∀ c k, a = .connected c k → c = t.nextConnection) :
    Coherent { t with
      server := s, toClient := t.post (t.server.emitted a), clients := clients
      nextConnection := next } := by
  rcases hinv.server with ⟨table, hserver⟩
  have heffect := Server.effect_step hserver hinv.wired hstep
  have hdurable : ∀ {receiver : K} {packet : P}, t.Durable receiver packet →
      Durable { t with
        server := s, toClient := t.post (t.server.emitted a), clients := clients
        nextConnection := next } receiver packet := by
    have hkeeps : ∀ {k : K} {packet : P}, (t.clients k).Received packet →
        (clients k).Received packet := by
      intro k packet hp
      unfold Client.Received
      rw [hreceived k]
      exact hp
    -- a row that leaves the table is acked, so that its receiver has the packet
    rintro receiver packet (⟨row, hrow, rfl, rfl⟩ | hp)
    · rcases heffect.table row hrow with hrow' | hacked
      · exact Or.inl ⟨row, hrow', rfl, rfl⟩
      · exact Or.inr (hkeeps (received_of_acked hinv (table_known hinv hrow) hacked))
    · exact Or.inr (hkeeps hp)
  refine ⟨?_, ?_, ?_, ?_, ?_, ?_⟩
  · intro k
    simp only [hrows]
    exact h.keys k
  · intro k
    simp only [hrows, hunderWay]
    exact h.underWay k
  · intro c k p hk hm
    simp only [hrows]
    rcases heffect.remoteKeyNew c k hk with hk | ha
    · exact h.transport c k p hk hm
    · exact absurd hm (not_mem_toServer hinv (Nat.le_of_eq (hnew c k ha).symm) _)
  · intro q hq
    simp only [hrows]
    rcases heffect.untold q hq with hq | ⟨ha, hk⟩
    · exact h.untold q hq
    · -- the packet that has just come
      intro row hrow hack
      have heq := h.transport _ _ _ hk (htransport _ _ _ _ ha) row hrow hack
      rw [heq]
      exact ⟨rfl, rfl⟩
  · intro k c m hc hm row hrow hremoved
    simp only [hrows] at hrow
    rcases mem_post.mp hm with hm | hm
    · rcases hconnection k c hc with hc | hc
      · exact hdurable (h.removed k c m hc hm row hrow hremoved)
      · rcases (hinv.unused c hc).2 m hm with ⟨e, rfl⟩
        exact absurd hremoved (by simp [ToClient.removed])
    · -- an ack that is sent now: its packet is in the table or acked
      rcases heffect.told c m row.ack hm hremoved with ⟨q, hq, hack, hk, hknown, hsafe⟩
      have howner : k = q.sender := by
        rcases hconnection k c hc with hc | hc
        · exact (hinv.owner k c q.sender hc hk).symm
        · exact absurd (hinv.remoteKey_lt c q.sender hk) (Nat.not_lt.mpr hc)
      rw [howner] at hrow
      rcases h.untold q hq row hrow hack.symm with ⟨hreceiver, hpacket⟩
      rw [hreceiver, hpacket]
      exact hdurable (durable_of_table hinv q.row ⟨hknown, hsafe⟩)
  · intro k p hp
    simp only [hsent] at hp
    simp only [hrows]
    exact (h.kept k p hp).imp_right hdurable

omit [DecidableEq K] in
/-- The server comes back with its table and nothing else. -/
theorem coherent_crash (h : t.Coherent) : t.crash.Coherent := by
  have hdurable : ∀ {receiver : K} {packet : P}, t.Durable receiver packet →
      t.crash.Durable receiver packet := fun hd => hd
  refine ⟨h.keys, h.underWay, ?_, ?_, ?_, ?_⟩
  · intro c k p hk
    exact absurd hk (by simp [crash, Server.init, Server.remoteKey])
  -- the queue is lost, but nobody was told of what was in it
  · intro q hq
    exact absurd hq (by simp [crash, Server.init, History.init, PacketStorage.init,
      PacketStorage.untold, PacketStorage.notifying, PacketStorage.writing, PacketStorage.waiting])
  · intro k c m hc hm row hrow hremoved
    exact hdurable (h.removed k c m hc hm row hrow hremoved)
  · intro k p hp
    exact (h.kept k p hp).imp_right hdurable

/-! ## The steps -/

theorem coherent_step {a : TransportAction K P} (hunused : KeyUnused a t) (hinv : t.Inv)
    (h : t.Coherent) (hstep : step issuer a t = some t') : t'.Coherent := by
  cases step_cases hstep with
  | connect k s hs =>
      have hsame := fun {β : Type} => forall_connect (β := β) (t := t) k
      refine coherent_effect hinv h hs (by simp) _ _ (hsame Client.outPackets fun _ => rfl)
        (hsame Client.underWay fun _ => rfl) (hsame Client.sent fun _ => rfl)
        (hsame Client.received fun _ => rfl) (connection_connect k) ?_
      intro c k' ha
      cases ha
      rfl
  | insertPacket k receiver packet hissuer => exact coherent_insertPacket h hunused
  | client k a client out ha hclient =>
      have hframe := Client.frame_of_step ha hclient
      refine coherent_setClient hinv h ?_ (fun p hp => Or.inl (hframe.underWay p hp)) ?_
        hframe.connection ?_ hframe.sent ?_
      · rw [hframe.outPackets]
        exact fun _ hrow => hrow
      · intro p hp
        rcases hframe.out _ hp with heq | ⟨p', hp', heq⟩
        · exact absurd heq (by simp)
        · obtain rfl : p = p' := by simpa using heq
          exact hp'
      · intro packet hp
        exact Client.received_of_append ⟨[], by rw [hframe.received, List.append_nil]⟩ hp
      · rw [hframe.outPackets]
        exact fun _ hrow => Or.inl hrow
  | receive k c m rest hconnection hm hpending =>
      have hset : (t.setClient k ((t.clients k).handle m).1
          ((t.clients k).handle m).2).Coherent := by
        refine coherent_setClient hinv h ?_ (fun _ hp => Client.underWay_handle m hp) ?_
          (Client.connection_handle m) ?_ (Client.sent_handle m) ?_
        · exact fun row hrow => ((Client.outPackets_handle m).mp hrow).1
        · exact fun p hp => absurd hp (Client.out_handle m)
        · exact fun packet hp => Client.received_of_append (Client.received_handle m) hp
        · intro row hrow
          by_cases hremoved : m.removed = some row.ack
          · exact Or.inr (h.removed k c m hconnection (by rw [hm]; exact List.mem_cons_self ..)
              row hrow hremoved)
          · exact Or.inl ((Client.outPackets_handle m).mpr ⟨hrow, hremoved⟩)
      exact coherent_channels hset (fun _ _ hx => hx) (fun d x hx => mem_of_update_tail hm hx)
  | deliver c m rest s hm hs =>
      have hnext := coherent_effect hinv h hs
        (fun _ _ _ _ ha => transportPacket_of_action hm ha) t.clients t.nextConnection
        (fun _ => rfl) (fun _ => rfl)
        (fun _ => rfl) (fun _ => rfl) (fun _ _ hd => Or.inl hd) (by simp)
      exact coherent_channels hnext (fun d x hx => mem_of_update_tail hm hx) (fun _ _ hx => hx)
  | server a s ha hs =>
      rcases not_ackPacket_of_ofServer ha with ⟨_, htransport, hnot⟩
      exact coherent_effect hinv h hs
        (fun c receiver packet n heq => absurd heq (htransport c receiver packet n)) _ _
        (fun _ => rfl) (fun _ => rfl) (fun _ => rfl) (fun _ => rfl) (fun _ _ hc => Or.inl hc)
        (fun c k heq => absurd heq (hnot c k))
  | crash => exact coherent_crash h

/-- A packet that is sent is on a disk from then on: the sender's, the server's or
the receiver's. -/
theorem sent_durable {table : List (Row K P)} (htable : History.IsPacketsTable table)
    {as : List (TransportAction K P)}
    (hunused : Machine.EachStep (step issuer) KeyUnused as (init table))
    (hrun : Machine.run (step issuer) as (init table) = some t) :
    ∀ k, ∀ p ∈ (t.clients k).sent,
      p ∈ (t.clients k).outPackets ∨
      (∃ row ∈ t.server.store.storage.table, row.receiver = p.receiver ∧ row.packet = p.packet) ∨
      ∃ row ∈ (t.clients p.receiver).received, row.packet = p.packet := by
  have h : t.Inv ∧ t.Coherent := by
    refine @Machine.invariant _ _ (step issuer) KeyUnused (fun t => t.Inv ∧ t.Coherent) ?_ as _ t
      hunused ⟨init_inv htable, init_coherent table⟩ hrun
    intro a s s' ha hs hstep
    exact ⟨step_inv hs.1 hstep, coherent_step ha hs.1 hs.2 hstep⟩
  exact h.2.kept

/-! ## Sessions -/

namespace Session

/-- A packet for 7 that is sent without a connection, and the end of the server
behind the ack. -/
def offline : List (TransportAction Nat Nat) :=
  [.client 5 (.insertPacket 7 40), .client 5 (.testConnection 0)] ++ greet 5 0 ++
    [.client 5 .sendPending, .deliver 0, .server (.connection 0 .forward)] ++ stored ++
    [.receive 5, .crash]

/-- The hello comes between the insertion and the test of `send_packet`, so the
packet is sent twice and acked twice; the second ack comes when the key is the
one of the next packet. -/
def lateAck : List (TransportAction Nat Nat) :=
  [.client 5 (.insertPacket 7 40)] ++ greet 5 0 ++
    [.client 5 .sendPending, .client 5 (.testConnection 0), .client 5 (.sendPacket 0),
      .deliver 0, .server (.connection 0 .forward), .deliver 0,
      .server (.connection 0 .forward)] ++
    stored ++ [.server (.storage (.threadRemove true))] ++ stored ++
    [.receive 5, .client 5 (.insertPacket 7 41), .receive 5, .client 5 .restart]

end Session

/-- The packet 41 is in no table, and no client was given it. -/
theorem late_ack_loses : ∃ t : Transport Nat Nat,
    Machine.run (step fun _ => 5) Session.lateAck (init []) = some t ∧
    ⟨1, 7, 41⟩ ∈ (t.clients 5).sent ∧ (t.clients 5).outPackets = [] ∧
    (t.clients 5).underWay = [] ∧ t.server.store.storage.table.all (·.packet ≠ 41) ∧
    (t.clients 7).received = [] := by
  refine ⟨_, rfl, ?_⟩
  decide

theorem sent_durable_offline : ∃ t : Transport Nat Nat,
    Machine.run (step fun _ => 5) Session.offline (init []) = some t ∧
    (t.clients 5).sent = [⟨1, 7, 40⟩] ∧ (t.clients 5).outPackets = [] ∧
    ∀ k, ∀ p ∈ (t.clients k).sent,
      p ∈ (t.clients k).outPackets ∨
      (∃ row ∈ t.server.store.storage.table, row.receiver = p.receiver ∧ row.packet = p.packet) ∨
      ∃ row ∈ (t.clients p.receiver).received, row.packet = p.packet := by
  refine ⟨_, rfl, rfl, rfl, ?_⟩
  refine @sent_durable Nat Nat _ (fun _ => 5) _ [] History.isPacketsTable_nil Session.offline
    ?_ rfl
  -- only the first step asks for a key
  refine .cons ?_ rfl <| .cons trivial rfl <| .cons trivial rfl <| .cons trivial rfl <|
    .cons trivial rfl <| .cons trivial rfl <| .cons trivial rfl <| .cons trivial rfl <|
    .cons trivial rfl <| .cons trivial rfl <| .cons trivial rfl <| .cons trivial rfl <|
    .cons trivial rfl <| .cons trivial rfl <| .cons trivial rfl <| .cons trivial rfl <|
    .cons trivial rfl <| .cons trivial rfl <| .cons trivial rfl <| .cons trivial rfl trivial
  refine ⟨?_, ?_, ?_, ?_⟩
  · intro p hp
    exact absurd hp List.not_mem_nil
  · intro c p _ hp
    exact absurd hp List.not_mem_nil
  · intro q hq
    exact absurd hq List.not_mem_nil
  · intro c m _ hm
    exact absurd hm List.not_mem_nil

end Transport

end Securepath.PacketTransport
