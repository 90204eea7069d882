import Securepath.PacketTransport.ServerFlow

/-!
# What holds between the clients and the server

`Inv` is about the acks: what the server has offered is known to its storage under
the same ack, and what is acked was inserted by its receiver. It holds in every
state, whoever ends or comes back.
-/

namespace Securepath.PacketTransport

namespace Transport

variable {K P : Type} [DecidableEq K] {issuer : P → K}

/-- The row of a packet, known to the storage of the server. -/
def Known (t : Transport K P) (ack : Nat) (receiver : K) (packet : P) : Prop :=
  t.server.store.ledger.Known ⟨ack, receiver, packet⟩

structure Inv (t : Transport K P) : Prop where
  server : ∃ table, t.server.Inv table
  wired : t.server.Wired
  unused : ∀ c, t.nextConnection ≤ c → t.toServer c = [] ∧ ∀ m ∈ t.toClient c, ∃ e, m = .hello e
  connection_lt : ∀ k c, (t.clients k).connection = some c → c < t.nextConnection
  remoteKey_lt : ∀ c k, t.server.remoteKey c = some k → c < t.nextConnection
  owner : ∀ k c k', (t.clients k).connection = some c → t.server.remoteKey c = some k' → k' = k
  offered : ∀ c k n packet, t.server.remoteKey c = some k →
    .transportPacket n packet ∈ t.toClient c → t.Known n k packet
  answered : ∀ c k n, t.server.remoteKey c = some k → .ackPacket n ∈ t.toServer c →
    ∃ packet, t.Known n k packet ∧ (t.clients k).Received packet
  acked : ∀ n ∈ t.server.store.acked ++ t.server.store.storage.removing,
    ∃ k packet, t.Known n k packet ∧ (t.clients k).Received packet

variable {t t' : Transport K P} {k : K}

/-! ## The storage -/

/-- Acks of the storage are given out once. -/
theorem known_inj (h : t.Inv) {row row' : Row K P} (hrow : t.server.store.ledger.Known row)
    (hrow' : t.server.store.ledger.Known row') (hack : row.ack = row'.ack) : row = row' := by
  rcases h.server with ⟨table, hserver⟩
  exact hserver.store.inv.ledger.acks.known_inj row row' hrow hrow' hack

theorem table_known (h : t.Inv) {row : Row K P} (hrow : row ∈ t.server.store.storage.table) :
    t.server.store.ledger.Known row := by
  rcases h.server with ⟨table, hserver⟩
  exact hserver.store.inv.ledger.acks.table_known row hrow

/-- What is acked was inserted by its receiver. -/
theorem received_of_acked (h : t.Inv) {row : Row K P} (hknown : t.server.store.ledger.Known row)
    (hacked : row.ack ∈ t.server.store.acked) : (t.clients row.receiver).Received row.packet := by
  rcases h.acked row.ack (List.mem_append_left _ hacked) with ⟨k, packet, hknown', hreceived⟩
  rw [known_inj h hknown hknown' rfl]
  exact hreceived

theorem isPacketsTable (h : t.Inv) :
    History.IsPacketsTable t.server.store.storage.table := by
  rcases h.server with ⟨table, hserver⟩
  have hacks := hserver.store.inv.ledger.acks
  refine ⟨fun row hrow => hacks.known_pos row (hacks.table_known row hrow), ?_⟩
  intro row hrow row' hrow' hack
  exact known_inj h (table_known h hrow) (table_known h hrow') hack

/-! ## The packets on the way -/

omit [DecidableEq K] in
theorem mem_post {messages : List (ConnectionId × ToClient P)} {c : ConnectionId}
    {m : ToClient P} : m ∈ t.post messages c ↔ m ∈ t.toClient c ∨ (c, m) ∈ messages := by
  simp [post]

theorem mem_toServer_setClient {client : Client K P} {out : List (ToServer K P)}
    {c : ConnectionId} {m : ToServer K P} (h : m ∈ (t.setClient k client out).toServer c) :
    m ∈ t.toServer c ∨ ((t.clients k).connection = some c ∧ m ∈ out) := by
  rcases hconnection : (t.clients k).connection with _ | d
  · left
    simpa [setClient, hconnection] using h
  · by_cases hsame : c = d
    · rw [hsame] at h ⊢
      simp only [setClient, hconnection, Function.update_self, List.mem_append] at h
      exact h.imp_right fun hm => ⟨rfl, hm⟩
    · left
      simpa [setClient, hconnection, Function.update_of_ne hsame] using h

theorem clients_setClient (client : Client K P) (out : List (ToServer K P)) :
    (t.setClient k client out).clients k = client := by
  simp [setClient]

theorem clients_setClient_of_ne {k' : K} (hne : k' ≠ k) (client : Client K P)
    (out : List (ToServer K P)) : (t.setClient k client out).clients k' = t.clients k' := by
  simp [setClient, Function.update_of_ne hne]

/-- What a client keeps of itself, the transport keeps of all clients. -/
theorem forall_setClient {Q : Client K P → Client K P → Prop} (hrefl : ∀ s, Q s s)
    {client : Client K P} (h : Q (t.clients k) client) (out : List (ToServer K P)) (k' : K) :
    Q (t.clients k') ((t.setClient k client out).clients k') := by
  by_cases hsame : k' = k
  · rw [hsame, clients_setClient]
    exact h
  · rw [clients_setClient_of_ne hsame]
    exact hrefl _

/-- A client that goes on stays on its connection or gives it up. -/
theorem connection_setClient {client : Client K P} {out : List (ToServer K P)} {k' : K}
    (hconnection : client.connection = (t.clients k).connection ∨ client.connection = none)
    (h : ((t.setClient k client out).clients k').connection = some c) :
    (t.clients k').connection = some c := by
  refine forall_setClient
    (Q := fun s s' => s'.connection = some c → s.connection = some c) (fun _ hc => hc) ?_ out k' h
  intro hc
  rcases hconnection with heq | heq
  · rw [← heq]
    exact hc
  · rw [heq] at hc
    cases hc

/-- Nothing is on its way on a connection that is still to come. -/
theorem not_mem_toServer (h : t.Inv) (hc : t.nextConnection ≤ c) (m : ToServer K P) :
    m ∉ t.toServer c := by
  rw [(h.unused c hc).1]
  exact List.not_mem_nil

/-! ## The steps -/

theorem init_inv {table : List (Row K P)} (h : History.IsPacketsTable table) :
    (init table : Transport K P).Inv where
  server := ⟨table, Server.init_inv h⟩
  wired := Server.init_wired table
  unused := fun c _ => ⟨rfl, fun m hm => absurd hm List.not_mem_nil⟩
  connection_lt := fun k c hc => absurd hc (by simp [init, Client.init])
  remoteKey_lt := fun c k hc => absurd hc (by simp [init, Server.init, Server.remoteKey])
  owner := fun k c k' hc => absurd hc (by simp [init, Client.init])
  offered := fun c k n packet _ hm => absurd hm List.not_mem_nil
  answered := fun c k n _ hm => absurd hm List.not_mem_nil
  acked := fun n hn => absurd hn (by simp [init, Server.init, History.init, PacketStorage.init])

/-- Packets that are lost or handled. -/
theorem inv_channels (h : t.Inv) {toServer : ConnectionId → List (ToServer K P)}
    {toClient : ConnectionId → List (ToClient P)}
    (hserver : ∀ c, ∀ m ∈ toServer c, m ∈ t.toServer c)
    (hclient : ∀ c, ∀ m ∈ toClient c, m ∈ t.toClient c) :
    Inv { t with toServer := toServer, toClient := toClient } := by
  refine { h with unused := ?_, offered := ?_, answered := ?_ }
  · intro c hc
    refine ⟨?_, fun m hm => (h.unused c hc).2 m (hclient c m hm)⟩
    apply List.eq_nil_iff_forall_not_mem.mpr
    intro m hm
    exact not_mem_toServer h hc m (hserver c m hm)
  · intro c k n packet hk hm
    exact h.offered c k n packet hk (hclient c _ hm)
  · intro c k n hk hm
    exact h.answered c k n hk (hserver c _ hm)

/-- A client goes on. -/
theorem inv_setClient (h : t.Inv) {client : Client K P} {out : List (ToServer K P)}
    (hreceived : ∀ packet, (t.clients k).Received packet → client.Received packet)
    (hconnection : client.connection = (t.clients k).connection ∨ client.connection = none)
    (hout : ∀ c n, (t.clients k).connection = some c → .ackPacket n ∈ out →
      t.server.remoteKey c = some k → ∃ packet, t.Known n k packet ∧ client.Received packet) :
    (t.setClient k client out).Inv := by
  have hall : ∀ k' packet, (t.clients k').Received packet →
      ((t.setClient k client out).clients k').Received packet := by
    exact forall_setClient (Q := fun s s' => ∀ packet, s.Received packet → s'.Received packet)
      (fun _ _ hp => hp) hreceived out
  have hsame : ∀ k' c, ((t.setClient k client out).clients k').connection = some c →
      (t.clients k').connection = some c :=
    fun k' c hc => connection_setClient hconnection hc
  refine { h with unused := ?_, connection_lt := ?_, owner := ?_, answered := ?_, acked := ?_ }
  · intro c hc
    refine ⟨?_, (h.unused c hc).2⟩
    apply List.eq_nil_iff_forall_not_mem.mpr
    intro m hm
    rcases mem_toServer_setClient hm with hold | ⟨hnew, _⟩
    · exact not_mem_toServer h hc m hold
    -- a client is on a connection that there is
    · exact absurd (h.connection_lt k c hnew) (Nat.not_lt.mpr hc)
  · intro k' c hc
    exact h.connection_lt k' c (hsame k' c hc)
  · intro k' c k'' hc hk
    exact h.owner k' c k'' (hsame k' c hc) hk
  · intro c k' n hk hm
    rcases mem_toServer_setClient hm with hold | ⟨hnew, hmem⟩
    · rcases h.answered c k' n hk hold with ⟨packet, hknown, hreceived'⟩
      exact ⟨packet, hknown, hall k' packet hreceived'⟩
    · -- the client answers for itself
      obtain rfl := h.owner k c k' hnew hk
      rcases hout c n hnew hmem hk with ⟨packet, hknown, hreceived'⟩
      rw [clients_setClient]
      exact ⟨packet, hknown, hreceived'⟩
  · intro n hn
    rcases h.acked n hn with ⟨k', packet, hknown, hreceived'⟩
    exact ⟨k', packet, hknown, hall k' packet hreceived'⟩

/-- The server takes a step: a packet of a client that it handles is on the way
to it. -/
theorem inv_effect (h : t.Inv) {a : ServerAction K P} {s : Server K P}
    (hstep : t.server.step issuer a = some s)
    (hack : ∀ c n, a = .connection c (.ackPacket n) → .ackPacket n ∈ t.toServer c)
    (clients : K → Client K P) (next : ConnectionId)
    (hreceived : ∀ k, (clients k).received = (t.clients k).received)
    (hnext : t.nextConnection ≤ next) (hnew : ∀ c k, a = .connected c k → c = t.nextConnection)
    (hconnection_lt : ∀ k c, (clients k).connection = some c → c < next)
    (hremoteKey_lt : ∀ c k, s.remoteKey c = some k → c < next)
    (howner : ∀ k c k', (clients k).connection = some c → s.remoteKey c = some k' → k' = k) :
    Inv { t with
      server := s, toClient := t.post (t.server.emitted a), clients := clients
      nextConnection := next } := by
  rcases h.server with ⟨table, hserver⟩
  have heffect := Server.effect_step hserver h.wired hstep
  have hreceived' : ∀ k packet, (t.clients k).Received packet → (clients k).Received packet := by
    intro k packet hp
    unfold Client.Received
    rw [hreceived k]
    exact hp
  -- a connection that is new has nothing on its way
  have hold : ∀ c k, s.remoteKey c = some k → t.server.remoteKey c = some k ∨
      t.nextConnection ≤ c := by
    intro c k hk
    rcases heffect.remoteKeyNew c k hk with hk | ha
    · exact Or.inl hk
    · exact Or.inr (Nat.le_of_eq (hnew c k ha).symm)
  refine ⟨⟨table, Server.step_inv hserver hstep⟩, Server.wired_step hserver h.wired hstep, ?_,
    hconnection_lt, hremoteKey_lt, howner, ?_, ?_, ?_⟩
  · intro c hc
    rcases h.unused c (hnext.trans hc) with ⟨hempty, hhello⟩
    refine ⟨hempty, ?_⟩
    intro m hm
    rcases mem_post.mp hm with hm | hm
    · exact hhello m hm
    -- what is sent goes to a connection that there is
    · have habsent : ∀ k, t.server.remoteKey c ≠ some k := fun k hk =>
        absurd (h.remoteKey_lt c k hk) (Nat.not_lt.mpr (hnext.trans hc))
      cases m with
      | hello e => exact ⟨e, rfl⟩
      | transportPacket n packet =>
          rcases heffect.offered c n packet hm with ⟨k, hk, _⟩
          exact absurd hk (habsent k)
      | ackPacket n =>
          rcases heffect.told c _ n hm rfl with ⟨q, _, _, hk, _⟩
          exact absurd hk (habsent q.sender)
      | errorPacket n =>
          rcases heffect.told c _ n hm rfl with ⟨q, _, _, hk, _⟩
          exact absurd hk (habsent q.sender)
  · intro c k n packet hk hm
    rcases mem_post.mp hm with hm | hm
    · rcases hold c k hk with hk | hc
      · exact heffect.known _ (h.offered c k n packet hk hm)
      · rcases (h.unused c hc).2 _ hm with ⟨e, he⟩
        exact absurd he (by simp)
    · rcases heffect.offered c n packet hm with ⟨k', hk', hknown⟩
      have hsame := heffect.remoteKey c k' hk'
      obtain rfl : k = k' := Option.some.inj (hk.symm.trans hsame)
      exact heffect.known _ hknown
  · intro c k n hk hm
    rcases hold c k hk with hk | hc
    · rcases h.answered c k n hk hm with ⟨packet, hknown, hp⟩
      exact ⟨packet, heffect.known _ hknown, hreceived' k packet hp⟩
    · exact absurd hm (not_mem_toServer h hc _)
  · intro n hn
    rcases heffect.marked n hn with hn | ⟨c, k, ha, hk, hreceiver⟩
    · rcases h.acked n hn with ⟨k, packet, hknown, hp⟩
      exact ⟨k, packet, heffect.known _ hknown, hreceived' k packet hp⟩
    · rcases h.answered c k n hk (hack c n ha) with ⟨packet, hknown, hp⟩
      exact ⟨k, packet, heffect.known _ hknown, hreceived' k packet hp⟩

/-- What a step does to the transport, with what lets it happen. -/
inductive Step (issuer : P → K) (t : Transport K P) :
    TransportAction K P → Transport K P → Prop
  | connect (k : K) (s : Server K P)
      (hstep : t.server.step issuer (.connected t.nextConnection k) = some s) :
      Step issuer t (.connect k) { t with
        server := s
        toClient := t.post (t.server.emitted (.connected t.nextConnection k))
        clients := Function.update t.clients k { t.clients k with
          connection := some t.nextConnection, state := .connecting, greeted := false }
        nextConnection := t.nextConnection + 1 }
  | insertPacket (k : K) (receiver : K) (packet : P) (hissuer : issuer packet = k) :
      Step issuer t (.client k (.insertPacket receiver packet))
        (t.setClient k ((t.clients k).insertPacket receiver packet) [])
  | client (k : K) (a : ClientAction K P) (client : Client K P) (out : List (ToServer K P))
      (ha : ∀ receiver packet, a ≠ .insertPacket receiver packet)
      (hstep : (t.clients k).step a = some (client, out)) :
      Step issuer t (.client k a) (t.setClient k client out)
  | receive (k : K) (c : ConnectionId) (m : ToClient P) (rest : List (ToClient P))
      (hconnection : (t.clients k).connection = some c) (hm : t.toClient c = m :: rest)
      (hpending : (t.clients k).pending = []) :
      Step issuer t (.receive k)
        { t.setClient k ((t.clients k).handle m).1 ((t.clients k).handle m).2 with
          toClient := Function.update t.toClient c rest }
  | deliver (c : ConnectionId) (m : ToServer K P) (rest : List (ToServer K P)) (s : Server K P)
      (hm : t.toServer c = m :: rest)
      (hstep : t.server.step issuer (.connection c m.action) = some s) :
      Step issuer t (.deliver c) { t with
        server := s
        toClient := t.post (t.server.emitted (.connection c m.action))
        toServer := Function.update t.toServer c rest }
  | server (a : ServerAction K P) (s : Server K P) (ha : a.ofServer = true)
      (hstep : t.server.step issuer a = some s) :
      Step issuer t (.server a) { t with server := s, toClient := t.post (t.server.emitted a) }
  | crash : Step issuer t .crash t.crash

theorem step_cases {a : TransportAction K P} (h : step issuer a t = some t') :
    Step issuer t a t' := by
  cases a with
  | connect k =>
      simp only [step, connect, serverStep, Option.ite_none_right_eq_some, Option.map_map,
        Option.map_eq_some_iff] at h
      rcases h with ⟨_, s, hstep, rfl⟩
      exact .connect k s hstep
  | client k a =>
      by_cases ha : ∃ receiver packet, a = .insertPacket receiver packet
      · rcases ha with ⟨receiver, packet, rfl⟩
        simp only [step, Option.ite_none_right_eq_some, Option.some.injEq] at h
        rcases h with ⟨hissuer, rfl⟩
        exact .insertPacket k receiver packet hissuer
      · have hother : ∀ receiver packet, a ≠ .insertPacket receiver packet :=
          fun receiver packet heq => ha ⟨receiver, packet, heq⟩
        have hstep : ((t.clients k).step a).map (fun r => t.setClient k r.1 r.2) = some t' := by
          cases a with
          | insertPacket receiver packet => exact absurd rfl (hother receiver packet)
          | _ => exact h
        rcases Option.map_eq_some_iff.mp hstep with ⟨⟨client, out⟩, hr, rfl⟩
        exact .client k a client out hother hr
  | receive k =>
      rcases hconnection : (t.clients k).connection with _ | c
      · simp [step, receive, hconnection] at h
      rcases hm : t.toClient c with _ | ⟨m, rest⟩
      · simp [step, receive, hconnection, hm] at h
      simp only [step, receive, hconnection, hm, Option.ite_none_right_eq_some, Option.some.injEq]
        at h
      rcases h with ⟨⟨_, hpending⟩, rfl⟩
      exact .receive k c m rest hconnection hm (List.isEmpty_iff.mp hpending)
  | deliver c =>
      rcases hm : t.toServer c with _ | ⟨m, rest⟩
      · simp [step, deliver, hm] at h
      simp only [step, deliver, hm, serverStep, Option.map_map, Option.map_eq_some_iff] at h
      rcases h with ⟨s, hstep, rfl⟩
      exact .deliver c m rest s hm hstep
  | server a =>
      simp only [step, serverStep, Option.ite_none_right_eq_some, Option.map_eq_some_iff] at h
      rcases h with ⟨ha, s, hstep, rfl⟩
      exact .server a s ha hstep
  | crash =>
      obtain rfl := Option.some.inj h
      exact .crash

omit [DecidableEq K] in
/-- A step that the server takes by itself handles no packet of a client. -/
theorem not_ackPacket_of_ofServer {a : ServerAction K P} (ha : a.ofServer = true) :
    (∀ c n, a ≠ .connection c (.ackPacket n)) ∧
    (∀ c receiver packet n, a ≠ .connection c (.transportPacket receiver packet n)) ∧
    ∀ c k, a ≠ .connected c k := by
  refine ⟨?_, ?_, ?_⟩ <;> (intros; rintro rfl; simp [ServerAction.ofServer] at ha)

/-- Without a new connection the keys of the connections stay. -/
theorem remoteKey_eq_of_step (h : t.Inv) {a : ServerAction K P} {s : Server K P}
    (hstep : t.server.step issuer a = some s) (ha : ∀ c k, a ≠ .connected c k) (c : ConnectionId)
    (k : K) : s.remoteKey c = some k → t.server.remoteKey c = some k := by
  rcases h.server with ⟨table, hserver⟩
  intro hk
  rcases (Server.effect_step hserver h.wired hstep).remoteKeyNew c k hk with hk | hnew
  · exact hk
  · exact absurd hnew (ha c k)

/-! ## What the steps have in common -/

/-- The rest of a queue has nothing that the queue has not. -/
theorem mem_of_update_tail {α : Type} {queues : ConnectionId → List α} {c : ConnectionId} {m : α}
    {rest : List α} (hm : queues c = m :: rest) {d : ConnectionId} {x : α}
    (hx : x ∈ Function.update queues c rest d) : x ∈ queues d := by
  by_cases hsame : d = c
  · rw [hsame, Function.update_self] at hx
    rw [hsame, hm]
    exact List.mem_cons_of_mem _ hx
  · rw [Function.update_of_ne hsame] at hx
    exact hx

omit [DecidableEq K] in
/-- A packet that the server takes in comes from the queue. -/
theorem transportPacket_of_action {c : ConnectionId} {m : ToServer K P}
    {rest : List (ToServer K P)} (hm : t.toServer c = m :: rest) {d : ConnectionId} {receiver : K}
    {packet : P} {n : Nat}
    (ha : ServerAction.connection c m.action = .connection d (.transportPacket receiver packet n)) :
    .transportPacket ⟨n, receiver, packet⟩ ∈ t.toServer d := by
  cases m <;> simp only [ToServer.action, ServerAction.connection.injEq, reduceCtorEq,
    and_false, ConnectionAction.transportPacket.injEq] at ha
  rcases ha with ⟨rfl, rfl, rfl, rfl⟩
  rw [hm]
  exact List.mem_cons_self ..

/-- A new connection leaves all else of a client. -/
theorem forall_connect {β : Type} (k : K) (f : Client K P → β)
    (hf : ∀ client : Client K P, f { client with
      connection := some t.nextConnection, state := .connecting, greeted := false } = f client)
    (k' : K) : f (Function.update t.clients k { t.clients k with
      connection := some t.nextConnection, state := .connecting, greeted := false } k') =
        f (t.clients k') := by
  by_cases heq : k' = k
  · rw [heq, Function.update_self, hf]
  · rw [Function.update_of_ne heq]

theorem connection_connect (k k' : K) (c : ConnectionId)
    (hc : (Function.update t.clients k { t.clients k with
      connection := some t.nextConnection, state := .connecting, greeted := false } k').connection =
        some c) : (t.clients k').connection = some c ∨ t.nextConnection ≤ c := by
  by_cases heq : k' = k
  · rw [heq, Function.update_self] at hc
    exact Or.inr (Nat.le_of_eq (Option.some.inj hc))
  · rw [Function.update_of_ne heq] at hc
    exact Or.inl hc

theorem step_inv {a : TransportAction K P} (h : t.Inv) (hstep : step issuer a t = some t') :
    t'.Inv := by
  cases step_cases hstep with
  | connect k s hs =>
      rcases h.server with ⟨table, hserver⟩
      have heffect := Server.effect_step hserver h.wired hs
      have hremote : ∀ c k', s.remoteKey c = some k' →
          t.server.remoteKey c = some k' ∨ c = t.nextConnection ∧ k = k' := by
        intro c k' hk
        rcases heffect.remoteKeyNew c k' hk with hk | ha
        · exact Or.inl hk
        · cases ha
          exact Or.inr ⟨rfl, rfl⟩
      refine inv_effect h hs (by simp) _ _ ?_ (Nat.le_succ _) ?_ ?_ ?_ ?_
      · exact forall_connect k Client.received fun _ => rfl
      · intro c k' ha
        cases ha
        rfl
      · intro k' c hc
        by_cases hsame : k' = k
        · rw [hsame, Function.update_self] at hc
          rw [← Option.some.inj hc]
          exact Nat.lt_succ_self _
        · rw [Function.update_of_ne hsame] at hc
          exact Nat.lt_succ_of_lt (h.connection_lt k' c hc)
      · intro c k' hk
        rcases hremote c k' hk with hk | ⟨rfl, _⟩
        · exact Nat.lt_succ_of_lt (h.remoteKey_lt c k' hk)
        · exact Nat.lt_succ_self _
      -- the new connection is of the client that connects, and of nobody else
      · intro k' c k'' hc hk
        by_cases hsame : k' = k
        · rw [hsame, Function.update_self] at hc
          rcases hremote c k'' hk with hk | ⟨_, heq⟩
          · have hlt := h.remoteKey_lt c k'' hk
            rw [← Option.some.inj hc] at hlt
            exact absurd hlt (Nat.lt_irrefl _)
          · rw [hsame, heq]
        · rw [Function.update_of_ne hsame] at hc
          rcases hremote c k'' hk with hk | ⟨heq, _⟩
          · exact h.owner k' c k'' hc hk
          · have hlt := h.connection_lt k' c hc
            rw [heq] at hlt
            exact absurd hlt (Nat.lt_irrefl _)
  | insertPacket k receiver packet hissuer =>
      refine inv_setClient h (fun _ hp => hp) (Or.inl rfl) ?_
      intro c n _ hm
      exact absurd hm List.not_mem_nil
  | client k a client out ha hclient =>
      have hframe := Client.frame_of_step ha hclient
      refine inv_setClient h ?_ hframe.connection ?_
      · intro packet hp
        exact Client.received_of_append ⟨[], by rw [hframe.received, List.append_nil]⟩ hp
      · intro c n _ hm
        rcases hframe.out _ hm with heq | ⟨p, _, heq⟩ <;> exact absurd heq (by simp)
  | receive k c m rest hconnection hm hpending =>
      have hset : (t.setClient k ((t.clients k).handle m).1 ((t.clients k).handle m).2).Inv := by
        refine inv_setClient h
          (fun packet hp => Client.received_of_append (Client.received_handle m) hp)
          (Client.connection_handle m) ?_
        intro d n hd hout hk
        obtain rfl : c = d := Option.some.inj (hconnection.symm.trans hd)
        cases m with
        | transportPacket n' packet =>
            -- the ack is sent behind the insertion of its packet
            obtain rfl : n = n' := by simpa [Client.handle] using hout
            refine ⟨packet, h.offered c k n packet hk (by rw [hm]; exact List.mem_cons_self ..), ?_⟩
            exact ⟨_, List.mem_append_right _ (List.mem_singleton_self _), rfl⟩
        | hello e => cases e <;> simp [Client.handle] at hout
        | _ => simp [Client.handle] at hout
      exact inv_channels hset (fun _ _ hx => hx) (fun d x hx => mem_of_update_tail hm hx)
  | deliver c m rest s hm hs =>
      have hnot : ∀ d k, ServerAction.connection c m.action ≠ .connected d k := by simp
      have hkey := remoteKey_eq_of_step h hs hnot
      have hnext := inv_effect h hs ?_ t.clients t.nextConnection
        (fun _ => rfl) (Nat.le_refl _) (fun d k ha => absurd ha (hnot d k)) h.connection_lt
        (fun d k hk => h.remoteKey_lt d k (hkey d k hk))
        (fun k d k' hd hk => h.owner k d k' hd (hkey d k' hk))
      · exact inv_channels hnext (fun d x hx => mem_of_update_tail hm hx) (fun _ _ hx => hx)
      · intro d n ha
        cases m <;> simp only [ToServer.action, ServerAction.connection.injEq, reduceCtorEq,
          and_false, ConnectionAction.ackPacket.injEq] at ha
        rw [← ha.1, hm, ha.2]
        exact List.mem_cons_self ..
  | server a s ha hs =>
      rcases not_ackPacket_of_ofServer ha with ⟨hack, _, hnot⟩
      have hkey := remoteKey_eq_of_step h hs hnot
      exact inv_effect h hs (fun c n heq => absurd heq (hack c n)) _ _ (fun _ => rfl)
        (Nat.le_refl _)
        (fun c k heq => absurd heq (hnot c k)) h.connection_lt
        (fun c k hk => h.remoteKey_lt c k (hkey c k hk))
        (fun k c k' hc hk => h.owner k c k' hc (hkey c k' hk))
  | crash =>
      -- no connection outlives the server
      have hgone : ∀ c, t.crash.server.remoteKey c = none := fun c => rfl
      refine { h with
        server := ⟨_, Server.init_inv (isPacketsTable h)⟩
        wired := Server.init_wired _
        remoteKey_lt := ?_, owner := ?_, offered := ?_, answered := ?_, acked := ?_ }
      · intro c k hk
        exact absurd hk (by simp [hgone])
      · intro k c k' _ hk
        exact absurd hk (by simp [hgone])
      · intro c k n packet hk
        exact absurd hk (by simp [hgone])
      · intro c k n hk
        exact absurd hk (by simp [hgone])
      · intro n hn
        exact absurd hn (by simp [crash, Server.init, History.init, PacketStorage.init])

end Transport

end Securepath.PacketTransport
