import Securepath.PacketTransport.StorageFlow
import Securepath.PacketTransport.Transport

/-!
# What the server does for its clients

`Effect` says what a step of the server means to the clients: which packets it
takes in and from whom, which acks it goes by, what it sends and to whom. The
clients know the server by this alone.
-/

namespace Securepath.PacketTransport

/-- What a connection has is as the storage was given it. -/
structure Connection.Genuine {K P : Type} [DecidableEq K] (store : History K P ConnectionId)
    (conn : Connection K P) : Prop where
  id : ∀ id, conn.id = some id → id = conn.remoteKeyId
  packets : ∀ x ∈ conn.handler.packets,
    store.ledger.Known ⟨x.handle.ack, conn.remoteKeyId, x.packet⟩
  forwarding : ∀ receiver h packet, conn.handler = .forwarding receiver h packet →
    store.ledger.Known ⟨h.ack, receiver, packet⟩

namespace Server

variable {K P : Type} [DecidableEq K]

/-- The key that a connection was made with. -/
def remoteKey (s : Server K P) (c : ConnectionId) : Option K :=
  (s.connections c).map Connection.remoteKeyId

/-- The connections have the packets of the storage and send to the keys they
should. -/
structure Wired (s : Server K P) : Prop where
  genuine : ∀ c conn, s.connections c = some conn → conn.Genuine s.store
  notify : ∀ q ∈ s.store.storage.untold, s.remoteKey q.notify = some q.sender
  told : s.store.Told

/-- What a step of the server means to its clients. -/
structure Effect (issuer : P → K) (a : ServerAction K P) (s t : Server K P) : Prop where
  remoteKey : ∀ c k, s.remoteKey c = some k → t.remoteKey c = some k
  remoteKeyNew : ∀ c k, t.remoteKey c = some k → s.remoteKey c = some k ∨ a = .connected c k
  known : ∀ row, s.store.ledger.Known row → t.store.ledger.Known row
  knownNew : ∀ row, t.store.ledger.Known row → s.store.ledger.Known row ∨
    ∃ c ack, a = .connection c (.transportPacket row.receiver row.packet ack) ∧
      s.remoteKey c = some (issuer row.packet)
  untold : ∀ q ∈ t.store.storage.untold, q ∈ s.store.storage.untold ∨
    (a = .connection q.notify (.transportPacket q.receiver q.packet q.senderAck) ∧
      s.remoteKey q.notify = some q.sender)
  marked : ∀ n ∈ t.store.acked ++ t.store.storage.removing,
    n ∈ s.store.acked ++ s.store.storage.removing ∨
    ∃ c k, a = .connection c (.ackPacket n) ∧ s.remoteKey c = some k ∧
      ∀ row, s.store.ledger.Known row → row.ack = n → row.receiver = k
  table : ∀ row ∈ s.store.storage.table, row ∈ t.store.storage.table ∨ row.ack ∈ s.store.acked
  offered : ∀ c n packet, (c, .transportPacket n packet) ∈ s.emitted a →
    ∃ k, s.remoteKey c = some k ∧ s.store.ledger.Known ⟨n, k, packet⟩
  told : ∀ c m n, (c, m) ∈ s.emitted a → m.removed = some n →
    ∃ q ∈ s.store.storage.untold, q.senderAck = n ∧ s.remoteKey c = some q.sender ∧
      s.store.ledger.Known q.row ∧ (q.row ∈ s.store.storage.table ∨ q.ack ∈ s.store.acked)

variable {table : List (Row K P)} {s t : Server K P} {issuer : P → K} {c : ConnectionId}
  {conn : Connection K P}

omit [DecidableEq K] in
theorem remoteKey_of_connection (hconn : s.connections c = some conn) :
    s.remoteKey c = some conn.remoteKeyId := by
  simp [remoteKey, hconn]

/-! ## The connections -/

omit [DecidableEq K] in
theorem remoteKey_setConnection (hconn : s.connections c = some conn) (conn' : Connection K P)
    (hremote : conn'.remoteKeyId = conn.remoteKeyId) :
    (s.setConnection c conn').remoteKey = s.remoteKey := by
  funext d
  unfold remoteKey setConnection
  by_cases hsame : d = c
  · rw [hsame, hconn]
    simp [hremote]
  · simp [Function.update_of_ne hsame]

omit [DecidableEq K] in
/-- A connection is found under its own key. -/
theorem remoteKey_of_findConnection (hconns : ∀ k c, s.conns k = some c →
    ∃ conn, s.connections c = some conn ∧ conn.remoteKeyId = k) {k : K} {d : ConnectionId}
    {found : Connection K P} (hfound : s.findConnection k = some (d, found)) :
    s.remoteKey d = some k := by
  rcases findConnection_eq_some hfound with ⟨hk, hd, _⟩
  rcases hconns k d hk with ⟨found', hfound', hkey⟩
  rw [remoteKey_of_connection hfound', hkey]

omit [DecidableEq K] in
theorem remoteKeyId_insertAck (conn : Connection K P) (h : PacketHandle) :
    (conn.insertAck h).remoteKeyId = conn.remoteKeyId ∧ (conn.insertAck h).id = conn.id ∧
      (conn.insertAck h).handler = conn.handler := by
  unfold Connection.insertAck
  by_cases hthere : conn.ackMap.any (·.1 = h.ack) = true
  · rw [if_pos hthere]
    exact ⟨rfl, rfl, rfl⟩
  · rw [if_neg hthere]
    exact ⟨rfl, rfl, rfl⟩

omit [DecidableEq K] in
theorem remoteKeyId_insertAcks (packets : List (StoredPacket P)) : ∀ conn : Connection K P,
    (conn.insertAcks packets).remoteKeyId = conn.remoteKeyId ∧
      (conn.insertAcks packets).id = conn.id := by
  induction packets with
  | nil => exact fun conn => ⟨rfl, rfl⟩
  | cons x packets ih =>
      intro conn
      rcases ih (conn.insertAck x.handle) with ⟨hremote, hid⟩
      rcases remoteKeyId_insertAck conn x.handle with ⟨hremote', hid', _⟩
      exact ⟨hremote.trans hremote', hid.trans hid'⟩

omit [DecidableEq K] in
theorem remoteKey_forward (hconn : s.connections c = some conn) (receiver : K)
    (handle : PacketHandle) : (s.forward c conn receiver handle).remoteKey = s.remoteKey := by
  have hidle := remoteKey_setConnection hconn { conn with handler := .idle } rfl
  unfold forward
  rcases Option.eq_none_or_eq_some ((s.setConnection c
    { conn with handler := .idle }).findConnection receiver) with hnone | ⟨⟨d, found⟩, hfound⟩
  · simp only [hnone]
    exact hidle
  · simp only [hfound]
    rcases findConnection_eq_some hfound with ⟨_, hd, _⟩
    exact (remoteKey_setConnection hd _ (remoteKeyId_insertAck found handle).1).trans hidle

theorem remoteKey_connectionStep (hconn : s.connections c = some conn)
    {a : ConnectionAction K P} (hstep : ConnectionStep issuer s c conn a t) :
    t.remoteKey = s.remoteKey := by
  cases hstep with
  | hello hready => exact remoteKey_setConnection hconn _ rfl
  | readIndex hhandler => exact remoteKey_setConnection hconn _ rfl
  | readStored packets hhandler => exact remoteKey_setConnection hconn _ rfl
  | insertPending packets hhandler =>
      exact remoteKey_setConnection hconn _ (remoteKeyId_insertAcks packets conn).1
  | sendNext packets hhandler =>
      cases packets with
      | nil => exact remoteKey_setConnection hconn _ rfl
      | cons x packets => exact remoteKey_setConnection hconn _ rfl
  | transportPacket receiver packet ack hready =>
      unfold transportPacket
      rcases Option.eq_none_or_eq_some conn.id with hid | ⟨id, hid⟩ <;> rw [hid]
      by_cases hissuer : issuer packet = id
      · simp only [if_pos hissuer]
        exact remoteKey_setConnection hconn _ rfl
      · simp only [if_neg hissuer]
  | forward receiver handle packet hhandler => exact remoteKey_forward hconn receiver handle
  | ackPacket ack hready =>
      unfold ackPacket
      rcases Option.eq_none_or_eq_some (conn.findAck ack) with hfind | ⟨handle, hfind⟩ <;>
        rw [hfind]
      rfl
  | errorPacket ack hready => rfl
  | terminate a hready => exact remoteKey_setConnection hconn _ rfl

/-! ## The storage under a connection -/

/-- What a step of a connection does to the storage. -/
inductive StoreStep (issuer : P → K) (s : Server K P) (c : ConnectionId) (conn : Connection K P) :
    ConnectionAction K P → StorageAction K P ConnectionId → Prop
  | query (a : ConnectionAction K P) :
      StoreStep issuer s c conn a (.query conn.remoteKeyId)
  | insert (receiver : K) (packet : P) (ack : Nat) (hid : conn.id = some (issuer packet)) :
      StoreStep issuer s c conn (.transportPacket receiver packet ack)
        (.insert receiver packet ack (issuer packet) c)
  | markAsAcked (ack : Nat) (h : PacketHandle) (hfind : conn.findAck ack = some h) :
      StoreStep issuer s c conn (.ackPacket ack) (.markAsAcked h)

theorem store_connectionStep (h : Inv table s) (hconn : s.connections c = some conn)
    {a : ConnectionAction K P} (hstep : ConnectionStep issuer s c conn a t) :
    t.store = s.store ∨ ∃ b, StoreStep issuer s c conn a b ∧
      History.step b s.store = some t.store := by
  cases hstep with
  | readStored packets hhandler => exact Or.inr ⟨_, .query _, rfl⟩
  | sendNext packets hhandler => cases packets <;> exact Or.inl rfl
  | transportPacket receiver packet ack hready =>
      unfold transportPacket
      rcases Option.eq_none_or_eq_some conn.id with hid | ⟨id, hid⟩ <;> rw [hid]
      · exact Or.inl rfl
      by_cases hissuer : issuer packet = id
      · simp only [if_pos hissuer]
        rw [← hissuer] at hid ⊢
        exact Or.inr ⟨_, .insert receiver packet ack hid, rfl⟩
      · simp only [if_neg hissuer]
        exact Or.inl trivial
  | forward receiver handle packet hhandler =>
      left
      unfold forward
      rcases Option.eq_none_or_eq_some ((s.setConnection c
        { conn with handler := .idle }).findConnection receiver) with hnone | ⟨⟨d, found⟩, hfound⟩
      · simp only [hnone]
        rfl
      · simp only [hfound]
        rfl
  | ackPacket ack hready =>
      unfold ackPacket
      rcases Option.eq_none_or_eq_some (conn.findAck ack) with hfind | ⟨handle, hfind⟩ <;>
        rw [hfind]
      · exact Or.inl rfl
      · refine Or.inr ⟨_, .markAsAcked ack handle hfind, ?_⟩
        have howned := owned_of_findAck (h.connections c conn hconn) hfind
        simp [History.step, howned.handle]
  | _ => exact Or.inl rfl

omit [DecidableEq K] in
theorem findAck_ack {ack : Nat} {handle : PacketHandle}
    (hmap : ∀ entry ∈ conn.ackMap, entry.1 = entry.2.ack)
    (hfind : conn.findAck ack = some handle) : handle.ack = ack := by
  rcases Option.map_eq_some_iff.mp hfind with ⟨entry, hentry, rfl⟩
  have hkey := List.find?_some hentry
  rw [← hmap entry (List.mem_of_find?_eq_some hentry)]
  simpa using hkey

/-! ## Genuine packets -/

theorem genuine_mono {store store' : History K P ConnectionId}
    (hknown : ∀ row, store.ledger.Known row → store'.ledger.Known row)
    (h : conn.Genuine store) : conn.Genuine store' where
  id := h.id
  packets := fun x hx => hknown _ (h.packets x hx)
  forwarding := fun receiver handle packet hforwarding =>
    hknown _ (h.forwarding receiver handle packet hforwarding)

omit [DecidableEq K] in
theorem setConnection_cases {conn' : Connection K P} {d : ConnectionId} {found : Connection K P}
    (hfound : (s.setConnection c conn').connections d = some found) :
    found = conn' ∨ s.connections d = some found := by
  by_cases hsame : d = c
  · rw [hsame] at hfound
    exact Or.inl (by simpa [setConnection] using hfound.symm)
  · exact Or.inr (by simpa [setConnection, Function.update_of_ne hsame] using hfound)

/-- A handler without packets. -/
theorem genuine_of_idle {store : History K P ConnectionId} {conn' : Connection K P}
    (hid : ∀ id, conn'.id = some id → id = conn'.remoteKeyId)
    (hhandler : conn'.handler = .idle ∨ conn'.handler = .published) : conn'.Genuine store := by
  refine ⟨hid, ?_, ?_⟩
  · intro x hx
    rcases hhandler with hhandler | hhandler <;> rw [hhandler] at hx <;>
      exact absurd hx List.not_mem_nil
  · intro receiver handle packet hforwarding
    rcases hhandler with hhandler | hhandler <;> rw [hhandler] at hforwarding <;>
      exact absurd hforwarding (by simp)

/-- The pending packets are known as they are. -/
theorem genuine_readStored (h : Inv table s) (hgenuine : conn.Genuine s.store)
    {packets : List (StoredPacket P)} (hhandler : conn.handler = .found packets) :
    ∀ x ∈ PacketStorage.sortPending
        (s.store.storage.pendingStored conn.remoteKeyId ++ packets),
      s.store.ledger.Known ⟨x.handle.ack, conn.remoteKeyId, x.packet⟩ := by
  intro x hx
  rcases List.mem_append.mp (PacketStorage.mem_of_mem_sortPending hx) with hx | hx
  · rcases History.mem_pendingStored.mp hx with ⟨row, hrow, hreceiver, rfl⟩
    rw [← hreceiver]
    exact h.store.inv.ledger.acks.table_known row hrow
  · exact hgenuine.packets x (by rw [hhandler]; exact hx)

theorem genuine_readIndex (h : Inv table s) (k : K) :
    ∀ x ∈ s.store.storage.pendingQueued k, s.store.ledger.Known ⟨x.handle.ack, k, x.packet⟩ := by
  intro x hx
  rcases (History.mem_pendingQueued h.store).mp hx with ⟨p, hp, hreceiver, rfl⟩
  rw [← hreceiver]
  exact Ledger.waiting_known h.store.inv.ledger.acks (History.mem_waiting_of_queue h.store hp)

theorem genuine_connectionStep (h : Inv table s) (hwired : s.Wired)
    (hconn : s.connections c = some conn) {a : ConnectionAction K P}
    (hstep : ConnectionStep issuer s c conn a t)
    (hknown : ∀ row, s.store.ledger.Known row → t.store.ledger.Known row) :
    ∀ d found, t.connections d = some found → found.Genuine t.store := by
  have hgenuine := hwired.genuine c conn hconn
  -- a step that sets the connection alone
  have hset : ∀ conn' : Connection K P, conn'.Genuine t.store →
      t.connections = (s.setConnection c conn').connections →
      ∀ d found, t.connections d = some found → found.Genuine t.store := by
    intro conn' hconn' hsame d found hfound
    rw [hsame] at hfound
    rcases setConnection_cases hfound with rfl | hold
    · exact hconn'
    · exact genuine_mono hknown (hwired.genuine d found hold)
  have hstays : t.connections = s.connections →
      ∀ d found, t.connections d = some found → found.Genuine t.store := by
    intro hsame d found hfound
    rw [hsame] at hfound
    exact genuine_mono hknown (hwired.genuine d found hfound)
  cases hstep with
  | hello hready =>
      refine hset _ (genuine_of_idle ?_ (Or.inr rfl)) rfl
      exact fun id hid => (Option.some.inj hid).symm
  | readIndex hhandler =>
      refine hset { conn with
        handler := .found (s.store.storage.pendingQueued conn.remoteKeyId) }
        ⟨hgenuine.id, ?_, by simp⟩ rfl
      exact genuine_readIndex h conn.remoteKeyId
  | readStored packets hhandler =>
      refine hset { conn with
        handler := .collected (PacketStorage.sortPending
          (s.store.storage.pendingStored conn.remoteKeyId ++ packets)) }
        ⟨hgenuine.id, ?_, by simp⟩ rfl
      intro x hx
      exact hknown _ (genuine_readStored h hgenuine hhandler x hx)
  | insertPending packets hhandler =>
      rcases remoteKeyId_insertAcks packets conn with ⟨hremote, hid⟩
      refine hset _ ⟨?_, ?_, by simp⟩ rfl
      · intro id
        change (conn.insertAcks packets).id = some id →
          id = (conn.insertAcks packets).remoteKeyId
        rw [hremote, hid]
        exact hgenuine.id id
      · intro x hx
        change s.store.ledger.Known
          ⟨x.handle.ack, (conn.insertAcks packets).remoteKeyId, x.packet⟩
        rw [hremote]
        exact hgenuine.packets x (by rw [hhandler]; exact hx)
  | sendNext packets hhandler =>
      cases packets with
      | nil =>
          exact hset { conn with handler := .idle, connectionGood := true }
            (genuine_of_idle hgenuine.id (Or.inl rfl)) rfl
      | cons x packets =>
          refine hset { conn with handler := .sending packets } ⟨hgenuine.id, ?_, by simp⟩ rfl
          intro y hy
          exact hgenuine.packets y (by rw [hhandler]; exact List.mem_cons_of_mem _ hy)
  | transportPacket receiver packet ack hready =>
      unfold transportPacket at hset hstays hknown ⊢
      rcases Option.eq_none_or_eq_some conn.id with hid | ⟨id, hid⟩ <;>
        simp only [hid] at hset hstays hknown ⊢
      · exact hstays trivial
      by_cases hissuer : issuer packet = id
      · simp only [if_pos hissuer] at hset hstays hknown ⊢
        refine hset { conn with
          id := some id
          handler := .forwarding receiver ⟨s.store.storage.sequence + 1, true⟩ packet }
          ⟨fun id' heq => hgenuine.id id' (hid.trans heq), by simp [Handler.packets], ?_⟩ rfl
        intro receiver' handle packet' hforwarding
        have heq : receiver = receiver' ∧ ⟨s.store.storage.sequence + 1, true⟩ = handle ∧
            packet = packet' := by simpa using hforwarding
        rw [← heq.1, ← heq.2.1, ← heq.2.2]
        exact Or.inr ⟨_, List.mem_append_right _ (List.mem_singleton_self _), rfl⟩
      · simp only [if_neg hissuer] at hstays ⊢
        exact hstays trivial
  | forward receiver handle packet hhandler =>
      have hidle : Connection.Genuine s.store { conn with handler := .idle } :=
        genuine_of_idle hgenuine.id (Or.inl rfl)
      unfold forward at hset hstays ⊢
      rcases Option.eq_none_or_eq_some ((s.setConnection c
        { conn with handler := .idle }).findConnection receiver) with hnone | ⟨⟨d, found⟩, hfound⟩
      · simp only [hnone] at hset hstays ⊢
        exact hset _ hidle rfl
      · simp only [hfound] at hset hstays ⊢
        rcases findConnection_eq_some hfound with ⟨_, hd, _⟩
        rcases remoteKeyId_insertAck found handle with ⟨hremote, hid, hsame⟩
        have hbefore : found.Genuine s.store := by
          rcases setConnection_cases hd with rfl | hold
          · exact hidle
          · exact hwired.genuine d found hold
        -- the receiver's connection keeps the ack, and the sender's is idle
        intro e other hother
        rcases setConnection_cases hother with rfl | hother
        · refine ⟨?_, ?_, ?_⟩
          · rw [hremote, hid]
            exact hbefore.id
          · rw [hremote, hsame]
            exact hbefore.packets
          · rw [hsame]
            exact hbefore.forwarding
        · rcases setConnection_cases hother with rfl | hother
          · exact hidle
          · exact hwired.genuine e other hother
  | ackPacket ack hready =>
      unfold ackPacket at hstays ⊢
      rcases Option.eq_none_or_eq_some (conn.findAck ack) with hfind | ⟨handle, hfind⟩ <;>
        simp only [hfind] at hstays ⊢
      · exact hstays trivial
      · exact hstays trivial
  | errorPacket ack hready => exact hstays rfl
  | terminate a hready =>
      exact hset { conn with alive := false }
        ⟨hgenuine.id, fun x hx => hknown _ (hgenuine.packets x hx),
          fun receiver handle packet hforwarding =>
            hknown _ (hgenuine.forwarding receiver handle packet hforwarding)⟩ rfl

/-! ## What is sent -/

theorem offered_by (h : Inv table s) (hwired : s.Wired) (hconn : s.connections c = some conn)
    {a : ConnectionAction K P} {d : ConnectionId} {n : Nat} {packet : P}
    (hsent : (d, .transportPacket n packet) ∈ s.emittedBy c conn a) :
    ∃ k, s.remoteKey d = some k ∧ s.store.ledger.Known ⟨n, k, packet⟩ := by
  have hgenuine := hwired.genuine c conn hconn
  cases a with
  | hello => simp [emittedBy] at hsent
  | sendNext =>
      rcases hhandler : conn.handler with _ | _ | _ | _ | ⟨_ | ⟨x, packets⟩⟩ | _ <;>
        simp only [emittedBy, hhandler, List.not_mem_nil, List.mem_singleton, Prod.mk.injEq,
          ToClient.transportPacket.injEq] at hsent
      rcases hsent with ⟨rfl, rfl, rfl⟩
      refine ⟨conn.remoteKeyId, remoteKey_of_connection hconn, hgenuine.packets x ?_⟩
      rw [hhandler]
      exact List.mem_cons_self ..
  | forward =>
      rcases hhandler : conn.handler with _ | _ | _ | _ | _ | ⟨receiver, handle, packet'⟩ <;>
        simp only [emittedBy, hhandler, List.not_mem_nil, List.mem_map, Option.mem_toList,
          Prod.mk.injEq, ToClient.transportPacket.injEq] at hsent
      rcases hsent with ⟨⟨e, found⟩, hfound, rfl, rfl, rfl⟩
      refine ⟨receiver, ?_, hgenuine.forwarding receiver handle packet' hhandler⟩
      -- the connection that `conns` has for the receiver is one of the receiver
      have hidle := inv_setConnection h hconn { conn with handler := .idle } rfl
        (safe_of_idle (h.connections c conn hconn) rfl rfl (Or.inl rfl))
      have hsame := remoteKey_setConnection hconn { conn with handler := .idle } rfl
      rw [← remoteKey_of_findConnection hidle.conns hfound, hsame]
  | _ => simp [emittedBy] at hsent

omit [DecidableEq K] in
/-- An ack goes to the key that sent the packet, whichever connection it takes. -/
theorem remoteKey_of_ackTo (h : ∀ k c, s.conns k = some c →
    ∃ conn, s.connections c = some conn ∧ conn.remoteKeyId = k)
    {q : QueuedPacket K P ConnectionId} (hnotify : s.remoteKey q.notify = some q.sender)
    {d : ConnectionId} (hto : s.ackTo q = some d) : s.remoteKey d = some q.sender := by
  have hnewer : (s.findConnection q.sender).map Prod.fst = some d →
      s.remoteKey d = some q.sender := by
    intro hfind
    rcases Option.map_eq_some_iff.mp hfind with ⟨⟨e, found⟩, hfound, rfl⟩
    exact remoteKey_of_findConnection h hfound
  unfold ackTo at hto
  rcases Option.eq_none_or_eq_some (s.connections q.notify) with hnone | ⟨conn, hconn⟩
  · simp only [hnone] at hto
    exact hnewer hto
  · simp only [hconn] at hto
    cases halive : conn.alive with
    | false =>
        rw [halive] at hto
        exact hnewer hto
    | true =>
        rw [halive, if_pos rfl] at hto
        rw [← Option.some.inj hto]
        exact hnotify

theorem told_by (h : Inv table s) (hwired : s.Wired) {a : StorageAction K P ConnectionId}
    {u : History K P ConnectionId} (hstep : History.step a s.store = some u) {d : ConnectionId}
    {n : Nat} (hsent : (d, n) ∈ s.doAck a) :
    ∃ q ∈ s.store.storage.untold, q.senderAck = n ∧ s.remoteKey d = some q.sender ∧
      s.store.ledger.Known q.row ∧
        (q.row ∈ s.store.storage.table ∨ q.ack ∈ s.store.acked) := by
  cases a with
  | threadNotify =>
      rcases Option.map_eq_some_iff.mp hstep with ⟨v, hv, _⟩
      rcases PacketStorage.threadNotify_eq_some hv with ⟨hpc, _⟩
      rcases Option.eq_none_or_eq_some s.store.storage.p with hp | ⟨q, hp⟩
      · simp [doAck, hp] at hsent
      simp only [doAck, hp, List.mem_map, Option.mem_toList, Prod.mk.injEq] at hsent
      rcases hsent with ⟨e, hto, rfl, rfl⟩
      have hnotifying : q ∈ s.store.storage.notifying := History.mem_notifying.mpr ⟨hpc, hp⟩
      have huntold : q ∈ s.store.storage.untold :=
        List.mem_append_left _ (List.mem_append_left _ hnotifying)
      exact ⟨q, huntold, rfl, remoteKey_of_ackTo h.conns (hwired.notify q huntold) hto,
        hwired.told q hnotifying⟩
  | _ => simp [doAck] at hsent

/-! ## The effect -/

omit [DecidableEq K] in
/-- A step of the storage under the server. -/
theorem effect_of_flow {a : ServerAction K P} {b : StorageAction K P ConnectionId}
    (h : History.Flow b s.store t.store) (hremote : t.remoteKey = s.remoteKey)
    (hinsert : ∀ receiver packet ack sender notify, b = .insert receiver packet ack sender notify →
      a = .connection notify (.transportPacket receiver packet ack) ∧
        s.remoteKey notify = some sender ∧ sender = issuer packet)
    (hmark : ∀ handle, b = .markAsAcked handle → ∃ c k, a = .connection c (.ackPacket handle.ack) ∧
      s.remoteKey c = some k ∧
      ∀ row, s.store.ledger.Known row → row.ack = handle.ack → row.receiver = k)
    (hoffered : ∀ c n packet, (c, .transportPacket n packet) ∈ s.emitted a →
      ∃ k, s.remoteKey c = some k ∧ s.store.ledger.Known ⟨n, k, packet⟩)
    (htold : ∀ c m n, (c, m) ∈ s.emitted a → m.removed = some n →
      ∃ q ∈ s.store.storage.untold, q.senderAck = n ∧ s.remoteKey c = some q.sender ∧
        s.store.ledger.Known q.row ∧ (q.row ∈ s.store.storage.table ∨ q.ack ∈ s.store.acked)) :
    Effect issuer a s t where
  remoteKey := by
    rw [hremote]
    exact fun _ _ hk => hk
  remoteKeyNew := by
    rw [hremote]
    exact fun _ _ hk => Or.inl hk
  known := h.known
  knownNew := by
    intro row hrow
    rcases h.knownNew row hrow with hold | ⟨ack, sender, notify, hb⟩
    · exact Or.inl hold
    · rcases hinsert _ _ _ _ _ hb with ⟨ha, hc, hsender⟩
      exact Or.inr ⟨notify, ack, ha, hsender ▸ hc⟩
  untold := by
    intro q hq
    rcases h.untold q hq with hold | hb
    · exact Or.inl hold
    · rcases hinsert _ _ _ _ _ hb with ⟨ha, hc, _⟩
      exact Or.inr ⟨ha, hc⟩
  marked := by
    intro n hn
    rcases h.marked n hn with hold | ⟨handle, hb, rfl⟩
    · exact Or.inl hold
    · exact Or.inr (hmark handle hb)
  table := h.table
  offered := hoffered
  told := htold

omit [DecidableEq K] in
/-- A step that leaves the storage alone. -/
theorem effect_of_store {a : ServerAction K P} (hstore : t.store = s.store)
    (hremote : ∀ c k, s.remoteKey c = some k → t.remoteKey c = some k)
    (hremoteNew : ∀ c k, t.remoteKey c = some k → s.remoteKey c = some k ∨ a = .connected c k)
    (hoffered : ∀ c n packet, (c, .transportPacket n packet) ∈ s.emitted a →
      ∃ k, s.remoteKey c = some k ∧ s.store.ledger.Known ⟨n, k, packet⟩)
    (htold : ∀ c m n, (c, m) ∈ s.emitted a → m.removed = some n →
      ∃ q ∈ s.store.storage.untold, q.senderAck = n ∧ s.remoteKey c = some q.sender ∧
        s.store.ledger.Known q.row ∧ (q.row ∈ s.store.storage.table ∨ q.ack ∈ s.store.acked)) :
    Effect issuer a s t := by
  refine ⟨hremote, hremoteNew, ?_, ?_, ?_, ?_, ?_, hoffered, htold⟩ <;> rw [hstore]
  · exact fun _ h => h
  · exact fun _ h => Or.inl h
  · exact fun _ h => Or.inl h
  · exact fun _ h => Or.inl h
  · exact fun _ h => Or.inl h

omit [DecidableEq K] in
theorem withoutClose_of_storeStep {a : ConnectionAction K P} {b : StorageAction K P ConnectionId}
    (h : StoreStep issuer s c conn a b) : b.WithoutClose := by
  cases h <;> trivial

omit [DecidableEq K] in
/-- A connection sends no acks; the storage does. -/
theorem removed_of_emittedBy {a : ConnectionAction K P} {d : ConnectionId} {m : ToClient P}
    (h : (d, m) ∈ s.emittedBy c conn a) : m.removed = none := by
  cases a with
  | hello =>
      simp only [emittedBy, List.mem_singleton, Prod.mk.injEq] at h
      rw [h.2]
      rfl
  | sendNext =>
      rcases hhandler : conn.handler with _ | _ | _ | _ | ⟨_ | ⟨x, packets⟩⟩ | _ <;>
        simp only [emittedBy, hhandler, List.not_mem_nil, List.mem_singleton, Prod.mk.injEq] at h
      rw [h.2]
      rfl
  | forward =>
      rcases hhandler : conn.handler with _ | _ | _ | _ | _ | ⟨receiver, handle, packet'⟩ <;>
        simp only [emittedBy, hhandler, List.not_mem_nil, List.mem_map, Prod.mk.injEq] at h
      rcases h with ⟨_, _, _, rfl⟩
      rfl
  | _ => simp [emittedBy] at h

theorem effect_connectionStep (h : Inv table s) (hwired : s.Wired)
    (hconn : s.connections c = some conn) {a : ConnectionAction K P}
    (hstep : ConnectionStep issuer s c conn a t) : Effect issuer (.connection c a) s t := by
  have hremote := remoteKey_connectionStep hconn hstep
  have hemitted : s.emitted (.connection c a) = s.emittedBy c conn a := by simp [emitted, hconn]
  have hoffered : ∀ d n packet, (d, .transportPacket n packet) ∈ s.emitted (.connection c a) →
      ∃ k, s.remoteKey d = some k ∧ s.store.ledger.Known ⟨n, k, packet⟩ := by
    rw [hemitted]
    exact fun _ _ _ hsent => offered_by h hwired hconn hsent
  have htold : ∀ d m n, (d, m) ∈ s.emitted (.connection c a) → m.removed = some n →
      ∃ q ∈ s.store.storage.untold, q.senderAck = n ∧ s.remoteKey d = some q.sender ∧
        s.store.ledger.Known q.row ∧
          (q.row ∈ s.store.storage.table ∨ q.ack ∈ s.store.acked) := by
    rw [hemitted]
    intro d m n hsent hremoved
    rw [removed_of_emittedBy hsent] at hremoved
    exact absurd hremoved (by simp)
  rcases store_connectionStep h hconn hstep with hstore | ⟨b, hb, hflow⟩
  · refine effect_of_store hstore ?_ ?_ hoffered htold <;> rw [hremote]
    · exact fun _ _ hk => hk
    · exact fun _ _ hk => Or.inl hk
  refine effect_of_flow (History.flow_step (withoutClose_of_storeStep hb) h.store hflow)
    hremote ?_ ?_ hoffered htold
  · intro receiver packet ack sender notify heq
    cases hb with
    | insert receiver' packet' ack' hid =>
        cases heq
        refine ⟨rfl, ?_, rfl⟩
        rw [remoteKey_of_connection hconn, (hwired.genuine c conn hconn).id _ hid]
    | _ => exact absurd heq (by simp)
  · intro handle heq
    cases hb with
    | markAsAcked n handle' hfind =>
        cases heq
        have hsafe := h.connections c conn hconn
        have hack := findAck_ack (fun entry hentry => (hsafe.ackMap entry hentry).1) hfind
        refine ⟨c, conn.remoteKeyId, by rw [hack], remoteKey_of_connection hconn, ?_⟩
        exact (owned_of_findAck hsafe hfind).receiver
    | _ => exact absurd heq (by simp)

/-- Every step of the server has the effect. -/
theorem effect_step (h : Inv table s) (hwired : s.Wired) {a : ServerAction K P}
    (hstep : step issuer a s = some t) : Effect issuer a s t := by
  cases a with
  | connected c k =>
      simp only [step, Option.ite_none_right_eq_some, Option.some.injEq,
        Option.isNone_iff_eq_none] at hstep
      rcases hstep with ⟨hfree, rfl⟩
      refine effect_of_store rfl ?_ ?_ (by simp [emitted]) (by simp [emitted])
      · intro d k' hk
        have hne : d ≠ c := by
          rintro rfl
          simp [remoteKey, hfree] at hk
        simpa [remoteKey, setConnection, Function.update_of_ne hne] using hk
      · intro d k' hk
        by_cases hsame : d = c
        · right
          rw [hsame] at hk ⊢
          have heq : k = k' := by simpa [remoteKey, setConnection] using hk
          rw [heq]
        · left
          simpa [remoteKey, setConnection, Function.update_of_ne hsame] using hk
  | connection c a =>
      rcases Option.eq_none_or_eq_some (s.connections c) with hnone | ⟨conn, hconn⟩
      · simp [step, hnone] at hstep
      · simp only [step, hconn] at hstep
        exact effect_connectionStep h hwired hconn (connectionStep_cases hstep)
  | storage a =>
      simp only [step, Option.ite_none_right_eq_some] at hstep
      rcases hstep with ⟨ha, hstep⟩
      rcases Option.map_eq_some_iff.mp hstep with ⟨u, hu, rfl⟩
      have hflow := History.flow_step (History.withoutClose_of_ofStorage ha) h.store hu
      refine effect_of_flow hflow rfl ?_ ?_ ?_ ?_
      · rintro receiver packet ack sender notify rfl
        exact absurd ha (by simp [StorageAction.ofStorage])
      · rintro handle rfl
        exact absurd ha (by simp [StorageAction.ofStorage])
      · intro c n packet hsent
        simp [emitted] at hsent
      · intro c m n hsent hremoved
        rcases List.mem_map.mp hsent with ⟨⟨d, n'⟩, hdo, heq⟩
        simp only [Prod.mk.injEq] at heq
        rcases heq with ⟨rfl, rfl⟩
        obtain rfl : n' = n := Option.some.inj hremoved
        exact told_by h hwired hu hdo

theorem wired_step (h : Inv table s) (hwired : s.Wired) {a : ServerAction K P}
    (hstep : step issuer a s = some t) : t.Wired := by
  have heffect := effect_step h hwired hstep
  have htold : t.store.Told := by
    cases a with
    | connected c k =>
        simp only [step, Option.ite_none_right_eq_some, Option.some.injEq] at hstep
        rcases hstep with ⟨_, rfl⟩
        exact hwired.told
    | connection c a =>
        rcases Option.eq_none_or_eq_some (s.connections c) with hnone | ⟨conn, hconn⟩
        · simp [step, hnone] at hstep
        simp only [step, hconn] at hstep
        rcases store_connectionStep h hconn (connectionStep_cases hstep) with hstore | ⟨b, hb, hu⟩
        · rw [hstore]
          exact hwired.told
        · exact History.told_step
            (History.flow_step (withoutClose_of_storeStep hb) h.store hu) hwired.told
    | storage a =>
        simp only [step, Option.ite_none_right_eq_some] at hstep
        rcases hstep with ⟨ha, hstep⟩
        rcases Option.map_eq_some_iff.mp hstep with ⟨u, hu, rfl⟩
        exact History.told_step
          (History.flow_step (History.withoutClose_of_ofStorage ha) h.store hu) hwired.told
  refine ⟨?_, ?_, htold⟩
  · cases a with
    | connected c k =>
        simp only [step, Option.ite_none_right_eq_some, Option.some.injEq] at hstep
        rcases hstep with ⟨_, rfl⟩
        intro d found hfound
        rcases setConnection_cases hfound with rfl | hold
        · exact genuine_of_idle (by simp) (Or.inl rfl)
        · exact hwired.genuine d found hold
    | connection c a =>
        rcases Option.eq_none_or_eq_some (s.connections c) with hnone | ⟨conn, hconn⟩
        · simp [step, hnone] at hstep
        simp only [step, hconn] at hstep
        exact genuine_connectionStep h hwired hconn (connectionStep_cases hstep) heffect.known
    | storage a =>
        simp only [step, Option.ite_none_right_eq_some] at hstep
        rcases Option.map_eq_some_iff.mp hstep.2 with ⟨u, hu, rfl⟩
        intro d found hfound
        exact genuine_mono heffect.known (hwired.genuine d found hfound)
  · intro q hq
    rcases heffect.untold q hq with hold | ⟨_, hnew⟩
    · exact heffect.remoteKey _ _ (hwired.notify q hold)
    · exact heffect.remoteKey _ _ hnew

theorem init_wired (table : List (Row K P)) : (init table : Server K P).Wired := by
  refine ⟨?_, ?_, ?_⟩
  · intro c conn hconn
    exact absurd hconn (by simp [init])
  · intro q hq
    exact absurd hq (by simp [init, History.init, PacketStorage.init, PacketStorage.untold,
      PacketStorage.notifying, PacketStorage.writing, PacketStorage.waiting])
  · intro q hq
    exact absurd hq (by simp [init, History.init, PacketStorage.init, PacketStorage.notifying])

end Server

end Securepath.PacketTransport
