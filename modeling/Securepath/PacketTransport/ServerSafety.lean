import Securepath.PacketTransport.Server

/-!
# What the packet server guarantees

Whatever the connections send, a packet is marked as acked only for its
receiver (`marked_by_receiver`), and a packet is sent to a connection once
unless the connection's `on_connect` and a `transport_packet` both have it
(`sent_once`).
-/

namespace Securepath.PacketTransport

namespace History

variable {K P N : Type} [DecidableEq K] {s t : History K P N}

omit [DecidableEq K] in
theorem withoutClose_of_ofStorage {a : StorageAction K P N} (h : a.ofStorage = true) :
    a.WithoutClose := by
  cases a <;> trivial

/-- The handle is one of the storage's, and its packet is for the receiver. -/
structure Owned (s : History K P N) (h : PacketHandle) (receiver : K) : Prop where
  handle : h ∈ s.handles
  receiver : ∀ row, s.ledger.Known row → row.ack = h.ack → row.receiver = receiver

theorem handles_step {a : StorageAction K P N} (hstep : step a s = some t) :
    (∀ h ∈ s.handles, h ∈ t.handles) ∧
      ∀ p ∈ t.inserted, p ∈ s.inserted ∨ ⟨p.ack, true⟩ ∈ t.handles := by
  cases a with
  | insert receiver packet senderAck sender notify =>
      rcases Option.some.inj hstep with rfl
      refine ⟨fun h hh => List.mem_cons_of_mem _ hh, ?_⟩
      intro p hp
      rcases List.mem_append.mp hp with hp | hp
      · exact Or.inl hp
      · rw [List.mem_singleton.mp hp]
        exact Or.inr (List.mem_cons_self ..)
  | query receiver =>
      rcases Option.some.inj hstep with rfl
      exact ⟨fun h hh => List.mem_append_right _ hh, fun p hp => Or.inl hp⟩
  | markAsAcked handle =>
      simp only [step, Option.ite_none_right_eq_some, Option.some.injEq] at hstep
      rcases hstep with ⟨_, rfl⟩
      exact ⟨fun h hh => hh, fun p hp => Or.inl hp⟩
  | threadWrite ok =>
      rcases Option.map_eq_some_iff.mp hstep with ⟨u, hu, rfl⟩
      rcases noteWrite_frame (s := s) ok s.storage.p u with ⟨_, hinserted, _, _, _, hhandles⟩
      rw [hinserted, hhandles]
      exact ⟨fun h hh => hh, fun p hp => Or.inl hp⟩
  | purgeWrite ok =>
      rcases Option.map_eq_some_iff.mp hstep with ⟨u, hu, rfl⟩
      rcases noteWrite_frame (s := s) ok s.storage.queue[s.storage.queueIndex]? u with
        ⟨_, hinserted, _, _, _, hhandles⟩
      rw [hinserted, hhandles]
      exact ⟨fun h hh => hh, fun p hp => Or.inl hp⟩
  | _ =>
      rcases Option.map_eq_some_iff.mp hstep with ⟨u, hu, rfl⟩
      exact ⟨fun h hh => hh, fun p hp => Or.inl hp⟩

/-- The storage itself marks nothing. -/
theorem acked_step {a : StorageAction K P N} (ha : a.ofStorage = true)
    (hstep : step a s = some t) :
    ∀ ack ∈ t.acked ++ t.storage.removing, ack ∈ s.acked ++ s.storage.removing := by
  intro ack hack
  have hstorage := storage_step hstep
  cases a with
  | pushRemove a =>
      rcases Option.map_eq_some_iff.mp hstep with ⟨u, hu, rfl⟩
      rcases PacketStorage.pushRemove_eq_some hu with ⟨hmem, rfl⟩
      simp only [List.mem_append, List.mem_cons] at hack ⊢
      rcases hack with (rfl | hack) | hack
      · exact Or.inr hmem
      · exact Or.inl hack
      · exact Or.inr (List.mem_of_mem_erase hack)
  | nextPacket =>
      rcases Option.map_eq_some_iff.mp hstep with ⟨u, hu, rfl⟩
      rcases PacketStorage.nextPacket_eq_some hu with ⟨_, rfl⟩
      exact hack
  | testFlag =>
      rcases Option.map_eq_some_iff.mp hstep with ⟨u, hu, rfl⟩
      rcases PacketStorage.testFlag_eq_some hu with ⟨_, ⟨_, rfl⟩ | ⟨p, _, rfl⟩⟩ <;> exact hack
  | threadWrite ok =>
      rcases Option.map_eq_some_iff.mp hstep with ⟨u, hu, rfl⟩
      rw [storage_noteWrite, (noteWrite_frame (s := s) ok s.storage.p u).2.2.2.1] at hack
      rcases PacketStorage.threadWrite_eq_some hu with ⟨_, p, _, ⟨_, _, rfl⟩ | ⟨_, rfl⟩⟩ <;>
        exact hack
  | threadNotify =>
      rcases Option.map_eq_some_iff.mp hstep with ⟨u, hu, rfl⟩
      rcases PacketStorage.threadNotify_eq_some hu with ⟨_, rfl⟩
      exact hack
  | threadRemove ok =>
      rcases Option.map_eq_some_iff.mp hstep with ⟨u, hu, rfl⟩
      rcases PacketStorage.threadRemove_eq_some hu with ⟨_, rfl⟩
      exact hack
  | _ => exact absurd ha (by simp [StorageAction.ofStorage])

theorem known_step {a : StorageAction K P N} (hstep : step a s = some t) {row : Row K P}
    (hrow : t.ledger.Known row) : s.ledger.Known row ∨ row.ack = s.storage.sequence + 1 := by
  rcases step_frame hstep with ⟨hinitial, hinserted, _⟩
  rcases hrow with hrow | ⟨p, hp, rfl⟩
  · have hmem : row ∈ t.initial := hrow
    rw [hinitial] at hmem
    exact Or.inl (Or.inl hmem)
  · have hmem : p ∈ t.inserted := hp
    rcases hinserted with hsame | ⟨q, hack, hnew⟩
    · rw [hsame] at hmem
      exact Or.inl (Or.inr ⟨p, hmem, rfl⟩)
    · rw [hnew, List.mem_append, List.mem_singleton] at hmem
      rcases hmem with hmem | rfl
      · exact Or.inl (Or.inr ⟨p, hmem, rfl⟩)
      · exact Or.inr hack

/-- A handle stays with its receiver. -/
theorem owned_step {a : StorageAction K P N} (hacks : s.ledger.Acks) (hstep : step a s = some t)
    {h : PacketHandle} {receiver : K} (howned : Owned s h receiver) : Owned t h receiver := by
  refine ⟨(handles_step hstep).1 h howned.handle, ?_⟩
  intro row hrow hack
  rcases known_step hstep hrow with hold | hnew
  · exact howned.receiver row hold hack
  · rcases hacks.handles_known h howned.handle with ⟨row', hrow', heq⟩
    have hle := hacks.known_le row' hrow'
    have hsequence : row'.ack ≤ s.storage.sequence := hle
    omega

omit [DecidableEq K] in
theorem owned_of_known {h : PacketHandle} {row : Row K P} (hacks : s.ledger.Acks)
    (hh : h ∈ s.handles) (hrow : s.ledger.Known row) (hack : row.ack = h.ack) :
    Owned s h row.receiver := by
  refine ⟨hh, ?_⟩
  intro row' hrow' hack'
  rw [hacks.known_inj row' row hrow' hrow (hack'.trans hack.symm)]

end History

/-! ## Handles and their receivers -/

/-- The pending packets that the handler of a connection has. -/
def Handler.packets {K P : Type} : Handler K P → List (StoredPacket P)
  | .found packets | .collected packets | .sending packets => packets
  | _ => []

/-- What a connection has is for its remote key. -/
structure Connection.Safe {K P : Type} [DecidableEq K] (store : History K P ConnectionId)
    (conn : Connection K P) : Prop where
  ackMap : ∀ entry ∈ conn.ackMap, entry.1 = entry.2.ack ∧ store.Owned entry.2 conn.remoteKeyId
  packets : ∀ x ∈ conn.handler.packets, store.Owned x.handle conn.remoteKeyId
  forwarding : ∀ receiver h packet, conn.handler = .forwarding receiver h packet →
    store.Owned h receiver

namespace Server

variable {K P : Type} [DecidableEq K]

structure Inv (table : List (Row K P)) (s : Server K P) : Prop where
  store : s.store.OpenInv table
  handles : ∀ p ∈ s.store.inserted, ⟨p.ack, true⟩ ∈ s.store.handles
  connections : ∀ c conn, s.connections c = some conn → conn.Safe s.store
  conns : ∀ k c, s.conns k = some c →
    ∃ conn, s.connections c = some conn ∧ conn.remoteKeyId = k
  marked : ∀ m ∈ s.marked, ∃ conn h, s.connections m.1 = some conn ∧ h.ack = m.2 ∧
    s.store.Owned h conn.remoteKeyId
  acked : ∀ ack ∈ s.store.acked ++ s.store.storage.removing, ∃ c, (c, ack) ∈ s.marked

variable {table : List (Row K P)} {s t : Server K P}

theorem init_inv (h : History.IsPacketsTable table) : Inv table (init table) where
  store := History.open_init h
  handles := fun p hp => absurd hp List.not_mem_nil
  connections := fun c conn hconn => absurd hconn (by simp [init])
  conns := fun k c hc => absurd hc (by simp [init])
  marked := fun m hm => absurd hm List.not_mem_nil
  acked := fun ack hack => absurd hack List.not_mem_nil

theorem safe_step {a : StorageAction K P ConnectionId} {store store' : History K P ConnectionId}
    {conn : Connection K P} (hacks : store.ledger.Acks) (hstep : History.step a store = some store')
    (h : conn.Safe store) : conn.Safe store' where
  ackMap := fun entry hentry =>
    ⟨(h.ackMap entry hentry).1, History.owned_step hacks hstep (h.ackMap entry hentry).2⟩
  packets := fun x hx => History.owned_step hacks hstep (h.packets x hx)
  forwarding := fun receiver handle packet hforwarding =>
    History.owned_step hacks hstep (h.forwarding receiver handle packet hforwarding)

/-- A step of the storage, with the marks that it makes. -/
theorem inv_store (h : Inv table s) (a : StorageAction K P ConnectionId) (ha : a.WithoutClose)
    {u : History K P ConnectionId} (hstep : History.step a s.store = some u)
    (marks : List (ConnectionId × Nat))
    (hmarks : ∀ m ∈ marks, ∃ conn h, s.connections m.1 = some conn ∧ h.ack = m.2 ∧
      s.store.Owned h conn.remoteKeyId)
    (hacked : ∀ ack ∈ u.acked ++ u.storage.removing,
      ack ∈ s.store.acked ++ s.store.storage.removing ∨ ∃ c, (c, ack) ∈ marks) :
    Inv table { s with store := u, marked := marks ++ s.marked } := by
  have hacks := h.store.inv.ledger.acks
  refine ⟨History.open_step ha h.store hstep, ?_, ?_, h.conns, ?_, ?_⟩
  · intro p hp
    rcases (History.handles_step hstep).2 p hp with hold | hnew
    · exact (History.handles_step hstep).1 _ (h.handles p hold)
    · exact hnew
  · intro c conn hconn
    exact safe_step hacks hstep (h.connections c conn hconn)
  · intro m hm
    have hold : ∃ conn h, s.connections m.1 = some conn ∧ h.ack = m.2 ∧
        s.store.Owned h conn.remoteKeyId := by
      rcases List.mem_append.mp hm with hm | hm
      · exact hmarks m hm
      · exact h.marked m hm
    rcases hold with ⟨conn, handle, hconn, hack, howned⟩
    exact ⟨conn, handle, hconn, hack, History.owned_step hacks hstep howned⟩
  · intro ack hack
    rcases hacked ack hack with hold | ⟨c, hnew⟩
    · rcases h.acked ack hold with ⟨c, hc⟩
      exact ⟨c, List.mem_append_right _ hc⟩
    · exact ⟨c, List.mem_append_left _ hnew⟩

/-- A connection goes on. -/
theorem inv_setConnection (h : Inv table s) {c : ConnectionId} {conn : Connection K P}
    (hconn : s.connections c = some conn) (conn' : Connection K P)
    (hremote : conn'.remoteKeyId = conn.remoteKeyId)
    (hsafe : conn'.Safe s.store) : Inv table (s.setConnection c conn') := by
  have hkeeps : ∀ d found, s.connections d = some found →
      ∃ found', (s.setConnection c conn').connections d = some found' ∧
        found'.remoteKeyId = found.remoteKeyId := by
    intro d found hfound
    by_cases hsame : d = c
    · rw [hsame] at hfound ⊢
      rw [← Option.some.inj (hconn.symm.trans hfound)]
      exact ⟨conn', by simp [setConnection], hremote⟩
    · exact ⟨found, by simp [setConnection, Function.update_of_ne hsame, hfound], rfl⟩
  refine ⟨h.store, h.handles, ?_, ?_, ?_, h.acked⟩
  · intro d found hfound
    by_cases hsame : d = c
    · rw [hsame] at hfound
      have heq : conn' = found := by simpa [setConnection] using hfound
      rw [← heq]
      exact hsafe
    · exact h.connections d found
        (by simpa [setConnection, Function.update_of_ne hsame] using hfound)
  · intro k d hd
    rcases h.conns k d hd with ⟨found, hfound, hkey⟩
    rcases hkeeps d found hfound with ⟨found', hfound', hsame⟩
    exact ⟨found', hfound', hsame.trans hkey⟩
  · intro m hm
    rcases h.marked m hm with ⟨found, handle, hfound, hack, howned⟩
    rcases hkeeps m.1 found hfound with ⟨found', hfound', hsame⟩
    exact ⟨found', handle, hfound', hack, hsame ▸ howned⟩

/-! ## Filling the map of acks -/

theorem insertAck_safe {store : History K P ConnectionId} {conn : Connection K P}
    (h : conn.Safe store) {handle : PacketHandle} (howned : store.Owned handle conn.remoteKeyId) :
    (conn.insertAck handle).Safe store ∧
      (conn.insertAck handle).remoteKeyId = conn.remoteKeyId := by
  unfold Connection.insertAck
  by_cases hthere : conn.ackMap.any (·.1 = handle.ack) = true
  · rw [if_pos hthere]
    exact ⟨h, rfl⟩
  · rw [if_neg hthere]
    refine ⟨{ h with ackMap := ?_ }, rfl⟩
    intro entry hentry
    rcases List.mem_cons.mp hentry with rfl | hentry
    · exact ⟨rfl, howned⟩
    · exact h.ackMap entry hentry

theorem insertAcks_safe {store : History K P ConnectionId} (packets : List (StoredPacket P)) :
    ∀ conn : Connection K P, conn.Safe store →
      (∀ x ∈ packets, store.Owned x.handle conn.remoteKeyId) →
      (conn.insertAcks packets).Safe store ∧
        (conn.insertAcks packets).remoteKeyId = conn.remoteKeyId := by
  induction packets with
  | nil => exact fun conn h _ => ⟨h, rfl⟩
  | cons x packets ih =>
      intro conn h howned
      rcases insertAck_safe h (howned x (List.mem_cons_self ..)) with ⟨hsafe, hremote⟩
      rcases ih (conn.insertAck x.handle) hsafe (by
        intro y hy
        rw [hremote]
        exact howned y (List.mem_cons_of_mem _ hy)) with ⟨hsafe', hremote'⟩
      exact ⟨hsafe', hremote'.trans hremote⟩

theorem owned_of_findAck {store : History K P ConnectionId} {conn : Connection K P}
    (h : conn.Safe store) {ack : Nat} {handle : PacketHandle}
    (hfind : conn.findAck ack = some handle) : store.Owned handle conn.remoteKeyId := by
  rcases Option.map_eq_some_iff.mp hfind with ⟨entry, hentry, rfl⟩
  exact (h.ackMap entry (List.mem_of_find?_eq_some hentry)).2

/-! ## The steps -/

/-- A handler that has no packets and forwards nothing. -/
theorem safe_of_idle {store : History K P ConnectionId} {conn conn' : Connection K P}
    (h : conn.Safe store) (hmap : conn'.ackMap = conn.ackMap)
    (hremote : conn'.remoteKeyId = conn.remoteKeyId)
    (hhandler : conn'.handler = .idle ∨ conn'.handler = .published) : conn'.Safe store := by
  refine ⟨?_, ?_, ?_⟩
  · rw [hmap, hremote]
    exact h.ackMap
  · intro x hx
    rcases hhandler with hhandler | hhandler <;> rw [hhandler] at hx <;>
      exact absurd hx List.not_mem_nil
  · intro receiver handle packet hforwarding
    rcases hhandler with hhandler | hhandler <;> rw [hhandler] at hforwarding <;>
      exact absurd hforwarding (by simp)

theorem inv_hello (h : Inv table s) {c : ConnectionId} {conn : Connection K P}
    (hconn : s.connections c = some conn) : Inv table (s.hello c conn) := by
  have hset := inv_setConnection h hconn
    { conn with id := some conn.remoteKeyId, handler := .published } rfl
    (safe_of_idle (h.connections c conn hconn) rfl rfl (Or.inr rfl))
  refine { hset with conns := ?_ }
  intro k d hd
  by_cases hsame : k = conn.remoteKeyId
  · have hc : c = d := by simpa [hello, hsame] using hd
    rw [← hc, hsame]
    exact ⟨{ conn with id := some conn.remoteKeyId, handler := .published },
      by simp [hello, setConnection], rfl⟩
  · exact hset.conns k d (by simpa [hello, setConnection, Function.update_of_ne hsame] using hd)

theorem inv_readIndex (h : Inv table s) {c : ConnectionId} {conn : Connection K P}
    (hconn : s.connections c = some conn) : Inv table (s.readIndex c conn) := by
  refine inv_setConnection h hconn _ rfl
    { (h.connections c conn hconn) with packets := ?_, forwarding := by simp }
  intro x hx
  rcases (History.mem_pendingQueued h.store).mp hx with ⟨p, hp, hreceiver, rfl⟩
  have hacks := h.store.inv.ledger.acks
  have hinserted := hacks.waiting_inserted p (History.mem_waiting_of_queue h.store hp)
  rw [← hreceiver]
  exact History.owned_of_known hacks (h.handles p hinserted) (Or.inr ⟨p, hinserted, rfl⟩) rfl

theorem inv_readStored (h : Inv table s) {c : ConnectionId} {conn : Connection K P}
    (hconn : s.connections c = some conn) {packets : List (StoredPacket P)}
    (hhandler : conn.handler = .found packets) : Inv table (s.readStored c conn packets) := by
  have hstep : History.step (.query conn.remoteKeyId) s.store =
      some (s.store.query conn.remoteKeyId) := rfl
  have hacks := h.store.inv.ledger.acks
  have hquery := inv_store h (.query conn.remoteKeyId) trivial hstep []
    (fun m hm => absurd hm List.not_mem_nil) (fun ack hack => Or.inl hack)
  have hsafe := hquery.connections c conn hconn
  refine inv_setConnection hquery hconn _ rfl { hsafe with packets := ?_, forwarding := by simp }
  intro x hx
  rcases List.mem_append.mp (PacketStorage.mem_of_mem_sortPending hx) with hx | hx
  -- a row of the table: the query has the receiver in its condition
  · rcases History.mem_pendingStored.mp hx with ⟨row, hrow, hreceiver, rfl⟩
    have hhandle : (⟨row.ack, false⟩ : PacketHandle) ∈
        (s.store.query conn.remoteKeyId).handles := by
      apply List.mem_append_left
      exact List.mem_map.mpr ⟨row, List.mem_filter.mpr ⟨hrow, by simpa using hreceiver⟩, rfl⟩
    have howned := History.owned_of_known hquery.store.inv.ledger.acks hhandle
      (hacks.table_known row hrow) rfl
    rw [hreceiver] at howned
    exact howned
  · exact hsafe.packets x (by rw [hhandler]; exact hx)

theorem inv_insertPending (h : Inv table s) {c : ConnectionId} {conn : Connection K P}
    (hconn : s.connections c = some conn) {packets : List (StoredPacket P)}
    (hhandler : conn.handler = .collected packets) :
    Inv table (s.insertPending c conn packets) := by
  have hsafe := h.connections c conn hconn
  have hpackets : ∀ x ∈ packets, s.store.Owned x.handle conn.remoteKeyId := by
    intro x hx
    exact hsafe.packets x (by rw [hhandler]; exact hx)
  rcases insertAcks_safe packets conn hsafe hpackets with ⟨hfilled, hremote⟩
  refine inv_setConnection h hconn _ hremote ⟨hfilled.ackMap, ?_, by simp⟩
  intro x hx
  have howned := hpackets x hx
  rw [← hremote] at howned
  exact howned

theorem inv_sendNext (h : Inv table s) {c : ConnectionId} {conn : Connection K P}
    (hconn : s.connections c = some conn) {packets : List (StoredPacket P)}
    (hhandler : conn.handler = .sending packets) : Inv table (s.sendNext c conn packets) := by
  have hsafe := h.connections c conn hconn
  cases packets with
  | nil => exact inv_setConnection h hconn _ rfl (safe_of_idle hsafe rfl rfl (Or.inl rfl))
  | cons x packets =>
      have hset := inv_setConnection h hconn { conn with handler := .sending packets }
        rfl ⟨hsafe.ackMap, ?_, by simp⟩
      · exact { hset with }
      · intro y hy
        exact hsafe.packets y (by rw [hhandler]; exact List.mem_cons_of_mem _ hy)

theorem inv_transportPacket (h : Inv table s) (issuer : P → K) {c : ConnectionId}
    {conn : Connection K P} (hconn : s.connections c = some conn) (receiver : K) (packet : P)
    (ack : Nat) : Inv table (s.transportPacket issuer c conn receiver packet ack) := by
  unfold transportPacket
  rcases Option.eq_none_or_eq_some conn.id with hid | ⟨id, hid⟩
  · rw [hid]
    exact h
  rw [hid]
  by_cases hissuer : issuer packet = id
  · simp only [if_pos hissuer]
    have hstep : History.step (.insert receiver packet ack id c) s.store =
        some (s.store.insert receiver packet ack id c) := rfl
    have hacks := h.store.inv.ledger.acks
    have hinsert := inv_store h (.insert receiver packet ack id c) trivial hstep []
      (fun m hm => absurd hm List.not_mem_nil) (fun ack hack => Or.inl hack)
    have hsafe := hinsert.connections c conn hconn
    refine inv_setConnection hinsert hconn _ rfl ⟨hsafe.ackMap, by simp [Handler.packets], ?_⟩
    intro receiver' handle packet' hforwarding
    -- the new handle is of the new packet
    have heq : receiver = receiver' ∧ ⟨s.store.storage.sequence + 1, true⟩ = handle ∧
        packet = packet' := by simpa using hforwarding
    rw [← heq.1, ← heq.2.1]
    have hknown : (s.store.insert receiver packet ack id c).ledger.Known
        ⟨s.store.storage.sequence + 1, receiver, packet⟩ :=
      Or.inr ⟨_, List.mem_append_right _ (List.mem_singleton_self _), rfl⟩
    exact History.owned_of_known hinsert.store.inv.ledger.acks (List.mem_cons_self ..) hknown rfl
  · simp only [if_neg hissuer]
    exact h

omit [DecidableEq K] in
theorem findConnection_eq_some {k : K} {d : ConnectionId} {found : Connection K P}
    (h : s.findConnection k = some (d, found)) :
    s.conns k = some d ∧ s.connections d = some found ∧ found.alive = true := by
  unfold findConnection at h
  rcases Option.eq_none_or_eq_some (s.conns k) with hk | ⟨e, hk⟩
  · simp [hk] at h
  rcases Option.eq_none_or_eq_some (s.connections e) with he | ⟨conn, he⟩
  · simp [hk, he] at h
  cases halive : conn.alive with
  | false => simp [hk, he, halive] at h
  | true =>
      have heq : e = d ∧ conn = found := by simpa [hk, he, halive] using h
      rw [← heq.1, ← heq.2]
      exact ⟨hk, he, halive⟩

theorem inv_forward (h : Inv table s) {c : ConnectionId} {conn : Connection K P}
    (hconn : s.connections c = some conn) {receiver : K} {handle : PacketHandle} {packet : P}
    (hhandler : conn.handler = .forwarding receiver handle packet) :
    Inv table (s.forward c conn receiver handle) := by
  have hsafe := h.connections c conn hconn
  have howned : s.store.Owned handle receiver := hsafe.forwarding receiver handle packet hhandler
  have hidle := inv_setConnection h hconn { conn with handler := .idle } rfl
    (safe_of_idle hsafe rfl rfl (Or.inl rfl))
  unfold forward
  rcases Option.eq_none_or_eq_some ((s.setConnection c { conn with handler := .idle }).findConnection
    receiver) with hnone | ⟨⟨d, found⟩, hfound⟩
  · simp only [hnone]
    exact hidle
  · simp only [hfound]
    rcases findConnection_eq_some hfound with ⟨hk, hd, _⟩
    rcases hidle.conns receiver d hk with ⟨found', hfound', hkey⟩
    -- the connection is registered under its own key, which is the receiver of the handle
    have hsame : found' = found := Option.some.inj (hfound'.symm.trans hd)
    rw [hsame] at hkey
    have hfor : s.store.Owned handle found.remoteKeyId := by
      rw [hkey]
      exact howned
    rcases insertAck_safe (hidle.connections d found hd) hfor with ⟨hfilled, hremote⟩
    exact { inv_setConnection hidle hd _ hremote hfilled with }

omit [DecidableEq K] in
theorem acked_markAsAcked (store : History K P ConnectionId) (handle : PacketHandle) :
    ∀ ack ∈ (store.markAsAcked handle).acked ++ (store.markAsAcked handle).storage.removing,
      ack ∈ store.acked ++ store.storage.removing ∨ ack = handle.ack := by
  intro ack hack
  unfold History.markAsAcked at hack
  rcases PacketStorage.remove_eq (s := store.storage) handle with
    ⟨hflag, _, heq⟩ | ⟨hflag, _, _, heq⟩
  · simp only [heq, hflag, if_true, List.mem_append, List.mem_cons] at hack ⊢
    rcases hack with hack | hack | hack
    · exact Or.inl (Or.inl hack)
    · exact Or.inr hack
    · exact Or.inl (Or.inr hack)
  · simp only [heq, hflag, Bool.false_eq_true, if_false, List.mem_append, List.mem_cons] at hack ⊢
    rcases hack with (hack | hack) | hack
    · exact Or.inr hack
    · exact Or.inl (Or.inl hack)
    · exact Or.inl (Or.inr hack)

theorem inv_ackPacket (h : Inv table s) {c : ConnectionId} {conn : Connection K P}
    (hconn : s.connections c = some conn) (ack : Nat) : Inv table (s.ackPacket c conn ack) := by
  unfold ackPacket
  rcases Option.eq_none_or_eq_some (conn.findAck ack) with hnone | ⟨handle, hfind⟩
  · rw [hnone]
    exact h
  · rw [hfind]
    have howned := owned_of_findAck (h.connections c conn hconn) hfind
    have hstep : History.step (.markAsAcked handle) s.store =
        some (s.store.markAsAcked handle) := by
      simp [History.step, howned.handle]
    refine inv_store h (.markAsAcked handle) trivial hstep [(c, handle.ack)] ?_ ?_
    · intro m hm
      rw [List.mem_singleton.mp hm]
      exact ⟨conn, handle, hconn, rfl, howned⟩
    · intro a ha
      rcases acked_markAsAcked s.store handle a ha with hold | rfl
      · exact Or.inl hold
      · exact Or.inr ⟨c, List.mem_singleton_self _⟩

theorem inv_terminate (h : Inv table s) {c : ConnectionId} {conn : Connection K P}
    (hconn : s.connections c = some conn) : Inv table (s.terminate c conn) := by
  have hsafe := h.connections c conn hconn
  exact inv_setConnection h hconn _ rfl ⟨hsafe.ackMap, hsafe.packets, hsafe.forwarding⟩

omit [DecidableEq K] in
/-- A packet is handled, or it ends a connection that has sent no hello. -/
theorem onPacket_eq_some {c : ConnectionId} {conn : Connection K P} {handled : Server K P}
    (h : s.onPacket c conn handled = some t) :
    conn.Ready ∧ ((conn.connectionGood = true ∧ t = handled) ∨
      (conn.connectionGood = false ∧ t = s.terminate c conn)) := by
  simp only [onPacket, Option.ite_none_right_eq_some, Option.some.injEq] at h
  refine ⟨h.1, ?_⟩
  cases hgood : conn.connectionGood with
  | true => exact Or.inl ⟨rfl, by simpa [hgood] using h.2.symm⟩
  | false => exact Or.inr ⟨rfl, by simpa [hgood] using h.2.symm⟩

/-- What a step of a connection does. -/
inductive ConnectionStep (issuer : P → K) (s : Server K P) (c : ConnectionId)
    (conn : Connection K P) : ConnectionAction K P → Server K P → Prop
  | hello (hready : conn.Ready) : ConnectionStep issuer s c conn .hello (s.hello c conn)
  | readIndex (hhandler : conn.handler = .published) :
      ConnectionStep issuer s c conn .readIndex (s.readIndex c conn)
  | readStored (packets : List (StoredPacket P)) (hhandler : conn.handler = .found packets) :
      ConnectionStep issuer s c conn .readStored (s.readStored c conn packets)
  | insertPending (packets : List (StoredPacket P)) (hhandler : conn.handler = .collected packets) :
      ConnectionStep issuer s c conn .insertPending (s.insertPending c conn packets)
  | sendNext (packets : List (StoredPacket P)) (hhandler : conn.handler = .sending packets) :
      ConnectionStep issuer s c conn .sendNext (s.sendNext c conn packets)
  | transportPacket (receiver : K) (packet : P) (ack : Nat) (hready : conn.Ready) :
      ConnectionStep issuer s c conn (.transportPacket receiver packet ack)
        (s.transportPacket issuer c conn receiver packet ack)
  | forward (receiver : K) (handle : PacketHandle) (packet : P)
      (hhandler : conn.handler = .forwarding receiver handle packet) :
      ConnectionStep issuer s c conn .forward (s.forward c conn receiver handle)
  | ackPacket (ack : Nat) (hready : conn.Ready) :
      ConnectionStep issuer s c conn (.ackPacket ack) (s.ackPacket c conn ack)
  | errorPacket (ack : Nat) (hready : conn.Ready) :
      ConnectionStep issuer s c conn (.errorPacket ack) s
  | terminate (a : ConnectionAction K P) (hready : conn.Ready) :
      ConnectionStep issuer s c conn a (s.terminate c conn)

theorem connectionStep_cases {issuer : P → K} {c : ConnectionId} {conn : Connection K P}
    {a : ConnectionAction K P} (h : s.connectionStep issuer c conn a = some t) :
    ConnectionStep issuer s c conn a t := by
  cases a with
  | hello =>
      simp only [connectionStep, Option.ite_none_right_eq_some, Option.some.injEq] at h
      rcases h with ⟨hready, rfl⟩
      exact .hello hready
  | disconnect =>
      simp only [connectionStep, Option.ite_none_right_eq_some, Option.some.injEq] at h
      rcases h with ⟨hready, rfl⟩
      exact .terminate _ hready
  | transportPacket receiver packet ack =>
      rcases onPacket_eq_some h with ⟨hready, ⟨_, rfl⟩ | ⟨_, rfl⟩⟩
      · exact .transportPacket receiver packet ack hready
      · exact .terminate _ hready
  | ackPacket ack =>
      rcases onPacket_eq_some h with ⟨hready, ⟨_, rfl⟩ | ⟨_, rfl⟩⟩
      · exact .ackPacket ack hready
      · exact .terminate _ hready
  | errorPacket ack =>
      rcases onPacket_eq_some h with ⟨hready, ⟨_, rfl⟩ | ⟨_, rfl⟩⟩
      · exact .errorPacket ack hready
      · exact .terminate _ hready
  -- the handler goes on from one place only, elsewhere the step is not enabled
  | readIndex =>
      rcases hhandler : conn.handler with _ | _ | _ | _ | _ | _ <;>
        simp only [connectionStep, hhandler, Option.some.injEq, reduceCtorEq] at h
      rw [← h]
      exact .readIndex hhandler
  | readStored =>
      rcases hhandler : conn.handler with _ | _ | packets | _ | _ | _ <;>
        simp only [connectionStep, hhandler, Option.some.injEq, reduceCtorEq] at h
      rw [← h]
      exact .readStored packets hhandler
  | insertPending =>
      rcases hhandler : conn.handler with _ | _ | _ | packets | _ | _ <;>
        simp only [connectionStep, hhandler, Option.some.injEq, reduceCtorEq] at h
      rw [← h]
      exact .insertPending packets hhandler
  | sendNext =>
      rcases hhandler : conn.handler with _ | _ | _ | _ | packets | _ <;>
        simp only [connectionStep, hhandler, Option.some.injEq, reduceCtorEq] at h
      rw [← h]
      exact .sendNext packets hhandler
  | forward =>
      rcases hhandler : conn.handler with _ | _ | _ | _ | _ | ⟨receiver, handle, packet⟩ <;>
        simp only [connectionStep, hhandler, Option.some.injEq, reduceCtorEq] at h
      rw [← h]
      exact .forward receiver handle packet hhandler

theorem inv_connectionStep (h : Inv table s) {issuer : P → K} {c : ConnectionId}
    {conn : Connection K P} (hconn : s.connections c = some conn) {a : ConnectionAction K P}
    (hstep : ConnectionStep issuer s c conn a t) : Inv table t := by
  cases hstep with
  | hello hready => exact inv_hello h hconn
  | readIndex hhandler => exact inv_readIndex h hconn
  | readStored packets hhandler => exact inv_readStored h hconn hhandler
  | insertPending packets hhandler => exact inv_insertPending h hconn hhandler
  | sendNext packets hhandler => exact inv_sendNext h hconn hhandler
  | transportPacket receiver packet ack hready =>
      exact inv_transportPacket h issuer hconn receiver packet ack
  | forward receiver handle packet hhandler => exact inv_forward h hconn hhandler
  | ackPacket ack hready => exact inv_ackPacket h hconn ack
  | errorPacket ack hready => exact h
  | terminate a hready => exact inv_terminate h hconn

/-- A new connection, which no key and no mark knows yet. -/
theorem inv_connected (h : Inv table s) {c : ConnectionId} (hfree : s.connections c = none)
    (remoteKeyId : K) :
    Inv table (s.setConnection c ⟨remoteKeyId, none, false, true, .idle, []⟩) := by
  have hkeeps : ∀ d found, s.connections d = some found →
      (s.setConnection c ⟨remoteKeyId, none, false, true, .idle, []⟩).connections d =
        some found := by
    intro d found hfound
    have hne : d ≠ c := by
      rintro rfl
      rw [hfree] at hfound
      exact absurd hfound (by simp)
    simp [setConnection, Function.update_of_ne hne, hfound]
  refine ⟨h.store, h.handles, ?_, ?_, ?_, h.acked⟩
  · intro d found hfound
    by_cases hsame : d = c
    · rw [hsame] at hfound
      have heq : ⟨remoteKeyId, none, false, true, .idle, []⟩ = found := by
        simpa [setConnection] using hfound
      rw [← heq]
      exact ⟨fun entry hentry => absurd hentry List.not_mem_nil,
        fun x hx => absurd hx List.not_mem_nil, by simp⟩
    · exact h.connections d found
        (by simpa [setConnection, Function.update_of_ne hsame] using hfound)
  · intro k d hd
    rcases h.conns k d hd with ⟨found, hfound, hkey⟩
    exact ⟨found, hkeeps d found hfound, hkey⟩
  · intro m hm
    rcases h.marked m hm with ⟨found, handle, hfound, hack, howned⟩
    exact ⟨found, handle, hkeeps m.1 found hfound, hack, howned⟩

theorem step_inv {issuer : P → K} {a : ServerAction K P} (h : Inv table s)
    (hstep : step issuer a s = some t) : Inv table t := by
  cases a with
  | connected c remoteKeyId =>
      simp only [step, Option.ite_none_right_eq_some, Option.some.injEq, Option.isNone_iff_eq_none]
        at hstep
      -- the number of the connection is new, so nothing refers to it
      rcases hstep with ⟨hfree, rfl⟩
      exact inv_connected h hfree remoteKeyId
  | connection c a =>
      rcases Option.eq_none_or_eq_some (s.connections c) with hnone | ⟨conn, hconn⟩
      · simp [step, hnone] at hstep
      · simp only [step, hconn] at hstep
        exact inv_connectionStep h hconn (connectionStep_cases hstep)
  | storage a =>
      simp only [step, Option.ite_none_right_eq_some] at hstep
      rcases hstep with ⟨ha, hstep⟩
      rcases Option.map_eq_some_iff.mp hstep with ⟨u, hu, rfl⟩
      have hnext := inv_store h a (History.withoutClose_of_ofStorage ha) hu []
        (fun m hm => absurd hm List.not_mem_nil)
        (fun ack hack => Or.inl (History.acked_step ha hu ack hack))
      exact { hnext with }

/-! ## Acks -/

/-- Only `ackPacket` marks, and only on its own connection. -/
theorem marked_step {issuer : P → K} {a : ServerAction K P} (hstep : step issuer a s = some t) :
    t.marked = s.marked ∨ ∃ c n ack, a = .connection c (.ackPacket n) ∧
      t.marked = (c, ack) :: s.marked := by
  cases a with
  | connected c remoteKeyId =>
      simp only [step, Option.ite_none_right_eq_some, Option.some.injEq] at hstep
      rcases hstep with ⟨_, rfl⟩
      exact Or.inl rfl
  | storage a =>
      simp only [step, Option.ite_none_right_eq_some] at hstep
      rcases Option.map_eq_some_iff.mp hstep.2 with ⟨u, hu, rfl⟩
      exact Or.inl rfl
  | connection c a =>
      rcases Option.eq_none_or_eq_some (s.connections c) with hnone | ⟨conn, hconn⟩
      · simp [step, hnone] at hstep
      simp only [step, hconn] at hstep
      cases connectionStep_cases hstep with
      | sendNext packets hhandler => cases packets <;> exact Or.inl rfl
      | transportPacket receiver packet ack hready =>
          left
          unfold transportPacket
          rcases Option.eq_none_or_eq_some conn.id with hid | ⟨id, hid⟩ <;> rw [hid]
          by_cases hissuer : issuer packet = id
          · simp [hissuer, setConnection]
          · simp [hissuer]
      | forward receiver handle packet hhandler =>
          left
          unfold forward
          rcases Option.eq_none_or_eq_some ((s.setConnection c
            { conn with handler := .idle }).findConnection receiver) with hnone | ⟨⟨d, found⟩, hfound⟩
          · simp only [hnone]
            rfl
          · simp only [hfound]
            rfl
      | ackPacket ack hready =>
          unfold ackPacket
          rcases Option.eq_none_or_eq_some (conn.findAck ack) with hfind | ⟨handle, hfind⟩ <;>
            rw [hfind]
          · exact Or.inl rfl
          · exact Or.inr ⟨c, ack, handle.ack, rfl, rfl⟩
      -- the other steps do not touch `marked`
      | _ => exact Or.inl rfl

/-- A packet is marked as acked while an `ack_packet` of a connection with its
receiver's key is handled, and in no other way. -/
theorem marked_by_receiver {issuer : P → K} (htable : History.IsPacketsTable table)
    {as : List (ServerAction K P)} (hrun : Machine.run (step issuer) as (init table) = some s) :
    (∀ a t, step issuer a s = some t → t.marked = s.marked ∨
      ∃ c n ack, a = .connection c (.ackPacket n) ∧ t.marked = (c, ack) :: s.marked) ∧
    (∀ m ∈ s.marked, ∃ conn, s.connections m.1 = some conn ∧
      ∀ row : Row K P, (row ∈ table ∨ ∃ p ∈ s.store.inserted, p.row = row) → row.ack = m.2 →
        conn.remoteKeyId = row.receiver) ∧
    ∀ ack ∈ s.store.acked ++ s.store.storage.removing, ∃ c, (c, ack) ∈ s.marked := by
  have h : Inv table s := by
    refine @Machine.invariant_of_forall _ _ (step issuer) (Inv table) (fun _ => True) ?_ as _ s
      (fun _ _ => trivial) (init_inv htable) hrun
    intro a s s' _
    exact step_inv
  refine ⟨fun a t hstep => marked_step hstep, ?_, h.acked⟩
  intro m hm
  rcases h.marked m hm with ⟨conn, handle, hconn, hack, howned⟩
  refine ⟨conn, hconn, ?_⟩
  intro row hrow hrowack
  rw [← h.store.initial] at hrow
  exact (howned.receiver row hrow (hrowack.trans hack.symm)).symm

/-! ## Sending once -/

/-- The acks of the packets that were sent to a connection. -/
def sentTo (s : Server K P) (c : ConnectionId) : List Nat :=
  (s.sent.filter (·.1 = c)).map Prod.snd

/-- A read of `on_connect` finds no packet that is in the map of acks, and no
packet is forwarded that is in the map or that `on_connect` has found. -/
def NotTwice (c : ConnectionId) (a : ServerAction K P) (s : Server K P) : Prop :=
  match a with
  | .connection d .readIndex => d = c → ∀ conn, s.connections c = some conn →
      ∀ x ∈ s.store.storage.pendingQueued conn.remoteKeyId, conn.findAck x.handle.ack = none
  | .connection d .readStored => d = c → ∀ conn, s.connections c = some conn →
      ∀ x ∈ s.store.storage.pendingStored conn.remoteKeyId, conn.findAck x.handle.ack = none
  | .connection d .forward => ∀ sender receiver handle packet, s.connections d = some sender →
      sender.handler = .forwarding receiver handle packet → s.conns receiver = some c →
      ∀ conn, s.connections c = some conn → conn.alive = true →
        conn.findAck handle.ack = none ∧ ∀ x ∈ conn.handler.packets, x.handle.ack ≠ handle.ack
  | _ => True

/-- What has been sent is in the map of acks, and what is still to be sent has
not been sent. -/
structure SentInv (c : ConnectionId) (s : Server K P) : Prop where
  nodup : (s.sentTo c).Nodup
  unknown : s.connections c = none → s.sentTo c = []
  mapped : ∀ conn, s.connections c = some conn →
    ∀ ack ∈ s.sentTo c, (conn.findAck ack).isSome
  found : ∀ conn, s.connections c = some conn → ∀ x ∈ conn.handler.packets,
    x.handle.ack ∉ s.sentTo c
  ordered : ∀ conn packets, s.connections c = some conn →
    conn.handler = .collected packets ∨ conn.handler = .sending packets →
    packets.Pairwise fun l r => l.handle.ack < r.handle.ack
  sending : ∀ conn packets, s.connections c = some conn → conn.handler = .sending packets →
    ∀ x ∈ packets, (conn.findAck x.handle.ack).isSome

omit [DecidableEq K] in
theorem findAck_isSome {conn : Connection K P} {ack : Nat} :
    (conn.findAck ack).isSome ↔ ∃ entry ∈ conn.ackMap, entry.1 = ack := by
  simp only [Connection.findAck, Option.isSome_map, List.find?_isSome, decide_eq_true_eq]

omit [DecidableEq K] in
theorem findAck_insertAck {conn : Connection K P} (h : PacketHandle) {ack : Nat}
    (hack : (conn.findAck ack).isSome ∨ ack = h.ack) : ((conn.insertAck h).findAck ack).isSome := by
  rw [findAck_isSome] at hack ⊢
  unfold Connection.insertAck
  by_cases hthere : conn.ackMap.any (·.1 = h.ack) = true
  · rw [if_pos hthere]
    rcases hack with hack | rfl
    · exact hack
    · simpa using hthere
  · rw [if_neg hthere]
    rcases hack with ⟨entry, hentry, heq⟩ | rfl
    · exact ⟨entry, List.mem_cons_of_mem _ hentry, heq⟩
    · exact ⟨(h.ack, h), List.mem_cons_self .., rfl⟩

omit [DecidableEq K] in
theorem findAck_insertAcks (packets : List (StoredPacket P)) {ack : Nat} :
    ∀ conn : Connection K P, ((conn.findAck ack).isSome ∨ ∃ x ∈ packets, x.handle.ack = ack) →
      ((conn.insertAcks packets).findAck ack).isSome := by
  induction packets with
  | nil =>
      rintro conn (hack | ⟨x, hx, _⟩)
      · exact hack
      · exact absurd hx List.not_mem_nil
  | cons x packets ih =>
      intro conn hack
      apply ih (conn.insertAck x.handle)
      rcases hack with hack | ⟨y, hy, heq⟩
      · exact Or.inl (findAck_insertAck x.handle (Or.inl hack))
      · rcases List.mem_cons.mp hy with rfl | hy
        · exact Or.inl (findAck_insertAck y.handle (Or.inr heq.symm))
        · exact Or.inr ⟨y, hy, heq⟩

omit [DecidableEq K] in
theorem sentTo_append (s : Server K P) (c d : ConnectionId) (ack : Nat) :
    sentTo { s with sent := s.sent ++ [(d, ack)] } c =
      if d = c then s.sentTo c ++ [ack] else s.sentTo c := by
  unfold sentTo
  by_cases hsame : d = c <;> simp [hsame]

omit [DecidableEq K] in
/-- Steps that do not reach the connection. -/
theorem sent_frame {c : ConnectionId} (h : SentInv c s)
    (hconnections : t.connections c = s.connections c) (hsent : t.sentTo c = s.sentTo c) :
    SentInv c t := by
  refine ⟨?_, ?_, ?_, ?_, ?_, ?_⟩
  · rw [hsent]
    exact h.nodup
  · rw [hsent, hconnections]
    exact h.unknown
  · rw [hsent, hconnections]
    exact h.mapped
  · rw [hsent, hconnections]
    exact h.found
  · rw [hconnections]
    exact h.ordered
  · rw [hconnections]
    exact h.sending

omit [DecidableEq K] in
/-- The connection goes on, with nothing sent. -/
theorem sent_setConnection {c : ConnectionId} (h : SentInv c s) {conn : Connection K P}
    (hconn : s.connections c = some conn) (conn' : Connection K P)
    (hmapped : ∀ ack, (conn.findAck ack).isSome → (conn'.findAck ack).isSome)
    (hfound : ∀ x ∈ conn'.handler.packets, x.handle.ack ∉ s.sentTo c)
    (hordered : ∀ packets, conn'.handler = .collected packets ∨ conn'.handler = .sending packets →
      packets.Pairwise fun l r => l.handle.ack < r.handle.ack)
    (hsending : ∀ packets, conn'.handler = .sending packets →
      ∀ x ∈ packets, (conn'.findAck x.handle.ack).isSome) :
    SentInv c (s.setConnection c conn') := by
  have hthere : ∀ found, (s.setConnection c conn').connections c = some found → conn' = found := by
    intro found hsame
    simpa [setConnection] using hsame
  refine ⟨h.nodup, ?_, ?_, ?_, ?_, ?_⟩
  · intro hnone
    simp [setConnection] at hnone
  · intro found hsame ack hack
    rw [← hthere found hsame]
    exact hmapped ack (h.mapped conn hconn ack hack)
  · intro found hsame
    rw [← hthere found hsame]
    exact hfound
  · intro found packets hsame
    rw [← hthere found hsame]
    exact hordered packets
  · intro found packets hsame
    rw [← hthere found hsame]
    exact hsending packets

omit [DecidableEq K] in
/-- The handler drops what it has. -/
theorem sent_idle {c : ConnectionId} (h : SentInv c s) {conn : Connection K P}
    (hconn : s.connections c = some conn) (conn' : Connection K P)
    (hmap : conn'.ackMap = conn.ackMap) (hnone : conn'.handler.packets = [])
    (hloop : ∀ packets, conn'.handler ≠ .collected packets ∧ conn'.handler ≠ .sending packets) :
    SentInv c (s.setConnection c conn') := by
  refine sent_setConnection h hconn conn' ?_ ?_ ?_ ?_
  · intro ack hack
    unfold Connection.findAck at hack ⊢
    rw [hmap]
    exact hack
  · rw [hnone]
    exact fun x hx => absurd hx List.not_mem_nil
  · rintro packets (hhandler | hhandler)
    · exact absurd hhandler (hloop packets).1
    · exact absurd hhandler (hloop packets).2
  · intro packets hhandler
    exact absurd hhandler (hloop packets).2

omit [DecidableEq K] in
theorem connections_of_ne {c d : ConnectionId} (hne : c ≠ d) (conn : Connection K P) :
    (s.setConnection d conn).connections c = s.connections c := by
  simp [setConnection, Function.update_of_ne hne]

omit [DecidableEq K] in
/-- A packet is sent that is in the map and not in the handler any more. -/
theorem sent_send {c : ConnectionId} (h : SentInv c s) (conn : Connection K P)
    (hconn : s.connections c = some conn) {ack : Nat} (hmap : (conn.findAck ack).isSome)
    (hfresh : ack ∉ s.sentTo c) (hgone : ∀ x ∈ conn.handler.packets, x.handle.ack ≠ ack) :
    SentInv c { s with sent := s.sent ++ [(c, ack)] } := by
  have hsent := sentTo_append s c c ack
  rw [if_pos rfl] at hsent
  have hthere : ∀ found, s.connections c = some found → conn = found :=
    fun found hfound => Option.some.inj (hconn.symm.trans hfound)
  refine { h with nodup := ?_, unknown := ?_, mapped := ?_, found := ?_ }
  · rw [hsent, List.nodup_append]
    refine ⟨h.nodup, List.nodup_singleton _, ?_⟩
    intro a ha b hb heq
    rw [heq, List.mem_singleton.mp hb] at ha
    exact hfresh ha
  · intro hnone
    have hnone' : s.connections c = none := hnone
    rw [hconn] at hnone'
    exact absurd hnone' (by simp)
  · intro found hfound a ha
    rw [hsent, List.mem_append, List.mem_singleton] at ha
    rcases ha with ha | rfl
    · exact h.mapped found hfound a ha
    · rw [← hthere found hfound]
      exact hmap
  · intro found hfound x hx
    rw [hsent, List.mem_append, List.mem_singleton, not_or]
    refine ⟨h.found found hfound x hx, ?_⟩
    rw [← hthere found hfound] at hx
    exact hgone x hx

omit [DecidableEq K] in
theorem insertAck_handler (conn : Connection K P) (handle : PacketHandle) :
    (conn.insertAck handle).handler = conn.handler := by
  unfold Connection.insertAck
  by_cases hthere : conn.ackMap.any (·.1 = handle.ack) = true
  · rw [if_pos hthere]
  · rw [if_neg hthere]

theorem sent_forward {c d : ConnectionId} (h : SentInv c s) {conn : Connection K P}
    (hconn : s.connections d = some conn) {receiver : K} {handle : PacketHandle} {packet : P}
    (hhandler : conn.handler = .forwarding receiver handle packet)
    (hgood : NotTwice c (.connection d .forward) s) :
    SentInv c (s.forward d conn receiver handle) := by
  have hidle : SentInv c (s.setConnection d { conn with handler := .idle }) := by
    by_cases hsame : c = d
    · rw [← hsame] at hconn ⊢
      exact sent_idle h hconn _ rfl rfl (by simp)
    · exact sent_frame h (connections_of_ne hsame _) rfl
  unfold forward
  rcases Option.eq_none_or_eq_some ((s.setConnection d { conn with handler := .idle }).findConnection
    receiver) with hnone | ⟨⟨e, found⟩, hfound⟩
  · simp only [hnone]
    exact hidle
  simp only [hfound]
  rcases findConnection_eq_some hfound with ⟨hk, he, halive⟩
  -- only the connection that `conns` has for the receiver gets the packet
  by_cases hreached : e = c
  · rw [hreached] at he hk ⊢
    -- the connection as it was before the handler of the sender went on
    have hbefore : found.findAck handle.ack = none ∧
        ∀ x ∈ found.handler.packets, x.handle.ack ≠ handle.ack := by
      by_cases hsame : c = d
      -- the receiver is the sender, whose handler has just become idle
      · rw [← hsame] at hconn he
        have heq : { conn with handler := .idle } = found := by simpa [setConnection] using he
        rw [← heq] at halive ⊢
        exact ⟨(hgood conn receiver handle packet (hsame ▸ hconn) hhandler hk conn hconn halive).1,
          fun x hx => absurd hx List.not_mem_nil⟩
      · rw [connections_of_ne hsame] at he
        exact hgood conn receiver handle packet hconn hhandler hk found he halive
    -- all that was sent is in the map, so what is not in the map was not sent
    have hfresh : handle.ack ∉ s.sentTo c := by
      intro hmem
      have hmapped := hidle.mapped found he handle.ack hmem
      rw [hbefore.1] at hmapped
      exact absurd hmapped (by simp)
    have hset : SentInv c ((s.setConnection d { conn with handler := .idle }).setConnection c
        (found.insertAck handle)) := by
      refine sent_setConnection hidle he _
        (fun ack hack => findAck_insertAck handle (Or.inl hack)) ?_ ?_ ?_
      · rw [insertAck_handler]
        exact hidle.found found he
      · rw [insertAck_handler]
        exact fun packets => hidle.ordered found packets he
      · rw [insertAck_handler]
        intro packets hsending x hx
        exact findAck_insertAck handle (Or.inl (hidle.sending found packets he hsending x hx))
    refine sent_send hset (found.insertAck handle) (by simp [setConnection])
      (findAck_insertAck handle (Or.inr rfl)) hfresh ?_
    rw [insertAck_handler]
    exact hbefore.2
  · refine sent_frame hidle (connections_of_ne (Ne.symm hreached) _) ?_
    have hsent := sentTo_append s c e handle.ack
    rw [if_neg hreached] at hsent
    exact hsent

theorem sent_connectionStep {issuer : P → K} {c d : ConnectionId} (h : SentInv c s)
    {conn : Connection K P} (hconn : s.connections d = some conn) {a : ConnectionAction K P}
    (hgood : NotTwice c (.connection d a) s) (hstep : ConnectionStep issuer s d conn a t) :
    SentInv c t := by
  by_cases hother : c = d
  · rw [← hother] at hconn hstep hgood
    clear hother
    cases hstep with
    | hello hready =>
        have hset := sent_idle h hconn
          { conn with id := some conn.remoteKeyId, handler := .published } rfl rfl (by simp)
        exact { hset with }
    | readIndex hhandler =>
        -- a packet of the queue that was sent is in the map, and the read found none such
        refine sent_setConnection h hconn _ (fun ack hack => hack) ?_ (by simp) (by simp)
        intro x hx hmem
        have hmapped := h.mapped conn hconn _ hmem
        rw [hgood rfl conn hconn x hx] at hmapped
        exact absurd hmapped (by simp)
    | readStored packets hhandler =>
        have hset := sent_setConnection h hconn { conn with
            handler := .collected (PacketStorage.sortPending
              (s.store.storage.pendingStored conn.remoteKeyId ++ packets)) }
          (fun ack hack => hack) ?_ ?_ (by simp)
        · exact { hset with }
        · intro x hx hmem
          rcases List.mem_append.mp (PacketStorage.mem_of_mem_sortPending hx) with hx | hx
          · have hmapped := h.mapped conn hconn _ hmem
            rw [hgood rfl conn hconn x hx] at hmapped
            exact absurd hmapped (by simp)
          · exact h.found conn hconn x (by rw [hhandler]; exact hx) hmem
        -- `std::unique` leaves the acks without duplicates
        · intro sorted hsorted
          have heq : PacketStorage.sortPending
              (s.store.storage.pendingStored conn.remoteKeyId ++ packets) = sorted := by
            simpa using hsorted
          rw [← heq]
          exact PacketStorage.sortPending_acks _
    | insertPending packets hhandler =>
        refine sent_setConnection h hconn _
          (fun ack hack => findAck_insertAcks packets conn (Or.inl hack)) ?_ ?_ ?_
        · intro x hx
          exact h.found conn hconn x (by rw [hhandler]; exact hx)
        · intro sending hsending
          have heq : packets = sending := by simpa using hsending
          rw [← heq]
          exact h.ordered conn packets hconn (Or.inl hhandler)
        · intro sending hsending x hx
          have heq : packets = sending := by simpa using hsending
          rw [← heq] at hx
          exact findAck_insertAcks packets conn (Or.inr ⟨x, hx, rfl⟩)
    | sendNext packets hhandler =>
        cases packets with
        | nil => exact sent_idle h hconn _ rfl rfl (by simp)
        | cons x packets =>
            -- the acks rise, so the head does not come again
            have hordered := h.ordered conn _ hconn (Or.inr hhandler)
            rw [List.pairwise_cons] at hordered
            have hmapped := h.sending conn _ hconn hhandler
            have hset : SentInv c
                (s.setConnection c { conn with handler := .sending packets }) := by
              refine sent_setConnection h hconn _ (fun ack hack => hack) ?_ ?_ ?_
              · intro y hy
                exact h.found conn hconn y (by rw [hhandler]; exact List.mem_cons_of_mem _ hy)
              · intro rest hrest
                have heq : packets = rest := by simpa using hrest
                rw [← heq]
                exact hordered.2
              · intro rest hrest y hy
                have heq : packets = rest := by simpa using hrest
                rw [← heq] at hy
                exact hmapped y (List.mem_cons_of_mem _ hy)
            refine sent_send hset { conn with handler := .sending packets }
              (by simp [setConnection]) (hmapped x (List.mem_cons_self ..)) ?_ ?_
            · exact h.found conn hconn x (by rw [hhandler]; exact List.mem_cons_self ..)
            · intro y hy
              exact Nat.ne_of_gt (hordered.1 y hy)
    | transportPacket receiver packet ack hready =>
        unfold transportPacket
        rcases Option.eq_none_or_eq_some conn.id with hid | ⟨id, hid⟩ <;> rw [hid]
        · exact h
        by_cases hissuer : issuer packet = id
        · simp only [if_pos hissuer]
          have hset := sent_idle h hconn { conn with
            id := some id
            handler := .forwarding receiver ⟨s.store.storage.sequence + 1, true⟩ packet }
            rfl rfl (by simp)
          exact { hset with }
        · simp only [if_neg hissuer]
          exact h
    | forward receiver handle packet hhandler => exact sent_forward h hconn hhandler hgood
    | ackPacket ack hready =>
        unfold ackPacket
        rcases Option.eq_none_or_eq_some (conn.findAck ack) with hfind | ⟨handle, hfind⟩ <;>
          rw [hfind]
        · exact h
        · exact { h with }
    | errorPacket ack hready => exact h
    | terminate a hready =>
        refine sent_setConnection h hconn _ (fun ack hack => hack) (h.found conn hconn) ?_ ?_
        · exact fun packets => h.ordered conn packets hconn
        · exact fun packets => h.sending conn packets hconn
  -- another connection: only `forward` reaches this one
  · have hframe := connections_of_ne (s := s) hother
    cases hstep with
    | forward receiver handle packet hhandler => exact sent_forward h hconn hhandler hgood
    | sendNext packets hhandler =>
        cases packets with
        | nil => exact sent_frame h (hframe _) rfl
        | cons x packets =>
            have hsent := sentTo_append s c d x.handle.ack
            rw [if_neg (Ne.symm hother)] at hsent
            exact sent_frame h (hframe _) hsent
    | transportPacket receiver packet ack hready =>
        unfold transportPacket
        rcases Option.eq_none_or_eq_some conn.id with hid | ⟨id, hid⟩ <;> rw [hid]
        · exact h
        by_cases hissuer : issuer packet = id
        · simp only [if_pos hissuer]
          exact sent_frame h (hframe _) rfl
        · simp only [if_neg hissuer]
          exact h
    | ackPacket ack hready =>
        unfold ackPacket
        rcases Option.eq_none_or_eq_some (conn.findAck ack) with hfind | ⟨handle, hfind⟩ <;>
          rw [hfind]
        · exact h
        · exact { h with }
    | errorPacket ack hready => exact h
    | _ => exact sent_frame h (hframe _) rfl

theorem sent_step {issuer : P → K} {c : ConnectionId} {a : ServerAction K P} (h : SentInv c s)
    (hgood : NotTwice c a s) (hstep : step issuer a s = some t) : SentInv c t := by
  cases a with
  | connected d remoteKeyId =>
      simp only [step, Option.ite_none_right_eq_some, Option.some.injEq, Option.isNone_iff_eq_none]
        at hstep
      rcases hstep with ⟨hfree, rfl⟩
      by_cases hsame : c = d
      · rw [← hsame] at hfree ⊢
        have hnothing := h.unknown hfree
        have hthere : ∀ found,
            (s.setConnection c ⟨remoteKeyId, none, false, true, .idle, []⟩).connections c =
              some found → ⟨remoteKeyId, none, false, true, .idle, []⟩ = found := by
          intro found hfound
          simpa [setConnection] using hfound
        have hsent :
            (s.setConnection c ⟨remoteKeyId, none, false, true, .idle, []⟩).sentTo c = [] :=
          hnothing
        refine ⟨?_, fun _ => hsent, ?_, ?_, ?_, ?_⟩
        · rw [hsent]
          exact List.nodup_nil
        · rw [hsent]
          exact fun _ _ ack hack => absurd hack List.not_mem_nil
        · rw [hsent]
          exact fun _ _ _ _ => List.not_mem_nil
        · rintro found packets hfound (hhandler | hhandler) <;>
            rw [← hthere found hfound] at hhandler <;> simp at hhandler
        · intro found packets hfound hhandler
          rw [← hthere found hfound] at hhandler
          simp at hhandler
      · exact sent_frame h (connections_of_ne hsame _) rfl
  | connection d a =>
      rcases Option.eq_none_or_eq_some (s.connections d) with hnone | ⟨conn, hconn⟩
      · simp [step, hnone] at hstep
      · simp only [step, hconn] at hstep
        exact sent_connectionStep h hconn hgood (connectionStep_cases hstep)
  | storage a =>
      simp only [step, Option.ite_none_right_eq_some] at hstep
      rcases Option.map_eq_some_iff.mp hstep.2 with ⟨u, hu, rfl⟩
      exact sent_frame h rfl rfl

/-- A packet is sent to a connection at most once, as long as no packet gets to
the connection both ways. -/
theorem sent_once {issuer : P → K} {c : ConnectionId} {as : List (ServerAction K P)}
    (hgood : Machine.EachStep (step issuer) (NotTwice c) as (init table))
    (hrun : Machine.run (step issuer) as (init table) = some s) : (s.sentTo c).Nodup := by
  have h : SentInv c s := by
    refine @Machine.invariant _ _ (step issuer) (NotTwice c) (SentInv c) ?_ as _ s hgood ?_ hrun
    · intro a s s' ha hinv
      exact sent_step hinv ha
    · refine ⟨List.nodup_nil, fun _ => rfl, ?_, ?_, ?_, ?_⟩ <;> simp [init]
  exact h.nodup

/-! ## A session -/

namespace Session

/-- The receiver 7 on connection 1 says hello while the sender 5 on connection 0
has a packet for it. -/
def actions : List (ServerAction Nat Nat) :=
  [.connected 0 5, .connection 0 .hello, .connection 0 .readIndex, .connection 0 .readStored,
    .connection 0 .insertPending, .connection 0 .sendNext,
    .connected 1 7, .connection 1 .hello, .connection 0 (.transportPacket 7 40 1),
    .connection 0 .forward, .connection 1 .readIndex, .connection 1 .readStored,
    .connection 1 .insertPending, .connection 1 .sendNext, .connection 1 .sendNext]

/-- The same with the read before the packet comes, and the ack of the receiver. -/
def acked : List (ServerAction Nat Nat) :=
  [.connected 0 5, .connection 0 .hello, .connection 0 .readIndex, .connection 0 .readStored,
    .connection 0 .insertPending, .connection 0 .sendNext,
    .connected 1 7, .connection 1 .hello, .connection 1 .readIndex, .connection 1 .readStored,
    .connection 1 .insertPending, .connection 1 .sendNext,
    .connection 0 (.transportPacket 7 40 1), .connection 0 .forward,
    .connection 1 (.ackPacket 1)]

end Session

/-- The packet is forwarded and found by `on_connect`. -/
theorem sent_twice : ∃ s : Server Nat Nat,
    Machine.run (step fun _ => 5) Session.actions (init []) = some s ∧ ¬ (s.sentTo 1).Nodup := by
  refine ⟨_, rfl, ?_⟩
  decide

theorem marked_by_receiver_acked : ∃ s : Server Nat Nat,
    Machine.run (step fun _ => 5) Session.acked (init []) = some s ∧ s.marked = [(1, 1)] ∧
    ∀ m ∈ s.marked, ∃ conn, s.connections m.1 = some conn ∧
      ∀ row : Row Nat Nat, (row ∈ [] ∨ ∃ p ∈ s.store.inserted, p.row = row) → row.ack = m.2 →
        conn.remoteKeyId = row.receiver := by
  refine ⟨_, rfl, rfl, ?_⟩
  exact (@marked_by_receiver Nat Nat _ [] _ (fun _ => 5) History.isPacketsTable_nil Session.acked
    rfl).2.1

theorem sent_once_forwarded : ∃ s : Server Nat Nat,
    Machine.run (step fun _ => 5) Session.acked (init []) = some s ∧ (s.sentTo 1).Nodup := by
  refine ⟨_, rfl, ?_⟩
  refine @sent_once Nat Nat _ [] _ (fun _ => 5) 1 Session.acked ?_ rfl
  have hother : ∀ {q : Prop}, (0 : Nat) = 1 → q := fun h => absurd h (by decide)
  refine .cons trivial rfl <| .cons trivial rfl <| .cons hother rfl <| .cons hother rfl <|
    .cons trivial rfl <| .cons trivial rfl <| .cons trivial rfl <| .cons trivial rfl <|
    .cons ?_ rfl <| .cons ?_ rfl <| .cons trivial rfl <| .cons trivial rfl <|
    .cons trivial rfl <| .cons ?_ rfl <| .cons trivial rfl trivial
  · intro _ conn hconn x hx
    rw [← Option.some.inj hconn] at hx
    exact absurd hx List.not_mem_nil
  · intro _ conn hconn x hx
    rw [← Option.some.inj hconn] at hx
    exact absurd hx List.not_mem_nil
  · intro sender receiver handle packet _ _ _ conn hconn _
    rw [← Option.some.inj hconn]
    exact ⟨rfl, fun x hx => absurd hx List.not_mem_nil⟩

end Server

end Securepath.PacketTransport
