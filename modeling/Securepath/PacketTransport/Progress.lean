import Securepath.PacketTransport.TransportSafety

/-!
# No packet is stuck

While a client and its connection at the server live, every row of `out_packets`
has something on its way that ends with its removal: the hello that resends all
rows, the packet, the packet at the server whose sender is still to be told, or
the ack. When nothing is on the way, `out_packets` is empty (`drained`). A failed
write is what breaks this: the sender is not told, and nothing is sent again
before the next hello.
-/

namespace Securepath.PacketTransport

/-! ## The storage -/

namespace History

variable {K P N : Type} [DecidableEq K] {s t : History K P N} {table : List (Row K P)}

/-- A packet is owed to its sender until the thread tells it, or fails to write. -/
theorem owed_step {a : StorageAction K P N} (ha : a.WithoutClose) (hs : OpenInv table s)
    (hstep : step a s = some t) : ∀ q ∈ s.storage.untold, q ∈ t.storage.untold ∨
      (a = .threadNotify ∧ s.storage.p = some q) ∨ a = .threadWrite false := by
  have ht := open_step ha hs hstep
  have huntold' : ∀ {q : QueuedPacket K P N}, q ∈ t.storage.untold ↔
      (t.storage.thread.Holds ∧ t.storage.p = some q) ∨ q ∈ t.storage.queue :=
    mem_untold ht.notCalled ht.inv.phases
  have hstorage := storage_step hstep
  intro q hq
  rw [huntold']
  rw [mem_untold hs.notCalled hs.inv.phases] at hq
  cases a with
  | insert receiver packet senderAck sender notify =>
      obtain heq := Option.some.inj hstorage
      rw [← heq]
      exact Or.inl (hq.imp_right (List.mem_append_left _))
  | query receiver =>
      obtain heq := Option.some.inj hstorage
      rw [← heq]
      exact Or.inl hq
  | markAsAcked handle =>
      obtain heq := Option.some.inj hstorage
      rw [← heq]
      rcases PacketStorage.remove_eq (s := s.storage) handle with ⟨_, _, hr⟩ | ⟨_, _, _, hr⟩ <;>
        rw [hr] <;> exact Or.inl hq
  | pushRemove ack =>
      rcases PacketStorage.pushRemove_eq_some hstorage with ⟨_, heq⟩
      rw [heq]
      exact Or.inl hq
  | nextPacket =>
      rcases PacketStorage.nextPacket_eq_some hstorage with ⟨hpc, heq⟩
      have hclose : s.storage.close = false := by
        rw [← Bool.not_eq_true, hs.inv.phases.close_iff]
        exact not_not.mpr hs.notCalled
      rcases hq with ⟨hholds, _⟩ | hq
      · exact absurd hholds (by simp [ThreadPc.Holds, hpc])
      · left
        rw [heq]
        cases hqueue : s.storage.queue with
        | nil => simp [hqueue] at hq
        | cons first rest =>
            rw [hqueue] at hq
            rcases List.mem_cons.mp hq with rfl | hq
            · exact Or.inl ⟨by simp [ThreadPc.Holds, hclose], by simp [hclose]⟩
            · exact Or.inr hq
  | testFlag =>
      rcases PacketStorage.testFlag_eq_some hstorage with ⟨hpc, ⟨hp, heq⟩ | ⟨p, hp, heq⟩⟩
      · rcases hq with ⟨_, hq⟩ | hq
        · rw [hp] at hq
          exact absurd hq (by simp)
        · rw [heq]
          exact Or.inl (Or.inr hq)
      · left
        rw [heq]
        refine hq.imp_left fun hheld => ⟨?_, hheld.2⟩
        cases s.storage.removeFlag p.ack <;> simp [ThreadPc.Holds]
  | threadWrite ok =>
      rcases PacketStorage.threadWrite_eq_some hstorage with ⟨hpc, p, hp, hcases⟩
      rcases hcases with ⟨_, _, heq⟩ | ⟨hfail, heq⟩
      · left
        rw [heq]
        exact hq.imp_left fun hheld => ⟨Or.inr (Or.inr rfl), hheld.2⟩
      · rcases hfail with rfl | ⟨row, hrow, hack⟩
        · exact Or.inr (Or.inr rfl)
        · -- the ack of the packet is a new one, so no row has it
          have hwriting : p ∈ s.storage.writing := by simp [PacketStorage.writing, hpc, hp]
          have hfresh := hs.inv.ledger.rows.fresh p (List.mem_append_left _ hwriting)
          exact absurd hack (hfresh.1 row hrow)
  | threadNotify =>
      rcases PacketStorage.threadNotify_eq_some hstorage with ⟨hpc, heq⟩
      rcases hq with ⟨_, hq⟩ | hq
      · exact Or.inr (Or.inl ⟨rfl, hq⟩)
      · rw [heq]
        exact Or.inl (Or.inr hq)
  | threadRemove ok =>
      rcases PacketStorage.threadRemove_eq_some hstorage with ⟨hpc, heq⟩
      rcases hq with ⟨hholds, _⟩ | hq
      · exact absurd hholds (by simp [ThreadPc.Holds, hpc])
      · rw [heq]
        exact Or.inl (Or.inr hq)
  | _ => exact absurd ha not_false

end History

/-! ## The server -/

/-- A connection that has had no hello has done nothing. -/
def Connection.Introduced {K P : Type} (conn : Connection K P) : Prop :=
  conn.id = none → conn.connectionGood = false ∧ conn.handler = .idle

/-- How a connection can change. -/
structure Connection.Advance {K P : Type} (conn conn' : Connection K P) : Prop where
  alive : conn'.alive = true → conn.alive = true
  introduced : conn.Introduced → conn'.Introduced

namespace Server

variable {K P : Type} [DecidableEq K] {table : List (Row K P)} {s t : Server K P}
  {issuer : P → K} {c : ConnectionId} {conn : Connection K P}

omit [DecidableEq K] in
/-- The handler of a connection that was introduced goes on. -/
theorem advance_of_busy {conn' : Connection K P} (hbusy : conn.handler ≠ .idle)
    (hid : conn'.id = conn.id) (halive : conn'.alive = conn.alive) : conn.Advance conn' := by
  refine ⟨fun h => by rw [← halive]; exact h, ?_⟩
  intro hintroduced hnone
  rw [hid] at hnone
  exact absurd (hintroduced hnone).2 hbusy

omit [DecidableEq K] in
theorem advance_refl (conn : Connection K P) : conn.Advance conn := ⟨fun h => h, fun h => h⟩

omit [DecidableEq K] in
theorem advance_trans {conn' conn'' : Connection K P} (h : conn.Advance conn')
    (h' : conn'.Advance conn'') : conn.Advance conn'' :=
  ⟨fun halive => h.alive (h'.alive halive), fun hnone => h'.introduced (h.introduced hnone)⟩

omit [DecidableEq K] in
theorem advance_insertAck (conn : Connection K P) (h : PacketHandle) :
    conn.Advance (conn.insertAck h) ∧ (conn.insertAck h).alive = conn.alive := by
  unfold Connection.insertAck
  by_cases hthere : conn.ackMap.any (·.1 = h.ack) = true
  · rw [if_pos hthere]
    exact ⟨advance_refl conn, rfl⟩
  · rw [if_neg hthere]
    exact ⟨⟨fun halive => halive, fun hnone => hnone⟩, rfl⟩

omit [DecidableEq K] in
theorem alive_insertAcks (packets : List (StoredPacket P)) : ∀ conn : Connection K P,
    (conn.insertAcks packets).alive = conn.alive := by
  induction packets with
  | nil => exact fun conn => rfl
  | cons x packets ih => exact fun conn => (ih _).trans (advance_insertAck conn x.handle).2

omit [DecidableEq K] in
theorem advance_setConnection (hconn : s.connections c = some conn) {conn' : Connection K P}
    (hadvance : conn.Advance conn') : ∀ d found',
      (s.setConnection c conn').connections d = some found' →
        ∃ found, s.connections d = some found ∧ found.Advance found' := by
  intro d found' hfound
  by_cases heq : d = c
  · rw [heq] at hfound ⊢
    have hconn' : conn' = found' := by simpa [setConnection] using hfound
    exact ⟨conn, hconn, hconn' ▸ hadvance⟩
  · refine ⟨found', ?_, advance_refl found'⟩
    simpa [setConnection, Function.update_of_ne heq] using hfound

theorem advance_connectionStep (hconn : s.connections c = some conn) {a : ConnectionAction K P}
    (hstep : ConnectionStep issuer s c conn a t) : ∀ d found', t.connections d = some found' →
      ∃ found, s.connections d = some found ∧ found.Advance found' := by
  have hset : ∀ conn' : Connection K P, conn.Advance conn' →
      t.connections = (s.setConnection c conn').connections →
      ∀ d found', t.connections d = some found' →
        ∃ found, s.connections d = some found ∧ found.Advance found' := by
    intro conn' hadvance hsame
    rw [hsame]
    exact advance_setConnection hconn hadvance
  have hstays : t.connections = s.connections →
      ∀ d found', t.connections d = some found' →
        ∃ found, s.connections d = some found ∧ found.Advance found' := by
    intro hsame d found' hfound
    rw [hsame] at hfound
    exact ⟨found', hfound, advance_refl found'⟩
  cases hstep with
  | hello hready =>
      refine hset { conn with id := some conn.remoteKeyId, handler := .published } ?_ rfl
      exact ⟨fun h => h, fun _ hnone => absurd hnone (by simp)⟩
  | readIndex hhandler =>
      exact hset { conn with
        handler := .found (s.store.storage.pendingQueued conn.remoteKeyId) }
        (advance_of_busy (by simp [hhandler]) rfl rfl) rfl
  | readStored packets hhandler =>
      exact hset { conn with
        handler := .collected (PacketStorage.sortPending
          (s.store.storage.pendingStored conn.remoteKeyId ++ packets)) }
        (advance_of_busy (by simp [hhandler]) rfl rfl) rfl
  | insertPending packets hhandler =>
      refine hset { conn.insertAcks packets with handler := .sending packets }
        (advance_of_busy (by simp [hhandler]) (remoteKeyId_insertAcks packets conn).2 ?_) rfl
      exact alive_insertAcks packets conn
  | sendNext packets hhandler =>
      cases packets with
      | nil =>
          exact hset { conn with handler := .idle, connectionGood := true }
            (advance_of_busy (by simp [hhandler]) rfl rfl) rfl
      | cons x packets =>
          exact hset { conn with handler := .sending packets }
            (advance_of_busy (by simp [hhandler]) rfl rfl) rfl
  | transportPacket receiver packet ack hready =>
      unfold transportPacket at hset hstays ⊢
      rcases Option.eq_none_or_eq_some conn.id with hid | ⟨id, hid⟩ <;>
        simp only [hid] at hset hstays ⊢
      · exact hstays trivial
      by_cases hissuer : issuer packet = id
      · simp only [if_pos hissuer] at hset ⊢
        refine hset { conn with
          id := some id
          handler := .forwarding receiver ⟨s.store.storage.sequence + 1, true⟩ packet } ?_ rfl
        exact ⟨fun h => h, fun _ hnone => absurd hnone (by simp)⟩
      · simp only [if_neg hissuer] at hstays ⊢
        exact hstays trivial
  | forward receiver handle packet hhandler =>
      have hidle : conn.Advance { conn with handler := .idle } :=
        advance_of_busy (by simp [hhandler]) rfl rfl
      unfold forward at hset hstays ⊢
      rcases Option.eq_none_or_eq_some ((s.setConnection c
        { conn with handler := .idle }).findConnection receiver) with hnone | ⟨⟨d, found⟩, hfound⟩
      · simp only [hnone] at hset ⊢
        exact hset _ hidle rfl
      · simp only [hfound]
        rcases findConnection_eq_some hfound with ⟨_, hd, _⟩
        intro e found' hfound'
        rcases advance_setConnection hd (advance_insertAck found handle).1 e found' hfound' with
          ⟨between, hbetween, hsecond⟩
        rcases advance_setConnection hconn hidle e between hbetween with ⟨first, hold, hfirst⟩
        exact ⟨first, hold, advance_trans hfirst hsecond⟩
  | ackPacket ack hready =>
      unfold ackPacket at hstays ⊢
      rcases Option.eq_none_or_eq_some (conn.findAck ack) with hfind | ⟨handle, hfind⟩ <;>
        simp only [hfind] at hstays ⊢
      · exact hstays trivial
      · exact hstays trivial
  | errorPacket ack hready => exact hstays rfl
  | terminate a hready =>
      refine hset { conn with alive := false } ?_ rfl
      exact ⟨fun h => absurd h (by simp), fun h => h⟩

theorem advance_step {a : ServerAction K P} (hstep : step issuer a s = some t) {d : ConnectionId}
    {found' : Connection K P} (hfound : t.connections d = some found') :
    (∃ found, s.connections d = some found ∧ found.Advance found') ∨
      ∃ k, a = .connected d k ∧ found'.Introduced := by
  cases a with
  | connected c k =>
      simp only [step, Option.ite_none_right_eq_some, Option.some.injEq] at hstep
      rcases hstep with ⟨_, rfl⟩
      by_cases hsame : d = c
      · right
        rw [hsame] at hfound ⊢
        have heq : ⟨k, none, false, true, .idle, []⟩ = found' := by
          simpa [setConnection] using hfound
        rw [← heq]
        exact ⟨k, rfl, fun _ => ⟨rfl, rfl⟩⟩
      · left
        refine ⟨found', ?_, advance_refl found'⟩
        simpa [setConnection, Function.update_of_ne hsame] using hfound
  | connection c a =>
      rcases Option.eq_none_or_eq_some (s.connections c) with hnone | ⟨conn, hconn⟩
      · simp [step, hnone] at hstep
      simp only [step, hconn] at hstep
      exact Or.inl (advance_connectionStep hconn (connectionStep_cases hstep) d found' hfound)
  | storage a =>
      simp only [step, Option.ite_none_right_eq_some] at hstep
      rcases Option.map_eq_some_iff.mp hstep.2 with ⟨u, _, rfl⟩
      exact Or.inl ⟨found', hfound, advance_refl found'⟩

/-- The packet of an introduced client is taken in, or the connection ends. -/
theorem taken_step (h : Inv table s) (hwired : s.Wired)
    (hintroduced : ∀ c conn, s.connections c = some conn → conn.Introduced) {receiver : K}
    {packet : P} {n : Nat}
    (hstep : step issuer (.connection c (.transportPacket receiver packet n)) s = some t)
    (hissuer : s.remoteKey c = some (issuer packet))
    (halive : ∃ conn, t.connections c = some conn ∧ conn.alive = true) :
    ∃ q ∈ t.store.storage.untold, q.notify = c ∧ q.senderAck = n := by
  rcases Option.eq_none_or_eq_some (s.connections c) with hnone | ⟨conn, hconn⟩
  · simp [step, hnone] at hstep
  have hnext := step_inv h hstep
  simp only [step, hconn, connectionStep] at hstep
  rcases onPacket_eq_some hstep with ⟨hready, ⟨hgood, rfl⟩ | ⟨_, rfl⟩⟩
  · -- a good connection has its id, which is the issuer
    rcases Option.eq_none_or_eq_some conn.id with hid | ⟨id, hid⟩
    · have hbad := (hintroduced c conn hconn hid).1
      rw [hgood] at hbad
      exact absurd hbad (by simp)
    have hsame : issuer packet = id := by
      rw [(hwired.genuine c conn hconn).id id hid]
      rw [remoteKey_of_connection hconn] at hissuer
      exact (Option.some.inj hissuer).symm
    have hstore : (s.transportPacket issuer c conn receiver packet n).store =
        s.store.insert receiver packet n id c := by
      simp [transportPacket, hid, hsame]
    refine ⟨s.store.storage.makeQueued receiver packet n id c, ?_, rfl, rfl⟩
    rw [History.mem_untold hnext.store.notCalled hnext.store.inv.phases, hstore]
    exact Or.inr (List.mem_append_right _ (List.mem_singleton_self _))
  · rcases halive with ⟨found, hfound, hlives⟩
    have heq : { conn with alive := false } = found := by
      simpa [terminate, setConnection] using hfound
    rw [← heq] at hlives
    exact absurd hlives (by simp)

/-- The sender of a packet is told on the connection that it came on. -/
theorem owed_step (h : Inv table s) {a : ServerAction K P} (hstep : step issuer a s = some t)
    (hwrite : a ≠ .storage (.threadWrite false)) : ∀ q ∈ s.store.storage.untold,
      q ∈ t.store.storage.untold ∨
      ((∃ conn, s.connections q.notify = some conn ∧ conn.alive = true) →
        (q.notify, .ackPacket q.senderAck) ∈ s.emitted a) := by
  intro q hq
  cases a with
  | connected c k =>
      simp only [step, Option.ite_none_right_eq_some, Option.some.injEq] at hstep
      rcases hstep with ⟨_, rfl⟩
      exact Or.inl hq
  | connection c a =>
      rcases Option.eq_none_or_eq_some (s.connections c) with hnone | ⟨conn, hconn⟩
      · simp [step, hnone] at hstep
      simp only [step, hconn] at hstep
      left
      rcases store_connectionStep h hconn (connectionStep_cases hstep) with hstore | ⟨b, hb, hu⟩
      · rw [hstore]
        exact hq
      · rcases History.owed_step (withoutClose_of_storeStep hb) h.store hu q hq with
          hkept | ⟨rfl, _⟩ | rfl
        · exact hkept
        · cases hb
        · cases hb
  | storage a =>
      simp only [step, Option.ite_none_right_eq_some] at hstep
      rcases hstep with ⟨ha, hstep⟩
      rcases Option.map_eq_some_iff.mp hstep with ⟨u, hu, rfl⟩
      rcases History.owed_step (History.withoutClose_of_ofStorage ha) h.store hu q hq with
        hkept | ⟨rfl, hp⟩ | rfl
      · exact Or.inl hkept
      · right
        rintro ⟨conn, hconn, halive⟩
        simp [emitted, doAck, hp, ackTo, hconn, halive]
      · exact absurd rfl hwrite

end Server

/-! ## The client -/

namespace Client

variable {K P : Type} {s t : Client K P} {out : List (ToServer K P)}

theorem mem_eraseIdx_or {α : Type} {l : List α} {i : Nat} {x y : α} (hy : l[i]? = some y)
    (hx : x ∈ l) : x ∈ l.eraseIdx i ∨ x = y := by
  rcases List.mem_iff_getElem?.mp hx with ⟨j, hj⟩
  by_cases hsame : j = i
  · right
    rw [hsame, hy] at hj
    exact (Option.some.inj hj).symm
  · exact Or.inl (List.mem_eraseIdx_iff_getElem?.mpr ⟨j, hsame, hj⟩)

/-- A step of a client that is greeted behind it: what was in its hands is still
there or sent, unless its hello is still to come; or the hello is sent now. -/
theorem keeps_step {a : ClientAction K P}
    (ha : ∀ receiver packet, a ≠ .insertPacket receiver packet)
    (hstate : s.greeted = true → s.state = .connected) (hstep : step a s = some (t, out))
    (hgreeted : t.greeted = true) : t.state = .connected ∧
      (.hello ∈ out ∨ (s.greeted = true ∧ t.helloDone = s.helloDone ∧
        ∀ p ∈ s.underWay, p ∈ t.underWay ∨ .transportPacket p ∈ out ∨ s.helloDone = false)) := by
  cases a with
  | becomeConnected =>
      simp only [step, Option.ite_none_right_eq_some, Option.some.injEq, Prod.mk.injEq] at hstep
      rcases hstep with ⟨_, rfl, rfl⟩
      exact ⟨rfl, Or.inr ⟨hgreeted, rfl, fun p hp => Or.inl hp⟩⟩
  | onConnected =>
      simp only [step, Option.ite_none_right_eq_some, Option.some.injEq, Prod.mk.injEq] at hstep
      rcases hstep with ⟨hready, rfl, rfl⟩
      exact ⟨hready.1, Or.inl (List.mem_singleton_self _)⟩
  | onDisconnected =>
      simp only [step, Option.some.injEq, Prod.mk.injEq] at hstep
      rcases hstep with ⟨rfl, rfl⟩
      exact absurd hgreeted (by simp [onDisconnected])
  | restart =>
      simp only [step, Option.some.injEq, Prod.mk.injEq] at hstep
      rcases hstep with ⟨rfl, rfl⟩
      exact absurd hgreeted (by simp [onDisconnected])
  | insertPacket receiver packet => exact absurd rfl (ha receiver packet)
  | testConnection call =>
      simp only [step, Option.map_eq_some_iff, Prod.mk.injEq] at hstep
      rcases hstep with ⟨q, hq, rfl, rfl⟩
      have hconnected := hstate hgreeted
      refine ⟨hconnected, Or.inr ⟨hgreeted, rfl, ?_⟩⟩
      intro p hp
      simp only [underWay, List.mem_append] at hp ⊢
      rcases hp with (hp | hp) | hp
      · rcases mem_eraseIdx_or hq hp with hp | rfl
        · exact Or.inl (Or.inl (Or.inl hp))
        -- the call that is tested goes on, or the hello is still to come
        · cases hdone : s.helloDone with
          | false => exact Or.inr (Or.inr rfl)
          | true => simp [hconnected]
      · left; left; right
        split
        · exact List.mem_append_left _ hp
        · exact hp
      · exact Or.inl (Or.inr hp)
  | sendPacket call =>
      simp only [step, Option.map_eq_some_iff, Prod.mk.injEq] at hstep
      rcases hstep with ⟨q, hq, rfl, rfl⟩
      refine ⟨hstate hgreeted, Or.inr ⟨hgreeted, rfl, ?_⟩⟩
      intro p hp
      simp only [underWay, List.mem_append] at hp ⊢
      rcases hp with (hp | hp) | hp
      · exact Or.inl (Or.inl (Or.inl hp))
      · rcases mem_eraseIdx_or hq hp with hp | rfl
        · exact Or.inl (Or.inl (Or.inr hp))
        · exact Or.inr (Or.inl (List.mem_singleton_self _))
      · exact Or.inl (Or.inr hp)
  | sendPending =>
      cases hpending : s.pending with
      | nil => simp [step, hpending] at hstep
      | cons q pending =>
          simp only [step, hpending, Option.some.injEq, Prod.mk.injEq] at hstep
          rcases hstep with ⟨rfl, rfl⟩
          refine ⟨hstate hgreeted, Or.inr ⟨hgreeted, rfl, ?_⟩⟩
          intro p hp
          simp only [underWay, hpending, List.mem_append, List.mem_cons] at hp ⊢
          rcases hp with hp | rfl | hp
          · exact Or.inl (Or.inl hp)
          · exact Or.inr (Or.inl (Or.inl rfl))
          · exact Or.inl (Or.inr hp)
  | markSeen key =>
      simp only [step, Option.some.injEq, Prod.mk.injEq] at hstep
      rcases hstep with ⟨rfl, rfl⟩
      exact ⟨hstate hgreeted, Or.inr ⟨hgreeted, rfl, fun p hp => Or.inl hp⟩⟩

/-- A handler that leaves the client greeted: the hello takes all rows into the
hands of the client, and no other packet takes any from it. -/
theorem keeps_handle {m : ToClient P} (hgreeted : (s.handle m).1.greeted = true) :
    s.greeted = true ∧ (s.handle m).1.state = s.state ∧
      ((m = .hello false ∧ (s.handle m).1.helloDone = true ∧
          ∀ row ∈ (s.handle m).1.outPackets, row ∈ (s.handle m).1.underWay) ∨
        ((∀ e, m ≠ .hello e) ∧ (s.handle m).1.helloDone = s.helloDone ∧
          (s.handle m).1.underWay = s.underWay)) := by
  cases m with
  | hello e =>
      cases e with
      | false =>
          refine ⟨hgreeted, rfl, Or.inl ⟨rfl, rfl, ?_⟩⟩
          exact fun row hrow => List.mem_append_right _ hrow
      | true => exact absurd hgreeted (by simp [handle, onDisconnected])
  | _ => exact ⟨hgreeted, rfl, Or.inr ⟨by simp, rfl, rfl⟩⟩

end Client

/-! ## The transport -/

namespace Transport

variable {K P : Type} [DecidableEq K] {issuer : P → K} {t t' : Transport K P} {k : K}
  {c : ConnectionId}

/-- A client and its connection live. -/
structure Served (t : Transport K P) (k : K) (c : ConnectionId) : Prop where
  connection : (t.clients k).connection = some c
  greeted : (t.clients k).greeted = true
  alive : ∃ conn, t.server.connections c = some conn ∧ conn.alive = true

/-- The hello of a connection is on its way, there or back. -/
def HelloComes (t : Transport K P) (c : ConnectionId) : Prop :=
  .hello ∈ t.toServer c ∨ ∃ e, .hello e ∈ t.toClient c

/-- What is on its way for a row of a client. -/
inductive Owed (t : Transport K P) (k : K) (c : ConnectionId) (row : OutPacket K P) : Prop
  | hello (h : t.HelloComes c)
  | underWay (h : row ∈ (t.clients k).underWay)
  | transport (h : .transportPacket row ∈ t.toServer c)
  | untold (q : QueuedPacket K P ConnectionId) (hq : q ∈ t.server.store.storage.untold)
      (hnotify : q.notify = c) (hack : q.senderAck = row.ack)
  | removed (m : ToClient P) (hm : m ∈ t.toClient c) (hr : m.removed = some row.ack)

structure Active (issuer : P → K) (t : Transport K P) : Prop where
  introduced : ∀ c conn, t.server.connections c = some conn → conn.Introduced
  state : ∀ k, (t.clients k).greeted = true → (t.clients k).state = .connected
  issuer : ∀ k, ∀ row ∈ (t.clients k).outPackets, issuer row.packet = k
  awaited : ∀ k c, t.Served k c → (t.clients k).helloDone = false → t.HelloComes c
  owed : ∀ k c, t.Served k c → ∀ row ∈ (t.clients k).outPackets, t.Owed k c row

/-- The writes of the storage succeed. -/
def WritesSucceed (a : TransportAction K P) : Prop :=
  a ≠ .server (.storage (.threadWrite false))

instance [DecidableEq P] (a : TransportAction K P) : Decidable (WritesSucceed a) :=
  inferInstanceAs (Decidable (a ≠ _))

theorem Served.remoteKey (h : t.Served k c) (hinv : t.Inv) : t.server.remoteKey c = some k := by
  rcases h.alive with ⟨conn, hconn, _⟩
  have hkey := Server.remoteKey_of_connection hconn
  rw [hkey, hinv.owner k c _ h.connection hkey]

omit [DecidableEq K] in
theorem init_active (table : List (Row K P)) : Active issuer (init table : Transport K P) := by
  have hserved : ∀ k c, ¬ (init table : Transport K P).Served k c := by
    intro k c h
    exact absurd h.greeted (by simp [init, Client.init])
  refine ⟨?_, ?_, ?_, fun k c h => absurd h (hserved k c), fun k c h => absurd h (hserved k c)⟩
  · intro c conn hconn
    exact absurd hconn (by simp [init, Server.init])
  · intro k h
    exact absurd h (by simp [init, Client.init])
  · intro k row hrow
    exact absurd hrow List.not_mem_nil

omit [DecidableEq K] in
/-- More is on its way. -/
theorem owed_mono {row : OutPacket K P} (h : t.Owed k c row)
    (hhello : t.HelloComes c → t'.Owed k c row)
    (hunderWay : row ∈ (t.clients k).underWay → t'.Owed k c row)
    (htransport : .transportPacket row ∈ t.toServer c → t'.Owed k c row)
    (huntold : ∀ q ∈ t.server.store.storage.untold, q.notify = c → q.senderAck = row.ack →
      t'.Owed k c row)
    (hremoved : ∀ m ∈ t.toClient c, m.removed = some row.ack → t'.Owed k c row) :
    t'.Owed k c row := by
  cases h with
  | hello h => exact hhello h
  | underWay h => exact hunderWay h
  | transport h => exact htransport h
  | untold q hq hnotify hack => exact huntold q hq hnotify hack
  | removed m hm hr => exact hremoved m hm hr

/-! ## The clients -/

/-- The client that goes on, or another one. -/
theorem forall_clients {Q : K → Client K P → Prop} {client : Client K P}
    (out : List (ToServer K P)) (hclient : Q k client)
    (hother : ∀ k', k' ≠ k → Q k' (t.clients k')) (k' : K) :
    Q k' ((t.setClient k client out).clients k') := by
  by_cases hsame : k' = k
  · rw [hsame, clients_setClient]
    exact hclient
  · rw [clients_setClient_of_ne hsame]
    exact hother k' hsame

theorem mem_toServer_of_mem {client : Client K P} {out : List (ToServer K P)} {c : ConnectionId}
    {m : ToServer K P} (h : m ∈ t.toServer c ∨ ((t.clients k).connection = some c ∧ m ∈ out)) :
    m ∈ (t.setClient k client out).toServer c := by
  rcases hconnection : (t.clients k).connection with _ | d
  · rcases h with h | ⟨h, _⟩
    · simpa [setClient, hconnection] using h
    · rw [hconnection] at h
      exact absurd h (by simp)
  · by_cases hsame : c = d
    · rw [hsame] at h ⊢
      simp only [setClient, hconnection, Function.update_self, List.mem_append]
      exact h.imp_right And.right
    · rcases h with h | ⟨h, _⟩
      · simpa [setClient, hconnection, Function.update_of_ne hsame] using h
      · rw [hconnection] at h
        exact absurd (Option.some.inj h).symm hsame

/-- A client goes on and handles what it handles: its own rows are owed. -/
theorem active_setClient (h : Active issuer t) {client : Client K P} {out : List (ToServer K P)}
    (toClient : ConnectionId → List (ToClient P))
    (hother : ∀ k' c, k' ≠ k → t.Served k' c → ∀ m ∈ t.toClient c, m ∈ toClient c)
    (hstate : client.greeted = true → client.state = .connected)
    (hissuer : ∀ row ∈ client.outPackets, issuer row.packet = k)
    (hawaited : ∀ c, Served { t.setClient k client out with toClient := toClient } k c →
      client.helloDone = false →
      HelloComes { t.setClient k client out with toClient := toClient } c)
    (howed : ∀ c, Served { t.setClient k client out with toClient := toClient } k c →
      ∀ row ∈ client.outPackets,
        Owed { t.setClient k client out with toClient := toClient } k c row) :
    Active issuer { t.setClient k client out with toClient := toClient } := by
  have hmore : ∀ {c : ConnectionId} {m : ToServer K P}, m ∈ t.toServer c →
      m ∈ (t.setClient k client out).toServer c := fun hm => mem_toServer_of_mem (Or.inl hm)
  have hserved : ∀ {k' : K} {c : ConnectionId}, k' ≠ k →
      Served { t.setClient k client out with toClient := toClient } k' c → t.Served k' c := by
    intro k' c hne hs
    have hsame := clients_setClient_of_ne (t := t) hne client out
    exact ⟨hsame ▸ hs.connection, hsame ▸ hs.greeted, hs.alive⟩
  have hcomes : ∀ {k' : K} {c : ConnectionId}, k' ≠ k → t.Served k' c → t.HelloComes c →
      HelloComes { t.setClient k client out with toClient := toClient } c := by
    rintro k' c hne hs (hm | ⟨e, hm⟩)
    · exact Or.inl (hmore hm)
    · exact Or.inr ⟨e, hother k' c hne hs _ hm⟩
  refine ⟨h.introduced, ?_, ?_, ?_, ?_⟩
  · exact forall_clients (Q := fun k' s => s.greeted = true → s.state = .connected) out hstate
      (fun k' _ => h.state k')
  · exact forall_clients (Q := fun k' s => ∀ row ∈ s.outPackets, issuer row.packet = k') out hissuer
      (fun k' _ => h.issuer k')
  · intro k' c hs
    by_cases hsame : k' = k
    · rw [hsame] at hs ⊢
      change ((t.setClient k client out).clients k).helloDone = false → _
      rw [clients_setClient]
      exact hawaited c hs
    · change ((t.setClient k client out).clients k').helloDone = false → _
      rw [clients_setClient_of_ne hsame]
      intro hdone
      exact hcomes hsame (hserved hsame hs) (h.awaited k' c (hserved hsame hs) hdone)
  · intro k' c hs row hrow
    change row ∈ ((t.setClient k client out).clients k').outPackets at hrow
    by_cases hsame : k' = k
    · rw [hsame] at hs hrow ⊢
      rw [clients_setClient] at hrow
      exact howed c hs row hrow
    · rw [clients_setClient_of_ne hsame] at hrow
      have hold := hserved hsame hs
      refine owed_mono (h.owed k' c hold row hrow) (fun hh => .hello (hcomes hsame hold hh)) ?_
        (fun hm => .transport (hmore hm)) (fun q hq hn ha => .untold q hq hn ha)
        (fun m hm hr => .removed m (hother k' c hsame hold m hm) hr)
      intro hw
      apply Owed.underWay
      change row ∈ ((t.setClient k client out).clients k').underWay
      rw [clients_setClient_of_ne hsame]
      exact hw

theorem active_insertPacket (h : Active issuer t) {receiver : K} {packet : P}
    (hissuer : issuer packet = k) :
    Active issuer (t.setClient k ((t.clients k).insertPacket receiver packet) []) := by
  have hserved : ∀ c, (t.setClient k ((t.clients k).insertPacket receiver packet) []).Served k c →
      t.Served k c := by
    intro c hs
    have hconnection := hs.connection
    have hgreeted := hs.greeted
    rw [clients_setClient] at hconnection hgreeted
    exact ⟨hconnection, hgreeted, hs.alive⟩
  have hmore : ∀ {c : ConnectionId} {m : ToServer K P}, m ∈ t.toServer c →
      m ∈ (t.setClient k ((t.clients k).insertPacket receiver packet) []).toServer c :=
    fun hm => mem_toServer_of_mem (Or.inl hm)
  have hway : ∀ p ∈ (t.clients k).underWay ++ [⟨(t.clients k).outKey, receiver, packet⟩],
      p ∈ ((t.clients k).insertPacket receiver packet).underWay := by
    intro p hp
    simp only [Client.underWay, Client.insertPacket, List.mem_append, List.mem_singleton] at hp ⊢
    tauto
  refine active_setClient h t.toClient (fun _ _ _ _ _ hm => hm) (h.state k) ?_ ?_ ?_
  · intro row hrow
    rcases List.mem_append.mp hrow with hrow | hrow
    · exact h.issuer k row hrow
    · rw [List.mem_singleton.mp hrow]
      exact hissuer
  · intro c hs hdone
    exact (h.awaited k c (hserved c hs) hdone).imp_left hmore
  · intro c hs row hrow
    rcases List.mem_append.mp hrow with hrow | hrow
    · refine owed_mono (h.owed k c (hserved c hs) row hrow)
        (fun hh => .hello (hh.imp_left hmore)) ?_ (fun hm => .transport (hmore hm))
        (fun q hq hn ha => .untold q hq hn ha) (fun m hm hr => .removed m hm hr)
      intro hw
      apply Owed.underWay
      rw [clients_setClient]
      exact hway row (List.mem_append_left _ hw)
    · apply Owed.underWay
      rw [clients_setClient]
      exact hway row (List.mem_append_right _ hrow)

theorem active_client (h : Active issuer t) {a : ClientAction K P} {client : Client K P}
    {out : List (ToServer K P)} (ha : ∀ receiver packet, a ≠ .insertPacket receiver packet)
    (hstep : (t.clients k).step a = some (client, out)) :
    Active issuer (t.setClient k client out) := by
  have hframe := Client.frame_of_step ha hstep
  have hkeeps := Client.keeps_step ha (h.state k) hstep
  have hmore : ∀ {c : ConnectionId} {m : ToServer K P}, m ∈ t.toServer c →
      m ∈ (t.setClient k client out).toServer c := fun hm => mem_toServer_of_mem (Or.inl hm)
  -- what a client that is served afterwards was before
  have hserved : ∀ c, (t.setClient k client out).Served k c →
      client.greeted = true ∧ (t.clients k).connection = some c ∧
        ((t.clients k).greeted = true → t.Served k c) := by
    intro c hs
    have hgreeted := hs.greeted
    rw [clients_setClient] at hgreeted
    have hold : (t.clients k).connection = some c :=
      connection_setClient hframe.connection hs.connection
    exact ⟨hgreeted, hold, fun hbefore => ⟨hold, hbefore, hs.alive⟩⟩
  refine active_setClient h t.toClient (fun _ _ _ _ _ hm => hm)
    (fun hgreeted => (hkeeps hgreeted).1) ?_ ?_ ?_
  · rw [hframe.outPackets]
    exact h.issuer k
  · intro c hs hdone
    rcases hserved c hs with ⟨hgreeted, hold, hbefore⟩
    rcases (hkeeps hgreeted).2 with hhello | ⟨hgreeted', hsame, _⟩
    · exact Or.inl (mem_toServer_of_mem (Or.inr ⟨hold, hhello⟩))
    · rw [hsame] at hdone
      exact (h.awaited k c (hbefore hgreeted') hdone).imp_left hmore
  · intro c hs row hrow
    rcases hserved c hs with ⟨hgreeted, hold, hbefore⟩
    rcases (hkeeps hgreeted).2 with hhello | ⟨hgreeted', _, hway⟩
    · exact .hello (Or.inl (mem_toServer_of_mem (Or.inr ⟨hold, hhello⟩)))
    rw [hframe.outPackets] at hrow
    refine owed_mono (h.owed k c (hbefore hgreeted') row hrow)
      (fun hh => .hello (hh.imp_left hmore)) ?_ (fun hm => .transport (hmore hm))
      (fun q hq hn ha => .untold q hq hn ha) (fun m hm hr => .removed m hm hr)
    intro hw
    -- in the client's hands still, sent by this step, or left to the resend after the hello
    rcases hway row hw with hkept | hsent | hdone
    · apply Owed.underWay
      change row ∈ ((t.setClient k client out).clients k).underWay
      rw [clients_setClient]
      exact hkept
    · exact .transport (mem_toServer_of_mem (Or.inr ⟨hold, hsent⟩))
    · exact .hello ((h.awaited k c (hbefore hgreeted') hdone).imp_left hmore)

/-- A client handles the packet in front. -/
theorem active_receive (hinv : t.Inv) (h : Active issuer t) {m : ToClient P}
    {rest : List (ToClient P)} (hconnection : (t.clients k).connection = some c)
    (hm : t.toClient c = m :: rest) :
    Active issuer { t.setClient k ((t.clients k).handle m).1 ((t.clients k).handle m).2 with
      toClient := Function.update t.toClient c rest } := by
  have hkeeps := @Client.keeps_handle K P (t.clients k) m
  have hmore : ∀ {d : ConnectionId} {x : ToServer K P}, x ∈ t.toServer d →
      x ∈ (t.setClient k ((t.clients k).handle m).1 ((t.clients k).handle m).2).toServer d :=
    fun hx => mem_toServer_of_mem (Or.inl hx)
  have hserved : ∀ d, Served { t.setClient k ((t.clients k).handle m).1
      ((t.clients k).handle m).2 with toClient := Function.update t.toClient c rest } k d →
      c = d ∧ ((t.clients k).handle m).1.greeted = true ∧
        ((t.clients k).greeted = true → t.Served k d) := by
    intro d hs
    have hgreeted := hs.greeted
    simp only [clients_setClient] at hgreeted
    have hafter : ((t.setClient k ((t.clients k).handle m).1
        ((t.clients k).handle m).2).clients k).connection = some d := hs.connection
    have hold : (t.clients k).connection = some d :=
      connection_setClient (Client.connection_handle m) hafter
    exact ⟨Option.some.inj (hconnection.symm.trans hold), hgreeted,
      fun hbefore => ⟨hold, hbefore, hs.alive⟩⟩
  -- what is behind the packet in front stays
  have hrest : ∀ x ∈ t.toClient c, x ≠ m → x ∈ Function.update t.toClient c rest c := by
    intro x hx hne
    rw [Function.update_self]
    rw [hm] at hx
    exact (List.mem_cons.mp hx).resolve_left hne
  have hcomes : (∀ e, m ≠ .hello e) → t.HelloComes c →
      HelloComes { t.setClient k ((t.clients k).handle m).1 ((t.clients k).handle m).2 with
        toClient := Function.update t.toClient c rest } c := by
    rintro hnot (hx | ⟨e, hx⟩)
    · exact Or.inl (hmore hx)
    · exact Or.inr ⟨e, hrest _ hx (hnot e).symm⟩
  refine active_setClient h _ ?_ ?_ ?_ ?_ ?_
  · intro k' d hne hs x hx
    have hother : d ≠ c := by
      rintro rfl
      -- the connection is of one client
      exact hne (hinv.owner k d k' hconnection (hs.remoteKey hinv))
    rw [Function.update_of_ne hother]
    exact hx
  · intro hgreeted
    rcases hkeeps hgreeted with ⟨hbefore, hstate, _⟩
    rw [hstate]
    exact h.state k hbefore
  · exact fun row hrow => h.issuer k row ((Client.outPackets_handle m).mp hrow).1
  · intro d hs hdone
    rcases hserved d hs with ⟨rfl, hgreeted, hbefore⟩
    rcases hkeeps hgreeted with ⟨hgreeted', _, ⟨_, hnow, _⟩ | ⟨hnot, hsame, _⟩⟩
    · rw [hnow] at hdone
      exact absurd hdone (by simp)
    · rw [hsame] at hdone
      exact hcomes hnot (h.awaited k c (hbefore hgreeted') hdone)
  · intro d hs row hrow
    rcases hserved d hs with ⟨rfl, hgreeted, hbefore⟩
    -- the hello takes every row into the resend; another packet removes the row it answers
    rcases hkeeps hgreeted with ⟨hgreeted', _, ⟨_, _, hall⟩ | ⟨hnot, _, hsame⟩⟩
    · apply Owed.underWay
      simp only [clients_setClient]
      exact hall row hrow
    · rcases (Client.outPackets_handle m).mp hrow with ⟨hold, hremains⟩
      refine owed_mono (h.owed k c (hbefore hgreeted') row hold)
        (fun hh => .hello (hcomes hnot hh)) ?_ (fun hx => .transport (hmore hx))
        (fun q hq hn ha => .untold q hq hn ha) ?_
      · intro hw
        apply Owed.underWay
        simp only [clients_setClient, hsame]
        exact hw
      · intro x hx hr
        refine .removed x (hrest x hx ?_) hr
        rintro rfl
        exact hremains hr

/-! ## The server -/

/-- The server takes a step, and handles a packet of a client if the step is one. -/
theorem active_effect (hinv : t.Inv) (h : Active issuer t) {a : ServerAction K P} {s : Server K P}
    (hstep : t.server.step issuer a = some s) (hwrite : a ≠ .storage (.threadWrite false))
    (hnew : ∀ c k, a = .connected c k → c = t.nextConnection)
    (toServer : ConnectionId → List (ToServer K P))
    (hserver : ∀ c, ∀ m ∈ t.toServer c, m ∈ toServer c ∨ a = .connection c m.action)
    (clients : K → Client K P) (next : ConnectionId)
    (hclients : ∀ k, (clients k).greeted = true → clients k = t.clients k)
    (hrows : ∀ k, (clients k).outPackets = (t.clients k).outPackets) :
    Active issuer { t with
      server := s, toClient := t.post (t.server.emitted a), toServer := toServer
      clients := clients, nextConnection := next } := by
  rcases hinv.server with ⟨table, hin⟩
  have hserved : ∀ {k : K} {c : ConnectionId}, Served { t with
      server := s, toClient := t.post (t.server.emitted a), toServer := toServer
      clients := clients, nextConnection := next } k c →
        clients k = t.clients k ∧ t.Served k c := by
    intro k c hs
    have hsame := hclients k hs.greeted
    have hconnection : (t.clients k).connection = some c := hsame ▸ hs.connection
    refine ⟨hsame, hconnection, hsame ▸ hs.greeted, ?_⟩
    rcases hs.alive with ⟨found', hfound', halive⟩
    rcases Server.advance_step hstep hfound' with ⟨found, hfound, hadvance⟩ | ⟨k', ha, _⟩
    · exact ⟨found, hfound, hadvance.alive halive⟩
    · -- the client is not on the new connection
      have hlt := hinv.connection_lt k c hconnection
      rw [hnew c k' ha] at hlt
      exact absurd hlt (Nat.lt_irrefl _)
  have hcomes : ∀ {k : K} {c : ConnectionId}, t.Served k c → t.HelloComes c →
      HelloComes { t with
        server := s, toClient := t.post (t.server.emitted a), toServer := toServer
        clients := clients, nextConnection := next } c := by
    rintro k c hs (hm | ⟨e, hm⟩)
    · rcases hserver c _ hm with hm | ha
      · exact Or.inl hm
      · -- the hello is handled and goes back
        refine Or.inr ⟨false, mem_post.mpr (Or.inr ?_)⟩
        rcases hs.alive with ⟨conn, hconn, _⟩
        rw [ha]
        simp [Server.emitted, hconn, ToServer.action, Server.emittedBy]
    · exact Or.inr ⟨e, mem_post.mpr (Or.inl hm)⟩
  refine ⟨?_, ?_, ?_, ?_, ?_⟩
  · intro c found' hfound'
    rcases Server.advance_step hstep hfound' with ⟨found, hfound, hadvance⟩ | ⟨_, _, hfirst⟩
    · exact hadvance.introduced (h.introduced c found hfound)
    · exact hfirst
  · intro k hgreeted
    simp only [hclients k hgreeted] at hgreeted ⊢
    exact h.state k hgreeted
  · intro k
    simp only [hrows]
    exact h.issuer k
  · intro k c hs
    rcases hserved hs with ⟨hsame, hold⟩
    simp only [hsame]
    intro hdone
    exact hcomes hold (h.awaited k c hold hdone)
  · intro k c hs row hrow
    rcases hserved hs with ⟨hsame, hold⟩
    simp only [hsame] at hrow
    refine owed_mono (h.owed k c hold row hrow) (fun hh => .hello (hcomes hold hh)) ?_ ?_ ?_
      (fun m hm hr => .removed m (mem_post.mpr (Or.inl hm)) hr)
    · intro hw
      apply Owed.underWay
      simp only [hsame]
      exact hw
    · intro hm
      rcases hserver c _ hm with hm | ha
      · exact .transport hm
      -- the packet is of the issuer that the connection has, so that the server takes it
      · have hkey := hold.remoteKey hinv
        rw [← h.issuer k row hrow] at hkey
        rcases Server.taken_step hin hinv.wired h.introduced (ha ▸ hstep) hkey hs.alive with
          ⟨q, hq, hnotify, hack⟩
        exact .untold q hq hnotify hack
    · intro q hq hnotify hack
      rcases Server.owed_step hin hstep hwrite q hq with hkept | htold
      · exact .untold q hkept hnotify hack
      · have hsent := htold (hnotify ▸ hold.alive)
        rw [hnotify] at hsent
        exact .removed _ (mem_post.mpr (Or.inr hsent)) (by rw [← hack]; rfl)

/-! ## The steps -/

theorem active_step {a : TransportAction K P} (hwrite : WritesSucceed a) (hinv : t.Inv)
    (h : Active issuer t) (hstep : step issuer a t = some t') : Active issuer t' := by
  cases step_cases hstep with
  | connect k s hs =>
      refine active_effect hinv h hs (by simp) ?_ t.toServer (fun _ _ hm => Or.inl hm) _ _ ?_
        (forall_connect k Client.outPackets fun _ => rfl)
      · intro c k' ha
        cases ha
        rfl
      · intro k' hgreeted
        by_cases hsame : k' = k
        · rw [hsame, Function.update_self] at hgreeted
          exact absurd hgreeted (by simp)
        · rw [Function.update_of_ne hsame]
  | insertPacket k receiver packet hissuer => exact active_insertPacket h hissuer
  | client k a client out ha hclient => exact active_client h ha hclient
  | receive k c m rest hconnection hm hpending => exact active_receive hinv h hconnection hm
  | deliver c m rest s hm hs =>
      refine active_effect hinv h hs (by simp) (by simp) _ ?_ t.clients t.nextConnection
        (fun _ _ => rfl) (fun _ => rfl)
      intro d x hx
      by_cases hsame : d = c
      · rw [hsame] at hx ⊢
        rw [hm] at hx
        rw [Function.update_self]
        rcases List.mem_cons.mp hx with rfl | hx
        · exact Or.inr rfl
        · exact Or.inl hx
      · rw [Function.update_of_ne hsame]
        exact Or.inl hx
  | server a s ha hs =>
      rcases not_ackPacket_of_ofServer ha with ⟨_, _, hnot⟩
      refine active_effect hinv h hs (fun heq => hwrite (congrArg _ heq))
        (fun c k heq => absurd heq (hnot c k)) t.toServer (fun _ _ hm => Or.inl hm) t.clients
        t.nextConnection (fun _ _ => rfl) (fun _ => rfl)
  | crash =>
      -- nobody is served until the clients connect again
      have hserved : ∀ k c, ¬ t.crash.Served k c := by
        intro k c hs
        rcases hs.alive with ⟨conn, hconn, _⟩
        exact absurd hconn (by simp [crash, Server.init])
      refine ⟨?_, h.state, h.issuer, fun k c hs => absurd hs (hserved k c),
        fun k c hs => absurd hs (hserved k c)⟩
      intro c conn hconn
      exact absurd hconn (by simp [crash, Server.init])

/-- Nothing of a client is on its way. -/
structure Quiet (t : Transport K P) (k : K) (c : ConnectionId) : Prop where
  underWay : (t.clients k).underWay = []
  toServer : t.toServer c = []
  toClient : t.toClient c = []
  untold : ∀ q ∈ t.server.store.storage.untold, q.notify ≠ c

/-- A client that is served and has nothing on its way has nothing left to send. -/
theorem drained {table : List (Row K P)} (htable : History.IsPacketsTable table)
    {as : List (TransportAction K P)} (has : ∀ a ∈ as, WritesSucceed a)
    (hrun : Machine.run (step issuer) as (init table) = some t) :
    ∀ k c, t.Served k c → t.Quiet k c → (t.clients k).outPackets = [] := by
  have h : t.Inv ∧ Active issuer t := by
    refine @Machine.invariant_of_forall _ _ (step issuer) (fun t => t.Inv ∧ Active issuer t)
      WritesSucceed ?_ as _ t has ⟨init_inv htable, init_active table⟩ hrun
    intro a s s' ha hs hstep
    exact ⟨step_inv hs.1 hstep, active_step ha hs.1 hs.2 hstep⟩
  intro k c hserved hquiet
  apply List.eq_nil_iff_forall_not_mem.mpr
  intro row hrow
  cases h.2.owed k c hserved row hrow with
  | hello hcomes =>
      rcases hcomes with hm | ⟨e, hm⟩
      · rw [hquiet.toServer] at hm
        exact List.not_mem_nil hm
      · rw [hquiet.toClient] at hm
        exact List.not_mem_nil hm
  | underWay hw =>
      rw [hquiet.underWay] at hw
      exact List.not_mem_nil hw
  | transport hm =>
      rw [hquiet.toServer] at hm
      exact List.not_mem_nil hm
  | untold q hq hnotify hack => exact hquiet.untold q hq hnotify
  | removed m hm hr =>
      rw [hquiet.toClient] at hm
      exact List.not_mem_nil hm

/-- The client 5 sends a packet and gets its ack. -/
def Session.answered : List (TransportAction Nat Nat) :=
  Session.greet 5 0 ++
    [.client 5 (.insertPacket 7 40), .client 5 (.testConnection 0), .client 5 (.sendPacket 0),
      .deliver 0, .server (.connection 0 .forward)] ++ Session.stored ++ [.receive 5]

theorem drained_answered : ∃ t : Transport Nat Nat,
    Machine.run (step fun _ => 5) Session.answered (init []) = some t ∧
    (t.clients 5).sent = [⟨1, 7, 40⟩] ∧ t.Served 5 0 ∧ t.Quiet 5 0 ∧
    (t.clients 5).outPackets = [] := by
  refine ⟨_, rfl, rfl, ?_⟩
  have hrun := @drained Nat Nat _ (fun _ => 5) _ [] History.isPacketsTable_nil Session.answered
    (by decide) rfl 5 0
  refine ⟨⟨rfl, rfl, _, rfl, rfl⟩, ⟨rfl, rfl, rfl, ?_⟩, hrun ⟨rfl, rfl, _, rfl, rfl⟩
    ⟨rfl, rfl, rfl, ?_⟩⟩
  · exact fun q hq => absurd hq List.not_mem_nil
  · exact fun q hq => absurd hq List.not_mem_nil

end Transport

end Securepath.PacketTransport
