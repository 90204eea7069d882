import Securepath.PacketTransport.StorageRuns

/-!
# What runs of `packet_storage` guarantee

Without `close`: what the table has when the storage thread waits and whom it
tells (`quiescent_table`), and what `get_pending_packets` returns
(`getPendingPackets_complete_iff`, `getPendingPackets_sound_iff`). With `close`:
what the table has after it returned (`close_keeps`).
-/

namespace Securepath.PacketTransport

namespace StorageAction

variable {K P N : Type}

def WithoutClose : StorageAction K P N → Prop
  | .startClose | .join | .purgeTest | .purgeWrite _ | .purgeRemove _ => False
  | _ => True

def DeletesSucceed : StorageAction K P N → Prop
  | .threadRemove ok | .purgeRemove ok => ok = true
  | _ => True

end StorageAction

namespace History

variable {K P N : Type} [DecidableEq K] {s t : History K P N}

/-- What a step leaves alone. -/
theorem step_frame {a : StorageAction K P N} (hstep : step a s = some t) :
    t.initial = s.initial ∧
      (t.inserted = s.inserted ∨ ∃ p, p.ack = s.storage.sequence + 1 ∧
        t.inserted = s.inserted ++ [p]) ∧
      (a.DeletesSucceed → t.undeleted = s.undeleted) := by
  cases a with
  | insert receiver packet senderAck sender notify =>
      rcases Option.some.inj hstep with rfl
      exact ⟨rfl, Or.inr ⟨_, rfl, rfl⟩, fun _ => rfl⟩
  | query receiver =>
      rcases Option.some.inj hstep with rfl
      exact ⟨rfl, Or.inl rfl, fun _ => rfl⟩
  | markAsAcked h =>
      simp only [step, Option.ite_none_right_eq_some, Option.some.injEq] at hstep
      rcases hstep with ⟨_, rfl⟩
      exact ⟨rfl, Or.inl rfl, fun _ => rfl⟩
  | threadWrite ok =>
      rcases Option.map_eq_some_iff.mp hstep with ⟨u, hu, rfl⟩
      rcases noteWrite_frame (s := s) ok s.storage.p u with ⟨hinitial, hinserted, _, _, hundeleted, _⟩
      exact ⟨hinitial, Or.inl hinserted, fun _ => hundeleted⟩
  | purgeWrite ok =>
      rcases Option.map_eq_some_iff.mp hstep with ⟨u, hu, rfl⟩
      rcases noteWrite_frame (s := s) ok s.storage.queue[s.storage.queueIndex]? u with
        ⟨hinitial, hinserted, _, _, hundeleted, _⟩
      exact ⟨hinitial, Or.inl hinserted, fun _ => hundeleted⟩
  | threadRemove ok =>
      rcases Option.map_eq_some_iff.mp hstep with ⟨u, hu, rfl⟩
      refine ⟨rfl, Or.inl rfl, ?_⟩
      intro hdeletes
      have hok : ok = true := hdeletes
      simp [hok]
  | purgeRemove ok =>
      rcases Option.map_eq_some_iff.mp hstep with ⟨u, hu, rfl⟩
      refine ⟨rfl, Or.inl rfl, ?_⟩
      intro hdeletes
      have hok : ok = true := hdeletes
      rcases s.storage.removeQueue[s.storage.removeIndex]? with _ | ack <;> simp [hok]
  | _ =>
      rcases Option.map_eq_some_iff.mp hstep with ⟨u, hu, rfl⟩
      exact ⟨rfl, Or.inl rfl, fun _ => rfl⟩

/-! ## Runs without `close` -/

/-- The states of the runs without `close`. -/
structure OpenInv (table : List (Row K P)) (s : History K P N) : Prop where
  inv : Inv s
  initial : s.initial = table
  notCalled : s.storage.closing = .notCalled

theorem closing_step {a : StorageAction K P N} (hopen : a.WithoutClose)
    (hstep : step a s = some t) : t.storage.closing = s.storage.closing := by
  have hstorage := storage_step hstep
  generalize t.storage = u at hstorage
  cases a with
  | insert receiver packet senderAck sender notify =>
      rcases Option.some.inj hstorage with rfl
      rfl
  | query receiver =>
      rcases Option.some.inj hstorage with rfl
      rfl
  | markAsAcked handle =>
      rcases Option.some.inj hstorage with rfl
      rcases PacketStorage.remove_eq (s := s.storage) handle with ⟨_, _, heq⟩ | ⟨_, _, _, heq⟩ <;>
        rw [heq]
  | pushRemove ack =>
      rcases PacketStorage.pushRemove_eq_some hstorage with ⟨_, rfl⟩
      rfl
  | nextPacket =>
      rcases PacketStorage.nextPacket_eq_some hstorage with ⟨_, rfl⟩
      rfl
  | testFlag =>
      rcases PacketStorage.testFlag_eq_some hstorage with ⟨_, ⟨_, rfl⟩ | ⟨p, _, rfl⟩⟩ <;> rfl
  | threadWrite ok =>
      rcases PacketStorage.threadWrite_eq_some hstorage with
        ⟨_, p, _, ⟨_, _, rfl⟩ | ⟨_, rfl⟩⟩ <;> rfl
  | threadNotify =>
      rcases PacketStorage.threadNotify_eq_some hstorage with ⟨_, rfl⟩
      rfl
  | threadRemove ok =>
      rcases PacketStorage.threadRemove_eq_some hstorage with ⟨_, rfl⟩
      rfl
  | _ => exact absurd hopen not_false

omit [DecidableEq K] in
theorem spared_of_open {table : List (Row K P)} (h : OpenInv table s) (a : StorageAction K P N) :
    Spared a s := by
  cases a with
  | insert receiver packet senderAck sender notify => exact Or.inl h.notCalled
  | nextPacket =>
      intro hclose
      exact absurd h.notCalled (h.inv.phases.close_iff.mp hclose)
  | _ => trivial

theorem open_step {table : List (Row K P)} {a : StorageAction K P N} (hopen : a.WithoutClose)
    (h : OpenInv table s) (hstep : step a s = some t) : OpenInv table t :=
  ⟨step_inv a (spared_of_open h a) h.inv hstep, (step_frame hstep).1.trans h.initial,
    (closing_step hopen hstep).trans h.notCalled⟩

theorem open_run {table : List (Row K P)} {as : List (StorageAction K P N)}
    (hopen : ∀ a ∈ as, a.WithoutClose) (h : OpenInv table s)
    (hrun : Machine.run step as s = some t) :
    OpenInv table t :=
  Machine.invariant_of_forall (fun _ _ _ ha => open_step ha) hopen h hrun

omit [DecidableEq K] in
theorem isPacketsTable_nil : IsPacketsTable ([] : List (Row K P)) :=
  ⟨fun _ hrow => absurd hrow List.not_mem_nil, fun _ hrow => absurd hrow List.not_mem_nil⟩

omit [DecidableEq K] in
theorem open_init {table : List (Row K P)} (h : IsPacketsTable table) :
    OpenInv table (init table : History K P N) :=
  ⟨init_inv h, rfl, rfl⟩

/-! ## The table at rest -/

/-- Both queues are empty and the storage thread waits. -/
def Quiescent (s : History K P N) : Prop :=
  s.storage.thread = .nextPacket ∧ s.storage.queue = [] ∧ s.storage.removeQueue = []

theorem quiescent_table {table : List (Row K P)} (htable : IsPacketsTable table)
    {as : List (StorageAction K P N)} (has : ∀ a ∈ as, a.WithoutClose ∧ a.DeletesSucceed)
    (hrun : Machine.run step as (init table) = some s) :
    (s.Quiescent → ∀ row, row ∈ s.storage.table ↔
      (row ∈ table ∨ ∃ p ∈ s.inserted, p.row = row) ∧ row.ack ∉ s.failed ∧ row.ack ∉ s.acked) ∧
    s.notified.Nodup ∧ ∀ ack ∈ s.notified, ack ∈ s.written ∨ ack ∈ s.acked := by
  have h := open_run (fun a ha => (has a ha).1) (open_init htable) hrun
  have hundeleted : s.undeleted = [] := by
    refine @Machine.invariant_of_forall _ _ step (fun s => s.undeleted = [])
      StorageAction.DeletesSucceed ?_ as _ s (fun a ha => (has a ha).2) rfl hrun
    intro a s s' hdeletes hnone hstep
    exact ((step_frame hstep).2.2 hdeletes).trans hnone
  refine ⟨?_, Ledger.notified_nodup h.inv.ledger, h.inv.ledger.told.notified⟩
  rintro ⟨hpc, hqueue, hremove⟩ row
  rcases lists_of_nextPacket h.inv.phases hpc with ⟨hwaiting, hwriting, _, hdue⟩
  rw [← h.initial]
  exact Ledger.mem_table_iff h.inv.ledger (hwaiting.trans hqueue) hwriting (hdue.trans hremove)
    hundeleted row

/-- A packet that is written and then acked by its receiver. -/
theorem quiescent_table_acked : ∃ s : History Nat Nat Unit,
    Machine.run step [.insert 7 40 1 5 (), .nextPacket, .testFlag, .threadWrite true,
      .threadNotify, .threadRemove true, .markAsAcked ⟨1, true⟩, .pushRemove 1, .nextPacket,
      .testFlag, .threadRemove true] (init []) = some s ∧
    (⟨1, 7, 40⟩ ∉ s.storage.table) ∧ s.notified.Nodup := by
  refine ⟨_, rfl, ?_⟩
  have h := @quiescent_table Nat Nat Unit _ _ [] isPacketsTable_nil
    [.insert 7 40 1 5 (), .nextPacket, .testFlag, .threadWrite true, .threadNotify,
      .threadRemove true, .markAsAcked ⟨1, true⟩, .pushRemove 1, .nextPacket, .testFlag,
      .threadRemove true]
    (by simp [StorageAction.WithoutClose, StorageAction.DeletesSucceed]) rfl
  refine ⟨?_, h.2.1⟩
  intro hrow
  exact ((h.1 ⟨rfl, rfl, rfl⟩ ⟨1, 7, 40⟩).mp hrow).2.2 (by decide)

/-! ## `get_pending_packets` -/

/-- What has happened since the state `s`. -/
structure Since (s t : History K P N) : Prop where
  sequence_le : s.storage.sequence ≤ t.storage.sequence
  inserted : ∀ p ∈ s.inserted, p ∈ t.inserted
  later : ∀ p ∈ t.inserted, p ∈ s.inserted ∨ s.storage.sequence < p.ack
  queue : ∀ p ∈ t.storage.queue, p ∈ s.storage.queue ∨ s.storage.sequence < p.ack

theorem queue_step {a : StorageAction K P N} (hopen : a.WithoutClose)
    (hstep : step a s = some t) : s.storage.sequence ≤ t.storage.sequence ∧
      ∀ p ∈ t.storage.queue, p ∈ s.storage.queue ∨ p.ack = s.storage.sequence + 1 := by
  have hstorage := storage_step hstep
  generalize t.storage = u at hstorage
  cases a with
  | insert receiver packet senderAck sender notify =>
      rcases Option.some.inj hstorage with rfl
      refine ⟨Nat.le_succ _, ?_⟩
      intro p hp
      rcases List.mem_append.mp hp with hp | hp
      · exact Or.inl hp
      · rw [List.mem_singleton.mp hp]
        exact Or.inr rfl
  | query receiver =>
      rcases Option.some.inj hstorage with rfl
      exact ⟨Nat.le_refl _, fun p hp => Or.inl hp⟩
  | markAsAcked handle =>
      rcases Option.some.inj hstorage with rfl
      rcases PacketStorage.remove_eq (s := s.storage) handle with ⟨_, _, heq⟩ | ⟨_, _, _, heq⟩ <;>
        rw [heq] <;> exact ⟨Nat.le_refl _, fun p hp => Or.inl hp⟩
  | pushRemove ack =>
      rcases PacketStorage.pushRemove_eq_some hstorage with ⟨_, rfl⟩
      exact ⟨Nat.le_refl _, fun p hp => Or.inl hp⟩
  | nextPacket =>
      rcases PacketStorage.nextPacket_eq_some hstorage with ⟨_, rfl⟩
      exact ⟨Nat.le_refl _, fun p hp => Or.inl (List.mem_of_mem_tail hp)⟩
  | testFlag =>
      rcases PacketStorage.testFlag_eq_some hstorage with ⟨_, ⟨_, rfl⟩ | ⟨p, _, rfl⟩⟩ <;>
        exact ⟨Nat.le_refl _, fun p hp => Or.inl hp⟩
  | threadWrite ok =>
      rcases PacketStorage.threadWrite_eq_some hstorage with
        ⟨_, p, _, ⟨_, _, rfl⟩ | ⟨_, rfl⟩⟩ <;> exact ⟨Nat.le_refl _, fun p hp => Or.inl hp⟩
  | threadNotify =>
      rcases PacketStorage.threadNotify_eq_some hstorage with ⟨_, rfl⟩
      exact ⟨Nat.le_refl _, fun p hp => Or.inl hp⟩
  | threadRemove ok =>
      rcases PacketStorage.threadRemove_eq_some hstorage with ⟨_, rfl⟩
      exact ⟨Nat.le_refl _, fun p hp => Or.inl hp⟩
  | _ => exact absurd hopen not_false

theorem since_step {first : History K P N} {a : StorageAction K P N} (hopen : a.WithoutClose)
    (h : Since first s) (hstep : step a s = some t) : Since first t := by
  rcases queue_step hopen hstep with ⟨hsequence, hqueue⟩
  have hle := h.sequence_le
  refine ⟨h.sequence_le.trans hsequence, ?_, ?_, ?_⟩
  · intro p hp
    rcases (step_frame hstep).2.1 with hsame | ⟨q, _, hnew⟩
    · rw [hsame]
      exact h.inserted p hp
    · rw [hnew]
      exact List.mem_append_left _ (h.inserted p hp)
  · intro p hp
    rcases (step_frame hstep).2.1 with hsame | ⟨q, hack, hnew⟩
    · exact h.later p (hsame ▸ hp)
    · rw [hnew, List.mem_append, List.mem_singleton] at hp
      rcases hp with hp | rfl
      · exact h.later p hp
      · exact Or.inr (by omega)
  · intro p hp
    rcases hqueue p hp with hold | hnew
    · exact h.queue p hold
    · exact Or.inr (by omega)

theorem since_run {as : List (StorageAction K P N)} (hopen : ∀ a ∈ as, a.WithoutClose)
    (hrun : Machine.run step as s = some t) : Since s t := by
  refine @Machine.invariant_of_forall _ _ step (Since s) StorageAction.WithoutClose ?_ as s t
    hopen ⟨Nat.le_refl _, fun p hp => hp, fun p hp => Or.inl hp, fun p hp => Or.inl hp⟩ hrun
  intro a s s' ha
  exact since_step ha

omit [DecidableEq K] in
theorem mem_waiting_of_queue {table : List (Row K P)} (h : OpenInv table s)
    {p : QueuedPacket K P N} (hp : p ∈ s.storage.queue) : p ∈ s.storage.waiting := by
  apply List.mem_append_right
  rw [h.inv.phases.tested_eq_zero (Or.inl h.notCalled)]
  exact hp

omit [DecidableEq K] in
/-- The packet of an index entry is in the queue, as the entry is. -/
theorem lockPacket_of_queue {table : List (Row K P)} (h : OpenInv table s)
    {p : QueuedPacket K P N} (hp : p ∈ s.storage.queue) :
    ∃ q, s.storage.lockPacket p.ack = some q ∧ q.row = p.row := by
  have hsome : (s.storage.queue.find? (·.ack = p.ack)).isSome :=
    List.find?_isSome.mpr ⟨p, hp, decide_eq_true rfl⟩
  rcases Option.isSome_iff_exists.mp hsome with ⟨q, hq⟩
  refine ⟨q, ?_, ?_⟩
  · unfold PacketStorage.lockPacket
    rw [List.find?_append, hq]
    rfl
  · have hqueue := List.mem_of_find?_eq_some hq
    have hack : q.ack = p.ack := by simpa using List.find?_some hq
    exact h.inv.ledger.acks.known_inj q.row p.row
      (Ledger.waiting_known h.inv.ledger.acks (mem_waiting_of_queue h hqueue))
      (Ledger.waiting_known h.inv.ledger.acks (mem_waiting_of_queue h hp)) hack

/-- The locked section finds what is in the queue. -/
theorem mem_pendingQueued {table : List (Row K P)} (h : OpenInv table s) {receiver : K}
    {x : StoredPacket P} : x ∈ s.storage.pendingQueued receiver ↔
    ∃ p ∈ s.storage.queue, p.receiver = receiver ∧ x = ⟨⟨p.ack, true⟩, p.packet⟩ := by
  unfold PacketStorage.pendingQueued
  rw [h.inv.phases.indexed h.notCalled]
  constructor
  · intro hx
    rcases List.mem_filterMap.mp hx with ⟨entry, hentry, hlock⟩
    rcases List.mem_filter.mp hentry with ⟨hentry, hreceiver⟩
    rcases List.mem_map.mp hentry with ⟨p, hp, rfl⟩
    rcases lockPacket_of_queue h hp with ⟨q, hq, hrow⟩
    rw [hq] at hlock
    refine ⟨p, hp, by simpa using hreceiver, ?_⟩
    have hack : q.ack = p.ack := congrArg Row.ack hrow
    have hpacket : q.packet = p.packet := congrArg Row.packet hrow
    rw [Option.map_some, hack, hpacket] at hlock
    exact (Option.some.inj hlock).symm
  · rintro ⟨p, hp, hreceiver, rfl⟩
    rcases lockPacket_of_queue h hp with ⟨q, hq, hrow⟩
    apply List.mem_filterMap.mpr
    refine ⟨(p.receiver, p.ack), ?_, ?_⟩
    · exact List.mem_filter.mpr ⟨List.mem_map.mpr ⟨p, hp, rfl⟩, by simpa using hreceiver⟩
    · have hack : q.ack = p.ack := congrArg Row.ack hrow
      have hpacket : q.packet = p.packet := congrArg Row.packet hrow
      rw [hq, Option.map_some, hack, hpacket]

omit [DecidableEq K] in
theorem mem_pendingStored [DecidableEq K] {u : PacketStorage K P N} {receiver : K}
    {x : StoredPacket P} : x ∈ u.pendingStored receiver ↔
    ∃ row ∈ u.table, row.receiver = receiver ∧ x = ⟨⟨row.ack, false⟩, row.packet⟩ := by
  unfold PacketStorage.pendingStored
  rw [List.mem_map]
  constructor
  · rintro ⟨row, hrow, rfl⟩
    rcases List.mem_filter.mp hrow with ⟨hrow, hreceiver⟩
    exact ⟨row, hrow, by simpa using hreceiver, rfl⟩
  · rintro ⟨row, hrow, hreceiver, rfl⟩
    exact ⟨row, List.mem_filter.mpr ⟨hrow, by simpa using hreceiver⟩, rfl⟩

/-! ### Completeness -/

/-- What the callers are promised of a call for `receiver`, that had its locked
section in `s` and its query in `t`: every packet given to the storage before
the call, not acked before it returns and not failed. -/
def Complete (s t : History K P N) (receiver : K) : Prop :=
  ∀ row : Row K P, (row ∈ s.initial ∨ ∃ p ∈ s.inserted, p.row = row) → row.receiver = receiver →
    row.ack ∉ t.acked → row.ack ∉ t.failed →
    ∃ x ∈ s.storage.getPendingPackets t.storage receiver,
      x.handle.ack = row.ack ∧ x.packet = row.packet

/-- The storage thread has the packet, and has not written it yet. -/
def InHand (s : History K P N) (p : QueuedPacket K P N) : Prop :=
  (s.storage.thread = .testFlag ∨ s.storage.thread = .writeToDatabase) ∧ s.storage.p = some p

/-- What comes out of the sorting has the packet of its row. -/
theorem packet_of_result {table : List (Row K P)} (hs : OpenInv table s) (ht : OpenInv table t)
    (hsince : Since s t) {receiver : K} {x : StoredPacket P}
    (hx : x ∈ s.storage.getPendingPackets t.storage receiver) :
    ∃ row, t.ledger.Known row ∧ row.receiver = receiver ∧ x.handle.ack = row.ack ∧
      x.packet = row.packet := by
  rcases List.mem_append.mp (PacketStorage.mem_of_mem_sortPending hx) with hx | hx
  · rcases mem_pendingStored.mp hx with ⟨row, hrow, hreceiver, rfl⟩
    exact ⟨row, ht.inv.ledger.acks.table_known row hrow, hreceiver, rfl, rfl⟩
  · rcases (mem_pendingQueued hs).mp hx with ⟨p, hp, hreceiver, rfl⟩
    have hinserted := hs.inv.ledger.acks.waiting_inserted p (mem_waiting_of_queue hs hp)
    exact ⟨p.row, Or.inr ⟨p, hsince.inserted p hinserted, rfl⟩, hreceiver, rfl, rfl⟩

omit [DecidableEq K] in
theorem known_since {table : List (Row K P)} (hs : OpenInv table s) (ht : OpenInv table t)
    (hsince : Since s t) {row : Row K P} (h : s.ledger.Known row) : t.ledger.Known row := by
  rcases h with h | ⟨p, hp, rfl⟩
  · left
    change row ∈ t.initial
    rw [ht.initial, ← hs.initial]
    exact h
  · exact Or.inr ⟨p, hsince.inserted p hp, rfl⟩

omit [DecidableEq K] in
theorem inHand_of_writing {table : List (Row K P)} (h : OpenInv table s)
    {q : QueuedPacket K P N} (hq : q ∈ s.storage.writing) : s.InHand q := by
  have hwrite : s.storage.closing ≠ .writeToDatabase := by rw [h.notCalled]; simp
  unfold PacketStorage.writing at hq
  rw [if_neg hwrite, List.append_nil] at hq
  by_cases hpc : s.storage.thread = .writeToDatabase
  · rw [if_pos hpc] at hq
    exact ⟨Or.inr hpc, by simpa using hq⟩
  · rw [if_neg hpc] at hq
    exact absurd hq List.not_mem_nil

omit [DecidableEq K] in
theorem queue_or_inHand_of_waiting {q : QueuedPacket K P N} (hq : q ∈ s.storage.waiting) :
    q ∈ s.storage.queue ∨ s.InHand q := by
  rcases List.mem_append.mp hq with hq | hq
  · right
    by_cases hpc : s.storage.thread = .testFlag
    · rw [if_pos hpc] at hq
      exact ⟨Or.inl hpc, by simpa using hq⟩
    · rw [if_neg hpc] at hq
      exact absurd hq List.not_mem_nil
  · exact Or.inl (List.mem_of_mem_drop hq)

omit [DecidableEq K] in
theorem pending_of_inHand {q : QueuedPacket K P N} (h : s.InHand q) :
    q ∈ s.ledger.writing ++ s.ledger.waiting := by
  rcases h with ⟨hpc | hpc, hp⟩
  · apply List.mem_append_right
    change q ∈ s.storage.waiting
    simp [PacketStorage.waiting, hpc, hp]
  · apply List.mem_append_left
    change q ∈ s.storage.writing
    simp [PacketStorage.writing, hpc, hp]

omit [DecidableEq K] in
theorem inserted_of_inHand {table : List (Row K P)} (h : OpenInv table s)
    {q : QueuedPacket K P N} (hq : s.InHand q) : q ∈ s.inserted := by
  rcases List.mem_append.mp (pending_of_inHand hq) with hmem | hmem
  · exact h.inv.ledger.acks.writing_inserted q hmem
  · exact h.inv.ledger.acks.waiting_inserted q hmem

/-- A result with the ack of a known packet has that packet. -/
theorem exists_result {table : List (Row K P)} (hs : OpenInv table s) (ht : OpenInv table t)
    (hsince : Since s t) {receiver : K} {row : Row K P} (hknown : t.ledger.Known row)
    {x : StoredPacket P} (hack : x.handle.ack = row.ack)
    (hx : x ∈ t.storage.pendingStored receiver ++ s.storage.pendingQueued receiver) :
    ∃ y ∈ s.storage.getPendingPackets t.storage receiver,
      y.handle.ack = row.ack ∧ y.packet = row.packet := by
  rcases PacketStorage.exists_mem_sortPending hx with ⟨y, hy, hyack⟩
  rcases packet_of_result hs ht hsince hy with ⟨row', hknown', _, hack', hpacket⟩
  have hsame : row' = row := ht.inv.ledger.acks.known_inj row' row hknown' hknown
    (hack'.symm.trans (hyack.trans hack))
  exact ⟨y, hy, hyack.trans hack, by rw [hpacket, hsame]⟩

/-- A call returns everything exactly when no packet for the receiver is in the
hands of the storage thread at the query that was not in the queue at the
locked section. -/
theorem getPendingPackets_complete_iff {table : List (Row K P)} (htable : IsPacketsTable table)
    {before during : List (StorageAction K P N)}
    (hbefore : ∀ a ∈ before, a.WithoutClose) (hduring : ∀ a ∈ during, a.WithoutClose)
    (hs : Machine.run step before (init table) = some s) (ht : Machine.run step during s = some t)
    (receiver : K) :
    (Complete s t receiver ∧ (s.storage.getPendingPackets t.storage receiver).Pairwise
      fun l r => l.handle.ack < r.handle.ack) ↔
    ∀ p, t.InHand p → p ∈ s.inserted → p.receiver = receiver → p.ack ∉ t.acked →
      ∃ q ∈ s.storage.queue, q.ack = p.ack := by
  have hsinv := open_run hbefore (open_init htable) hs
  have htinv := open_run hduring hsinv ht
  have hsince := since_run hduring ht
  constructor
  · rintro ⟨hcomplete, _⟩ p hhand hinserted hreceiver hacked
    have hfresh := htinv.inv.ledger.rows.fresh p (pending_of_inHand hhand)
    rcases hcomplete p.row (Or.inr ⟨p, hinserted, rfl⟩) hreceiver hacked hfresh.2 with
      ⟨x, hx, hack, _⟩
    -- a packet in the hands of the thread has no row, so the queue had it
    rcases List.mem_append.mp (PacketStorage.mem_of_mem_sortPending hx) with hx | hx
    · rcases mem_pendingStored.mp hx with ⟨row, hrow, _, rfl⟩
      exact absurd hack (hfresh.1 row hrow)
    · rcases (mem_pendingQueued hsinv).mp hx with ⟨q, hq, _, rfl⟩
      exact ⟨q, hq, hack⟩
  · intro hhands
    refine ⟨?_, PacketStorage.sortPending_acks _⟩
    intro row hknown hreceiver hacked hfailed
    have hlater : t.ledger.Known row := known_since hsinv htinv hsince hknown
    have hqueued : ∀ q ∈ s.storage.queue, q.ack = row.ack →
        ∃ x ∈ s.storage.getPendingPackets t.storage receiver,
          x.handle.ack = row.ack ∧ x.packet = row.packet := by
      intro q hq hack
      have hrow : q.row = row := hsinv.inv.ledger.acks.known_inj q.row row
        (Ledger.waiting_known hsinv.inv.ledger.acks (mem_waiting_of_queue hsinv hq)) hknown hack
      have hqreceiver : q.receiver = receiver := by
        rw [← hreceiver, ← hrow]
        rfl
      exact exists_result hsinv htinv hsince hlater hack
        (List.mem_append_right _ ((mem_pendingQueued hsinv).mpr ⟨q, hq, hqreceiver, rfl⟩))
    have hinhand : ∀ q, q.row = row → t.InHand q →
        ∃ x ∈ s.storage.getPendingPackets t.storage receiver,
          x.handle.ack = row.ack ∧ x.packet = row.packet := by
      intro q hrow hhand
      have hqinserted : q ∈ s.inserted := by
        rcases hsince.later q (inserted_of_inHand htinv hhand) with hold | hnew
        · exact hold
        -- what came later has a larger ack than the packets of `s`
        · have hle := hsinv.inv.ledger.acks.known_le row hknown
          rw [← hrow] at hle
          exact absurd hle (Nat.not_le_of_lt hnew)
      rcases hhands q hhand hqinserted ((congrArg Row.receiver hrow).trans hreceiver)
          (by rw [← hrow] at hacked; exact hacked) with ⟨p, hp, hack⟩
      exact hqueued p hp (hack.trans (congrArg Row.ack hrow))
    -- where the packet is at the query
    rcases htinv.inv.ledger.rows.kept row hlater hacked hfailed with hstored | ⟨q, hq, hrow⟩
    · exact exists_result hsinv htinv hsince hlater rfl
        (List.mem_append_left _ (mem_pendingStored.mpr ⟨row, hstored, hreceiver, rfl⟩))
    rcases List.mem_append.mp hq with hq | hq
    · exact hinhand q hrow (inHand_of_writing htinv hq)
    rcases queue_or_inHand_of_waiting hq with hq | hhand
    · rcases hsince.queue q hq with hold | hnew
      · exact hqueued q hold (congrArg Row.ack hrow)
      · have hle := hsinv.inv.ledger.acks.known_le row hknown
        rw [← hrow] at hle
        exact absurd hle (Nat.not_le_of_lt hnew)
    · exact hinhand q hrow hhand

/-- While the storage thread has a packet, no call returns it. -/
theorem getPendingPackets_incomplete : ∃ s : History Nat Nat Unit,
    Machine.run step [.insert 7 40 1 5 (), .nextPacket] (init []) = some s ∧
    ¬ Complete s s 7 := by
  refine ⟨_, rfl, ?_⟩
  intro h
  rcases h ⟨1, 7, 40⟩ (Or.inr ⟨_, List.mem_singleton_self _, rfl⟩) rfl List.not_mem_nil
    List.not_mem_nil with ⟨x, hx, _⟩
  exact absurd hx List.not_mem_nil

/-- Behind the write the query finds the packet. -/
theorem getPendingPackets_complete_written : ∃ s : History Nat Nat Unit,
    Machine.run step [.insert 7 40 1 5 (), .nextPacket, .testFlag, .threadWrite true]
      (init []) = some s ∧ Complete s s 7 := by
  refine ⟨_, rfl, ?_⟩
  refine ((@getPendingPackets_complete_iff Nat Nat Unit _ _ _ [] isPacketsTable_nil
    [.insert 7 40 1 5 (), .nextPacket, .testFlag, .threadWrite true] []
    (by simp [StorageAction.WithoutClose]) (by simp) rfl rfl 7).mpr ?_).1
  rintro p ⟨hpc | hpc, _⟩ <;> exact absurd hpc (by decide)

/-! ### Soundness -/

/-- No packet is returned that was acked before the call. -/
def Sound (s t : History K P N) (receiver : K) : Prop :=
  ∀ x ∈ s.storage.getPendingPackets t.storage receiver, x.handle.ack ∉ s.acked

theorem gone_run {table : List (Row K P)} {as : List (StorageAction K P N)}
    (hopen : ∀ a ∈ as, a.WithoutClose) (h : OpenInv table s) {ack : Nat}
    (hgone : s.ledger.Gone ack) (hrun : Machine.run step as s = some t) : t.ledger.Gone ack := by
  have hboth : OpenInv table t ∧ t.ledger.Gone ack := by
    refine @Machine.invariant_of_forall _ _ step (fun s => OpenInv table s ∧ s.ledger.Gone ack)
      StorageAction.WithoutClose ?_ as s t hopen ⟨h, hgone⟩ hrun
    rintro a s s' ha ⟨hinv, hold⟩ hstep
    exact ⟨open_step ha hinv hstep, Ledger.run_gone hinv.inv.ledger hold
      (step_refines a hinv.inv.phases hinv.inv.ledger (spared_of_open hinv a) hstep)⟩
  exact hboth.2

/-- A call returns nothing acked exactly when no packet of the receiver that was
queued at the locked section has its flag set, and the query finds no row whose
removal was due at the locked section or had failed. -/
theorem getPendingPackets_sound_iff {table : List (Row K P)} (htable : IsPacketsTable table)
    {before during : List (StorageAction K P N)}
    (hbefore : ∀ a ∈ before, a.WithoutClose) (hduring : ∀ a ∈ during, a.WithoutClose)
    (hs : Machine.run step before (init table) = some s) (ht : Machine.run step during s = some t)
    (receiver : K) :
    Sound s t receiver ↔
      (∀ p ∈ s.storage.queue, p.receiver = receiver → s.storage.removeFlag p.ack = false) ∧
      ∀ row ∈ t.storage.table, row.receiver = receiver →
        row.ack ∉ s.storage.due ∧ row.ack ∉ s.undeleted := by
  have hsinv := open_run hbefore (open_init htable) hs
  have hacked_iff : ∀ p ∈ s.storage.queue, s.storage.removeFlag p.ack = true ↔ p.ack ∈ s.acked :=
    fun p hp => hsinv.inv.ledger.flags.acked_iff p (mem_waiting_of_queue hsinv hp)
  constructor
  · intro hsound
    -- `std::unique` keeps one packet of each ack, which is enough
    have hresult : ∀ x ∈ t.storage.pendingStored receiver ++ s.storage.pendingQueued receiver,
        x.handle.ack ∉ s.acked := by
      intro x hx hacked
      rcases PacketStorage.exists_mem_sortPending hx with ⟨y, hy, hyack⟩
      exact hsound y hy (hyack ▸ hacked)
    constructor
    · intro p hp hreceiver
      rw [← Bool.not_eq_true, hacked_iff p hp]
      exact hresult _ (List.mem_append_right _
        ((mem_pendingQueued hsinv).mpr ⟨p, hp, hreceiver, rfl⟩))
    · intro row hrow hreceiver
      have hnot := hresult _ (List.mem_append_left _
        (mem_pendingStored.mpr ⟨row, hrow, hreceiver, rfl⟩))
      have hdue := hsinv.inv.ledger.rows.due_acked
      exact ⟨fun hmem => hnot (hdue row.ack (List.mem_append_left _ hmem)),
        fun hmem => hnot (hdue row.ack (List.mem_append_right _ hmem))⟩
  · rintro ⟨hflags, hrows⟩ x hx hacked
    rcases List.mem_append.mp (PacketStorage.mem_of_mem_sortPending hx) with hx | hx
    · rcases mem_pendingStored.mp hx with ⟨row, hrow, hreceiver, rfl⟩
      rcases hrows row hrow hreceiver with ⟨hdue, hundeleted⟩
      have hnot : row.ack ∉ s.ledger.due ++ s.ledger.undeleted := by
        rw [List.mem_append]
        exact not_or.mpr ⟨hdue, hundeleted⟩
      -- it was gone at the locked section, and what is gone stays so
      have hgone := gone_run hduring hsinv (Ledger.gone_of_acked hsinv.inv.ledger hacked hnot) ht
      exact hgone.row row hrow rfl
    · rcases (mem_pendingQueued hsinv).mp hx with ⟨p, hp, hreceiver, rfl⟩
      have hset := (hacked_iff p hp).mpr hacked
      rw [hflags p hp hreceiver] at hset
      exact absurd hset (by simp)

/-- An acked packet that is still queued is offered again. -/
theorem getPendingPackets_unsound : ∃ s : History Nat Nat Unit,
    Machine.run step [.insert 7 40 1 5 (), .markAsAcked ⟨1, true⟩] (init []) = some s ∧
    ¬ Sound s s 7 := by
  refine ⟨_, rfl, ?_⟩
  intro h
  exact h ⟨⟨1, true⟩, 40⟩ (by decide) (by decide)

/-- When the storage thread has taken it, it is not. -/
theorem getPendingPackets_sound_taken : ∃ s : History Nat Nat Unit,
    Machine.run step [.insert 7 40 1 5 (), .markAsAcked ⟨1, true⟩, .nextPacket] (init []) = some s ∧
    Sound s s 7 := by
  refine ⟨_, rfl, ?_⟩
  refine (@getPendingPackets_sound_iff Nat Nat Unit _ _ _ [] isPacketsTable_nil
    [.insert 7 40 1 5 (), .markAsAcked ⟨1, true⟩, .nextPacket] []
    (by simp [StorageAction.WithoutClose]) (by simp) rfl rfl 7).mpr ?_
  exact ⟨fun p hp => absurd hp List.not_mem_nil, fun row hrow => absurd hrow List.not_mem_nil⟩

/-! ## `close` -/

/-- What `close` has achieved when it has returned. -/
structure ClosedInv (s : History K P N) : Prop where
  before_acked : ∀ ack ∈ s.ackedBeforeClose, ack ∈ s.acked
  returned : s.storage.closing = .returned → ∀ row ∈ s.storage.table,
    row.ack ∈ s.ackedBeforeClose → row.ack ∈ s.undeleted

theorem closed_step (a : StorageAction K P N) (hgood : Spared a s) (h : Inv s)
    (hclosed : ClosedInv s) (hstep : step a s = some t) : ClosedInv t := by
  -- the steps of the thread come before `join`
  have hrunning : s.storage.thread ≠ .exited → s.storage.closing ≠ .returned := by
    intro hthread
    rcases h.phases.notPurging hthread with hopen | hopen <;> simp [hopen]
  cases a with
  | insert receiver packet senderAck sender notify =>
      rcases Option.some.inj hstep with rfl
      refine ⟨hclosed.before_acked, ?_⟩
      intro hreturned
      have hsame : s.storage.closing = .returned := hreturned
      rcases hgood with hopen | hopen <;> simp [hopen] at hsame
  | query receiver =>
      rcases Option.some.inj hstep with rfl
      exact ⟨hclosed.before_acked, hclosed.returned⟩
  | markAsAcked handle =>
      simp only [step, Option.ite_none_right_eq_some, Option.some.injEq] at hstep
      rcases hstep with ⟨_, rfl⟩
      constructor
      · intro ack hack
        unfold markAsAcked
        cases s.storage.flag handle with
        | true => exact hclosed.before_acked ack hack
        | false => exact List.mem_cons_of_mem _ (hclosed.before_acked ack hack)
      · unfold markAsAcked
        rcases PacketStorage.remove_eq (s := s.storage) handle with ⟨_, _, heq⟩ | ⟨_, _, _, heq⟩ <;>
          rw [heq] <;> exact hclosed.returned
  | pushRemove ack =>
      rcases Option.map_eq_some_iff.mp hstep with ⟨u, hu, rfl⟩
      rcases PacketStorage.pushRemove_eq_some hu with ⟨_, rfl⟩
      exact ⟨fun a ha => List.mem_cons_of_mem _ (hclosed.before_acked a ha), hclosed.returned⟩
  | nextPacket =>
      rcases Option.map_eq_some_iff.mp hstep with ⟨u, hu, rfl⟩
      rcases PacketStorage.nextPacket_eq_some hu with ⟨hpc, rfl⟩
      exact ⟨hclosed.before_acked,
        fun hreturned => absurd hreturned (hrunning (by rw [hpc]; simp))⟩
  | testFlag =>
      rcases Option.map_eq_some_iff.mp hstep with ⟨u, hu, rfl⟩
      rcases PacketStorage.testFlag_eq_some hu with ⟨hpc, ⟨_, rfl⟩ | ⟨p, _, rfl⟩⟩ <;>
        exact ⟨hclosed.before_acked,
          fun hreturned => absurd hreturned (hrunning (by rw [hpc]; simp))⟩
  | threadWrite ok =>
      rcases Option.map_eq_some_iff.mp hstep with ⟨u, hu, rfl⟩
      rcases noteWrite_frame (s := s) ok s.storage.p u with ⟨_, _, hbefore, hacked, _⟩
      rcases PacketStorage.threadWrite_eq_some hu with ⟨hpc, p, _, ⟨_, _, hu⟩ | ⟨_, hu⟩⟩
      all_goals
        refine ⟨by rw [hbefore, hacked]; exact hclosed.before_acked, ?_⟩
        rw [storage_noteWrite, hu]
        exact fun hreturned => absurd hreturned (hrunning (by rw [hpc]; simp))
  | threadNotify =>
      rcases Option.map_eq_some_iff.mp hstep with ⟨u, hu, rfl⟩
      rcases PacketStorage.threadNotify_eq_some hu with ⟨hpc, rfl⟩
      exact ⟨hclosed.before_acked,
        fun hreturned => absurd hreturned (hrunning (by rw [hpc]; simp))⟩
  | threadRemove ok =>
      rcases Option.map_eq_some_iff.mp hstep with ⟨u, hu, rfl⟩
      rcases PacketStorage.threadRemove_eq_some hu with ⟨hpc, rfl⟩
      exact ⟨hclosed.before_acked,
        fun hreturned => absurd hreturned (hrunning (by rw [hpc]; simp))⟩
  | startClose =>
      rcases Option.map_eq_some_iff.mp hstep with ⟨u, hu, rfl⟩
      rcases PacketStorage.startClose_eq_some hu with ⟨_, rfl⟩
      exact ⟨fun ack hack => hack, fun hreturned => by simp at hreturned⟩
  | join =>
      rcases Option.map_eq_some_iff.mp hstep with ⟨u, hu, rfl⟩
      rcases PacketStorage.join_eq_some hu with ⟨_, _, rfl⟩
      exact ⟨hclosed.before_acked, fun hreturned => by simp at hreturned⟩
  | purgeTest =>
      rcases Option.map_eq_some_iff.mp hstep with ⟨u, hu, rfl⟩
      rcases PacketStorage.purgeTest_eq_some hu with
        ⟨hpc, ⟨_, rfl⟩ | ⟨p, _, ⟨_, rfl⟩ | ⟨_, rfl⟩⟩⟩ <;>
        exact ⟨hclosed.before_acked, fun hreturned => by simp [hpc] at hreturned⟩
  | purgeWrite ok =>
      rcases Option.map_eq_some_iff.mp hstep with ⟨u, hu, rfl⟩
      rcases noteWrite_frame (s := s) ok s.storage.queue[s.storage.queueIndex]? u with
        ⟨_, _, hbefore, hacked, _⟩
      rcases PacketStorage.purgeWrite_eq_some hu with ⟨hpc, p, _, ⟨_, _, hu⟩ | ⟨_, hu⟩⟩
      all_goals
        refine ⟨by rw [hbefore, hacked]; exact hclosed.before_acked, ?_⟩
        rw [storage_noteWrite, hu]
        exact fun hreturned => by simp at hreturned
  | purgeRemove ok =>
      rcases Option.map_eq_some_iff.mp hstep with ⟨u, hu, rfl⟩
      rcases PacketStorage.purgeRemove_eq_some hu with ⟨hpc, ⟨hend, rfl⟩ | ⟨ack, _, rfl⟩⟩
      · refine ⟨hclosed.before_acked, ?_⟩
        intro _ row hrow hbefore
        -- the second loop has come to its end
        have hdue : s.storage.due = [] := by
          have hexit := h.phases.exited (by rw [hpc]; simp) (by rw [hpc]; simp)
          unfold PacketStorage.due PacketStorage.hasRemoveAck
          rw [List.drop_eq_nil_of_le (List.getElem?_eq_none_iff.mp hend)]
          simp [hexit]
        have hmem := h.ledger.rows.row_due row hrow (hclosed.before_acked row.ack hbefore)
        have hempty : s.ledger.due = [] := hdue
        rw [hempty, List.nil_append] at hmem
        have hsame : row.ack ∈ s.undeleted := hmem
        simpa [hend] using hsame
      · exact ⟨hclosed.before_acked, fun hreturned => by simp [hpc] at hreturned⟩

/-- `close` keeps every packet that is not acked, and no packet that was acked
before it, when `next_packet` pops nothing needed after `close_` is set. -/
theorem close_keeps {table : List (Row K P)} (htable : IsPacketsTable table)
    {as : List (StorageAction K P N)} (hgood : Machine.EachStep step Spared as (init table))
    (hrun : Machine.run step as (init table) = some s) (hreturned : s.storage.closing = .returned)
    (hfailed : s.failed = []) (hundeleted : s.undeleted = []) :
    (∀ row : Row K P, (row ∈ table ∨ ∃ p ∈ s.inserted, p.row = row) → row.ack ∉ s.acked →
      row ∈ s.storage.table) ∧
    ∀ row ∈ s.storage.table, row.ack ∉ s.ackedBeforeClose := by
  have h : Inv s ∧ ClosedInv s ∧ s.initial = table := by
    refine @Machine.invariant _ _ step Spared
      (fun s => Inv s ∧ ClosedInv s ∧ s.initial = table) ?_ as _ s hgood ?_ hrun
    · rintro a s s' ha ⟨hinv, hclosed, hinitial⟩ hstep
      exact ⟨step_inv a ha hinv hstep, closed_step a ha hinv hclosed hstep,
        (step_frame hstep).1.trans hinitial⟩
    · refine ⟨init_inv htable, ⟨fun ack hack => absurd hack List.not_mem_nil, ?_⟩, rfl⟩
      intro hreturned
      exact absurd hreturned (by simp [init, PacketStorage.init])
  rcases h with ⟨hinv, hclosed, rfl⟩
  have hexit := hinv.phases.exited (by rw [hreturned]; simp) (by rw [hreturned]; simp)
  have hqueue := hinv.phases.purged (Or.inr hreturned)
  constructor
  · intro row hknown hacked
    rcases hinv.ledger.rows.kept row hknown hacked (by
        change row.ack ∉ s.failed
        rw [hfailed]
        exact List.not_mem_nil) with hrow | ⟨q, hq, _⟩
    · exact hrow
    · -- nothing is in the queue or with the thread any more
      have hnone : s.storage.writing ++ s.storage.waiting = [] := by
        simp [PacketStorage.writing, PacketStorage.waiting, hexit, hreturned, hqueue]
      have hmem : q ∈ s.storage.writing ++ s.storage.waiting := hq
      rw [hnone] at hmem
      exact absurd hmem List.not_mem_nil
  · intro row hrow hbefore
    have hmem := hclosed.returned hreturned row hrow hbefore
    rw [hundeleted] at hmem
    exact absurd hmem List.not_mem_nil

/-- The packet that is popped together with `close_` is lost. -/
theorem close_loses : ∃ s : History Nat Nat Unit,
    Machine.run step [.insert 7 40 1 5 (), .startClose, .nextPacket, .join, .purgeTest,
      .purgeRemove true] (init []) = some s ∧
    s.storage.closing = .returned ∧ s.failed = [] ∧ s.acked = [] ∧
    (∃ p ∈ s.inserted, p.row = ⟨1, 7, 40⟩) ∧ (⟨1, 7, 40⟩ ∉ s.storage.table) := by
  refine ⟨_, rfl, rfl, rfl, rfl, ⟨_, List.mem_singleton_self _, rfl⟩, List.not_mem_nil⟩

/-- A packet that is inserted behind the exit of the thread is kept. -/
theorem close_keeps_late : ∃ s : History Nat Nat Unit,
    Machine.run step [.startClose, .nextPacket, .insert 7 40 1 5 (), .join, .purgeTest,
      .purgeWrite true, .purgeTest, .purgeRemove true] (init []) = some s ∧
    (⟨1, 7, 40⟩ ∈ s.storage.table) := by
  refine ⟨_, rfl, ?_⟩
  refine (@close_keeps Nat Nat Unit _ _ [] isPacketsTable_nil
    [.startClose, .nextPacket, .insert 7 40 1 5 (), .join, .purgeTest, .purgeWrite true,
      .purgeTest, .purgeRemove true] ?_ rfl rfl rfl rfl).1
    ⟨1, 7, 40⟩ (Or.inr ⟨_, List.mem_singleton_self _, rfl⟩) List.not_mem_nil
  have hempty : Spared (.nextPacket : StorageAction Nat Nat Unit)
      { init [] with storage := { PacketStorage.init [] with close := true, closing := .join } } := by
    intro _
    exact ⟨fun p hp => by simp [PacketStorage.init] at hp,
      fun ack hack => by simp [PacketStorage.init] at hack⟩
  exact .cons trivial rfl <| .cons hempty rfl <| .cons (Or.inr rfl) rfl <| .cons trivial rfl <|
    .cons trivial rfl <| .cons trivial rfl <| .cons trivial rfl <| .cons trivial rfl trivial

end History

end Securepath.PacketTransport
