import Securepath.PacketTransport.ServerSafety

/-!
# What the storage owes

A packet is owed to its sender until the storage thread has told of it. What a
step does with the packets, the table and the acks is said once, in `Flow`: a row
leaves the table when its packet is acked, and the sender is told when the packet
is in the table or acked.
-/

namespace Securepath.PacketTransport

/-- The packets whose sender can still be told. -/
def PacketStorage.untold {K P N : Type} (s : PacketStorage K P N) : List (QueuedPacket K P N) :=
  s.notifying ++ s.writing ++ s.waiting

/-- The thread has a packet in `p` whose sender it has not told. -/
def ThreadPc.Holds (pc : ThreadPc) : Prop :=
  pc = .testFlag ∨ pc = .writeToDatabase ∨ pc = .notify

namespace History

variable {K P N : Type} [DecidableEq K] {s t : History K P N} {table : List (Row K P)}

omit [DecidableEq K] in
theorem mem_untold (hclosing : s.storage.closing = .notCalled) (hphases : s.storage.Phases)
    {q : QueuedPacket K P N} : q ∈ s.storage.untold ↔
      (s.storage.thread.Holds ∧ s.storage.p = some q) ∨ q ∈ s.storage.queue := by
  have hzero := hphases.tested_eq_zero (Or.inl hclosing)
  unfold PacketStorage.untold PacketStorage.notifying PacketStorage.writing
    PacketStorage.waiting ThreadPc.Holds
  rw [hzero, hclosing]
  rcases s.storage.p with _ | p <;> cases s.storage.thread <;> simp [eq_comm]

omit [DecidableEq K] in
theorem mem_notifying {q : QueuedPacket K P N} :
    q ∈ s.storage.notifying ↔ s.storage.thread = .notify ∧ s.storage.p = some q := by
  unfold PacketStorage.notifying
  by_cases hpc : s.storage.thread = .notify <;> simp [hpc]

/-- What a step does with the packets of the storage and their acks. -/
structure Flow (a : StorageAction K P N) (s t : History K P N) : Prop where
  known : ∀ row, s.ledger.Known row → t.ledger.Known row
  knownNew : ∀ row, t.ledger.Known row → s.ledger.Known row ∨
    ∃ senderAck sender notify, a = .insert row.receiver row.packet senderAck sender notify
  untold : ∀ q ∈ t.storage.untold, q ∈ s.storage.untold ∨
    a = .insert q.receiver q.packet q.senderAck q.sender q.notify
  acked : ∀ ack ∈ s.acked, ack ∈ t.acked
  marked : ∀ ack ∈ t.acked ++ t.storage.removing, ack ∈ s.acked ++ s.storage.removing ∨
    ∃ h, a = .markAsAcked h ∧ h.ack = ack
  table : ∀ row ∈ s.storage.table, row ∈ t.storage.table ∨ row.ack ∈ s.acked
  told : ∀ q ∈ t.storage.notifying, q ∈ s.storage.notifying ∨
    (t.ledger.Known q.row ∧ (q.row ∈ t.storage.table ∨ q.ack ∈ t.acked))

theorem known_mono {a : StorageAction K P N} (hstep : step a s = some t) {row : Row K P}
    (h : s.ledger.Known row) : t.ledger.Known row := by
  rcases step_frame hstep with ⟨hinitial, hinserted, _⟩
  rcases h with h | ⟨p, hp, rfl⟩
  · left
    change row ∈ t.initial
    rw [hinitial]
    exact h
  · refine Or.inr ⟨p, ?_, rfl⟩
    change p ∈ t.inserted
    have hold : p ∈ s.inserted := hp
    rcases hinserted with hsame | ⟨q, _, hnew⟩
    · rw [hsame]
      exact hold
    · rw [hnew]
      exact List.mem_append_left _ hold

omit [DecidableEq K] in
theorem acked_markAsAcked (store : History K P N) (handle : PacketHandle) :
    ∀ ack ∈ (store.markAsAcked handle).acked ++ (store.markAsAcked handle).storage.removing,
      ack ∈ store.acked ++ store.storage.removing ∨ ack = handle.ack := by
  intro ack hack
  unfold markAsAcked at hack
  rcases PacketStorage.remove_eq (s := store.storage) handle with
    ⟨hflag, _, heq⟩ | ⟨hflag, _, _, heq⟩
  · simp only [heq, hflag, if_true, List.mem_append, List.mem_cons] at hack ⊢
    tauto
  · simp only [heq, hflag, Bool.false_eq_true, if_false, List.mem_append, List.mem_cons] at hack ⊢
    tauto

/-- A step that leaves the packets and the table alone. -/
theorem flow_of_frame {a : StorageAction K P N} (hstep : step a s = some t)
    (hinitial : t.initial = s.initial) (hinserted : t.inserted = s.inserted)
    (huntold : ∀ q ∈ t.storage.untold, q ∈ s.storage.untold)
    (hacked : ∀ ack ∈ s.acked, ack ∈ t.acked)
    (hmarked : ∀ ack ∈ t.acked ++ t.storage.removing, ack ∈ s.acked ++ s.storage.removing ∨
      ∃ h, a = .markAsAcked h ∧ h.ack = ack)
    (htable : ∀ row ∈ s.storage.table, row ∈ t.storage.table ∨ row.ack ∈ s.acked)
    (htold : ∀ q ∈ t.storage.notifying, q ∈ s.storage.notifying ∨
      (t.ledger.Known q.row ∧ (q.row ∈ t.storage.table ∨ q.ack ∈ t.acked))) : Flow a s t where
  known := fun _ => known_mono hstep
  knownNew := by
    rintro row (hrow | ⟨p, hp, rfl⟩)
    · left; left
      change row ∈ s.initial
      rw [← hinitial]
      exact hrow
    · left; right
      refine ⟨p, ?_, rfl⟩
      change p ∈ s.inserted
      rw [← hinserted]
      exact hp
  untold := fun q hq => Or.inl (huntold q hq)
  acked := hacked
  marked := hmarked
  table := htable
  told := htold

theorem flow_step {a : StorageAction K P N} (ha : a.WithoutClose) (hs : OpenInv table s)
    (hstep : step a s = some t) : Flow a s t := by
  have ht := open_step ha hs hstep
  have huntold : ∀ {q : QueuedPacket K P N}, q ∈ s.storage.untold ↔
      (s.storage.thread.Holds ∧ s.storage.p = some q) ∨ q ∈ s.storage.queue :=
    mem_untold hs.notCalled hs.inv.phases
  have huntold' : ∀ {q : QueuedPacket K P N}, q ∈ t.storage.untold ↔
      (t.storage.thread.Holds ∧ t.storage.p = some q) ∨ q ∈ t.storage.queue :=
    mem_untold ht.notCalled ht.inv.phases
  cases a with
  | insert receiver packet senderAck sender notify =>
      rcases Option.some.inj hstep with rfl
      refine ⟨fun _ => known_mono hstep, ?_, ?_, fun _ h => h, fun _ h => Or.inl h,
        fun _ h => Or.inl h, fun _ h => Or.inl h⟩
      · rintro row (hrow | ⟨p, hp, rfl⟩)
        · exact Or.inl (Or.inl hrow)
        · rcases List.mem_append.mp hp with hp | hp
          · exact Or.inl (Or.inr ⟨p, hp, rfl⟩)
          · rw [List.mem_singleton.mp hp]
            exact Or.inr ⟨senderAck, sender, notify, rfl⟩
      · intro q hq
        rcases huntold'.mp hq with hq | hq
        · exact Or.inl (huntold.mpr (Or.inl hq))
        · rcases List.mem_append.mp hq with hq | hq
          · exact Or.inl (huntold.mpr (Or.inr hq))
          · rw [List.mem_singleton.mp hq]
            exact Or.inr rfl
  | query receiver =>
      rcases Option.some.inj hstep with rfl
      exact flow_of_frame hstep rfl rfl (fun _ h => h) (fun _ h => h) (fun _ h => Or.inl h)
        (fun _ h => Or.inl h) (fun _ h => Or.inl h)
  | markAsAcked handle =>
      simp only [step, Option.ite_none_right_eq_some, Option.some.injEq] at hstep
      rcases hstep with ⟨hh, rfl⟩
      have hstep' : step (.markAsAcked handle) s = some (s.markAsAcked handle) := by
        simp [step, hh]
      have hacked : ∀ ack ∈ s.acked, ack ∈ (s.markAsAcked handle).acked := by
        intro ack hack
        unfold markAsAcked
        by_cases hflag : s.storage.flag handle = true <;> simp [hflag, hack]
      have hmarked : ∀ ack ∈ (s.markAsAcked handle).acked ++
          (s.markAsAcked handle).storage.removing, ack ∈ s.acked ++ s.storage.removing ∨
            ∃ h, (StorageAction.markAsAcked handle : StorageAction K P N) = .markAsAcked h ∧
              h.ack = ack := by
        intro ack hack
        exact (acked_markAsAcked s handle ack hack).imp_right fun heq => ⟨handle, rfl, heq.symm⟩
      -- neither way of `remove` touches the queue or the table
      rcases PacketStorage.remove_eq (s := s.storage) handle with ⟨_, _, heq⟩ | ⟨_, _, _, heq⟩
      all_goals
        refine flow_of_frame hstep' rfl rfl ?_ hacked hmarked ?_ ?_
        · intro q hq
          rw [huntold'] at hq
          rw [huntold]
          simpa only [markAsAcked, heq] using hq
        · intro row hrow
          left
          simpa only [markAsAcked, heq] using hrow
        · intro q hq
          left
          rw [mem_notifying] at hq ⊢
          simpa only [markAsAcked, heq] using hq
  | pushRemove ack =>
      have hmarked : ∀ n ∈ t.acked ++ t.storage.removing, n ∈ s.acked ++ s.storage.removing :=
        acked_step rfl hstep
      rcases Option.map_eq_some_iff.mp hstep with ⟨u, hu, rfl⟩
      rcases PacketStorage.pushRemove_eq_some hu with ⟨_, rfl⟩
      exact flow_of_frame hstep rfl rfl (fun _ h => h) (fun _ h => List.mem_cons_of_mem _ h)
        (fun n h => Or.inl (hmarked n h)) (fun _ h => Or.inl h) (fun _ h => Or.inl h)
  | nextPacket =>
      rcases Option.map_eq_some_iff.mp hstep with ⟨u, hu, rfl⟩
      have hopen := hs.inv.phases.close_iff
      rcases PacketStorage.nextPacket_eq_some hu with ⟨hpc, rfl⟩
      have hclose : s.storage.close = false := by
        rw [← Bool.not_eq_true, hopen]
        exact not_not.mpr hs.notCalled
      refine flow_of_frame hstep rfl rfl ?_ (fun _ h => h) (fun _ h => Or.inl h)
        (fun _ h => Or.inl h) ?_
      · intro q hq
        rw [huntold]
        right
        rcases huntold'.mp hq with ⟨_, hq⟩ | hq
        · -- the packet that was popped
          have hhead : s.storage.queue.head? = some q := by simpa [hclose] using hq
          exact List.mem_of_head? hhead
        · exact List.mem_of_mem_tail hq
      · intro q hq
        rw [mem_notifying] at hq
        simp [hclose] at hq
  | testFlag =>
      rcases Option.map_eq_some_iff.mp hstep with ⟨u, hu, rfl⟩
      rcases PacketStorage.testFlag_eq_some hu with ⟨hpc, ⟨hp, rfl⟩ | ⟨p, hp, rfl⟩⟩
      · refine flow_of_frame hstep rfl rfl ?_ (fun _ h => h) (fun _ h => Or.inl h)
          (fun _ h => Or.inl h) ?_
        · intro q hq
          rw [huntold]
          rcases huntold'.mp hq with ⟨_, hq⟩ | hq
          · have hsome : s.storage.p = some q := hq
            rw [hp] at hsome
            exact absurd hsome (by simp)
          · exact Or.inr hq
        · intro q hq
          rw [mem_notifying] at hq
          simp at hq
      · refine flow_of_frame hstep rfl rfl ?_ (fun _ h => h) (fun _ h => Or.inl h)
          (fun _ h => Or.inl h) ?_
        · intro q hq
          rw [huntold]
          rcases huntold'.mp hq with ⟨_, hq⟩ | hq
          · exact Or.inl ⟨Or.inl hpc, hq⟩
          · exact Or.inr hq
        · intro q hq
          rw [mem_notifying] at hq
          have hq' : s.storage.p = some q := hq.2
          obtain rfl : p = q := Option.some.inj (hp.symm.trans hq')
          -- a packet is not written when it is acked already
          have hflag : s.storage.removeFlag p.ack = true := by
            by_contra hunset
            simp [hunset] at hq
          have hwaiting : p ∈ s.storage.waiting := by simp [PacketStorage.waiting, hpc, hp]
          refine Or.inr ⟨known_mono hstep (Ledger.waiting_known hs.inv.ledger.acks hwaiting), ?_⟩
          exact Or.inr ((hs.inv.ledger.flags.acked_iff p hwaiting).mp hflag)
  | threadWrite ok =>
      rcases Option.map_eq_some_iff.mp hstep with ⟨u, hu, rfl⟩
      have hmarked := acked_step (a := .threadWrite ok) rfl hstep
      rcases noteWrite_frame (s := s) ok s.storage.p u with
        ⟨hinitial, hinserted, _, hacked, _, _⟩
      have hacked' : ∀ ack ∈ s.acked, ack ∈ (s.noteWrite ok s.storage.p u).acked := by
        rw [hacked]
        exact fun _ h => h
      rcases PacketStorage.threadWrite_eq_some hu with ⟨hpc, p, hp, hcases⟩
      refine flow_of_frame hstep hinitial hinserted ?_ hacked' (fun n h => Or.inl (hmarked n h))
        ?_ ?_
      · intro q hq
        rw [huntold]
        rw [huntold', storage_noteWrite] at hq
        -- the packet stays with the thread, whether the statement fails or not
        rcases hcases with ⟨_, _, rfl⟩ | ⟨_, rfl⟩ <;> rcases hq with ⟨_, hq⟩ | hq
        · exact Or.inl ⟨Or.inr (Or.inl hpc), hq⟩
        · exact Or.inr hq
        · exact Or.inl ⟨Or.inr (Or.inl hpc), hq⟩
        · exact Or.inr hq
      · intro row hrow
        left
        rw [storage_noteWrite]
        rcases hcases with ⟨_, _, rfl⟩ | ⟨_, rfl⟩
        · exact List.mem_append_left _ hrow
        · exact hrow
      · intro q hq
        rw [mem_notifying, storage_noteWrite] at hq
        rcases hcases with ⟨_, _, rfl⟩ | ⟨_, rfl⟩
        · have hq' : s.storage.p = some q := hq.2
          obtain rfl : p = q := Option.some.inj (hp.symm.trans hq')
          have hwriting : p ∈ s.storage.writing := by simp [PacketStorage.writing, hpc, hp]
          have hknown : s.ledger.Known p.row :=
            Or.inr ⟨p, hs.inv.ledger.acks.writing_inserted p hwriting, rfl⟩
          refine Or.inr ⟨known_mono hstep hknown, Or.inl ?_⟩
          rw [storage_noteWrite]
          exact List.mem_append_right _ (List.mem_singleton_self _)
        · simp at hq
  | threadNotify =>
      rcases Option.map_eq_some_iff.mp hstep with ⟨u, hu, rfl⟩
      rcases PacketStorage.threadNotify_eq_some hu with ⟨hpc, rfl⟩
      refine flow_of_frame hstep rfl rfl ?_ (fun _ h => h) (fun _ h => Or.inl h)
        (fun _ h => Or.inl h) ?_
      · intro q hq
        rw [huntold]
        rcases huntold'.mp hq with ⟨hholds, _⟩ | hq
        · exact absurd hholds (by simp [ThreadPc.Holds])
        · exact Or.inr hq
      · intro q hq
        rw [mem_notifying] at hq
        simp at hq
  | threadRemove ok =>
      rcases Option.map_eq_some_iff.mp hstep with ⟨u, hu, rfl⟩
      rcases PacketStorage.threadRemove_eq_some hu with ⟨hpc, rfl⟩
      refine flow_of_frame hstep rfl rfl ?_ (fun _ h => h) (fun _ h => Or.inl h) ?_ ?_
      · intro q hq
        rw [huntold]
        rcases huntold'.mp hq with ⟨hholds, _⟩ | hq
        · exact absurd hholds (by simp [ThreadPc.Holds])
        · exact Or.inr hq
      · intro row hrow
        by_cases hgone : s.storage.removeAck ≠ 0 ∧ ok = true ∧ row.ack = s.storage.removeAck
        · right
          -- only what is acked is due
          have hdue : s.storage.removeAck ∈ s.ledger.due := by
            change s.storage.removeAck ∈ s.storage.due
            simp [PacketStorage.due, PacketStorage.hasRemoveAck, hpc, hgone.1]
          rw [hgone.2.2]
          exact hs.inv.ledger.rows.due_acked _ (List.mem_append_left _ hdue)
        · left
          by_cases hremove : s.storage.removeAck ≠ 0 ∧ ok = true
          · have hne : row.ack ≠ s.storage.removeAck := fun heq =>
              hgone ⟨hremove.1, hremove.2, heq⟩
            simp [hremove, hrow, hne]
          · simp only [if_neg hremove]
            exact hrow
      · intro q hq
        rw [mem_notifying] at hq
        simp at hq
  | _ => exact absurd ha not_false

/-- The sender is told of what is in the table or acked. -/
def Told (s : History K P N) : Prop :=
  ∀ q ∈ s.storage.notifying,
    s.ledger.Known q.row ∧ (q.row ∈ s.storage.table ∨ q.ack ∈ s.acked)

omit [DecidableEq K] in
theorem told_step {a : StorageAction K P N} (h : Flow a s t) (htold : Told s) : Told t := by
  intro q hq
  rcases h.told q hq with hold | hnew
  · rcases htold q hold with ⟨hknown, hrow | hacked⟩
    · rcases h.table _ hrow with hrow | hacked
      · exact ⟨h.known _ hknown, Or.inl hrow⟩
      · exact ⟨h.known _ hknown, Or.inr (h.acked _ hacked)⟩
    · exact ⟨h.known _ hknown, Or.inr (h.acked _ hacked)⟩
  · exact hnew

/-- While it is open, the storage is a ledger: each of its steps is none of the
ledger's or some, whatever the threads do. -/
theorem open_refines {as : List (StorageAction K P N)} (htable : IsPacketsTable table)
    (has : ∀ a ∈ as, a.WithoutClose) (hrun : Machine.run step as (init table) = some s) :
    Relation.ReflTransGen Ledger.Step (init table : History K P N).ledger s.ledger ∧
      s.ledger.Inv := by
  have h : OpenInv table s ∧
      Relation.ReflTransGen Ledger.Step (init table : History K P N).ledger s.ledger := by
    refine @Machine.invariant_of_forall _ _ step (fun t => OpenInv table t ∧
      Relation.ReflTransGen Ledger.Step (init table : History K P N).ledger t.ledger)
      StorageAction.WithoutClose ?_ as _ s has ⟨open_init htable, .refl⟩ hrun
    intro a u v ha hu hstep
    refine ⟨open_step ha hu.1 hstep, hu.2.trans ?_⟩
    exact step_refines a hu.1.inv.phases hu.1.inv.ledger (spared_of_open hu.1 a) hstep
  exact ⟨h.2, h.1.inv.ledger⟩

theorem open_refines_acked : ∃ s : History Nat Nat Unit,
    Machine.run step [.insert 7 40 1 5 (), .nextPacket, .testFlag, .threadWrite true,
      .markAsAcked ⟨1, true⟩, .threadNotify, .pushRemove 1, .threadRemove true, .nextPacket,
      .testFlag, .threadRemove true] (init []) = some s ∧ s.storage.table = [] ∧
    Relation.ReflTransGen Ledger.Step (init [] : History Nat Nat Unit).ledger s.ledger ∧
      s.ledger.Inv := by
  refine ⟨_, rfl, rfl, ?_⟩
  exact @open_refines Nat Nat Unit _ _ [] [.insert 7 40 1 5 (), .nextPacket, .testFlag,
    .threadWrite true, .markAsAcked ⟨1, true⟩, .threadNotify, .pushRemove 1, .threadRemove true,
    .nextPacket, .testFlag, .threadRemove true] isPacketsTable_nil
    (by simp [StorageAction.WithoutClose]) rfl

end History

end Securepath.PacketTransport
