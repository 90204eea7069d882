import Securepath.PacketTransport.Storage
import Mathlib.Logic.Relation

/-!
# What the storage is for

A ledger says which packets wait for the database, which one is being written
and whose sender is being told, what the table has and which acks are still to
be removed from it. It does not know the queues, the storage thread or `close`.
`Step` is what may happen to it and `Inv` what stays true: a packet that is not
acked is always somewhere, and an ack of a row is never forgotten.
-/

namespace Securepath.PacketTransport

structure Ledger (K P N : Type) where
  sequence : Nat
  /-- the rows that the table had at first -/
  initial : List (Row K P)
  inserted : List (QueuedPacket K P N)
  waiting : List (QueuedPacket K P N)
  writing : List (QueuedPacket K P N)
  notifying : List (QueuedPacket K P N)
  table : List (Row K P)
  flag : Nat → Bool
  /-- the acks that are removed from the table next -/
  due : List Nat
  removing : List Nat
  handles : List PacketHandle
  acked : List Nat
  written : List Nat
  failed : List Nat
  undeleted : List Nat
  notified : List Nat

namespace Ledger

variable {K P N : Type}

/-- The rows of the packets that the storage was ever given. -/
def Known (l : Ledger K P N) (row : Row K P) : Prop :=
  row ∈ l.initial ∨ ∃ q ∈ l.inserted, q.row = row

/-- The acks in the order in which their packets go through the ledger. -/
def order (l : Ledger K P N) : List Nat :=
  l.notified ++ (l.notifying ++ l.writing ++ l.waiting).map QueuedPacket.ack

inductive Step (l : Ledger K P N) : Ledger K P N → Prop
  | insert (q : QueuedPacket K P N) (hack : q.ack = l.sequence + 1) :
      Step l { l with
        sequence := l.sequence + 1
        inserted := l.inserted ++ [q]
        waiting := l.waiting ++ [q]
        handles := ⟨q.ack, true⟩ :: l.handles }
  | offer (rows : List (Row K P)) (hrows : ∀ row ∈ rows, row ∈ l.table) :
      Step l { l with handles := rows.map (fun row => ⟨row.ack, false⟩) ++ l.handles }
  | ackWaiting (h : PacketHandle) (hh : h ∈ l.handles)
      (hwait : ∃ q ∈ l.waiting, q.ack = h.ack) :
      Step l { l with
        flag := Function.update l.flag h.ack true
        acked := h.ack :: l.acked }
  | ackLater (h : PacketHandle) (hh : h ∈ l.handles)
      (hwait : ∀ q ∈ l.waiting, q.ack = h.ack → h.queued = true → l.flag h.ack = true) :
      Step l { l with removing := h.ack :: l.removing }
  | pushRemove (ack : Nat) (hack : ack ∈ l.removing) :
      Step l { l with
        removing := l.removing.erase ack
        due := l.due ++ [ack]
        acked := ack :: l.acked }
  | skip (q : QueuedPacket K P N) (rest told : List (QueuedPacket K P N))
      (hwait : l.waiting = q :: rest) (hflag : l.flag q.ack = true)
      (hwriting : l.writing = []) (hnotifying : l.notifying = [])
      (htold : told = [q] ∨ told = []) :
      Step l { l with waiting := rest, notifying := told }
  | startWrite (q : QueuedPacket K P N) (rest : List (QueuedPacket K P N))
      (hwait : l.waiting = q :: rest) (hflag : l.flag q.ack = false)
      (hwriting : l.writing = []) (hnotifying : l.notifying = []) :
      Step l { l with
        waiting := rest
        writing := [q]
        flag := Function.update l.flag q.ack true }
  | write (q : QueuedPacket K P N) (told : List (QueuedPacket K P N))
      (hwriting : l.writing = [q]) (hnotifying : l.notifying = [])
      (htold : told = [q] ∨ told = []) :
      Step l { l with
        writing := []
        notifying := told
        table := l.table ++ [q.row]
        written := q.ack :: l.written }
  | writeFails (q : QueuedPacket K P N) (hwriting : l.writing = [q]) :
      Step l { l with writing := [], failed := q.ack :: l.failed }
  | notify (q : QueuedPacket K P N) (hnotifying : l.notifying = [q]) :
      Step l { l with notifying := [], notified := l.notified ++ [q.ack] }
  | delete (ack : Nat) (rest : List Nat) (hdue : l.due = ack :: rest)
      (hwriting : l.writing = []) :
      Step l { l with due := rest, table := l.table.filter (·.ack ≠ ack) }
  | deleteFails (ack : Nat) (rest : List Nat) (hdue : l.due = ack :: rest) :
      Step l { l with due := rest, undeleted := ack :: l.undeleted }
  | forget (ack : Nat) (rest : List Nat) (hdue : l.due = ack :: rest)
      (hwriting : l.writing = []) (hrow : ∀ row ∈ l.table, row.ack ≠ ack) :
      Step l { l with due := rest }

/-! ## The invariant -/

/-- Acks are given out once. -/
structure Acks (l : Ledger K P N) : Prop where
  known_pos : ∀ row, l.Known row → 0 < row.ack
  known_le : ∀ row, l.Known row → row.ack ≤ l.sequence
  known_inj : ∀ row row', l.Known row → l.Known row' → row.ack = row'.ack → row = row'
  waiting_inserted : ∀ q ∈ l.waiting, q ∈ l.inserted
  writing_inserted : ∀ q ∈ l.writing, q ∈ l.inserted
  table_known : ∀ row ∈ l.table, l.Known row
  handles_known : ∀ h ∈ l.handles, ∃ row, l.Known row ∧ row.ack = h.ack
  acked_le : ∀ ack ∈ l.acked, ack ≤ l.sequence
  removing_le : ∀ ack ∈ l.removing, 0 < ack ∧ ack ≤ l.sequence
  due_pos : ∀ ack ∈ l.due, 0 < ack
  failed_le : ∀ ack ∈ l.failed, ack ≤ l.sequence
  flag_le : ∀ ack, l.flag ack = true → ack ≤ l.sequence
  order_le : ∀ ack ∈ l.order, ack ≤ l.sequence
  order_lt : l.order.Pairwise (· < ·)

/-- The flag of a waiting packet says whether it is acked. -/
structure Flags (l : Ledger K P N) : Prop where
  acked_iff : ∀ q ∈ l.waiting, l.flag q.ack = true ↔ q.ack ∈ l.acked
  removing_flag : ∀ q ∈ l.waiting, q.ack ∈ l.removing → l.flag q.ack = true
  handle_queued : ∀ q ∈ l.waiting, ∀ h ∈ l.handles, h.ack = q.ack → h.queued = true

/-- Where a packet is, and what becomes of its ack. -/
structure Rows (l : Ledger K P N) : Prop where
  fresh : ∀ q ∈ l.writing ++ l.waiting,
    (∀ row ∈ l.table, row.ack ≠ q.ack) ∧ q.ack ∉ l.failed
  stored : ∀ row ∈ l.table, row.ack ∉ l.failed
  kept : ∀ row, l.Known row → row.ack ∉ l.acked → row.ack ∉ l.failed →
    row ∈ l.table ∨ ∃ q ∈ l.writing ++ l.waiting, q.row = row
  due_acked : ∀ ack ∈ l.due ++ l.undeleted, ack ∈ l.acked
  row_due : ∀ row ∈ l.table, row.ack ∈ l.acked → row.ack ∈ l.due ++ l.undeleted
  writing_due : ∀ q ∈ l.writing, q.ack ∈ l.acked → q.ack ∈ l.due ++ l.undeleted

/-- The sender is told of what is written or acked. -/
structure Told (l : Ledger K P N) : Prop where
  notifying : ∀ q ∈ l.notifying, q.ack ∈ l.written ∨ q.ack ∈ l.acked
  notified : ∀ ack ∈ l.notified, ack ∈ l.written ∨ ack ∈ l.acked

structure Inv (l : Ledger K P N) : Prop where
  acks : Acks l
  flags : Flags l
  rows : Rows l
  told : Told l

variable {l l' : Ledger K P N}

theorem waiting_known (h : Acks l) {q : QueuedPacket K P N} (hq : q ∈ l.waiting) :
    l.Known q.row :=
  Or.inr ⟨q, h.waiting_inserted q hq, rfl⟩

/-! ## The acks -/

/-- Packets leave the order of the ledger where they stand, and new ones join
it at its end. -/
theorem step_order (hstep : Step l l') : (l'.order.Sublist l.order ∧ l'.sequence = l.sequence) ∨
    (l'.order = l.order ++ [l.sequence + 1] ∧ l'.sequence = l.sequence + 1) := by
  cases hstep with
  | insert q hack =>
      right
      simp [order, hack]
  | skip q rest told hwait hflag hwriting hnotifying htold =>
      left
      rcases htold with rfl | rfl <;> simp [order, hwait, hwriting, hnotifying]
  | startWrite q rest hwait hflag hwriting hnotifying =>
      left
      simp [order, hwait, hwriting, hnotifying]
  | write q told hwriting hnotifying htold =>
      left
      rcases htold with rfl | rfl <;> simp [order, hwriting, hnotifying]
  | writeFails q hwriting =>
      left
      simp [order, hwriting]
  | notify q hnotifying =>
      left
      simp [order, hnotifying]
  | _ =>
      left
      exact ⟨List.Sublist.refl _, rfl⟩

theorem step_order_le (h : Acks l) (hstep : Step l l') : ∀ ack ∈ l'.order, ack ≤ l'.sequence := by
  intro ack hack
  rcases step_order hstep with ⟨hsub, hseq⟩ | ⟨heq, hseq⟩
  · rw [hseq]
    exact h.order_le ack (hsub.subset hack)
  · rw [heq, List.mem_append, List.mem_singleton] at hack
    rw [hseq]
    rcases hack with hack | rfl
    · exact Nat.le_succ_of_le (h.order_le ack hack)
    · exact Nat.le_refl _

theorem step_order_lt (h : Acks l) (hstep : Step l l') : l'.order.Pairwise (· < ·) := by
  rcases step_order hstep with ⟨hsub, hseq⟩ | ⟨heq, hseq⟩
  · exact h.order_lt.sublist hsub
  · rw [heq, List.pairwise_append]
    refine ⟨h.order_lt, List.pairwise_singleton .., ?_⟩
    intro ack hack new hnew
    rw [List.mem_singleton.mp hnew]
    exact Nat.lt_succ_of_le (h.order_le ack hack)

/-- An ack that no packet has yet. -/
theorem known_insert {q : QueuedPacket K P N} {row : Row K P}
    (h : row ∈ l.initial ∨ ∃ p ∈ l.inserted ++ [q], p.row = row) : l.Known row ∨ q.row = row := by
  rcases h with h | ⟨p, hp, rfl⟩
  · exact Or.inl (Or.inl h)
  · rcases List.mem_append.mp hp with hp | hp
    · exact Or.inl (Or.inr ⟨p, hp, rfl⟩)
    · exact Or.inr (by rw [List.mem_singleton.mp hp])

theorem step_acks (h : Acks l) (hstep : Step l l') : Acks l' := by
  have hle := step_order_le h hstep
  have hlt := step_order_lt h hstep
  cases hstep with
  | insert q hack =>
      have hnew : q.row.ack = l.sequence + 1 := hack
      -- the new ack is above all others
      have hold : ∀ row, l.Known row → row.ack < q.row.ack := by
        intro row hrow
        rw [hnew]
        exact Nat.lt_succ_of_le (h.known_le row hrow)
      have hsplit : ∀ row, (row ∈ l.initial ∨ ∃ p ∈ l.inserted ++ [q], p.row = row) →
          l.Known row ∨ q.row = row := fun row => known_insert
      have hstays : ∀ row, l.Known row →
          row ∈ l.initial ∨ ∃ p ∈ l.inserted ++ [q], p.row = row := by
        rintro row (hrow | ⟨p, hp, rfl⟩)
        · exact Or.inl hrow
        · exact Or.inr ⟨p, List.mem_append_left _ hp, rfl⟩
      refine { h with
        known_pos := ?_
        known_le := ?_
        known_inj := ?_
        waiting_inserted := ?_
        writing_inserted := fun p hp => List.mem_append_left _ (h.writing_inserted p hp)
        table_known := fun row hrow => hstays row (h.table_known row hrow)
        handles_known := ?_
        acked_le := fun ack hack => Nat.le_succ_of_le (h.acked_le ack hack)
        removing_le := fun ack hack =>
          ⟨(h.removing_le ack hack).1, Nat.le_succ_of_le (h.removing_le ack hack).2⟩
        failed_le := fun ack hack => Nat.le_succ_of_le (h.failed_le ack hack)
        flag_le := fun ack hack => Nat.le_succ_of_le (h.flag_le ack hack)
        order_le := hle
        order_lt := hlt }
      · intro row hrow
        rcases hsplit row hrow with hrow | rfl
        · exact h.known_pos row hrow
        · omega
      · intro row hrow
        rcases hsplit row hrow with hrow | rfl
        · exact Nat.le_succ_of_le (h.known_le row hrow)
        · exact Nat.le_of_eq hnew
      · intro row row' hrow hrow' heq
        rcases hsplit row hrow with hrow | rfl <;> rcases hsplit row' hrow' with hrow' | rfl
        · exact h.known_inj row row' hrow hrow' heq
        · exact absurd heq (Nat.ne_of_lt (hold row hrow))
        · exact absurd heq.symm (Nat.ne_of_lt (hold row' hrow'))
        · rfl
      · intro p hp
        rcases List.mem_append.mp hp with hp | hp
        · exact List.mem_append_left _ (h.waiting_inserted p hp)
        · exact List.mem_append_right _ hp
      · intro handle hhandle
        rcases List.mem_cons.mp hhandle with rfl | hhandle
        · exact ⟨q.row, Or.inr ⟨q, List.mem_append_right _ (List.mem_singleton_self q), rfl⟩, rfl⟩
        · rcases h.handles_known handle hhandle with ⟨row, hrow, heq⟩
          exact ⟨row, hstays row hrow, heq⟩
  | offer rows hrows =>
      refine { h with handles_known := ?_, order_le := hle, order_lt := hlt }
      intro handle hhandle
      rcases List.mem_append.mp hhandle with hhandle | hhandle
      · rcases List.mem_map.mp hhandle with ⟨row, hrow, rfl⟩
        exact ⟨row, h.table_known row (hrows row hrow), rfl⟩
      · exact h.handles_known handle hhandle
  | ackWaiting handle hh hwait =>
      rcases h.handles_known handle hh with ⟨row, hrow, heq⟩
      have hack : handle.ack ≤ l.sequence := heq ▸ h.known_le row hrow
      refine { h with acked_le := ?_, flag_le := ?_, order_le := hle, order_lt := hlt }
      · intro ack hmem
        rcases List.mem_cons.mp hmem with rfl | hmem
        · exact hack
        · exact h.acked_le ack hmem
      · intro ack hflag
        by_cases hsame : ack = handle.ack
        · rw [hsame]
          exact hack
        · exact h.flag_le ack (by simpa [Function.update_of_ne hsame] using hflag)
  | ackLater handle hh hwait =>
      rcases h.handles_known handle hh with ⟨row, hrow, heq⟩
      refine { h with removing_le := ?_, order_le := hle, order_lt := hlt }
      intro ack hmem
      rcases List.mem_cons.mp hmem with rfl | hmem
      · exact ⟨heq ▸ h.known_pos row hrow, heq ▸ h.known_le row hrow⟩
      · exact h.removing_le ack hmem
  | pushRemove ack hack =>
      refine { h with
        removing_le := ?_, acked_le := ?_, due_pos := ?_, order_le := hle, order_lt := hlt }
      · intro a ha
        rcases List.mem_cons.mp ha with rfl | ha
        · exact (h.removing_le a hack).2
        · exact h.acked_le a ha
      · intro a ha
        exact h.removing_le a (List.mem_of_mem_erase ha)
      · intro a ha
        rcases List.mem_append.mp ha with ha | ha
        · exact h.due_pos a ha
        · rw [List.mem_singleton.mp ha]
          exact (h.removing_le ack hack).1
  | skip q rest told hwait hflag hwriting hnotifying htold =>
      refine { h with waiting_inserted := ?_, order_le := hle, order_lt := hlt }
      intro p hp
      exact h.waiting_inserted p (by rw [hwait]; exact List.mem_cons_of_mem _ hp)
  | startWrite q rest hwait hflag hwriting hnotifying =>
      have hq : q ∈ l.inserted := h.waiting_inserted q (by rw [hwait]; exact List.mem_cons_self ..)
      refine { h with
        waiting_inserted := ?_, writing_inserted := ?_, flag_le := ?_
        order_le := hle, order_lt := hlt }
      · intro p hp
        exact h.waiting_inserted p (by rw [hwait]; exact List.mem_cons_of_mem _ hp)
      · intro p hp
        rw [List.mem_singleton.mp hp]
        exact hq
      · intro ack hset
        by_cases hsame : ack = q.ack
        · rw [hsame]
          exact h.known_le q.row (Or.inr ⟨q, hq, rfl⟩)
        · exact h.flag_le ack (by simpa [Function.update_of_ne hsame] using hset)
  | write q told hwriting hnotifying htold =>
      have hq : q ∈ l.inserted :=
        h.writing_inserted q (by rw [hwriting]; exact List.mem_cons_self ..)
      refine { h with
        writing_inserted := fun p hp => absurd hp List.not_mem_nil
        table_known := ?_, order_le := hle, order_lt := hlt }
      intro row hrow
      rcases List.mem_append.mp hrow with hrow | hrow
      · exact h.table_known row hrow
      · rw [List.mem_singleton.mp hrow]
        exact Or.inr ⟨q, hq, rfl⟩
  | writeFails q hwriting =>
      have hq : q ∈ l.inserted :=
        h.writing_inserted q (by rw [hwriting]; exact List.mem_cons_self ..)
      refine { h with
        writing_inserted := fun p hp => absurd hp List.not_mem_nil
        failed_le := ?_, order_le := hle, order_lt := hlt }
      intro ack hack
      rcases List.mem_cons.mp hack with rfl | hack
      · exact h.known_le q.row (Or.inr ⟨q, hq, rfl⟩)
      · exact h.failed_le ack hack
  | notify q hnotifying => exact { h with order_le := hle, order_lt := hlt }
  | delete ack rest hdue hwriting =>
      refine { h with
        table_known := ?_, due_pos := ?_, order_le := hle, order_lt := hlt }
      · intro row hrow
        exact h.table_known row (List.mem_filter.mp hrow).1
      · intro a ha
        exact h.due_pos a (by rw [hdue]; exact List.mem_cons_of_mem _ ha)
  | deleteFails ack rest hdue =>
      refine { h with due_pos := ?_, order_le := hle, order_lt := hlt }
      intro a ha
      exact h.due_pos a (by rw [hdue]; exact List.mem_cons_of_mem _ ha)
  | forget ack rest hdue hwriting hrow =>
      refine { h with due_pos := ?_, order_le := hle, order_lt := hlt }
      intro a ha
      exact h.due_pos a (by rw [hdue]; exact List.mem_cons_of_mem _ ha)

/-- The packets that are not through have acks of their own. -/
theorem pending_nodup (h : Acks l) :
    ((l.notifying ++ l.writing ++ l.waiting).map QueuedPacket.ack).Nodup :=
  (List.pairwise_append.mp h.order_lt).2.1.imp Nat.ne_of_lt

/-- The packet in front has another ack than those behind it. -/
theorem ack_ne_of_waiting (h : Acks l) {q p : QueuedPacket K P N}
    {rest : List (QueuedPacket K P N)} (hwait : l.waiting = q :: rest) (hp : p ∈ rest) :
    p.ack ≠ q.ack := by
  have hnodup := pending_nodup h
  rw [hwait, List.map_append, List.nodup_append] at hnodup
  have hcons := hnodup.2.1
  rw [List.map_cons, List.nodup_cons] at hcons
  intro heq
  exact hcons.1 (heq ▸ List.mem_map_of_mem hp)

/-- The packet that is written has another ack than those that wait. -/
theorem ack_ne_of_writing (h : Acks l) {q p : QueuedPacket K P N}
    (hq : q ∈ l.writing) (hp : p ∈ l.waiting) : p.ack ≠ q.ack := by
  have hnodup := pending_nodup h
  rw [List.map_append, List.nodup_append] at hnodup
  intro heq
  refine hnodup.2.2 q.ack ?_ p.ack (List.mem_map_of_mem hp) heq.symm
  exact List.mem_map_of_mem (List.mem_append_right _ hq)

/-! ## The flags -/

theorem step_flags (h : Inv l) (hstep : Step l l') : Flags l' := by
  cases hstep with
  | insert q hack =>
      refine ⟨?_, ?_, ?_⟩
      · intro p hp
        rcases List.mem_append.mp hp with hp | hp
        · exact h.flags.acked_iff p hp
        · rw [List.mem_singleton.mp hp]
          constructor
          · intro hflag
            have hle := h.acks.flag_le q.ack hflag
            omega
          · intro hacked
            have hle := h.acks.acked_le q.ack hacked
            omega
      · intro p hp hremoving
        rcases List.mem_append.mp hp with hp | hp
        · exact h.flags.removing_flag p hp hremoving
        · rw [List.mem_singleton.mp hp] at hremoving
          have hle := (h.acks.removing_le q.ack hremoving).2
          omega
      · intro p hp handle hhandle heq
        rcases List.mem_cons.mp hhandle with rfl | hhandle
        · rfl
        rcases List.mem_append.mp hp with hp | hp
        · exact h.flags.handle_queued p hp handle hhandle heq
        · -- no handle has the new ack
          rcases h.acks.handles_known handle hhandle with ⟨row, hrow, hrowack⟩
          have hle := h.acks.known_le row hrow
          rw [List.mem_singleton.mp hp] at heq
          omega
  | offer rows hrows =>
      refine { h.flags with handle_queued := ?_ }
      intro p hp handle hhandle heq
      rcases List.mem_append.mp hhandle with hhandle | hhandle
      · -- a waiting packet has no row
        rcases List.mem_map.mp hhandle with ⟨row, hrow, rfl⟩
        exact absurd heq ((h.rows.fresh p (List.mem_append_right _ hp)).1 row (hrows row hrow))
      · exact h.flags.handle_queued p hp handle hhandle heq
  | ackWaiting handle hh hwait =>
      refine { h.flags with acked_iff := ?_, removing_flag := ?_ }
      · intro p hp
        by_cases hsame : p.ack = handle.ack
        · simp [hsame]
        · simpa [Function.update_of_ne hsame, hsame] using h.flags.acked_iff p hp
      · intro p hp hremoving
        by_cases hsame : p.ack = handle.ack
        · simp [hsame]
        · simpa [Function.update_of_ne hsame] using h.flags.removing_flag p hp hremoving
  | ackLater handle hh hwait =>
      refine { h.flags with removing_flag := ?_ }
      intro p hp hremoving
      rcases List.mem_cons.mp hremoving with heq | hremoving
      · rw [heq]
        exact hwait p hp heq (h.flags.handle_queued p hp handle hh heq.symm)
      · exact h.flags.removing_flag p hp hremoving
  | pushRemove ack hack =>
      refine { h.flags with acked_iff := ?_, removing_flag := ?_ }
      · intro p hp
        rw [List.mem_cons]
        constructor
        · intro hflag
          exact Or.inr ((h.flags.acked_iff p hp).mp hflag)
        · rintro (heq | hacked)
          · exact h.flags.removing_flag p hp (heq ▸ hack)
          · exact (h.flags.acked_iff p hp).mpr hacked
      · intro p hp hremoving
        exact h.flags.removing_flag p hp (List.mem_of_mem_erase hremoving)
  | skip q rest told hwait hflag hwriting hnotifying htold =>
      have hsub : ∀ p ∈ rest, p ∈ l.waiting := by
        intro p hp
        rw [hwait]
        exact List.mem_cons_of_mem _ hp
      exact ⟨fun p hp => h.flags.acked_iff p (hsub p hp),
        fun p hp => h.flags.removing_flag p (hsub p hp),
        fun p hp => h.flags.handle_queued p (hsub p hp)⟩
  | startWrite q rest hwait hflag hwriting hnotifying =>
      have hsub : ∀ p ∈ rest, p ∈ l.waiting := by
        intro p hp
        rw [hwait]
        exact List.mem_cons_of_mem _ hp
      refine ⟨?_, ?_, fun p hp => h.flags.handle_queued p (hsub p hp)⟩
      · intro p hp
        have hne := ack_ne_of_waiting h.acks hwait hp
        simpa [Function.update_of_ne hne] using h.flags.acked_iff p (hsub p hp)
      · intro p hp hremoving
        have hne := ack_ne_of_waiting h.acks hwait hp
        simpa [Function.update_of_ne hne] using h.flags.removing_flag p (hsub p hp) hremoving
  | _ => exact { h.flags with }

/-! ## The rows -/

/-- A new packet has an ack that nothing has yet. -/
theorem fresh_insert (h : Inv l) {ack : Nat} (hack : ack = l.sequence + 1) :
    (∀ row ∈ l.table, row.ack ≠ ack) ∧ ack ∉ l.failed := by
  constructor
  · intro row hrow
    have hle := h.acks.known_le row (h.acks.table_known row hrow)
    omega
  · intro hfailed
    have hle := h.acks.failed_le ack hfailed
    omega

theorem step_rows (h : Inv l) (hstep : Step l l') : Rows l' := by
  cases hstep with
  | insert q hack =>
      refine { h.rows with fresh := ?_, kept := ?_ }
      · intro p hp
        rw [← List.append_assoc, List.mem_append] at hp
        rcases hp with hp | hp
        · exact h.rows.fresh p hp
        · rw [List.mem_singleton.mp hp]
          exact fresh_insert h hack
      · intro row hrow hacked hfailed
        have hsplit : l.Known row ∨ q.row = row := known_insert (l := l) hrow
        rcases hsplit with hrow | rfl
        · rcases h.rows.kept row hrow hacked hfailed with htable | ⟨p, hp, heq⟩
          · exact Or.inl htable
          · refine Or.inr ⟨p, ?_, heq⟩
            rw [← List.append_assoc]
            exact List.mem_append_left _ hp
        · refine Or.inr ⟨q, ?_, rfl⟩
          rw [← List.append_assoc]
          exact List.mem_append_right _ (List.mem_singleton_self q)
  | offer rows hrows => exact { h.rows with }
  | ackWaiting handle hh hwait =>
      rcases hwait with ⟨q, hq, hqack⟩
      refine { h.rows with kept := ?_, due_acked := ?_, row_due := ?_, writing_due := ?_ }
      · intro row hrow hacked hfailed
        exact h.rows.kept row hrow (fun hmem => hacked (List.mem_cons_of_mem _ hmem)) hfailed
      · intro ack hack
        exact List.mem_cons_of_mem _ (h.rows.due_acked ack hack)
      · -- a waiting packet has no row
        intro row hrow hacked
        rcases List.mem_cons.mp hacked with heq | hacked
        · exact absurd (heq.trans hqack.symm)
            ((h.rows.fresh q (List.mem_append_right _ hq)).1 row hrow)
        · exact h.rows.row_due row hrow hacked
      · intro p hp hacked
        rcases List.mem_cons.mp hacked with heq | hacked
        · exact absurd (hqack.trans heq.symm) (ack_ne_of_writing h.acks hp hq)
        · exact h.rows.writing_due p hp hacked
  | ackLater handle hh hwait => exact { h.rows with }
  | pushRemove ack hack =>
      have hgrows : ∀ a ∈ l.due ++ l.undeleted, a ∈ (l.due ++ [ack]) ++ l.undeleted := by
        intro a ha
        simp only [List.mem_append] at ha ⊢
        rcases ha with ha | ha
        · exact Or.inl (Or.inl ha)
        · exact Or.inr ha
      refine { h.rows with kept := ?_, due_acked := ?_, row_due := ?_, writing_due := ?_ }
      · intro row hrow hacked hfailed
        exact h.rows.kept row hrow (fun hmem => hacked (List.mem_cons_of_mem _ hmem)) hfailed
      · intro a ha
        simp only [List.mem_append, List.mem_singleton] at ha
        rcases ha with (ha | rfl) | ha
        · exact List.mem_cons_of_mem _ (h.rows.due_acked a (List.mem_append_left _ ha))
        · exact List.mem_cons_self ..
        · exact List.mem_cons_of_mem _ (h.rows.due_acked a (List.mem_append_right _ ha))
      · intro row hrow hacked
        rcases List.mem_cons.mp hacked with heq | hacked
        · simp [heq]
        · exact hgrows _ (h.rows.row_due row hrow hacked)
      · intro p hp hacked
        rcases List.mem_cons.mp hacked with heq | hacked
        · simp [heq]
        · exact hgrows _ (h.rows.writing_due p hp hacked)
  | skip q rest told hwait hflag hwriting hnotifying htold =>
      have hq : q ∈ l.waiting := by rw [hwait]; exact List.mem_cons_self ..
      refine { h.rows with fresh := ?_, kept := ?_ }
      · intro p hp
        apply h.rows.fresh
        rw [hwait]
        simp only [List.mem_append, List.mem_cons] at hp ⊢
        rcases hp with hp | hp
        · exact Or.inl hp
        · exact Or.inr (Or.inr hp)
      · -- what is skipped is acked
        intro row hrow hacked hfailed
        rcases h.rows.kept row hrow hacked hfailed with htable | ⟨p, hp, rfl⟩
        · exact Or.inl htable
        rw [hwait] at hp
        simp only [List.mem_append, List.mem_cons] at hp
        rcases hp with hp | rfl | hp
        · exact Or.inr ⟨p, List.mem_append_left _ hp, rfl⟩
        · exact absurd ((h.flags.acked_iff p hq).mp hflag) hacked
        · exact Or.inr ⟨p, List.mem_append_right _ hp, rfl⟩
  | startWrite q rest hwait hflag hwriting hnotifying =>
      have hq : q ∈ l.waiting := by rw [hwait]; exact List.mem_cons_self ..
      have hsame : [q] ++ rest = l.writing ++ l.waiting := by rw [hwriting, hwait]; rfl
      refine { h.rows with fresh := ?_, kept := ?_, writing_due := ?_ }
      · intro p hp
        exact h.rows.fresh p (hsame ▸ hp)
      · intro row hrow hacked hfailed
        rcases h.rows.kept row hrow hacked hfailed with htable | ⟨p, hp, heq⟩
        · exact Or.inl htable
        · exact Or.inr ⟨p, by rw [hsame]; exact hp, heq⟩
      · -- what is not flagged is not acked
        intro p hp hacked
        rw [List.mem_singleton.mp hp] at hacked
        rw [(h.flags.acked_iff q hq).mpr hacked] at hflag
        exact absurd hflag (by simp)
  | write q told hwriting hnotifying htold =>
      have hq : q ∈ l.writing := by rw [hwriting]; exact List.mem_cons_self ..
      refine { h.rows with
        fresh := ?_, stored := ?_, kept := ?_, row_due := ?_
        writing_due := fun p hp => absurd hp List.not_mem_nil }
      · intro p hp
        have hp : p ∈ l.waiting := by simpa using hp
        have hold := h.rows.fresh p (List.mem_append_right _ hp)
        refine ⟨?_, hold.2⟩
        intro row hrow
        rcases List.mem_append.mp hrow with hrow | hrow
        · exact hold.1 row hrow
        · rw [List.mem_singleton.mp hrow]
          exact (ack_ne_of_writing h.acks hq hp).symm
      · intro row hrow
        rcases List.mem_append.mp hrow with hrow | hrow
        · exact h.rows.stored row hrow
        · rw [List.mem_singleton.mp hrow]
          exact (h.rows.fresh q (List.mem_append_left _ hq)).2
      · intro row hrow hacked hfailed
        rcases h.rows.kept row hrow hacked hfailed with htable | ⟨p, hp, rfl⟩
        · exact Or.inl (List.mem_append_left _ htable)
        rw [hwriting] at hp
        rcases List.mem_cons.mp hp with rfl | hp
        · exact Or.inl (List.mem_append_right _ (List.mem_singleton_self _))
        · exact Or.inr ⟨p, hp, rfl⟩
      · intro row hrow hacked
        rcases List.mem_append.mp hrow with hrow | hrow
        · exact h.rows.row_due row hrow hacked
        · rw [List.mem_singleton.mp hrow] at hacked ⊢
          exact h.rows.writing_due q hq hacked
  | writeFails q hwriting =>
      have hq : q ∈ l.writing := by rw [hwriting]; exact List.mem_cons_self ..
      have hfresh := h.rows.fresh q (List.mem_append_left _ hq)
      refine { h.rows with
        fresh := ?_, stored := ?_, kept := ?_
        writing_due := fun p hp => absurd hp List.not_mem_nil }
      · intro p hp
        have hp : p ∈ l.waiting := by simpa using hp
        have hold := h.rows.fresh p (List.mem_append_right _ hp)
        refine ⟨hold.1, ?_⟩
        rw [List.mem_cons]
        rintro (heq | hfailed)
        · exact ack_ne_of_writing h.acks hq hp heq
        · exact hold.2 hfailed
      · intro row hrow
        rw [List.mem_cons]
        rintro (heq | hfailed)
        · exact hfresh.1 row hrow heq
        · exact h.rows.stored row hrow hfailed
      · intro row hrow hacked hfailed
        rw [List.mem_cons, not_or] at hfailed
        rcases h.rows.kept row hrow hacked hfailed.2 with htable | ⟨p, hp, rfl⟩
        · exact Or.inl htable
        rw [hwriting] at hp
        rcases List.mem_cons.mp hp with rfl | hp
        · exact absurd rfl hfailed.1
        · exact Or.inr ⟨p, hp, rfl⟩
  | notify q hnotifying => exact { h.rows with }
  | delete ack rest hdue hwriting =>
      have hack : ack ∈ l.acked :=
        h.rows.due_acked ack (by rw [hdue]; exact List.mem_cons_self ..)
      refine { h.rows with
        fresh := ?_, stored := ?_, kept := ?_, due_acked := ?_, row_due := ?_, writing_due := ?_ }
      · intro p hp
        have hold := h.rows.fresh p hp
        exact ⟨fun row hrow => hold.1 row (List.mem_filter.mp hrow).1, hold.2⟩
      · intro row hrow
        exact h.rows.stored row (List.mem_filter.mp hrow).1
      · intro row hrow hacked hfailed
        rcases h.rows.kept row hrow hacked hfailed with htable | hp
        · refine Or.inl (List.mem_filter.mpr ⟨htable, ?_⟩)
          rw [decide_eq_true_eq]
          intro heq
          exact hacked (heq ▸ hack)
        · exact Or.inr hp
      · intro a ha
        apply h.rows.due_acked
        rw [hdue]
        exact List.mem_cons_of_mem _ ha
      · intro row hrow hacked
        have hmem := h.rows.row_due row (List.mem_filter.mp hrow).1 hacked
        rw [hdue] at hmem
        rcases List.mem_cons.mp hmem with heq | hmem
        · exact absurd heq (by simpa using (List.mem_filter.mp hrow).2)
        · exact hmem
      · intro p hp
        exact absurd (hwriting ▸ hp) List.not_mem_nil
  | deleteFails ack rest hdue =>
      have hmoves : ∀ a, a ∈ rest ++ ack :: l.undeleted ↔ a ∈ l.due ++ l.undeleted := by
        intro a
        rw [hdue]
        simp [or_left_comm]
      refine { h.rows with due_acked := ?_, row_due := ?_, writing_due := ?_ }
      · intro a ha
        exact h.rows.due_acked a ((hmoves a).mp ha)
      · intro row hrow hacked
        exact (hmoves _).mpr (h.rows.row_due row hrow hacked)
      · intro p hp hacked
        exact (hmoves _).mpr (h.rows.writing_due p hp hacked)
  | forget ack rest hdue hwriting hrow =>
      refine { h.rows with due_acked := ?_, row_due := ?_, writing_due := ?_ }
      · intro a ha
        apply h.rows.due_acked
        rw [hdue]
        exact List.mem_cons_of_mem _ ha
      · intro row htable hacked
        have hmem := h.rows.row_due row htable hacked
        rw [hdue] at hmem
        rcases List.mem_cons.mp hmem with heq | hmem
        · exact absurd heq (hrow row htable)
        · exact hmem
      · intro p hp
        exact absurd (hwriting ▸ hp) List.not_mem_nil

/-! ## The senders -/

theorem step_told (h : Inv l) (hstep : Step l l') : Told l' := by
  cases hstep with
  | ackWaiting handle hh hwait =>
      refine ⟨?_, ?_⟩
      · intro q hq
        exact (h.told.notifying q hq).imp_right (List.mem_cons_of_mem _)
      · intro ack hack
        exact (h.told.notified ack hack).imp_right (List.mem_cons_of_mem _)
  | pushRemove ack hack =>
      refine ⟨?_, ?_⟩
      · intro q hq
        exact (h.told.notifying q hq).imp_right (List.mem_cons_of_mem _)
      · intro a ha
        exact (h.told.notified a ha).imp_right (List.mem_cons_of_mem _)
  | skip q rest told hwait hflag hwriting hnotifying htold =>
      have hq : q ∈ l.waiting := by rw [hwait]; exact List.mem_cons_self ..
      refine { h.told with notifying := ?_ }
      intro p hp
      rcases htold with rfl | rfl
      · rw [List.mem_singleton.mp hp]
        exact Or.inr ((h.flags.acked_iff q hq).mp hflag)
      · exact absurd hp List.not_mem_nil
  | write q told hwriting hnotifying htold =>
      refine ⟨?_, ?_⟩
      · intro p hp
        rcases htold with rfl | rfl
        · rw [List.mem_singleton.mp hp]
          exact Or.inl (List.mem_cons_self ..)
        · exact absurd hp List.not_mem_nil
      · intro ack hack
        exact (h.told.notified ack hack).imp_left (List.mem_cons_of_mem _)
  | notify q hnotifying =>
      refine ⟨fun p hp => absurd hp List.not_mem_nil, ?_⟩
      intro ack hack
      rcases List.mem_append.mp hack with hack | hack
      · exact h.told.notified ack hack
      · rw [List.mem_singleton.mp hack]
        exact h.told.notifying q (by rw [hnotifying]; exact List.mem_cons_self ..)
  | _ => exact { h.told with }

theorem step_inv (h : Inv l) (hstep : Step l l') : Inv l' :=
  ⟨step_acks h.acks hstep, step_flags h hstep, step_rows h hstep, step_told h hstep⟩

theorem run_inv (h : Inv l) (hrun : Relation.ReflTransGen Step l l') : Inv l' := by
  induction hrun with
  | refl => exact h
  | tail _ hstep ih => exact step_inv ih hstep

/-- The ack of a packet that has no row and gets none any more. -/
structure Gone (l : Ledger K P N) (ack : Nat) : Prop where
  acked : ack ∈ l.acked
  row : ∀ row ∈ l.table, row.ack ≠ ack
  writing : ∀ q ∈ l.writing, q.ack ≠ ack

theorem step_gone (h : Inv l) {ack : Nat} (hgone : Gone l ack) (hstep : Step l l') :
    Gone l' ack := by
  cases hstep with
  | ackWaiting handle hh hwait => exact { hgone with acked := List.mem_cons_of_mem _ hgone.acked }
  | pushRemove a ha => exact { hgone with acked := List.mem_cons_of_mem _ hgone.acked }
  | startWrite q rest hwait hflag hwriting hnotifying =>
      have hq : q ∈ l.waiting := by rw [hwait]; exact List.mem_cons_self ..
      refine { hgone with writing := ?_ }
      intro p hp heq
      -- only what is not acked is written
      rw [List.mem_singleton.mp hp] at heq
      rw [(h.flags.acked_iff q hq).mpr (heq ▸ hgone.acked)] at hflag
      exact absurd hflag (by simp)
  | write q told hwriting hnotifying htold =>
      refine { hgone with row := ?_, writing := fun p hp => absurd hp List.not_mem_nil }
      intro row hrow
      rcases List.mem_append.mp hrow with hrow | hrow
      · exact hgone.row row hrow
      · rw [List.mem_singleton.mp hrow]
        exact hgone.writing q (by rw [hwriting]; exact List.mem_cons_self ..)
  | writeFails q hwriting =>
      exact { hgone with writing := fun p hp => absurd hp List.not_mem_nil }
  | delete a rest hdue hwriting =>
      refine { hgone with row := ?_ }
      intro row hrow
      exact hgone.row row (List.mem_filter.mp hrow).1
  | _ => exact { hgone with }

theorem run_gone (h : Inv l) {ack : Nat} (hgone : Gone l ack)
    (hrun : Relation.ReflTransGen Step l l') : Gone l' ack := by
  induction hrun with
  | refl => exact hgone
  | tail hsteps hstep ih => exact step_gone (run_inv h hsteps) ih hstep

/-- An ack whose removal is neither due nor failed has no row any more. -/
theorem gone_of_acked (h : Inv l) {ack : Nat} (hacked : ack ∈ l.acked)
    (hdue : ack ∉ l.due ++ l.undeleted) : Gone l ack where
  acked := hacked
  row := by
    rintro row hrow rfl
    exact hdue (h.rows.row_due row hrow hacked)
  writing := by
    rintro q hq rfl
    exact hdue (h.rows.writing_due q hq hacked)

/-! ## Leaving the ledger -/

theorem skip_head (hwriting : l.writing = []) (hnotifying : l.notifying = [])
    (hflag : ∀ q, l.waiting.head? = some q → l.flag q.ack = true) :
    Relation.ReflTransGen Step l { l with waiting := l.waiting.tail } := by
  cases hwait : l.waiting with
  | nil =>
      have hsame : { l with waiting := [] } = l := by rw [← hwait]
      rw [List.tail_nil, hsame]
  | cons q rest =>
      have hstep := Step.skip q rest [] hwait (hflag q (by rw [hwait]; rfl)) hwriting hnotifying
        (Or.inr rfl)
      rw [← hnotifying] at hstep
      exact Relation.ReflTransGen.single hstep

theorem forget_head (hwriting : l.writing = [])
    (hgone : ∀ ack, l.due.head? = some ack → ∀ row ∈ l.table, row.ack ≠ ack) :
    Relation.ReflTransGen Step l { l with due := l.due.tail } := by
  cases hdue : l.due with
  | nil =>
      have hsame : { l with due := [] } = l := by rw [← hdue]
      rw [List.tail_nil, hsame]
  | cons ack rest =>
      exact Relation.ReflTransGen.single
        (Step.forget ack rest hdue hwriting (hgone ack (by rw [hdue]; rfl)))

/-! ## What the invariant says -/

/-- With nothing under way the table has what is not acked. -/
theorem mem_table_iff (h : Inv l) (hwaiting : l.waiting = []) (hwriting : l.writing = [])
    (hdue : l.due = []) (hundeleted : l.undeleted = []) (row : Row K P) :
    row ∈ l.table ↔ l.Known row ∧ row.ack ∉ l.failed ∧ row.ack ∉ l.acked := by
  constructor
  · intro hrow
    refine ⟨h.acks.table_known row hrow, h.rows.stored row hrow, ?_⟩
    intro hacked
    have hmem := h.rows.row_due row hrow hacked
    rw [hdue, hundeleted] at hmem
    exact absurd hmem List.not_mem_nil
  · rintro ⟨hknown, hfailed, hacked⟩
    rcases h.rows.kept row hknown hacked hfailed with htable | ⟨q, hq, _⟩
    · exact htable
    · rw [hwaiting, hwriting] at hq
      exact absurd hq List.not_mem_nil

theorem notified_nodup (h : Inv l) : l.notified.Nodup :=
  (List.pairwise_append.mp h.acks.order_lt).1.imp Nat.ne_of_lt

end Ledger

end Securepath.PacketTransport
