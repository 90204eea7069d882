import Securepath.Library.Machine
import Mathlib.Data.List.Destutter
import Mathlib.Data.List.Sort
import Mathlib.Logic.Function.Basic

/-!
# `packet_storage`

The packets that the server keeps for their receivers
(`infrastructure/packet_transport/server/server_lib/packet_storage.cpp`): the
queues, the table, the storage thread and `close`. Every function is cut where
another thread can come in between: at the locked sections, at
`remove_flag.test_and_set` and at the statements of the database.

A queued packet is known by its ack, which no other packet of the storage has.
-/

namespace Securepath.PacketTransport

/-- `queued_packet`, without `remove_flag`; `N` is what its `notify` captures. -/
structure QueuedPacket (K P N : Type) where
  receiver : K
  packet : P
  notify : N
  ack : Nat
  senderAck : Nat
  sender : K
deriving DecidableEq

/-- A row of the table `packets`. -/
structure Row (K P : Type) where
  ack : Nat
  receiver : K
  packet : P
deriving DecidableEq

/-- The row that is written for a queued packet. -/
def QueuedPacket.row {K P N : Type} (p : QueuedPacket K P N) : Row K P :=
  ⟨p.ack, p.receiver, p.packet⟩

/-- `packet_handle`; `queued` when it was made with a queued packet. -/
structure PacketHandle where
  ack : Nat
  queued : Bool
deriving DecidableEq

/-- `stored_packet` -/
structure StoredPacket (P : Type) where
  handle : PacketHandle
  packet : P
deriving DecidableEq

/-- What `thread_entry` does next. -/
inductive ThreadPc where
  | nextPacket
  | testFlag
  | writeToDatabase
  | notify
  | removeFromDatabase
  | exited
deriving DecidableEq

/-- What `close` does next. -/
inductive ClosePc where
  | notCalled
  | join
  | testFlag
  | writeToDatabase
  | removeFromDatabase
  | returned
deriving DecidableEq

structure PacketStorage (K P N : Type) where
  close : Bool
  sequence : Nat
  queue : List (QueuedPacket K P N)
  removeQueue : List Nat
  receiverIndex : List (K × Nat)
  /-- `remove_flag` of the queued packet with the ack -/
  removeFlag : Nat → Bool
  table : List (Row K P)
  thread : ThreadPc
  /-- `p` and `remove_ack` of `thread_entry` -/
  p : Option (QueuedPacket K P N)
  removeAck : Nat
  /-- the calls of `remove` that are about to lock the mutex -/
  removing : List Nat
  closing : ClosePc
  /-- where the loops of `purge_queues` are -/
  queueIndex : Nat
  removeIndex : Nat

namespace PacketStorage

variable {K P N : Type} [DecidableEq K] (s : PacketStorage K P N)

/-- The constructor, over the rows of the table. -/
def init (table : List (Row K P)) : PacketStorage K P N where
  close := false
  -- `SELECT max(ack)`, where `value_or(0)` stands for an empty table
  sequence := (table.map Row.ack).foldr max 0
  queue := []
  removeQueue := []
  receiverIndex := []
  removeFlag := fun _ => false
  table := table
  thread := .nextPacket
  p := none
  removeAck := 0
  removing := []
  closing := .notCalled
  queueIndex := 0
  removeIndex := 0

/-! ## Inserting and acking -/

/-- The queued packet that `insert` makes. -/
def makeQueued (receiver : K) (packet : P) (senderAck : Nat) (sender : K) (notify : N) :
    QueuedPacket K P N where
  receiver := receiver
  packet := packet
  notify := notify
  ack := s.sequence + 1
  senderAck := senderAck
  sender := sender

/-- `insert`; the handle has the ack of the packet. -/
def insert (receiver : K) (packet : P) (senderAck : Nat) (sender : K) (notify : N) :
    PacketStorage K P N :=
  { s with
    sequence := s.sequence + 1
    queue := s.queue ++ [s.makeQueued receiver packet senderAck sender notify]
    receiverIndex := s.receiverIndex ++ [(receiver, s.sequence + 1)] }

/-- `lock()` of the weak pointer to a queued packet: the queue or the thread
still has it. -/
def lockPacket (ack : Nat) : Option (QueuedPacket K P N) :=
  (s.queue ++ s.p.toList).find? (·.ack = ack)

/-- `lock()` of the packet of a handle. -/
def lock (h : PacketHandle) : Bool := h.queued && (s.lockPacket h.ack).isSome

/-- `remove_flag.test_and_set()`. -/
def testAndSet (ack : Nat) : PacketStorage K P N :=
  { s with removeFlag := Function.update s.removeFlag ack true }

/-- The flag that `remove` goes by: an ack of a packet that is disposed, or is
about to be, has to be removed separately. -/
def flag (h : PacketHandle) : Bool := if s.lock h then s.removeFlag h.ack else true

/-- `remove`, up to the lock of the mutex. -/
def remove (h : PacketHandle) : PacketStorage K P N :=
  -- the flag is set before the mutex is locked, so the push may come much later
  let s' := if s.lock h then s.testAndSet h.ack else s
  if s.flag h then { s' with removing := h.ack :: s'.removing } else s'

/-- The locked section of `remove`. -/
def pushRemove (ack : Nat) : Option (PacketStorage K P N) :=
  if ack ∈ s.removing then
    some { s with removing := s.removing.erase ack, removeQueue := s.removeQueue ++ [ack] }
  else
    none

/-! ## `get_pending_packets` -/

/-- What the locked section finds. -/
def pendingQueued (receiver : K) : List (StoredPacket P) :=
  (s.receiverIndex.filter (·.1 = receiver)).filterMap fun entry =>
    (s.lockPacket entry.2).map fun p => ⟨⟨p.ack, true⟩, p.packet⟩

/-- What the query finds; the order of the rows is lost in the sorting. -/
def pendingStored (receiver : K) : List (StoredPacket P) :=
  (s.table.filter (·.receiver = receiver)).map fun row => ⟨⟨row.ack, false⟩, row.packet⟩

/-- `std::sort` and `std::unique` by the acks. -/
def sortPending (packets : List (StoredPacket P)) : List (StoredPacket P) :=
  (packets.insertionSort fun l r => l.handle.ack ≤ r.handle.ack).destutter
    fun l r => l.handle.ack ≠ r.handle.ack

/-- `get_pending_packets`, with its locked section in `s` and its query in `t`. -/
def getPendingPackets (t : PacketStorage K P N) (receiver : K) : List (StoredPacket P) :=
  sortPending (t.pendingStored receiver ++ s.pendingQueued receiver)

/-! ## The table -/

/-- `write_to_database`: the statement fails for the database's reasons, or
because the primary key is there. -/
def writeToDatabase (ok : Bool) (p : QueuedPacket K P N) : Bool × PacketStorage K P N :=
  if ok && !s.table.any (·.ack = p.ack) then
    (true, { s with table := s.table ++ [p.row] })
  else
    (false, s)

/-- `remove_from_database`. -/
def removeFromDatabase (ok : Bool) (ack : Nat) : PacketStorage K P N :=
  if ok then { s with table := s.table.filter (·.ack ≠ ack) } else s

/-! ## The storage thread -/

/-- `remove_from_index` for the packet that was popped. -/
def removeFromIndex (popped : Option (QueuedPacket K P N)) : List (K × Nat) :=
  match popped with
  | none => s.receiverIndex
  | some p => s.receiverIndex.erase (p.receiver, p.ack)

/-- The locked section of `next_packet`. When it finds `close_` set,
`thread_entry` leaves its loop and what was popped is gone with its locals. -/
def nextPacket : Option (PacketStorage K P N) :=
  -- the condition that `cond_.wait` waits for
  if s.thread = .nextPacket ∧ (s.close ∨ s.queue ≠ [] ∨ s.removeQueue ≠ []) then
    -- both queues are popped before `!close_` is returned
    some { s with
      queue := s.queue.tail
      receiverIndex := s.removeFromIndex s.queue.head?
      removeQueue := s.removeQueue.tail
      p := if s.close then none else s.queue.head?
      removeAck := if s.close then 0 else s.removeQueue.headD 0
      thread := if s.close then .exited else .testFlag }
  else
    none

/-- `thread_entry` at `if(p)`. -/
def testFlag : Option (PacketStorage K P N) :=
  if s.thread = .testFlag then
    match s.p with
    | none => some { s with thread := .removeFromDatabase }
    -- a packet that is acked already is not written, but its sender is told
    | some p => some { s.testAndSet p.ack with
        thread := if s.removeFlag p.ack then .notify else .writeToDatabase }
  else
    none

def threadWrite (ok : Bool) : Option (PacketStorage K P N) :=
  if s.thread = .writeToDatabase then
    match s.p with
    | none => none
    | some p =>
        let (notify, s') := s.writeToDatabase ok p
        some { s' with thread := if notify then .notify else .removeFromDatabase }
  else
    none

/-- Behind the call of `notify`. -/
def threadNotify : Option (PacketStorage K P N) :=
  if s.thread = .notify then some { s with thread := .removeFromDatabase } else none

def threadRemove (ok : Bool) : Option (PacketStorage K P N) :=
  if s.thread = .removeFromDatabase then
    let s' := if s.removeAck ≠ 0 then s.removeFromDatabase ok s.removeAck else s
    -- `remove_ack` and `p` are assigned anew by the next round
    some { s' with thread := .nextPacket }
  else
    none

/-! ## `close` -/

/-- The locked section of `close`. -/
def startClose : Option (PacketStorage K P N) :=
  if s.closing = .notCalled then some { s with close := true, closing := .join } else none

/-- `thread_.join()`. -/
def join : Option (PacketStorage K P N) :=
  if s.closing = .join ∧ s.thread = .exited then some { s with closing := .testFlag } else none

/-- The first loop of `purge_queues`, at the next packet or at its end. -/
def purgeTest : Option (PacketStorage K P N) :=
  if s.closing = .testFlag then
    match s.queue[s.queueIndex]? with
    | some p => some (if s.removeFlag p.ack then { s with queueIndex := s.queueIndex + 1 }
        else { s.testAndSet p.ack with closing := .writeToDatabase })
    -- the queue is cleared behind the loop, not while it goes
    | none => some { s with queue := [], queueIndex := 0, closing := .removeFromDatabase }
  else
    none

def purgeWrite (ok : Bool) : Option (PacketStorage K P N) :=
  if s.closing = .writeToDatabase then
    match s.queue[s.queueIndex]? with
    | some p => some { (s.writeToDatabase ok p).2 with
        closing := .testFlag, queueIndex := s.queueIndex + 1 }
    | none => none
  else
    none

/-- The second loop of `purge_queues`, at the next ack or at its end. -/
def purgeRemove (ok : Bool) : Option (PacketStorage K P N) :=
  if s.closing = .removeFromDatabase then
    match s.removeQueue[s.removeIndex]? with
    | some ack => some { s.removeFromDatabase ok ack with removeIndex := s.removeIndex + 1 }
    | none => some { s with removeQueue := [], removeIndex := 0, closing := .returned }
  else
    none

/-! ## Facts -/

omit [DecidableEq K] in
theorem lock_iff (h : PacketHandle) : s.lock h = true ↔
    h.queued = true ∧ ((∃ p ∈ s.queue, p.ack = h.ack) ∨ ∃ p, s.p = some p ∧ p.ack = h.ack) := by
  simp only [lock, lockPacket, Bool.and_eq_true, List.find?_isSome, List.mem_append,
    Option.mem_toList, decide_eq_true_eq, or_and_right, exists_or]

/-- A sorted list without equal neighbours increases. -/
theorem pairwise_lt_of_isChain {packets : List (StoredPacket P)}
    (hle : packets.Pairwise fun l r => l.handle.ack ≤ r.handle.ack)
    (hne : packets.IsChain fun l r => l.handle.ack ≠ r.handle.ack) :
    packets.Pairwise fun l r => l.handle.ack < r.handle.ack := by
  induction packets with
  | nil => exact List.Pairwise.nil
  | cons first packets ih =>
      rw [List.pairwise_cons] at hle
      have hrest := ih hle.2 hne.tail
      rw [List.pairwise_cons]
      refine ⟨?_, hrest⟩
      intro x hx
      cases packets with
      | nil => exact absurd hx List.not_mem_nil
      | cons next packets =>
          have hlt : first.handle.ack < next.handle.ack :=
            Nat.lt_of_le_of_ne (hle.1 next (List.mem_cons_self ..)) (List.isChain_cons_cons.mp hne).1
          rcases List.mem_cons.mp hx with rfl | hx
          · exact hlt
          · exact hlt.trans ((List.pairwise_cons.mp hrest).1 x hx)

/-- The acks of the result increase. -/
theorem sortPending_acks (packets : List (StoredPacket P)) :
    (sortPending packets).Pairwise fun l r => l.handle.ack < r.handle.ack := by
  have hsorted : (sortPending packets).Pairwise fun l r => l.handle.ack ≤ r.handle.ack :=
    (List.pairwise_insertionSort (fun l r : StoredPacket P => l.handle.ack ≤ r.handle.ack)
      packets).sublist (List.destutter_sublist _ _)
  have hchain : (sortPending packets).IsChain fun l r => l.handle.ack ≠ r.handle.ack :=
    List.isChain_destutter _ _
  exact pairwise_lt_of_isChain hsorted hchain

theorem mem_of_mem_sortPending {packets : List (StoredPacket P)} {x : StoredPacket P}
    (h : x ∈ sortPending packets) : x ∈ packets :=
  (List.mem_insertionSort _).mp ((List.destutter_sublist _ _).subset h)

/-- `std::unique` leaves one packet of each ack. -/
theorem exists_mem_destutter' (packets : List (StoredPacket P)) (first : StoredPacket P) :
    ∀ x ∈ first :: packets,
      ∃ y ∈ packets.destutter' (fun l r => l.handle.ack ≠ r.handle.ack) first,
        y.handle.ack = x.handle.ack := by
  induction packets generalizing first with
  | nil =>
      intro x hx
      exact ⟨x, hx, rfl⟩
  | cons next packets ih =>
      intro x hx
      by_cases hne : first.handle.ack ≠ next.handle.ack
      · rw [List.destutter'_cons, if_pos hne]
        rcases List.mem_cons.mp hx with rfl | hx
        · exact ⟨x, List.mem_cons_self .., rfl⟩
        · rcases ih next x hx with ⟨y, hy, heq⟩
          exact ⟨y, List.mem_cons_of_mem _ hy, heq⟩
      · rw [List.destutter'_cons, if_neg hne]
        simp only [List.mem_cons] at hx
        rcases hx with rfl | rfl | hx
        · exact ih x x (List.mem_cons_self ..)
        · rcases ih first first (List.mem_cons_self ..) with ⟨y, hy, heq⟩
          exact ⟨y, hy, heq.trans (not_not.mp hne)⟩
        · exact ih first x (List.mem_cons_of_mem _ hx)

theorem exists_mem_sortPending {packets : List (StoredPacket P)} {x : StoredPacket P}
    (h : x ∈ packets) : ∃ y ∈ sortPending packets, y.handle.ack = x.handle.ack := by
  have hsorted : x ∈ packets.insertionSort fun l r => l.handle.ack ≤ r.handle.ack :=
    (List.mem_insertionSort _).mpr h
  unfold sortPending
  cases hs : packets.insertionSort fun l r => l.handle.ack ≤ r.handle.ack with
  | nil => simp [hs] at hsorted
  | cons first rest =>
      rw [hs] at hsorted
      exact exists_mem_destutter' rest first x hsorted

/-! ## What each step does -/

variable {s} {t : PacketStorage K P N}

omit [DecidableEq K] in
/-- An ack is left to the thread that has the packet, or it is removed separately. -/
theorem remove_eq (h : PacketHandle) :
    (s.flag h = true ∧ (s.lock h = true → s.removeFlag h.ack = true) ∧
      s.remove h = { s with removing := h.ack :: s.removing }) ∨
    (s.flag h = false ∧ s.lock h = true ∧ s.removeFlag h.ack = false ∧
      s.remove h = { s with removeFlag := Function.update s.removeFlag h.ack true }) := by
  cases hlock : s.lock h with
  | false => simp [remove, flag, hlock]
  | true =>
      cases hflag : s.removeFlag h.ack with
      | false => simp [remove, flag, hlock, hflag, testAndSet]
      | true =>
          have hsame : Function.update s.removeFlag h.ack true = s.removeFlag := by
            rw [← hflag, Function.update_eq_self]
          simp [remove, flag, hlock, hflag, testAndSet, hsame]

omit [DecidableEq K] in
theorem pushRemove_eq_some {ack : Nat} (h : s.pushRemove ack = some t) :
    ack ∈ s.removing ∧ t = { s with
      removing := s.removing.erase ack
      removeQueue := s.removeQueue ++ [ack] } := by
  simp only [pushRemove, Option.ite_none_right_eq_some, Option.some.injEq] at h
  exact ⟨h.1, h.2.symm⟩

theorem nextPacket_eq_some (h : s.nextPacket = some t) :
    s.thread = .nextPacket ∧ t = { s with
      queue := s.queue.tail
      receiverIndex := s.removeFromIndex s.queue.head?
      removeQueue := s.removeQueue.tail
      p := if s.close then none else s.queue.head?
      removeAck := if s.close then 0 else s.removeQueue.headD 0
      thread := if s.close then .exited else .testFlag } := by
  simp only [nextPacket, Option.ite_none_right_eq_some, Option.some.injEq] at h
  exact ⟨h.1.1, h.2.symm⟩

omit [DecidableEq K] in
theorem testFlag_eq_some (h : s.testFlag = some t) : s.thread = .testFlag ∧
    ((s.p = none ∧ t = { s with thread := .removeFromDatabase }) ∨
      ∃ p, s.p = some p ∧ t = { s with
        removeFlag := Function.update s.removeFlag p.ack true
        thread := if s.removeFlag p.ack then .notify else .writeToDatabase }) := by
  simp only [testFlag, Option.ite_none_right_eq_some] at h
  obtain ⟨hpc, h⟩ := h
  refine ⟨hpc, ?_⟩
  rcases Option.eq_none_or_eq_some s.p with hp | ⟨p, hp⟩
  · simp only [hp, Option.some.injEq] at h
    exact Or.inl ⟨hp, by rw [← h, hp]⟩
  · simp only [hp, Option.some.injEq] at h
    exact Or.inr ⟨p, hp, h.symm⟩

omit [DecidableEq K] in
/-- A write succeeds, or it leaves everything as it is. -/
theorem writeToDatabase_eq (ok : Bool) (p : QueuedPacket K P N) :
    (ok = true ∧ (∀ row ∈ s.table, row.ack ≠ p.ack) ∧
      s.writeToDatabase ok p = (true, { s with table := s.table ++ [p.row] })) ∨
    ((ok = false ∨ ∃ row ∈ s.table, row.ack = p.ack) ∧ s.writeToDatabase ok p = (false, s)) := by
  simp only [writeToDatabase]
  by_cases h : (ok && !s.table.any (·.ack = p.ack)) = true
  · rw [if_pos h]
    simp only [Bool.and_eq_true, Bool.not_eq_true', List.any_eq_false, decide_eq_true_eq] at h
    exact Or.inl ⟨h.1, h.2, rfl⟩
  · rw [if_neg h]
    refine Or.inr ⟨?_, rfl⟩
    cases ok with
    | false => exact Or.inl rfl
    | true => exact Or.inr (by simpa using h)

omit [DecidableEq K] in
theorem threadWrite_eq_some {ok : Bool} (h : s.threadWrite ok = some t) :
    s.thread = .writeToDatabase ∧ ∃ p, s.p = some p ∧
      ((ok = true ∧ (∀ row ∈ s.table, row.ack ≠ p.ack) ∧
        t = { s with table := s.table ++ [p.row], thread := .notify }) ∨
      ((ok = false ∨ ∃ row ∈ s.table, row.ack = p.ack) ∧
        t = { s with thread := .removeFromDatabase })) := by
  simp only [threadWrite, Option.ite_none_right_eq_some] at h
  obtain ⟨hpc, h⟩ := h
  rcases Option.eq_none_or_eq_some s.p with hp | ⟨p, hp⟩
  · simp [hp] at h
  · simp only [hp, Option.some.injEq] at h
    refine ⟨hpc, p, hp, ?_⟩
    rcases writeToDatabase_eq (s := s) ok p with ⟨hok, hfresh, hw⟩ | ⟨hfail, hw⟩
    · rw [hw] at h
      exact Or.inl ⟨hok, hfresh, h.symm⟩
    · rw [hw] at h
      exact Or.inr ⟨hfail, h.symm⟩

omit [DecidableEq K] in
theorem threadNotify_eq_some (h : s.threadNotify = some t) :
    s.thread = .notify ∧ t = { s with thread := .removeFromDatabase } := by
  simp only [threadNotify, Option.ite_none_right_eq_some, Option.some.injEq] at h
  exact ⟨h.1, h.2.symm⟩

omit [DecidableEq K] in
theorem threadRemove_eq_some {ok : Bool} (h : s.threadRemove ok = some t) :
    s.thread = .removeFromDatabase ∧ t = { s with
      table := if s.removeAck ≠ 0 ∧ ok then s.table.filter (·.ack ≠ s.removeAck) else s.table
      thread := .nextPacket } := by
  simp only [threadRemove, removeFromDatabase, Option.ite_none_right_eq_some,
    Option.some.injEq] at h
  refine ⟨h.1, h.2.symm.trans ?_⟩
  by_cases hack : s.removeAck = 0 <;> cases ok <;> simp [hack]

omit [DecidableEq K] in
theorem startClose_eq_some (h : s.startClose = some t) :
    s.closing = .notCalled ∧ t = { s with close := true, closing := .join } := by
  simp only [startClose, Option.ite_none_right_eq_some, Option.some.injEq] at h
  exact ⟨h.1, h.2.symm⟩

omit [DecidableEq K] in
theorem join_eq_some (h : s.join = some t) :
    s.closing = .join ∧ s.thread = .exited ∧ t = { s with closing := .testFlag } := by
  simp only [join, Option.ite_none_right_eq_some, Option.some.injEq] at h
  exact ⟨h.1.1, h.1.2, h.2.symm⟩

omit [DecidableEq K] in
theorem purgeTest_eq_some (h : s.purgeTest = some t) : s.closing = .testFlag ∧
    ((s.queue[s.queueIndex]? = none ∧
        t = { s with queue := [], queueIndex := 0, closing := .removeFromDatabase }) ∨
      ∃ p, s.queue[s.queueIndex]? = some p ∧
        ((s.removeFlag p.ack = true ∧ t = { s with queueIndex := s.queueIndex + 1 }) ∨
        (s.removeFlag p.ack = false ∧ t = { s with
          removeFlag := Function.update s.removeFlag p.ack true
          closing := .writeToDatabase }))) := by
  simp only [purgeTest, Option.ite_none_right_eq_some] at h
  obtain ⟨hpc, h⟩ := h
  refine ⟨hpc, ?_⟩
  cases hp : s.queue[s.queueIndex]? with
  | none =>
      simp only [hp, Option.some.injEq] at h
      exact Or.inl ⟨rfl, h.symm⟩
  | some p =>
      simp only [hp, Option.some.injEq] at h
      refine Or.inr ⟨p, rfl, ?_⟩
      cases hflag : s.removeFlag p.ack with
      | true =>
          rw [hflag, if_pos rfl] at h
          exact Or.inl ⟨rfl, h.symm⟩
      | false =>
          rw [hflag, if_neg Bool.false_ne_true] at h
          exact Or.inr ⟨rfl, h.symm⟩

omit [DecidableEq K] in
theorem purgeWrite_eq_some {ok : Bool} (h : s.purgeWrite ok = some t) :
    s.closing = .writeToDatabase ∧ ∃ p, s.queue[s.queueIndex]? = some p ∧
      ((ok = true ∧ (∀ row ∈ s.table, row.ack ≠ p.ack) ∧ t = { s with
          table := s.table ++ [p.row]
          closing := .testFlag
          queueIndex := s.queueIndex + 1 }) ∨
      ((ok = false ∨ ∃ row ∈ s.table, row.ack = p.ack) ∧ t = { s with
          closing := .testFlag
          queueIndex := s.queueIndex + 1 })) := by
  simp only [purgeWrite, Option.ite_none_right_eq_some] at h
  obtain ⟨hpc, h⟩ := h
  cases hp : s.queue[s.queueIndex]? with
  | none => simp [hp] at h
  | some p =>
      simp only [hp, Option.some.injEq] at h
      refine ⟨hpc, p, rfl, ?_⟩
      rcases writeToDatabase_eq (s := s) ok p with ⟨hok, hfresh, hw⟩ | ⟨hfail, hw⟩
      · rw [hw] at h
        exact Or.inl ⟨hok, hfresh, h.symm⟩
      · rw [hw] at h
        exact Or.inr ⟨hfail, h.symm⟩

omit [DecidableEq K] in
theorem purgeRemove_eq_some {ok : Bool} (h : s.purgeRemove ok = some t) :
    s.closing = .removeFromDatabase ∧
    ((s.removeQueue[s.removeIndex]? = none ∧
        t = { s with removeQueue := [], removeIndex := 0, closing := .returned }) ∨
      ∃ ack, s.removeQueue[s.removeIndex]? = some ack ∧ t = { s with
        table := if ok then s.table.filter (·.ack ≠ ack) else s.table
        removeIndex := s.removeIndex + 1 }) := by
  simp only [purgeRemove, removeFromDatabase, Option.ite_none_right_eq_some] at h
  obtain ⟨hpc, h⟩ := h
  refine ⟨hpc, ?_⟩
  cases ha : s.removeQueue[s.removeIndex]? with
  | none =>
      simp only [ha, Option.some.injEq] at h
      exact Or.inl ⟨rfl, h.symm⟩
  | some ack =>
      simp only [ha, Option.some.injEq] at h
      refine Or.inr ⟨ack, rfl, h.symm.trans ?_⟩
      cases ok <;> rfl

end PacketStorage

end Securepath.PacketTransport
