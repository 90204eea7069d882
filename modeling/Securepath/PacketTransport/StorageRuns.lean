import Securepath.PacketTransport.Ledger

/-!
# Runs of `packet_storage`

Any number of threads insert packets, ack them through their handles and ask
for what is pending, while the storage thread writes and deletes and `close`
may come in at any time. A step is a locked section or a statement of the
database. A `History` is a storage with what has happened to it; its ledger
takes the steps of `Ledger`, as long as `close` does not lose anything.
-/

namespace Securepath.PacketTransport

/-- A storage, and what the callers know about it. -/
structure History (K P N : Type) where
  storage : PacketStorage K P N
  initial : List (Row K P)
  inserted : List (QueuedPacket K P N)
  handles : List PacketHandle
  /-- the acks of the calls of `mark_as_acked` that have returned -/
  acked : List Nat
  ackedBeforeClose : List Nat
  /-- what `write_to_database` returned -/
  written : List Nat
  failed : List Nat
  /-- the acks that `remove_from_database` failed to remove -/
  undeleted : List Nat
  notified : List Nat

inductive StorageAction (K P N : Type) where
  | insert (receiver : K) (packet : P) (senderAck : Nat) (sender : K) (notify : N)
  | query (receiver : K)
  | markAsAcked (h : PacketHandle)
  | pushRemove (ack : Nat)
  | nextPacket
  | testFlag
  | threadWrite (ok : Bool)
  | threadNotify
  | threadRemove (ok : Bool)
  | startClose
  | join
  | purgeTest
  | purgeWrite (ok : Bool)
  | purgeRemove (ok : Bool)
deriving DecidableEq

namespace History

variable {K P N : Type} [DecidableEq K] (s : History K P N)

def init (table : List (Row K P)) : History K P N where
  storage := .init table
  initial := table
  inserted := []
  handles := []
  acked := []
  ackedBeforeClose := []
  written := []
  failed := []
  undeleted := []
  notified := []

/-! ## The steps -/

def insert (receiver : K) (packet : P) (senderAck : Nat) (sender : K) (notify : N) :
    History K P N :=
  let p := s.storage.makeQueued receiver packet senderAck sender notify
  { s with
    storage := s.storage.insert receiver packet senderAck sender notify
    inserted := s.inserted ++ [p]
    handles := ⟨p.ack, true⟩ :: s.handles }

/-- The query of `get_pending_packets`; its locked section gives the handles
that `insert` gave. -/
def query (receiver : K) : History K P N :=
  { s with
    handles := (s.storage.table.filter (·.receiver = receiver)).map
      (fun row => ⟨row.ack, false⟩) ++ s.handles }

/-- `mark_as_acked`, which returns at once when the flag was not set. -/
def markAsAcked (h : PacketHandle) : History K P N :=
  { s with
    storage := s.storage.remove h
    acked := if s.storage.flag h then s.acked else h.ack :: s.acked }

def pushRemove (ack : Nat) : Option (History K P N) :=
  (s.storage.pushRemove ack).map fun t => { s with storage := t, acked := ack :: s.acked }

/-- Notes what `write_to_database` returned for a packet. -/
def noteWrite (ok : Bool) (p : Option (QueuedPacket K P N)) (t : PacketStorage K P N) :
    History K P N :=
  match p with
  | none => { s with storage := t }
  | some p =>
      if (s.storage.writeToDatabase ok p).1 then
        { s with storage := t, written := p.ack :: s.written }
      else
        { s with storage := t, failed := p.ack :: s.failed }

def threadWrite (ok : Bool) : Option (History K P N) :=
  (s.storage.threadWrite ok).map (s.noteWrite ok s.storage.p)

def threadNotify : Option (History K P N) :=
  s.storage.threadNotify.map fun t =>
    { s with storage := t, notified := s.notified ++ s.storage.p.toList.map QueuedPacket.ack }

def threadRemove (ok : Bool) : Option (History K P N) :=
  (s.storage.threadRemove ok).map fun t =>
    { s with
      storage := t
      undeleted := if s.storage.removeAck ≠ 0 ∧ ok = false then s.storage.removeAck :: s.undeleted
        else s.undeleted }

def startClose : Option (History K P N) :=
  s.storage.startClose.map fun t => { s with storage := t, ackedBeforeClose := s.acked }

def purgeWrite (ok : Bool) : Option (History K P N) :=
  (s.storage.purgeWrite ok).map (s.noteWrite ok s.storage.queue[s.storage.queueIndex]?)

def purgeRemove (ok : Bool) : Option (History K P N) :=
  (s.storage.purgeRemove ok).map fun t =>
    { s with
      storage := t
      undeleted := match s.storage.removeQueue[s.storage.removeIndex]? with
        | some ack => if ok then s.undeleted else ack :: s.undeleted
        | none => s.undeleted }

def step : StorageAction K P N → History K P N → Option (History K P N)
  | .insert receiver packet senderAck sender notify, s =>
      some (s.insert receiver packet senderAck sender notify)
  | .query receiver, s => some (s.query receiver)
  | .markAsAcked h, s => if h ∈ s.handles then some (s.markAsAcked h) else none
  | .pushRemove ack, s => s.pushRemove ack
  | .nextPacket, s => s.storage.nextPacket.map fun t => { s with storage := t }
  | .testFlag, s => s.storage.testFlag.map fun t => { s with storage := t }
  | .threadWrite ok, s => s.threadWrite ok
  | .threadNotify, s => s.threadNotify
  | .threadRemove ok, s => s.threadRemove ok
  | .startClose, s => s.startClose
  | .join, s => s.storage.join.map fun t => { s with storage := t }
  | .purgeTest, s => s.storage.purgeTest.map fun t => { s with storage := t }
  | .purgeWrite ok, s => s.purgeWrite ok
  | .purgeRemove ok, s => s.purgeRemove ok

end History

/-! ## The ledger of a storage -/

namespace PacketStorage

variable {K P N : Type} (s : PacketStorage K P N)

/-- How far the first loop of `purge_queues` has tested. -/
def tested : Nat := s.queueIndex + if s.closing = .writeToDatabase then 1 else 0

def waiting : List (QueuedPacket K P N) :=
  (if s.thread = .testFlag then s.p.toList else []) ++ s.queue.drop s.tested

def writing : List (QueuedPacket K P N) :=
  (if s.thread = .writeToDatabase then s.p.toList else []) ++
    if s.closing = .writeToDatabase then s.queue[s.queueIndex]?.toList else []

def notifying : List (QueuedPacket K P N) :=
  if s.thread = .notify then s.p.toList else []

/-- The thread has `remove_ack` still before it. -/
def hasRemoveAck : Prop := s.thread ≠ .nextPacket ∧ s.thread ≠ .exited ∧ s.removeAck ≠ 0

instance : Decidable s.hasRemoveAck := inferInstanceAs (Decidable (_ ∧ _ ∧ _))

/-- The acks that the storage thread or `close` removes from the table next. -/
def due : List Nat :=
  (if s.hasRemoveAck then [s.removeAck] else []) ++ s.removeQueue.drop s.removeIndex

/-- What the threads of the storage have to each other. -/
structure Phases : Prop where
  close_iff : s.close = true ↔ s.closing ≠ .notCalled
  exited : s.closing ≠ .notCalled → s.closing ≠ .join → s.thread = .exited
  running : s.closing = .notCalled → s.thread ≠ .exited
  untouched : s.closing = .notCalled ∨ s.closing = .join → s.queueIndex = 0 ∧ s.removeIndex = 0
  removeIndex_le : s.removeIndex ≤ s.removeQueue.length
  purging : s.closing = .writeToDatabase → s.queueIndex < s.queue.length
  purged : s.closing = .removeFromDatabase ∨ s.closing = .returned → s.queue = []
  disposed : s.thread ≠ .testFlag → ∀ p, s.p = some p → s.removeFlag p.ack = true
  passed : ∀ p ∈ s.queue.take s.tested, s.removeFlag p.ack = true
  indexed : s.closing = .notCalled → s.receiverIndex = s.queue.map fun p => (p.receiver, p.ack)

variable {s}

theorem Phases.notPurging (h : s.Phases) (hthread : s.thread ≠ .exited) :
    s.closing = .notCalled ∨ s.closing = .join := by
  by_cases hcalled : s.closing = .notCalled
  · exact Or.inl hcalled
  · by_cases hjoin : s.closing = .join
    · exact Or.inr hjoin
    · exact absurd (h.exited hcalled hjoin) hthread

theorem Phases.tested_eq_zero (h : s.Phases)
    (hopen : s.closing = .notCalled ∨ s.closing = .join) : s.tested = 0 := by
  have hzero := h.untouched hopen
  rcases hopen with hopen | hopen <;> simp [tested, hzero.1, hopen]

end PacketStorage

namespace History

variable {K P N : Type} [DecidableEq K] {s t : History K P N}

def ledger (s : History K P N) : Ledger K P N where
  sequence := s.storage.sequence
  initial := s.initial
  inserted := s.inserted
  waiting := s.storage.waiting
  writing := s.storage.writing
  notifying := s.storage.notifying
  table := s.storage.table
  flag := s.storage.removeFlag
  due := s.storage.due
  removing := s.storage.removing
  handles := s.handles
  acked := s.acked
  written := s.written
  failed := s.failed
  undeleted := s.undeleted
  notified := s.notified

/-- When `next_packet` finds `close_` set it pops nothing that is still needed,
and nothing is inserted from `purge_queues` on. -/
def Spared (a : StorageAction K P N) (s : History K P N) : Prop :=
  match a with
  | .nextPacket => s.storage.close = true →
      (∀ p, s.storage.queue.head? = some p → s.storage.removeFlag p.ack = true) ∧
      ∀ ack, s.storage.removeQueue.head? = some ack → ∀ row ∈ s.storage.table, row.ack ≠ ack
  | .insert .. => s.storage.closing = .notCalled ∨ s.storage.closing = .join
  | _ => True

omit [DecidableEq K] in
theorem storage_noteWrite (ok : Bool) (p : Option (QueuedPacket K P N))
    (u : PacketStorage K P N) : (s.noteWrite ok p u).storage = u := by
  unfold noteWrite
  rcases p with _ | p
  · rfl
  · by_cases h : (s.storage.writeToDatabase ok p).1 = true <;> simp [h]

/-- The step of the storage in a step of the history. -/
def storageStep (a : StorageAction K P N) (s : PacketStorage K P N) :
    Option (PacketStorage K P N) :=
  match a with
  | .insert receiver packet senderAck sender notify =>
      some (s.insert receiver packet senderAck sender notify)
  | .query _ => some s
  | .markAsAcked h => some (s.remove h)
  | .pushRemove ack => s.pushRemove ack
  | .nextPacket => s.nextPacket
  | .testFlag => s.testFlag
  | .threadWrite ok => s.threadWrite ok
  | .threadNotify => s.threadNotify
  | .threadRemove ok => s.threadRemove ok
  | .startClose => s.startClose
  | .join => s.join
  | .purgeTest => s.purgeTest
  | .purgeWrite ok => s.purgeWrite ok
  | .purgeRemove ok => s.purgeRemove ok

theorem storage_step {a : StorageAction K P N} (hstep : step a s = some t) :
    storageStep a s.storage = some t.storage := by
  cases a with
  | insert receiver packet senderAck sender notify =>
      rcases Option.some.inj hstep with rfl
      rfl
  | query receiver =>
      rcases Option.some.inj hstep with rfl
      rfl
  | markAsAcked h =>
      simp only [step, Option.ite_none_right_eq_some, Option.some.injEq] at hstep
      rcases hstep with ⟨_, rfl⟩
      rfl
  | threadWrite ok =>
      rcases Option.map_eq_some_iff.mp hstep with ⟨u, hu, rfl⟩
      rw [storage_noteWrite]
      exact hu
  | purgeWrite ok =>
      rcases Option.map_eq_some_iff.mp hstep with ⟨u, hu, rfl⟩
      rw [storage_noteWrite]
      exact hu
  | _ =>
      rcases Option.map_eq_some_iff.mp hstep with ⟨u, hu, rfl⟩
      exact hu

omit [DecidableEq K] in
/-- Setting a flag, which no clause of `Phases` speaks against. -/
theorem phases_setFlag {u : PacketStorage K P N} (h : u.Phases) (ack : Nat) :
    PacketStorage.Phases { u with removeFlag := Function.update u.removeFlag ack true } := by
  have hset : ∀ a, u.removeFlag a = true → Function.update u.removeFlag ack true a = true := by
    intro a ha
    by_cases hsame : a = ack
    · rw [hsame, Function.update_self]
    · rw [Function.update_of_ne hsame]
      exact ha
  refine { h with disposed := ?_, passed := ?_ }
  · intro hpc p hp
    exact hset p.ack (h.disposed hpc p hp)
  · intro p hp
    exact hset p.ack (h.passed p hp)

omit [DecidableEq K] in
/-- Nothing is inserted from `purge_queues` on. -/
theorem phases_insert {u : PacketStorage K P N} (h : u.Phases)
    (hgood : u.closing = .notCalled ∨ u.closing = .join) (receiver : K) (packet : P)
    (senderAck : Nat) (sender : K) (notify : N) :
    (u.insert receiver packet senderAck sender notify).Phases := by
  refine { h with purging := ?_, purged := ?_, passed := ?_, indexed := ?_ }
  · rintro hpc
    rcases hgood with hgood | hgood <;> simp [PacketStorage.insert, hgood] at hpc
  · rintro (hpc | hpc) <;> rcases hgood with hgood | hgood <;>
      simp [PacketStorage.insert, hgood] at hpc
  · intro p hp
    have hnone : u.tested = 0 := h.tested_eq_zero hgood
    have hempty : p ∈ (u.queue ++ [u.makeQueued receiver packet senderAck
        sender notify]).take u.tested := hp
    rw [hnone] at hempty
    exact absurd hempty List.not_mem_nil
  · intro hpc
    have hold := h.indexed hpc
    simp [PacketStorage.insert, PacketStorage.makeQueued, hold]

theorem phases_nextPacket {u v : PacketStorage K P N} (h : u.Phases)
    (hstep : u.nextPacket = some v) : v.Phases := by
  rcases PacketStorage.nextPacket_eq_some hstep with ⟨hpc, rfl⟩
  -- the thread is in its loop, so nothing is purged yet
  have hopen := h.notPurging (by rw [hpc]; simp)
  have hzero := h.untouched hopen
  have hnone : u.tested = 0 := h.tested_eq_zero hopen
  refine ⟨h.close_iff, ?_, ?_, h.untouched, ?_, ?_, ?_, ?_, ?_, ?_⟩
  · intro hcalled hjoin
    exact absurd (h.exited hcalled hjoin) (by rw [hpc]; simp)
  · intro hcalled
    have hclose : u.close = false := by
      rw [← Bool.not_eq_true, h.close_iff]
      exact not_not.mpr hcalled
    simp [hclose]
  · simp [hzero.2]
  · intro hwrite
    rcases hopen with hopen | hopen <;> simp [hopen] at hwrite
  · rintro (hwrite | hwrite) <;> rcases hopen with hopen | hopen <;> simp [hopen] at hwrite
  · intro hthread p hp
    cases hclose : u.close <;> simp [hclose] at hthread hp
  · intro p hp
    have hempty : p ∈ u.queue.tail.take u.tested := hp
    rw [hnone] at hempty
    exact absurd hempty List.not_mem_nil
  · intro hcalled
    have hindex := h.indexed hcalled
    cases hqueue : u.queue with
    | nil => simp [PacketStorage.removeFromIndex, hindex, hqueue]
    | cons p queue => simp [PacketStorage.removeFromIndex, hindex, hqueue]

omit [DecidableEq K] in
theorem phases_testFlag {u v : PacketStorage K P N} (h : u.Phases)
    (hstep : u.testFlag = some v) : v.Phases := by
  rcases PacketStorage.testFlag_eq_some hstep with ⟨hpc, ⟨hp, rfl⟩ | ⟨p, hp, rfl⟩⟩
  · refine { h with exited := ?_, running := fun _ => by simp, disposed := ?_ }
    · intro hcalled hjoin
      exact absurd (h.exited hcalled hjoin) (by rw [hpc]; simp)
    · intro _ q hq
      rw [hp] at hq
      exact absurd hq (by simp)
  · refine { phases_setFlag h p.ack with exited := ?_, running := ?_, disposed := ?_ }
    · intro hcalled hjoin
      exact absurd (h.exited hcalled hjoin) (by rw [hpc]; simp)
    · intro _
      cases u.removeFlag p.ack <;> simp
    · intro _ q hq
      have hsame : q = p := Option.some.inj (hq.symm.trans hp)
      simp [hsame]

omit [DecidableEq K] in
/-- What `purge_queues` has passed over has its flag set. -/
theorem phases_purgeTest {u v : PacketStorage K P N} (h : u.Phases)
    (hstep : u.purgeTest = some v) : v.Phases := by
  rcases PacketStorage.purgeTest_eq_some hstep with ⟨hpc, hcases⟩
  have hclose : u.close = true := h.close_iff.mpr (by rw [hpc]; simp)
  have hexit := h.exited (by rw [hpc]; simp) (by rw [hpc]; simp)
  have htested : u.tested = u.queueIndex := by simp [PacketStorage.tested, hpc]
  have hpassed := h.passed
  rw [htested] at hpassed
  -- the end of the queue, a packet whose flag was set before, and one whose flag is set now
  rcases hcases with ⟨_, rfl⟩ | ⟨p, hp, ⟨hflag, rfl⟩ | ⟨hflag, rfl⟩⟩
  · refine { h with
      close_iff := by simpa using hclose, exited := fun _ _ => hexit, running := by simp
      untouched := by simp, purging := by simp, purged := by simp
      passed := by simp, indexed := by simp }
  · refine { h with
      untouched := by simp [hpc], passed := ?_, purging := by simp [hpc] }
    intro q hq
    simp only [PacketStorage.tested, hpc, reduceCtorEq, if_false, Nat.add_zero,
      List.take_add_one, hp, Option.toList_some, List.mem_append, List.mem_singleton] at hq
    rcases hq with hq | rfl
    · exact hpassed q hq
    · exact hflag
  · have hset := phases_setFlag h p.ack
    refine { hset with
      close_iff := by simpa using hclose, exited := fun _ _ => hexit, running := by simp
      untouched := by simp, purging := ?_, purged := by simp
      passed := ?_, indexed := by simp }
    · intro _
      exact (List.getElem?_eq_some_iff.mp hp).1
    · intro q hq
      simp only [PacketStorage.tested, if_true, List.take_add_one, hp, Option.toList_some,
        List.mem_append, List.mem_singleton] at hq
      rcases hq with hq | rfl
      · refine hset.passed q ?_
        simpa [PacketStorage.tested, hpc] using hq
      · simp

theorem phases_step (a : StorageAction K P N) (h : s.storage.Phases) (hgood : Spared a s)
    (hstep : step a s = some t) : t.storage.Phases := by
  have hstorage := storage_step hstep
  generalize t.storage = u at hstorage
  cases a with
  | insert receiver packet senderAck sender notify =>
      rcases Option.some.inj hstorage with rfl
      exact phases_insert h hgood receiver packet senderAck sender notify
  | query receiver =>
      rcases Option.some.inj hstorage with rfl
      exact h
  | markAsAcked handle =>
      rcases Option.some.inj hstorage with rfl
      rcases PacketStorage.remove_eq (s := s.storage) handle with ⟨_, _, heq⟩ | ⟨_, _, _, heq⟩
      · rw [heq]
        exact { h with }
      · rw [heq]
        exact phases_setFlag h handle.ack
  | pushRemove ack =>
      rcases PacketStorage.pushRemove_eq_some hstorage with ⟨hack, rfl⟩
      refine { h with removeIndex_le := ?_ }
      have hle := h.removeIndex_le
      simp only [List.length_append]
      omega
  | nextPacket => exact phases_nextPacket h hstorage
  | testFlag => exact phases_testFlag h hstorage
  | threadWrite ok =>
      rcases PacketStorage.threadWrite_eq_some hstorage with ⟨hpc, p, hp, ⟨_, _, rfl⟩ | ⟨_, rfl⟩⟩
      all_goals
        refine { h with
          exited := ?_, running := fun _ => by simp
          disposed := fun _ => h.disposed (by rw [hpc]; simp) }
        intro hcalled hjoin
        exact absurd (h.exited hcalled hjoin) (by rw [hpc]; simp)
  | threadNotify =>
      rcases PacketStorage.threadNotify_eq_some hstorage with ⟨hpc, rfl⟩
      refine { h with
        exited := ?_, running := fun _ => by simp
        disposed := fun _ => h.disposed (by rw [hpc]; simp) }
      intro hcalled hjoin
      exact absurd (h.exited hcalled hjoin) (by rw [hpc]; simp)
  | threadRemove ok =>
      rcases PacketStorage.threadRemove_eq_some hstorage with ⟨hpc, rfl⟩
      refine { h with
        exited := ?_, running := fun _ => by simp
        disposed := fun _ => h.disposed (by rw [hpc]; simp) }
      intro hcalled hjoin
      exact absurd (h.exited hcalled hjoin) (by rw [hpc]; simp)
  | startClose =>
      rcases PacketStorage.startClose_eq_some hstorage with ⟨hpc, rfl⟩
      have hzero := h.untouched (Or.inl hpc)
      refine { h with
        close_iff := by simp, exited := by simp, running := by simp
        untouched := fun _ => hzero, purging := by simp, purged := by simp
        passed := ?_, indexed := by simp }
      simp [PacketStorage.tested, hzero.1]
  | join =>
      rcases PacketStorage.join_eq_some hstorage with ⟨hpc, hexit, rfl⟩
      have hzero := h.untouched (Or.inr hpc)
      refine { h with
        close_iff := ?_, exited := fun _ _ => hexit, running := by simp
        untouched := by simp, purging := by simp, purged := by simp
        passed := ?_, indexed := by simp }
      · simpa [hpc] using h.close_iff
      · simp [PacketStorage.tested, hzero.1]
  | purgeTest => exact phases_purgeTest h hstorage
  | purgeWrite ok =>
      rcases PacketStorage.purgeWrite_eq_some hstorage with ⟨hpc, p, hp, ⟨_, _, rfl⟩ | ⟨_, rfl⟩⟩
      all_goals
        have hclose : s.storage.close = true := h.close_iff.mpr (by rw [hpc]; simp)
        have hexit := h.exited (by rw [hpc]; simp) (by rw [hpc]; simp)
        have hpassed := h.passed
        simp only [PacketStorage.tested, hpc, if_true] at hpassed
        refine { h with
          close_iff := by simpa using hclose, exited := fun _ _ => hexit, running := by simp
          untouched := by simp, purging := by simp, purged := by simp
          passed := ?_, indexed := by simp }
        simpa [PacketStorage.tested] using hpassed
  | purgeRemove ok =>
      rcases PacketStorage.purgeRemove_eq_some hstorage with ⟨hpc, ⟨_, rfl⟩ | ⟨ack, hack, rfl⟩⟩
      · have hclose : s.storage.close = true := h.close_iff.mpr (by rw [hpc]; simp)
        have hexit := h.exited (by rw [hpc]; simp) (by rw [hpc]; simp)
        have hempty := h.purged (Or.inl hpc)
        refine { h with
          close_iff := by simpa using hclose, exited := fun _ _ => hexit, running := by simp
          untouched := by simp, removeIndex_le := by simp, purging := by simp
          purged := fun _ => hempty, passed := by simp [hempty], indexed := by simp }
      · refine { h with untouched := by simp [hpc], removeIndex_le := ?_ }
        have hlt := (List.getElem?_eq_some_iff.mp hack).1
        exact hlt

/-! ## The ledger follows the storage -/

omit [DecidableEq K] in
/-- The packet that a handle locks waits, unless its flag is set. -/
theorem waiting_of_lock (h : s.storage.Phases) {handle : PacketHandle}
    (hlock : s.storage.lock handle = true) (hflag : s.storage.removeFlag handle.ack = false) :
    ∃ q ∈ s.storage.waiting, q.ack = handle.ack := by
  rcases ((PacketStorage.lock_iff s.storage handle).mp hlock).2 with ⟨q, hq, heq⟩ | ⟨q, hq, heq⟩
  · refine ⟨q, ?_, heq⟩
    rw [← List.take_append_drop s.storage.tested s.storage.queue, List.mem_append] at hq
    rcases hq with hq | hq
    -- `purge_queues` has passed it, so its flag is set
    · have hpassed := h.passed q hq
      rw [heq, hflag] at hpassed
      exact absurd hpassed (by simp)
    · exact List.mem_append_right _ hq
  · refine ⟨q, ?_, heq⟩
    by_cases hthread : s.storage.thread = .testFlag
    · simp [PacketStorage.waiting, hthread, hq]
    · have hdisposed := h.disposed hthread q hq
      rw [heq, hflag] at hdisposed
      exact absurd hdisposed (by simp)

omit [DecidableEq K] in
theorem mem_of_waiting {u : PacketStorage K P N} {q : QueuedPacket K P N}
    (hq : q ∈ u.waiting) : q ∈ u.queue ∨ u.p = some q := by
  rcases List.mem_append.mp hq with hq | hq
  · right
    by_cases hthread : u.thread = .testFlag
    · simpa [hthread] using hq
    · simp [hthread] at hq
  · exact Or.inl (List.mem_of_mem_drop hq)

omit [DecidableEq K] in
theorem lock_of_waiting {u : PacketStorage K P N} {q : QueuedPacket K P N} {handle : PacketHandle}
    (hq : q ∈ u.waiting) (hack : q.ack = handle.ack) (hqueued : handle.queued = true) :
    u.lock handle = true := by
  rw [PacketStorage.lock_iff]
  refine ⟨hqueued, ?_⟩
  rcases mem_of_waiting hq with hq | hq
  · exact Or.inl ⟨q, hq, hack⟩
  · exact Or.inr ⟨q, hq, hack⟩

omit [DecidableEq K] in
/-- A step of the ledger, to the ledger that the storage then has. -/
theorem refines_single {l l' l'' : Ledger K P N} (hstep : Ledger.Step l l') (heq : l'' = l') :
    Relation.ReflTransGen Ledger.Step l l'' := by
  rw [heq]
  exact Relation.ReflTransGen.single hstep

omit [DecidableEq K] in
theorem refines_of_eq {l l' : Ledger K P N} (heq : l' = l) :
    Relation.ReflTransGen Ledger.Step l l' := by
  rw [heq]

omit [DecidableEq K] in
theorem refines_insert (hphases : s.storage.Phases)
    (hopen : s.storage.closing = .notCalled ∨ s.storage.closing = .join) (receiver : K)
    (packet : P) (senderAck : Nat) (sender : K) (notify : N) :
    Relation.ReflTransGen Ledger.Step s.ledger
      (s.insert receiver packet senderAck sender notify).ledger := by
  have hzero := hphases.tested_eq_zero hopen
  have hwrite : s.storage.closing ≠ .writeToDatabase := by
    rcases hopen with hopen | hopen <;> simp [hopen]
  apply refines_single (Ledger.Step.insert
    (s.storage.makeQueued receiver packet senderAck sender notify) rfl)
  have hwaiting : (s.storage.insert receiver packet senderAck sender notify).waiting =
      s.storage.waiting ++ [s.storage.makeQueued receiver packet senderAck sender notify] := by
    unfold PacketStorage.waiting
    change _ ++ (s.storage.queue ++ [_]).drop s.storage.tested = _
    rw [hzero, List.drop_zero, List.drop_zero, List.append_assoc]
    rfl
  have hwriting : (s.storage.insert receiver packet senderAck sender notify).writing =
      s.storage.writing := by
    simp [PacketStorage.writing, PacketStorage.insert, hwrite]
    rfl
  unfold ledger
  simp only [insert, hwaiting, hwriting]
  rfl

theorem refines_query (receiver : K) :
    Relation.ReflTransGen Ledger.Step s.ledger (s.query receiver).ledger := by
  apply refines_single (Ledger.Step.offer (s.storage.table.filter (·.receiver = receiver)) ?_) rfl
  intro row hrow
  exact (List.mem_filter.mp hrow).1

omit [DecidableEq K] in
theorem refines_markAsAcked (hphases : s.storage.Phases) {handle : PacketHandle}
    (hh : handle ∈ s.handles) :
    Relation.ReflTransGen Ledger.Step s.ledger (s.markAsAcked handle).ledger := by
  rcases PacketStorage.remove_eq (s := s.storage) handle with
    ⟨hflag, hlocked, heq⟩ | ⟨hflag, hlock, hset, heq⟩
  · apply refines_single (Ledger.Step.ackLater handle hh ?_)
    · unfold ledger markAsAcked
      rw [heq, hflag]
      rfl
    · intro q hq hack hqueued
      exact hlocked (lock_of_waiting hq hack hqueued)
  · apply refines_single (Ledger.Step.ackWaiting handle hh (waiting_of_lock hphases hlock hset))
    unfold ledger markAsAcked
    rw [heq, hflag]
    rfl

omit [DecidableEq K] in
theorem refines_pushRemove (hphases : s.storage.Phases) {ack : Nat}
    (hstep : s.pushRemove ack = some t) :
    Relation.ReflTransGen Ledger.Step s.ledger t.ledger := by
  rcases Option.map_eq_some_iff.mp hstep with ⟨u, hu, rfl⟩
  rcases PacketStorage.pushRemove_eq_some hu with ⟨hack, rfl⟩
  apply refines_single (Ledger.Step.pushRemove ack hack)
  have hdrop : (s.storage.removeQueue ++ [ack]).drop s.storage.removeIndex =
      s.storage.removeQueue.drop s.storage.removeIndex ++ [ack] :=
    List.drop_append_of_le_length hphases.removeIndex_le
  unfold ledger
  simp only [PacketStorage.due, hdrop, ← List.append_assoc]
  rfl

omit [DecidableEq K] in
/-- Before `next_packet` everything that waits is in the queues. -/
theorem lists_of_nextPacket {u : PacketStorage K P N} (h : u.Phases)
    (hpc : u.thread = .nextPacket) :
    u.waiting = u.queue ∧ u.writing = [] ∧ u.notifying = [] ∧ u.due = u.removeQueue := by
  have hopen := h.notPurging (by rw [hpc]; simp)
  have hzero := h.untouched hopen
  have hwrite : u.closing ≠ .writeToDatabase := by
    rcases hopen with hopen | hopen <;> simp [hopen]
  refine ⟨?_, ?_, ?_, ?_⟩
  · simp [PacketStorage.waiting, hpc, h.tested_eq_zero hopen]
  · simp [PacketStorage.writing, hpc, hwrite]
  · simp [PacketStorage.notifying, hpc]
  · simp [PacketStorage.due, PacketStorage.hasRemoveAck, hpc, hzero.2]

/-- `next_packet` hands the packet and the ack to the thread. -/
theorem refines_nextPacket_open (hphases : s.storage.Phases) (hinv : s.ledger.Inv)
    (hclose : s.storage.close = false) {u : PacketStorage K P N}
    (hu : s.storage.nextPacket = some u) :
    History.ledger { s with storage := u } = s.ledger := by
  rcases PacketStorage.nextPacket_eq_some hu with ⟨hpc, rfl⟩
  rcases lists_of_nextPacket hphases hpc with ⟨hwaiting, hwriting, hnotifying, hdue⟩
  have hopen := hphases.notPurging (by rw [hpc]; simp)
  have hzero := hphases.untouched hopen
  have htested := hphases.tested_eq_zero hopen
  have hwrite : s.storage.closing ≠ .writeToDatabase := by
    rcases hopen with hopen | hopen <;> simp [hopen]
  have hpos := hinv.acks.due_pos
  unfold ledger at hpos ⊢
  simp only [hdue] at hpos
  simp only [hclose, hwaiting, hwriting, hnotifying, hdue, Ledger.mk.injEq, true_and, and_true]
  refine ⟨?_, ?_, ?_, ?_⟩
  · change s.storage.queue.head?.toList ++ s.storage.queue.tail.drop s.storage.tested = _
    rw [htested]
    cases s.storage.queue <;> rfl
  · simp [PacketStorage.writing, hwrite]
  · simp [PacketStorage.notifying]
  · cases hqueue : s.storage.removeQueue with
    | nil => simp [PacketStorage.due, PacketStorage.hasRemoveAck, hzero.2]
    | cons ack acks =>
        -- 0 stands for no ack
        have hne : ack ≠ 0 := Nat.ne_of_gt (hpos ack (by rw [hqueue]; exact List.mem_cons_self ..))
        simp [PacketStorage.due, PacketStorage.hasRemoveAck, hzero.2, hne]

/-- What `next_packet` pops when `close_` is set is not needed any more. -/
theorem refines_nextPacket_closed (hphases : s.storage.Phases)
    (hgood : Spared .nextPacket s) (hclose : s.storage.close = true) {u : PacketStorage K P N}
    (hu : s.storage.nextPacket = some u) :
    Relation.ReflTransGen Ledger.Step s.ledger (History.ledger { s with storage := u }) := by
  rcases PacketStorage.nextPacket_eq_some hu with ⟨hpc, rfl⟩
  rcases lists_of_nextPacket hphases hpc with ⟨hwaiting, hwriting, hnotifying, hdue⟩
  have hopen := hphases.notPurging (by rw [hpc]; simp)
  have hzero := hphases.untouched hopen
  have htested := hphases.tested_eq_zero hopen
  have hwrite : s.storage.closing ≠ .writeToDatabase := by
    rcases hopen with hopen | hopen <;> simp [hopen]
  -- this is where the condition on the run is used
  rcases hgood hclose with ⟨hflagged, hgone⟩
  -- the popped packet is acked and the popped ack has no row: both may be dropped
  have hskip : Relation.ReflTransGen Ledger.Step s.ledger
      { s.ledger with waiting := s.storage.waiting.tail } := by
    apply Ledger.skip_head hwriting hnotifying
    intro q hq
    exact hflagged q (hwaiting ▸ hq)
  have hforget : Relation.ReflTransGen Ledger.Step
      { s.ledger with waiting := s.storage.waiting.tail }
      { s.ledger with waiting := s.storage.waiting.tail, due := s.storage.due.tail } := by
    apply Ledger.forget_head (l := { s.ledger with waiting := s.storage.waiting.tail }) hwriting
    intro ack hack
    exact hgone ack (hdue ▸ hack)
  refine (hskip.trans hforget).trans (refines_of_eq ?_)
  unfold ledger
  simp only [hclose, hwaiting, hwriting, hnotifying, hdue, Ledger.mk.injEq, true_and, and_true]
  refine ⟨?_, ?_, ?_, ?_⟩
  · change [] ++ s.storage.queue.tail.drop s.storage.tested = _
    rw [htested]
    rfl
  · simp [PacketStorage.writing, hwrite]
  · simp [PacketStorage.notifying]
  · simp [PacketStorage.due, PacketStorage.hasRemoveAck, hzero.2]

omit [DecidableEq K] in
/-- While the storage thread runs, `purge_queues` has not begun. -/
theorem running_of_thread {u : PacketStorage K P N} (h : u.Phases) (hthread : u.thread ≠ .exited) :
    u.closing ≠ .writeToDatabase ∧ u.tested = 0 ∧ u.removeIndex = 0 := by
  have hopen := h.notPurging hthread
  refine ⟨?_, h.tested_eq_zero hopen, (h.untouched hopen).2⟩
  rcases hopen with hopen | hopen <;> simp [hopen]

section Refinement

attribute [local simp] PacketStorage.waiting PacketStorage.tested PacketStorage.writing
  PacketStorage.notifying PacketStorage.due PacketStorage.hasRemoveAck

omit [DecidableEq K] in
theorem refines_testFlag (hphases : s.storage.Phases) {u : PacketStorage K P N}
    (hu : s.storage.testFlag = some u) :
    Relation.ReflTransGen Ledger.Step s.ledger (History.ledger { s with storage := u }) := by
  rcases PacketStorage.testFlag_eq_some hu with ⟨hpc, hcases⟩
  rcases running_of_thread hphases (by rw [hpc]; simp) with ⟨hwrite, htested, hindex⟩
  have hwriting : s.storage.writing = [] := by simp [hpc, hwrite]
  have hnotifying : s.storage.notifying = [] := by simp [hpc]
  rcases hcases with ⟨hp, rfl⟩ | ⟨p, hp, rfl⟩
  · apply refines_of_eq
    simp [ledger, hpc, hp]
  · have hwaiting : s.storage.waiting = p :: s.storage.queue.drop s.storage.tested := by
      simp [hpc, hp]
    cases hflag : s.storage.removeFlag p.ack with
    | true =>
        -- acked before it was written: the packet goes no further
        have hsame : Function.update s.storage.removeFlag p.ack true = s.storage.removeFlag := by
          rw [← hflag, Function.update_eq_self]
        apply refines_single (Ledger.Step.skip p _ [p] hwaiting hflag hwriting hnotifying
          (Or.inl rfl))
        rw [hsame]
        simp [ledger, hpc, hp, hwrite]
    | false =>
        apply refines_single (Ledger.Step.startWrite p _ hwaiting hflag hwriting hnotifying)
        simp [ledger, hpc, hp, hwrite]

omit [DecidableEq K] in
theorem refines_threadWrite (hphases : s.storage.Phases) {ok : Bool}
    (hstep : s.threadWrite ok = some t) :
    Relation.ReflTransGen Ledger.Step s.ledger t.ledger := by
  rcases Option.map_eq_some_iff.mp hstep with ⟨u, hu, rfl⟩
  rcases PacketStorage.threadWrite_eq_some hu with ⟨hpc, p, hp, _⟩
  rcases running_of_thread hphases (by rw [hpc]; simp) with ⟨hwrite, _, _⟩
  have hwriting : s.storage.writing = [p] := by simp [hpc, hp, hwrite]
  have hnotifying : s.storage.notifying = [] := by simp [hpc]
  rcases PacketStorage.writeToDatabase_eq (s := s.storage) ok p with ⟨_, _, hw⟩ | ⟨_, hw⟩
  · simp only [PacketStorage.threadWrite, hpc, hp, hw, if_true, Option.some.injEq] at hu
    apply refines_single (Ledger.Step.write p [p] hwriting hnotifying (Or.inl rfl))
    rw [← hu]
    simp [ledger, noteWrite, hp, hw, hpc, hwrite]
  · simp only [PacketStorage.threadWrite, hpc, hp, hw, if_true, Bool.false_eq_true, if_false,
      Option.some.injEq] at hu
    apply refines_single (Ledger.Step.writeFails p hwriting)
    rw [← hu]
    simp [ledger, noteWrite, hp, hw, hpc, hwrite]

omit [DecidableEq K] in
theorem refines_threadNotify (hstep : s.threadNotify = some t) :
    Relation.ReflTransGen Ledger.Step s.ledger t.ledger := by
  rcases Option.map_eq_some_iff.mp hstep with ⟨u, hu, rfl⟩
  rcases PacketStorage.threadNotify_eq_some hu with ⟨hpc, rfl⟩
  rcases Option.eq_none_or_eq_some s.storage.p with hp | ⟨p, hp⟩
  · apply refines_of_eq
    simp [ledger, hp, hpc]
  · have hnotifying : s.storage.notifying = [p] := by simp [hpc, hp]
    apply refines_single (Ledger.Step.notify p hnotifying)
    simp [ledger, hp, hpc]

omit [DecidableEq K] in
theorem refines_threadRemove (hphases : s.storage.Phases) {ok : Bool}
    (hstep : s.threadRemove ok = some t) :
    Relation.ReflTransGen Ledger.Step s.ledger t.ledger := by
  rcases Option.map_eq_some_iff.mp hstep with ⟨u, hu, rfl⟩
  rcases PacketStorage.threadRemove_eq_some hu with ⟨hpc, rfl⟩
  rcases running_of_thread hphases (by rw [hpc]; simp) with ⟨hwrite, _, _⟩
  have hwriting : s.storage.writing = [] := by simp [hpc, hwrite]
  by_cases hack : s.storage.removeAck = 0
  · apply refines_of_eq
    simp [ledger, hack, hpc]
  · have hdue : s.storage.due =
        s.storage.removeAck :: s.storage.removeQueue.drop s.storage.removeIndex := by
      simp [hpc, hack]
    cases ok with
    | true =>
        apply refines_single (Ledger.Step.delete _ _ hdue hwriting)
        simp [ledger, hack, hpc]
    | false =>
        apply refines_single (Ledger.Step.deleteFails _ _ hdue)
        simp [ledger, hack, hpc]

omit [DecidableEq K] in
theorem refines_purgeTest (hphases : s.storage.Phases) {u : PacketStorage K P N}
    (hu : s.storage.purgeTest = some u) :
    Relation.ReflTransGen Ledger.Step s.ledger (History.ledger { s with storage := u }) := by
  rcases PacketStorage.purgeTest_eq_some hu with ⟨hpc, hcases⟩
  have hexit := hphases.exited (by rw [hpc]; simp) (by rw [hpc]; simp)
  have hwriting : s.storage.writing = [] := by simp [hpc, hexit]
  have hnotifying : s.storage.notifying = [] := by simp [hexit]
  rcases hcases with ⟨hend, rfl⟩ | ⟨p, hp, hcases⟩
  · have hdrop : s.storage.queue.drop s.storage.queueIndex = [] :=
      List.drop_eq_nil_of_le (List.getElem?_eq_none_iff.mp hend)
    apply refines_of_eq
    simp [ledger, hpc, hexit, hdrop]
  · have hwaiting : s.storage.waiting = p :: s.storage.queue.drop (s.storage.queueIndex + 1) := by
      rcases List.getElem?_eq_some_iff.mp hp with ⟨hlt, hget⟩
      simp [hpc, hexit, List.drop_eq_getElem_cons hlt, hget]
    rcases hcases with ⟨hflag, rfl⟩ | ⟨hflag, rfl⟩
    · apply refines_single (Ledger.Step.skip p _ [] hwaiting hflag hwriting hnotifying
        (Or.inr rfl))
      simp [ledger, hpc, hexit]
    · apply refines_single (Ledger.Step.startWrite p _ hwaiting hflag hwriting hnotifying)
      simp [ledger, hexit, hp]

omit [DecidableEq K] in
theorem refines_purgeWrite (hphases : s.storage.Phases) {ok : Bool}
    (hstep : s.purgeWrite ok = some t) :
    Relation.ReflTransGen Ledger.Step s.ledger t.ledger := by
  rcases Option.map_eq_some_iff.mp hstep with ⟨u, hu, rfl⟩
  rcases PacketStorage.purgeWrite_eq_some hu with ⟨hpc, p, hp, _⟩
  have hexit := hphases.exited (by rw [hpc]; simp) (by rw [hpc]; simp)
  have hwriting : s.storage.writing = [p] := by simp [hpc, hp, hexit]
  have hnotifying : s.storage.notifying = [] := by simp [hexit]
  rcases PacketStorage.writeToDatabase_eq (s := s.storage) ok p with ⟨_, _, hw⟩ | ⟨_, hw⟩
  · simp only [PacketStorage.purgeWrite, hpc, hp, hw, if_true, Option.some.injEq] at hu
    apply refines_single (Ledger.Step.write p [] hwriting hnotifying (Or.inr rfl))
    rw [← hu]
    simp [ledger, noteWrite, hp, hw, hpc, hexit]
  · simp only [PacketStorage.purgeWrite, hpc, hp, hw, if_true, Option.some.injEq] at hu
    apply refines_single (Ledger.Step.writeFails p hwriting)
    rw [← hu]
    simp [ledger, noteWrite, hp, hw, hpc, hexit]

omit [DecidableEq K] in
theorem refines_purgeRemove (hphases : s.storage.Phases) {ok : Bool}
    (hstep : s.purgeRemove ok = some t) :
    Relation.ReflTransGen Ledger.Step s.ledger t.ledger := by
  rcases Option.map_eq_some_iff.mp hstep with ⟨u, hu, rfl⟩
  rcases PacketStorage.purgeRemove_eq_some hu with ⟨hpc, hcases⟩
  have hexit := hphases.exited (by rw [hpc]; simp) (by rw [hpc]; simp)
  have hwriting : s.storage.writing = [] := by simp [hpc, hexit]
  rcases hcases with ⟨hend, rfl⟩ | ⟨ack, hack, rfl⟩
  · have hdrop : s.storage.removeQueue.drop s.storage.removeIndex = [] :=
      List.drop_eq_nil_of_le (List.getElem?_eq_none_iff.mp hend)
    apply refines_of_eq
    simp [ledger, hend, hpc, hexit, hdrop]
  · have hdue : s.storage.due =
        ack :: s.storage.removeQueue.drop (s.storage.removeIndex + 1) := by
      rcases List.getElem?_eq_some_iff.mp hack with ⟨hlt, hget⟩
      simp [hexit, List.drop_eq_getElem_cons hlt, hget]
    cases ok with
    | true =>
        apply refines_single (Ledger.Step.delete _ _ hdue hwriting)
        simp [ledger, hack, hpc, hexit]
    | false =>
        apply refines_single (Ledger.Step.deleteFails _ _ hdue)
        simp [ledger, hack, hpc, hexit]

theorem step_refines (a : StorageAction K P N) (hphases : s.storage.Phases)
    (hinv : s.ledger.Inv) (hgood : Spared a s) (hstep : step a s = some t) :
    Relation.ReflTransGen Ledger.Step s.ledger t.ledger := by
  cases a with
  | insert receiver packet senderAck sender notify =>
      rcases Option.some.inj hstep with rfl
      exact refines_insert hphases hgood receiver packet senderAck sender notify
  | query receiver =>
      rcases Option.some.inj hstep with rfl
      exact refines_query receiver
  | markAsAcked handle =>
      simp only [step, Option.ite_none_right_eq_some, Option.some.injEq] at hstep
      rcases hstep with ⟨hh, rfl⟩
      exact refines_markAsAcked hphases hh
  | pushRemove ack => exact refines_pushRemove hphases hstep
  | nextPacket =>
      rcases Option.map_eq_some_iff.mp hstep with ⟨u, hu, rfl⟩
      cases hclose : s.storage.close with
      | false => exact refines_of_eq (refines_nextPacket_open hphases hinv hclose hu)
      | true => exact refines_nextPacket_closed hphases hgood hclose hu
  | testFlag =>
      rcases Option.map_eq_some_iff.mp hstep with ⟨u, hu, rfl⟩
      exact refines_testFlag hphases hu
  | threadWrite ok => exact refines_threadWrite hphases hstep
  | threadNotify => exact refines_threadNotify hstep
  | threadRemove ok => exact refines_threadRemove hphases hstep
  | startClose =>
      rcases Option.map_eq_some_iff.mp hstep with ⟨u, hu, rfl⟩
      rcases PacketStorage.startClose_eq_some hu with ⟨hpc, rfl⟩
      apply refines_of_eq
      simp [ledger, hpc]
      rfl
  | join =>
      rcases Option.map_eq_some_iff.mp hstep with ⟨u, hu, rfl⟩
      rcases PacketStorage.join_eq_some hu with ⟨hpc, hexit, rfl⟩
      apply refines_of_eq
      simp [ledger, hpc]
      rfl
  | purgeTest =>
      rcases Option.map_eq_some_iff.mp hstep with ⟨u, hu, rfl⟩
      exact refines_purgeTest hphases hu
  | purgeWrite ok => exact refines_purgeWrite hphases hstep
  | purgeRemove ok => exact refines_purgeRemove hphases hstep

end Refinement

/-! ## Runs -/

/-- What a storage is opened over: the rows that earlier storages wrote, with
acks from 1 on and `ack` as the primary key. -/
structure IsPacketsTable (table : List (Row K P)) : Prop where
  ack_pos : ∀ row ∈ table, 0 < row.ack
  ack_inj : ∀ row ∈ table, ∀ row' ∈ table, row.ack = row'.ack → row = row'

structure Inv (s : History K P N) : Prop where
  phases : s.storage.Phases
  ledger : s.ledger.Inv

omit [DecidableEq K] in
theorem ack_le_max (table : List (Row K P)) :
    ∀ row ∈ table, row.ack ≤ (table.map Row.ack).foldr max 0 := by
  induction table with
  | nil => exact fun row hrow => absurd hrow List.not_mem_nil
  | cons first table ih =>
      intro row hrow
      simp only [List.map_cons, List.foldr_cons]
      rcases List.mem_cons.mp hrow with rfl | hrow
      · exact Nat.le_max_left ..
      · exact (ih row hrow).trans (Nat.le_max_right ..)

omit [DecidableEq K] in
theorem init_phases (table : List (Row K P)) :
    (PacketStorage.init table : PacketStorage K P N).Phases where
  close_iff := by simp [PacketStorage.init]
  exited := by simp [PacketStorage.init]
  running := by simp [PacketStorage.init]
  untouched := by simp [PacketStorage.init]
  removeIndex_le := Nat.le_refl 0
  purging := by simp [PacketStorage.init]
  purged := by simp [PacketStorage.init]
  disposed := by simp [PacketStorage.init]
  passed := by simp [PacketStorage.init]
  indexed := by simp [PacketStorage.init]

omit [DecidableEq K] in
theorem init_inv {table : List (Row K P)} (h : IsPacketsTable table) :
    Inv (init table : History K P N) := by
  have hknown : ∀ row, (init table : History K P N).ledger.Known row → row ∈ table := by
    rintro row (hrow | ⟨q, hq, _⟩)
    · exact hrow
    · exact absurd hq List.not_mem_nil
  have hempty : ∀ {α : Type} {q : α → Prop}, ∀ x ∈ ([] : List α), q x :=
    fun x hx => absurd hx List.not_mem_nil
  refine ⟨init_phases table, ?_, ?_, ?_, ?_⟩
  · exact
      { known_pos := fun row hrow => h.ack_pos row (hknown row hrow)
        known_le := fun row hrow => ack_le_max table row (hknown row hrow)
        known_inj := fun row row' hrow hrow' =>
          h.ack_inj row (hknown row hrow) row' (hknown row' hrow')
        waiting_inserted := hempty
        writing_inserted := hempty
        table_known := fun row hrow => Or.inl hrow
        handles_known := hempty
        acked_le := hempty
        removing_le := hempty
        due_pos := hempty
        failed_le := hempty
        flag_le := fun ack hflag => absurd hflag Bool.false_ne_true
        order_le := hempty
        order_lt := List.Pairwise.nil }
  · exact ⟨hempty, hempty, hempty⟩
  · exact
      { fresh := hempty
        stored := fun row hrow => List.not_mem_nil
        kept := fun row hrow _ _ => Or.inl (hknown row hrow)
        due_acked := hempty
        row_due := fun row hrow hacked => absurd hacked List.not_mem_nil
        writing_due := hempty }
  · exact ⟨hempty, hempty⟩

theorem step_inv (a : StorageAction K P N) (hgood : Spared a s) (h : Inv s)
    (hstep : step a s = some t) : Inv t :=
  ⟨phases_step a h.phases hgood hstep,
    Ledger.run_inv h.ledger (step_refines a h.phases h.ledger hgood hstep)⟩

omit [DecidableEq K] in
theorem noteWrite_frame (ok : Bool) (p : Option (QueuedPacket K P N)) (u : PacketStorage K P N) :
    (s.noteWrite ok p u).initial = s.initial ∧ (s.noteWrite ok p u).inserted = s.inserted ∧
      (s.noteWrite ok p u).ackedBeforeClose = s.ackedBeforeClose ∧
      (s.noteWrite ok p u).acked = s.acked ∧ (s.noteWrite ok p u).undeleted = s.undeleted ∧
      (s.noteWrite ok p u).handles = s.handles := by
  unfold noteWrite
  rcases p with _ | p
  · exact ⟨rfl, rfl, rfl, rfl, rfl, rfl⟩
  · by_cases h : (s.storage.writeToDatabase ok p).1 = true <;> simp [h]

end History

end Securepath.PacketTransport
