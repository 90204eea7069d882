import Mathlib.Data.List.Infix
import Mathlib.Data.List.TakeWhile
import Securepath.Network.TlsStream

/-!
# The write queue of a TLS stream

The queue holds the records that the socket has not written yet, with a marker
behind the records of each write. As long as the stream is open, the records that
the socket has written and those of the queue are all that Botan has emitted.
-/

namespace Securepath.Network

open Serialisation

/-- The handlers of the markers in a queue. -/
def queued (items : List OutItem) : List Handler := items.filterMap (·.handler)

/-- The records in a queue. -/
def records (items : List OutItem) : List Octets :=
  (items.map (·.data)).filter fun data => !data.isEmpty

theorem queued_append (items items' : List OutItem) :
    queued (items ++ items') = queued items ++ queued items' :=
  List.filterMap_append

theorem records_append (items items' : List OutItem) :
    records (items ++ items') = records items ++ records items' := by
  rw [records, List.map_append, List.filter_append, records, records]

theorem records_cons_of_ne_nil {item : OutItem} (items : List OutItem) (h : item.data ≠ []) :
    records (item :: items) = item.data :: records items := by
  simp [records, h]

theorem records_eq_nil {items : List OutItem} (h : ∀ item ∈ items, item.data = []) :
    records items = [] := by
  rw [records, List.filter_eq_nil_iff]
  intro data hdata
  rcases List.mem_map.mp hdata with ⟨item, hitem, rfl⟩
  simp [h item hitem]

theorem mem_queued {items : List OutItem} {h : Handler} :
    h ∈ queued items ↔ ∃ pre item post, items = pre ++ item :: post ∧ item.handler = some h := by
  rw [queued, List.mem_filterMap]
  constructor
  · rintro ⟨item, hitem, hhandler⟩
    rcases List.append_of_mem hitem with ⟨pre, post, rfl⟩
    exact ⟨pre, item, post, rfl, hhandler⟩
  · rintro ⟨pre, item, post, rfl, hhandler⟩
    exact ⟨item, by simp, hhandler⟩

namespace TlsStream

variable {s t : TlsStream}

@[simp] theorem map_handler_completionOf (h : Option Handler) (ec : Option Code) :
    (completionOf h ec).map (·.handler) = h.toList := by
  cases h <;> rfl

@[simp] theorem map_handler_markerCompletions (ec : Option Code) (items : List OutItem) :
    (markerCompletions ec items).map (·.handler) = queued items := by
  induction items with
  | nil => rfl
  | cons item items ih =>
      rcases item with ⟨data, _ | h, bytes⟩
      · exact ih
      · exact congrArg (h :: ·) ih

theorem ec_of_mem_markerCompletions {ec : Option Code} {items : List OutItem} {c : Completion}
    (h : c ∈ markerCompletions ec items) : c.ec = ec ∧ c.handler ∈ queued items := by
  constructor
  · rcases List.mem_filterMap.mp h with ⟨item, _, hitem⟩
    rcases Option.map_eq_some_iff.mp hitem with ⟨h, _, rfl⟩
    rfl
  · rw [← map_handler_markerCompletions ec items]
    exact List.mem_map_of_mem h

/-- The part of the state that the writing goes by. -/
def writeView (s : TlsStream) :=
  (s.outQueue, s.error, s.writing, s.closed, s.inFlight, s.emitted, s.submitted, s.written,
    s.accepted, s.completed)

/-- The writing in any state. -/
structure WriteInv (s : TlsStream) : Prop where
  idle : s.writing = false → s.inFlight = []
  busy : s.writing = true → ∃ data, s.inFlight = [data]
  closed_of_error : s.error.isSome → s.closed = true
  written_prefix : s.written ++ s.inFlight <+: s.submitted
  submitted_prefix : s.submitted <+: s.emitted
  order : s.accepted.map (·.1) = s.completed.map (·.handler) ++ queued s.outQueue
  success : ∀ c ∈ s.completed, c.ec = none → ∀ k, (c.handler, k) ∈ s.accepted →
    k ≤ s.written.length

/-- The writing while the stream is open. -/
structure OpenInv (s : TlsStream) : Prop where
  front : s.writing = true → ∃ item rest, s.outQueue = item :: rest ∧ s.inFlight = [item.data] ∧
    item.data ≠ []
  records_only : ∀ item ∈ s.outQueue, item.data ≠ [] → item.handler = none
  submitted_eq : s.submitted = s.written ++ s.inFlight
  emitted_eq : s.emitted = s.written ++ records s.outQueue
  /-- a marker is behind the records that were emitted until its write -/
  placed : ∀ pre item post h k, s.outQueue = pre ++ item :: post → item.handler = some h →
    (h, k) ∈ s.accepted → k = s.written.length + (records pre).length

/-- The invariant of the queue. -/
structure QueueInv (s : TlsStream) : Prop where
  write : WriteInv s
  opened : s.closed = false → OpenInv s

theorem QueueInv.congr (h : QueueInv s) (hview : t.writeView = s.writeView) : QueueInv t := by
  simp only [writeView, Prod.mk.injEq] at hview
  rcases hview with ⟨hqueue, herror, hwriting, hclosed, hflight, hemitted, hsubmitted, hwritten,
    haccepted, hcompleted⟩
  constructor
  · rcases h.write with ⟨h1, h2, h3, h4, h5, h6, h7⟩
    constructor
    · rwa [hwriting, hflight]
    · rwa [hwriting, hflight]
    · rwa [herror, hclosed]
    · rwa [hwritten, hflight, hsubmitted]
    · rwa [hsubmitted, hemitted]
    · rwa [haccepted, hcompleted, hqueue]
    · rwa [hcompleted, haccepted, hwritten]
  · intro hopen
    rcases h.opened (hclosed.symm.trans hopen) with ⟨h1, h2, h3, h4, h5⟩
    constructor
    · rwa [hwriting, hqueue, hflight]
    · rwa [hqueue]
    · rwa [hsubmitted, hwritten, hflight]
    · rwa [hemitted, hwritten, hqueue]
    · rwa [hqueue, haccepted, hwritten]

/-! ## Ending -/

/-- Items leave the queue. -/
theorem WriteInv.endItems (h : WriteInv s) (ec : Option Code) (n : Nat)
    (hsuccess : ec = none → ∀ g ∈ queued (s.outQueue.take n), ∀ k, (g, k) ∈ s.accepted →
      k ≤ s.written.length) : WriteInv (s.endItems ec n) := by
  constructor
  · exact h.idle
  · exact h.busy
  · exact h.closed_of_error
  · exact h.written_prefix
  · exact h.submitted_prefix
  · show s.accepted.map (·.1) =
      (s.completed ++ markerCompletions ec (s.outQueue.take n)).map (·.handler) ++
        queued (s.outQueue.drop n)
    rw [List.map_append, map_handler_markerCompletions, List.append_assoc, ← queued_append,
      List.take_append_drop]
    exact h.order
  · intro c hc hnone k hk
    rcases List.mem_append.mp hc with hc | hc
    · exact h.success c hc hnone k hk
    · rcases ec_of_mem_markerCompletions hc with ⟨hec, hmem⟩
      exact hsuccess (hec.symm.trans hnone) c.handler hmem k hk

theorem WriteInv.closedBy (h : WriteInv s) (hview : t.writeView =
    (s.outQueue, t.error, s.writing, true, s.inFlight, s.emitted, s.submitted, s.written,
      s.accepted, s.completed)) : WriteInv t := by
  simp only [writeView, Prod.mk.injEq] at hview
  rcases hview with ⟨hqueue, _, hwriting, hclosed, hflight, hemitted, hsubmitted, hwritten,
    haccepted, hcompleted⟩
  constructor
  · rw [hwriting, hflight]
    exact h.idle
  · rw [hwriting, hflight]
    exact h.busy
  · exact fun _ => hclosed
  · rw [hwritten, hflight, hsubmitted]
    exact h.written_prefix
  · rw [hsubmitted, hemitted]
    exact h.submitted_prefix
  · rw [haccepted, hcompleted, hqueue]
    exact h.order
  · rw [hcompleted, haccepted, hwritten]
    exact h.success

theorem WriteInv.failPending (h : WriteInv s) (hclosed : s.closed = true) (ec : Code) :
    QueueInv (s.failPending ec) := by
  have hslots : WriteInv ((s.endHandshake (some ec)).endRead (some ec)) :=
    h.closedBy (by rw [writeView, ← hclosed]; rfl)
  have hitems := hslots.endItems (some ec) s.outQueue.length (by simp)
  constructor
  · exact hitems.closedBy (by rw [writeView, ← hclosed]; rfl)
  · intro hopen
    exact absurd (hclosed.symm.trans hopen) (by decide)

/-- An open stream fails, whatever the queue is. -/
theorem WriteInv.fail (h : WriteInv s) (hopen : s.closed = false) (ec : Code) :
    QueueInv (s.fail ec) := by
  have herror : s.error.isSome = false := by
    rw [Bool.eq_false_iff]
    intro hsome
    exact absurd ((h.closed_of_error hsome).symm.trans hopen) (by decide)
  unfold TlsStream.fail
  rw [herror, hopen]
  exact WriteInv.failPending (s := { s with error := some ec, closed := true })
    (h.closedBy rfl) rfl ec

theorem QueueInv.fail (h : QueueInv s) (ec : Code) : QueueInv (s.fail ec) := by
  cases hclosed : s.closed with
  | false => exact h.write.fail hclosed ec
  | true =>
      unfold TlsStream.fail
      rw [hclosed, Bool.or_true]
      exact h

theorem QueueInv.finishShutdown (h : QueueInv s) : QueueInv s.finishShutdown := by
  unfold TlsStream.finishShutdown
  split
  · exact h
  -- `closed_` is set where the peer has closed already
  cases hpeer : s.peerClosed with
  | false =>
      refine h.congr ?_
      simp_all [writeView, endShutdown]
  | true =>
      constructor
      · exact h.write.closedBy rfl
      · intro hopen
        cases hopen

/-! ## Writing -/

theorem take_length_takeWhile (p : OutItem → Bool) (items : List OutItem) :
    items.take (items.takeWhile p).length = items.takeWhile p := by
  have := List.takeWhile_prefix p (l := items)
  exact (List.prefix_iff_eq_take.mp this).symm

/-- The markers at the front of the queue complete. -/
theorem QueueInv.completeWriteMarkers (h : QueueInv s) (hopen : s.closed = false)
    (hidle : s.writing = false) : QueueInv s.completeWriteMarkers := by
  have ho := h.opened hopen
  unfold TlsStream.completeWriteMarkers
  generalize hn : (s.outQueue.takeWhile (·.data.isEmpty)).length = n
  have htake : ∀ item ∈ s.outQueue.take n, item.data = [] := by
    intro item hitem
    rw [← hn, take_length_takeWhile] at hitem
    exact List.isEmpty_iff.mp
      (List.mem_takeWhile_imp (p := fun item : OutItem => item.data.isEmpty) hitem)
  have hrecords : records (s.outQueue.take n) = [] := records_eq_nil htake
  have hsplit : s.outQueue = s.outQueue.take n ++ s.outQueue.drop n :=
    (List.take_append_drop n s.outQueue).symm
  constructor
  · refine h.write.endItems _ _ ?_
    -- no record is before these markers, so what was emitted for them is written
    intro _ g hg k hk
    rcases mem_queued.mp hg with ⟨pre, item, post, heq, hhandler⟩
    have hpre : records pre = [] := by
      refine records_eq_nil fun item hitem => htake item ?_
      rw [heq]
      exact List.mem_append_left _ hitem
    rw [heq, List.append_assoc, List.cons_append] at hsplit
    have := ho.placed pre item _ g k hsplit hhandler hk
    rw [this, hpre]
    exact Nat.le_refl _
  · intro _
    constructor
    · intro hbusy
      exact absurd (hidle.symm.trans hbusy) (by decide)
    · intro item hitem
      exact ho.records_only item (List.mem_of_mem_drop hitem)
    · exact ho.submitted_eq
    · show s.emitted = s.written ++ records (s.outQueue.drop n)
      rw [ho.emitted_eq, hsplit, records_append, hrecords, List.nil_append, ← hsplit]
    · intro pre item post g k heq hhandler hk
      have heq : s.outQueue.drop n = pre ++ item :: post := heq
      rw [heq, ← List.append_assoc] at hsplit
      have := ho.placed _ item post g k hsplit hhandler hk
      rwa [records_append, hrecords] at this

theorem data_ne_nil_of_dropWhile {items : List OutItem} {item : OutItem} {rest : List OutItem}
    (h : items.drop (items.takeWhile (·.data.isEmpty)).length = item :: rest) :
    item.data ≠ [] := by
  induction items with
  | nil => simp at h
  | cons first items ih =>
      cases hdata : first.data.isEmpty with
      | true =>
          simp only [List.takeWhile_cons, hdata] at h
          exact ih h
      | false =>
          simp only [List.takeWhile_cons, hdata] at h
          obtain rfl := (List.cons.inj h).1
          simpa using hdata

/-- The record at the front of the queue goes to the socket. -/
theorem QueueInv.submit (h : QueueInv s) (hopen : s.closed = false) (hidle : s.writing = false)
    {item : OutItem} {rest : List OutItem} (hqueue : s.outQueue = item :: rest)
    (hdata : item.data ≠ []) :
    QueueInv { s with
      writing := true
      inFlight := s.inFlight ++ [item.data]
      submitted := s.submitted ++ [item.data] } := by
  have ho := h.opened hopen
  have hflight := h.write.idle hidle
  have hsubmitted : s.submitted = s.written := by
    rw [ho.submitted_eq, hflight, List.append_nil]
  have hemitted : s.emitted = s.written ++ item.data :: records rest := by
    rw [ho.emitted_eq, hqueue, records_cons_of_ne_nil rest hdata]
  constructor
  · constructor
    · intro hfalse
      cases hfalse
    · intro _
      exact ⟨item.data, by simp only [hflight, List.nil_append]⟩
    · exact h.write.closed_of_error
    · simp only [hflight, hsubmitted, List.nil_append]
      exact List.prefix_rfl
    · simp only [hsubmitted, hemitted]
      rw [List.prefix_append_right_inj]
      exact List.prefix_append [item.data] _
    · exact h.write.order
    · exact h.write.success
  · intro _
    constructor
    · intro _
      exact ⟨item, rest, hqueue, by simp only [hflight, List.nil_append], hdata⟩
    · exact ho.records_only
    · simp only [hflight, hsubmitted, List.nil_append]
    · exact ho.emitted_eq
    · exact ho.placed

theorem QueueInv.startWrite (h : QueueInv s) : QueueInv s.startWrite := by
  unfold TlsStream.startWrite
  split
  · exact h
  next hguard =>
  rw [Bool.or_eq_true, not_or, Bool.not_eq_true, Bool.not_eq_true] at hguard
  have hmarkers := h.completeWriteMarkers hguard.2 hguard.1
  simp only
  split
  · split
    · exact hmarkers.finishShutdown
    · exact hmarkers
  next item rest hqueue =>
  exact hmarkers.submit hguard.2 hguard.1 hqueue (data_ne_nil_of_dropWhile hqueue)

/-- A record joins the queue. -/
theorem QueueInv.onEmit (h : QueueInv s) (data : Octets) : QueueInv (s.onEmit data) := by
  refine QueueInv.startWrite ?_
  have hqueued : queued (s.outQueue ++ [⟨data, none, 0⟩]) = queued s.outQueue := by
    rw [queued_append]
    exact List.append_nil _
  have hprefix : s.emitted <+: if data.isEmpty then s.emitted else s.emitted ++ [data] := by
    split
    · exact List.prefix_rfl
    · exact List.prefix_append _ _
  constructor
  · constructor
    · exact h.write.idle
    · exact h.write.busy
    · exact h.write.closed_of_error
    · exact h.write.written_prefix
    · exact h.write.submitted_prefix.trans hprefix
    · exact h.write.order.trans (congrArg _ hqueued.symm)
    · exact h.write.success
  · intro hopen
    have ho := h.opened hopen
    constructor
    -- the front of the queue stays, as the item joins at the back
    · intro hbusy
      rcases ho.front hbusy with ⟨item, rest, hqueue, hflight, hdata⟩
      exact ⟨item, rest ++ [⟨data, none, 0⟩], by simp [hqueue], hflight, hdata⟩
    · intro item hitem hdata
      rcases List.mem_append.mp hitem with hitem | hitem
      · exact ho.records_only item hitem hdata
      · rw [List.mem_singleton.mp hitem]
    · exact ho.submitted_eq
    · simp only [records_append, ho.emitted_eq]
      cases data with
      | nil => simp [records]
      | cons x data => simp [records]
    · intro pre item post g k heq hhandler hk
      -- the new item has no handler, so that the marker was there before
      rcases List.eq_nil_or_concat post with rfl | ⟨post', last, rfl⟩
      · have hlast := (List.append_inj' heq rfl).2
        rw [List.singleton_inj] at hlast
        rw [← hlast] at hhandler
        cases hhandler
      · rw [List.concat_eq_append, ← List.cons_append, ← List.append_assoc] at heq
        exact ho.placed pre item post' g k (List.append_inj' heq rfl).1 hhandler hk

theorem QueueInv.callback (h : QueueInv s) (c : Callback) : QueueInv (s.callback c) := by
  cases c with
  | emit data => exact h.onEmit data
  | record data => exact h.congr rfl
  | alert a =>
      cases a with
      | closeNotify => exact h.congr rfl
      | fatal => exact h.fail _
      | warning => exact h
  | activated => exact h.congr rfl

theorem QueueInv.callbacks (h : QueueInv s) (cs : List Callback) : QueueInv (s.callbacks cs) := by
  induction cs generalizing s with
  | nil => exact h
  | cons c cs ih => exact ih (h.callback c)

theorem WriteInv.writing_of_inFlight (h : WriteInv s) {data : Octets} {rest : List Octets}
    (hflight : s.inFlight = data :: rest) : s.writing = true := by
  cases hwriting : s.writing with
  | true => rfl
  | false =>
      rw [h.idle hwriting] at hflight
      cases hflight

/-- The item that `on_written` takes off the queue is the record, without a handler. -/
theorem QueueInv.pop_front (h : QueueInv s) (hopen : s.closed = false) {data : Octets}
    {rest : List Octets} (hflight : s.inFlight = data :: rest) :
    ∃ item items, s.outQueue = item :: items ∧ data = item.data ∧ item.data ≠ [] ∧
      queued s.outQueue.tail = queued s.outQueue := by
  have ho := h.opened hopen
  rcases ho.front (h.write.writing_of_inFlight hflight) with ⟨item, items, hqueue, hitem, hdata⟩
  have hhandler : item.handler = none :=
    ho.records_only item (by rw [hqueue]; exact List.mem_cons_self) hdata
  refine ⟨item, items, hqueue, (List.cons.inj (hflight.symm.trans hitem)).1, hdata, ?_⟩
  rw [hqueue, List.tail_cons, queued, queued, List.filterMap_cons_none hhandler]

theorem QueueInv.onWritten (h : QueueInv s) (ec : Option Code) {data : Octets}
    {rest : List Octets} (hflight : s.inFlight = data :: rest) :
    QueueInv (TlsStream.onWritten { s with inFlight := rest } ec data) := by
  obtain rfl : rest = [] := by
    rcases h.write.busy (h.write.writing_of_inFlight hflight) with ⟨data', hdata'⟩
    exact (List.cons.inj (hflight.symm.trans hdata')).2
  have hwritten : s.written ++ [data] <+: s.submitted := hflight ▸ h.write.written_prefix
  have hbase : ∀ queue, queued queue = queued s.outQueue → WriteInv { s with
      outQueue := queue
      inFlight := []
      writing := false
      written := if ec.isSome then s.written else s.written ++ [data] } := by
    intro queue hqueue
    constructor
    · exact fun _ => rfl
    · intro hfalse
      cases hfalse
    · exact h.write.closed_of_error
    · simp only [List.append_nil]
      split
      · exact (List.prefix_append _ _).trans hwritten
      · exact hwritten
    · exact h.write.submitted_prefix
    · exact h.write.order.trans (congrArg _ hqueue.symm)
    · intro c hc hnone k hk
      refine (h.write.success c hc hnone k hk).trans ?_
      simp only
      split
      · exact Nat.le_refl _
      · simp
  unfold TlsStream.onWritten
  simp only
  split
  -- `fail_pending` has cleared the queue while the record was being written
  next hclosed =>
    constructor
    · exact hbase s.outQueue rfl
    · intro hopen
      exact absurd (hclosed.symm.trans hopen) (by decide)
  next hopen =>
  rw [Bool.not_eq_true] at hopen
  have ho := h.opened hopen
  rcases h.pop_front hopen hflight with ⟨item, items, hqueue, rfl, hdata, htail⟩
  cases ec with
  | some ec => exact (hbase s.outQueue.tail htail).fail hopen _
  | none =>
      refine QueueInv.startWrite ⟨hbase s.outQueue.tail htail, fun _ => ?_⟩
      constructor
      · intro hfalse
        cases hfalse
      · intro item hmem
        exact ho.records_only item (List.mem_of_mem_tail hmem)
      · show s.submitted = (s.written ++ [item.data]) ++ []
        rw [ho.submitted_eq, hflight, List.append_nil]
      · show s.emitted = (s.written ++ [item.data]) ++ records s.outQueue.tail
        rw [ho.emitted_eq, hqueue, List.tail_cons, records_cons_of_ne_nil items hdata,
          List.append_assoc]
        rfl
      -- a marker behind the record: one record fewer before it, one more written
      · intro pre marker post g k heq hmarker hk
        have heq : s.outQueue.tail = pre ++ marker :: post := heq
        rw [hqueue, List.tail_cons] at heq
        have := ho.placed (item :: pre) marker post g k (by rw [hqueue, heq]; rfl) hmarker hk
        rw [records_cons_of_ne_nil pre hdata] at this
        show k = (s.written ++ [item.data]).length + (records pre).length
        rw [this, List.length_append, List.length_cons, List.length_singleton]
        omega

/-! ## The calls -/

/-- The marker of an accepted write joins the queue. -/
theorem QueueInv.accept (h : QueueInv s) {g : Handler} (size : Nat)
    (hnew : ∀ p ∈ s.accepted, p.1 ≠ g) :
    QueueInv { s with
      outQueue := s.outQueue ++ [⟨[], some g, size⟩]
      accepted := s.accepted ++ [(g, s.emitted.length)] } := by
  have hqueued : queued (s.outQueue ++ [⟨[], some g, size⟩]) = queued s.outQueue ++ [g] := by
    rw [queued_append]
    rfl
  have hold : ∀ c k, (c, k) ∈ s.accepted ++ [(g, s.emitted.length)] → c ≠ g →
      (c, k) ∈ s.accepted := by
    intro c k hk hne
    rcases List.mem_append.mp hk with hk | hk
    · exact hk
    · rw [List.mem_singleton, Prod.mk.injEq] at hk
      exact absurd hk.1 hne
  have hhandlers : ∀ c ∈ s.completed.map (·.handler) ++ queued s.outQueue, c ≠ g := by
    rw [← h.write.order]
    intro c hc
    rcases List.mem_map.mp hc with ⟨p, hp, rfl⟩
    exact hnew p hp
  constructor
  · constructor
    · exact h.write.idle
    · exact h.write.busy
    · exact h.write.closed_of_error
    · exact h.write.written_prefix
    · exact h.write.submitted_prefix
    · simp only [List.map_append, hqueued, h.write.order]
      rw [List.append_assoc]
      rfl
    -- the new handler has no completion yet
    · intro c hc hnone k hk
      have hne : c.handler ≠ g :=
        hhandlers _ (List.mem_append_left _ (List.mem_map_of_mem hc))
      exact h.write.success c hc hnone k (hold _ k hk hne)
  · intro hopen
    have ho := h.opened hopen
    constructor
    · intro hbusy
      rcases ho.front hbusy with ⟨item, rest, hqueue, hflight, hdata⟩
      exact ⟨item, rest ++ [⟨[], some g, size⟩], by simp [hqueue], hflight, hdata⟩
    · intro item hitem hdata
      rcases List.mem_append.mp hitem with hitem | hitem
      · exact ho.records_only item hitem hdata
      · rw [List.mem_singleton.mp hitem] at hdata
        exact absurd rfl hdata
    · exact ho.submitted_eq
    · simp only [records_append, ho.emitted_eq]
      simp [records]
    · intro pre item post c k heq hhandler hk
      rcases List.eq_nil_or_concat post with rfl | ⟨post', last, rfl⟩
      · -- the marker itself: all that was emitted is before it
        have hsplit := List.append_inj' heq rfl
        rw [List.singleton_inj] at hsplit
        rw [← hsplit.2] at hhandler
        obtain rfl : g = c := Option.some.inj hhandler
        rcases List.mem_append.mp hk with hk | hk
        · exact absurd rfl (hnew _ hk)
        · rw [List.mem_singleton, Prod.mk.injEq] at hk
          rw [hk.2, ho.emitted_eq, hsplit.1, List.length_append]
      · rw [List.concat_eq_append, ← List.cons_append, ← List.append_assoc] at heq
        have hqueue := (List.append_inj' heq rfl).1
        have hmem : c ∈ queued s.outQueue := mem_queued.mpr ⟨pre, item, post', hqueue, hhandler⟩
        have hne : c ≠ g := hhandlers c (List.mem_append_right _ hmem)
        exact ho.placed pre item post' c k hqueue hhandler (hold c k hk hne)

theorem writeView_startRead : s.startRead.writeView = s.writeView := by
  unfold startRead
  split <;> rfl

theorem QueueInv.runFrame (h : QueueInv s) (f : Frame) : QueueInv (s.runFrame f) := by
  cases f with
  | startRead => exact h.congr writeView_startRead
  | finishShutdown => exact h.finishShutdown

theorem writeView_deliverTo (g : Handler) : (s.deliverTo g).writeView = s.writeView := by
  unfold deliverTo compactPlainIn
  simp only
  split
  · split
    · rfl
    · split <;> rfl
  · rfl

theorem QueueInv.deliverRead (h : QueueInv s) (f : Frame) : QueueInv (s.deliverRead f) := by
  unfold TlsStream.deliverRead
  split
  · exact h.runFrame f
  · split
    · exact h.congr (writeView_deliverTo _)
    · exact h.runFrame f

theorem QueueInv.onRead (h : QueueInv s) (ec : Option Code) (call : ChannelCall) :
    QueueInv (s.onRead ec call) := by
  have hstart : QueueInv { s with reading := false } := h.congr rfl
  unfold TlsStream.onRead
  simp only
  split
  · exact hstart
  cases ec with
  | some ec =>
      simp only
      split
      · have hpeer : QueueInv { s with reading := false, peerClosed := true } := h.congr rfl
        exact hpeer.deliverRead .finishShutdown
      · exact hstart.fail _
  | none =>
      simp only
      split
      · exact (hstart.callbacks call.callbacks).fail _
      · exact (hstart.callbacks call.callbacks).deliverRead .startRead

theorem QueueInv.asyncHandshake (h : QueueInv s) (call : ChannelCall) :
    QueueInv (s.asyncHandshake call) := by
  unfold TlsStream.asyncHandshake doHandshake
  simp only
  split
  · exact h.congr rfl
  have hstart : QueueInv { s with calls := s.calls + 1, handshake := some s.calls } := h.congr rfl
  split
  · exact (hstart.callbacks call.callbacks).fail _
  · exact (hstart.callbacks call.callbacks).congr writeView_startRead

theorem QueueInv.asyncReadSome (h : QueueInv s) (size : Nat) :
    QueueInv (s.asyncReadSome size) := by
  unfold TlsStream.asyncReadSome
  simp only
  split
  · exact h.congr rfl
  split
  · exact h.congr rfl
  have hstart : QueueInv { s with
    calls := s.calls + 1, pendingBuffer := size, pendingRead := some s.calls } := h.congr rfl
  exact hstart.deliverRead .startRead

theorem QueueInv.closeChannel (h : QueueInv s) (call : Option ChannelCall) :
    QueueInv (s.closeChannel call) := by
  unfold TlsStream.closeChannel
  split
  · exact h
  · split
    · exact h.callbacks _
    · exact h

theorem QueueInv.asyncShutdown (h : QueueInv s) (call : Option ChannelCall) :
    QueueInv (s.asyncShutdown call) := by
  unfold TlsStream.asyncShutdown
  simp only
  split
  · exact h.congr rfl
  refine QueueInv.startWrite (QueueInv.closeChannel ?_ call)
  exact h.congr rfl

theorem QueueInv.close (h : QueueInv s) : QueueInv s.close := by
  unfold TlsStream.close
  split
  · exact h
  · exact WriteInv.failPending (s := { s with closed := true }) (h.write.closedBy rfl) rfl _

end TlsStream

end Securepath.Network
