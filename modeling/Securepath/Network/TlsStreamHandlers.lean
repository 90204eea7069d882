import Mathlib.Data.List.Count
import Mathlib.Data.List.Nodup
import Securepath.Network.TlsStreamQueue

/-!
# The handlers of a TLS stream

Every handler that the stream was given is in one place: a slot, a marker of the
queue, the strand, or invoked. What ends handlers moves them behind the others of
the strand; only a read may be invoked before them.
-/

namespace Securepath.Network

open Serialisation

namespace TlsStream

variable {s t u : TlsStream}

/-- The handlers that wait for something. -/
def stored (s : TlsStream) : List Handler :=
  s.handshake.toList ++ s.pendingRead.toList ++ queued s.outQueue ++ s.shutdown.toList

/-- The handlers that were invoked, and behind them those that the strand has to run. -/
def finished (s : TlsStream) : List Handler := (s.invoked ++ s.posted).map (·.handler)

/-- How often the stream has a handler. -/
def load (s : TlsStream) (h : Handler) : Nat := s.stored.count h + s.finished.count h

/-! ## Ending handlers -/

/-- What may happen to the handlers as long as the stream is given no new one. -/
structure Quiet (s t : TlsStream) : Prop where
  load_eq : ∀ h, t.load h = s.load h
  calls_eq : t.calls = s.calls
  closing_eq : t.closing = s.closing
  shutdownCall_eq : t.shutdownCall = s.shutdownCall
  accepted_eq : t.accepted = s.accepted
  closed : t.closed = false → s.closed = false
  channel : t.channel = false → s.channel = false
  /-- only a read is invoked before the handlers of the strand -/
  finished_prefix : s.pendingRead = none → s.finished <+: t.finished
  handshake : t.handshake = s.handshake ∨ t.handshake = none
  pendingRead : t.pendingRead = s.pendingRead ∨ t.pendingRead = none
  shutdown : t.shutdown = s.shutdown ∨ t.shutdown = none
  in_order : s.completed.Sublist (s.invoked ++ s.posted) →
    t.completed.Sublist (t.invoked ++ t.posted)

namespace Quiet

/-- A slot that is kept or emptied twice. -/
theorem slot_trans {a b c : Option Handler} (hab : b = a ∨ b = none) (hbc : c = b ∨ c = none) :
    c = a ∨ c = none := by
  rcases hbc with rfl | rfl
  · exact hab
  · exact Or.inr rfl

theorem slot_none {a b : Option Handler} (hab : b = a ∨ b = none) (ha : a = none) : b = none := by
  rcases hab with rfl | rfl
  · exact ha
  · rfl

theorem trans (hst : Quiet s t) (htu : Quiet t u) : Quiet s u where
  load_eq h := (htu.load_eq h).trans (hst.load_eq h)
  calls_eq := htu.calls_eq.trans hst.calls_eq
  closing_eq := htu.closing_eq.trans hst.closing_eq
  shutdownCall_eq := htu.shutdownCall_eq.trans hst.shutdownCall_eq
  accepted_eq := htu.accepted_eq.trans hst.accepted_eq
  closed h := hst.closed (htu.closed h)
  channel h := hst.channel (htu.channel h)
  finished_prefix h :=
    (hst.finished_prefix h).trans (htu.finished_prefix (slot_none hst.pendingRead h))
  handshake := slot_trans hst.handshake htu.handshake
  pendingRead := slot_trans hst.pendingRead htu.pendingRead
  shutdown := slot_trans hst.shutdown htu.shutdown
  in_order h := htu.in_order (hst.in_order h)

/-- The part of the state that holds handlers. -/
def view (s : TlsStream) :=
  (s.handshake, s.pendingRead, queued s.outQueue, s.shutdown, s.invoked ++ s.posted, s.completed,
    s.calls, s.closing, s.shutdownCall, s.accepted)

theorem of_view (hview : view t = view s) (hclosed : t.closed = false → s.closed = false)
    (hchannel : t.channel = false → s.channel = false) : Quiet s t := by
  simp only [view, Prod.mk.injEq] at hview
  rcases hview with ⟨hhandshake, hread, hqueue, hshutdown, hstrand, hcompleted, hcalls, hclosing,
    hcall, haccepted⟩
  have hfinished : t.finished = s.finished := congrArg (List.map _) hstrand
  constructor
  · intro h
    rw [load, load, stored, stored, hhandshake, hread, hqueue, hshutdown, hfinished]
  · exact hcalls
  · exact hclosing
  · exact hcall
  · exact haccepted
  · exact hclosed
  · exact hchannel
  · intro _
    rw [hfinished]
  · exact Or.inl hhandshake
  · exact Or.inl hread
  · exact Or.inl hshutdown
  · rw [hcompleted, hstrand]
    exact id

theorem refl (s : TlsStream) : Quiet s s := of_view rfl id id

/-- Handlers go from where they were stored behind those of the strand. -/
theorem of_ends {ends : List Completion} (hposted : t.posted = s.posted ++ ends)
    (hcompleted : t.completed = s.completed ∨ t.completed = s.completed ++ ends)
    (hstored : ∀ h, t.stored.count h + (ends.map (·.handler)).count h = s.stored.count h)
    (hrest : (t.invoked, t.calls, t.closing, t.shutdownCall, t.accepted, t.closed, t.channel) =
      (s.invoked, s.calls, s.closing, s.shutdownCall, s.accepted, s.closed, s.channel))
    (hhandshake : t.handshake = s.handshake ∨ t.handshake = none)
    (hread : t.pendingRead = s.pendingRead ∨ t.pendingRead = none)
    (hshutdown : t.shutdown = s.shutdown ∨ t.shutdown = none) : Quiet s t := by
  simp only [Prod.mk.injEq] at hrest
  rcases hrest with ⟨hinvoked, hcalls, hclosing, hcall, haccepted, hclosed, hchannel⟩
  have hstrand : t.invoked ++ t.posted = (s.invoked ++ s.posted) ++ ends := by
    rw [hinvoked, hposted, List.append_assoc]
  have hfinished : t.finished = s.finished ++ ends.map (·.handler) := by
    rw [finished, hstrand, List.map_append, finished]
  constructor
  · intro h
    rw [load, load, hfinished, List.count_append, ← hstored h]
    omega
  · exact hcalls
  · exact hclosing
  · exact hcall
  · exact haccepted
  · exact fun h => hclosed.symm.trans h
  · exact fun h => hchannel.symm.trans h
  · intro _
    rw [hfinished]
    exact List.prefix_append _ _
  · exact hhandshake
  · exact hread
  · exact hshutdown
  · intro h
    rw [hstrand]
    rcases hcompleted with hcompleted | hcompleted
    · rw [hcompleted]
      exact h.trans (List.sublist_append_left _ _)
    · rw [hcompleted]
      exact h.append (List.Sublist.refl _)

theorem endHandshake (s : TlsStream) (ec : Option Code) : Quiet s (s.endHandshake ec) := by
  refine of_ends (t := s.endHandshake ec) rfl (Or.inl rfl) ?_ rfl (Or.inr rfl)
    (Or.inl rfl) (Or.inl rfl)
  intro h
  simp only [stored, TlsStream.endHandshake, map_handler_completionOf, Option.toList_none,
    List.count_append, List.count_nil]
  omega

theorem endRead (s : TlsStream) (ec : Option Code) : Quiet s (s.endRead ec) := by
  refine of_ends (t := s.endRead ec) rfl (Or.inl rfl) ?_ rfl (Or.inl rfl)
    (Or.inr rfl) (Or.inl rfl)
  intro h
  simp only [stored, TlsStream.endRead, map_handler_completionOf, Option.toList_none,
    List.count_append, List.count_nil]
  omega

theorem endShutdown (s : TlsStream) (ec : Option Code) : Quiet s (s.endShutdown ec) := by
  refine of_ends (t := s.endShutdown ec) rfl (Or.inl rfl) ?_ rfl (Or.inl rfl)
    (Or.inl rfl) (Or.inr rfl)
  intro h
  simp only [stored, TlsStream.endShutdown, map_handler_completionOf, Option.toList_none,
    List.count_append, List.count_nil]
  omega

theorem endItems (s : TlsStream) (ec : Option Code) (n : Nat) : Quiet s (s.endItems ec n) := by
  refine of_ends (t := s.endItems ec n) rfl (Or.inr rfl) ?_ rfl
    (Or.inl rfl) (Or.inl rfl) (Or.inl rfl)
  intro h
  have hqueue : queued s.outQueue = queued (s.outQueue.take n) ++ queued (s.outQueue.drop n) := by
    rw [← queued_append, List.take_append_drop]
  simp only [stored, hqueue, TlsStream.endItems, map_handler_markerCompletions, List.count_append]
  omega

theorem finishShutdown (s : TlsStream) : Quiet s s.finishShutdown := by
  unfold TlsStream.finishShutdown
  split
  · exact refl s
  next hguard =>
  simp only [Bool.or_eq_true, not_or, Bool.not_eq_true] at hguard
  have hclosed : Quiet s { s with closed := s.peerClosed } := of_view rfl (fun _ => hguard.2) id
  exact hclosed.trans (endShutdown _ none)

theorem failPending (s : TlsStream) (ec : Code) : Quiet s (s.failPending ec) :=
  (endHandshake s _).trans ((endRead _ _).trans ((endItems _ _ _).trans (endShutdown _ _)))

theorem fail (s : TlsStream) (ec : Code) : Quiet s (s.fail ec) := by
  unfold TlsStream.fail
  split
  · exact refl s
  · have hclosed : Quiet s { s with error := some ec, closed := true } := of_view rfl nofun id
    exact hclosed.trans (failPending _ ec)

theorem completeWriteMarkers (s : TlsStream) : Quiet s s.completeWriteMarkers := endItems s _ _

theorem startWrite (s : TlsStream) : Quiet s s.startWrite := by
  unfold TlsStream.startWrite
  split
  · exact refl s
  refine (completeWriteMarkers s).trans ?_
  simp only
  split
  · split
    · exact finishShutdown _
    · exact refl _
  · exact of_view rfl id id

theorem callback (s : TlsStream) (c : Callback) : Quiet s (s.callback c) := by
  cases c with
  | emit data =>
      have hqueue : Quiet s { s with
          outQueue := s.outQueue ++ [⟨data, none, 0⟩]
          emitted := if data.isEmpty then s.emitted else s.emitted ++ [data] } := by
        refine of_view ?_ id id
        simp [view, queued]
      exact hqueue.trans (startWrite _)
  | record data => exact of_view rfl id id
  | alert a =>
      cases a with
      | closeNotify => exact of_view rfl id id
      | fatal => exact fail s _
      | warning => exact refl s
  | activated =>
      have hactivated : Quiet s { s with activated := true } := of_view rfl id id
      exact hactivated.trans (endHandshake _ none)

theorem callbacks (s : TlsStream) (cs : List Callback) : Quiet s (s.callbacks cs) := by
  induction cs generalizing s with
  | nil => exact refl s
  | cons c cs ih => exact (callback s c).trans (ih (s.callback c))

theorem startRead (s : TlsStream) : Quiet s s.startRead := by
  unfold TlsStream.startRead
  split
  · exact refl s
  · exact of_view rfl id id

theorem runFrame (s : TlsStream) (f : Frame) : Quiet s (s.runFrame f) := by
  cases f with
  | startRead => exact startRead s
  | finishShutdown => exact finishShutdown s

theorem closeChannel (s : TlsStream) (call : Option ChannelCall) :
    Quiet s (s.closeChannel call) := by
  unfold TlsStream.closeChannel
  split
  · exact refl s
  · split
    · exact callbacks s _
    · exact refl s

/-- The handler of a read is invoked. -/
theorem invokeRead {h : Handler} (hread : s.pendingRead = some h) (c : Completion)
    (hc : c.handler = h) :
    Quiet s { s with pendingRead := none, invoked := s.invoked ++ [c] } := by
  constructor
  · intro g
    simp only [load, stored, finished, hread, List.map_append, List.map_cons, List.map_nil, hc,
      List.count_append, Option.toList_some, Option.toList_none, List.count_nil]
    omega
  · rfl
  · rfl
  · rfl
  · rfl
  · exact id
  · exact id
  · intro hnone
    cases hread.symm.trans hnone
  · exact Or.inl rfl
  · exact Or.inr rfl
  · exact Or.inl rfl
  · intro h
    refine h.trans ?_
    rw [List.append_assoc]
    exact (List.Sublist.refl _).append (List.sublist_append_right _ _)

theorem deliverTo {h : Handler} (hread : s.pendingRead = some h) : Quiet s (s.deliverTo h) := by
  unfold TlsStream.deliverTo compactPlainIn
  simp only
  split
  · split
    · exact (invokeRead hread ⟨h, none, _⟩ rfl).trans (of_view rfl id id)
    · split
      · exact (invokeRead hread ⟨h, none, _⟩ rfl).trans (of_view rfl id id)
      · exact (invokeRead hread ⟨h, none, _⟩ rfl).trans (of_view rfl id id)
  · exact (invokeRead hread ⟨h, _, 0⟩ rfl).trans (of_view rfl id id)

theorem deliverRead (s : TlsStream) (f : Frame) : Quiet s (s.deliverRead f) := by
  unfold TlsStream.deliverRead
  split
  · exact runFrame s f
  next h hread =>
  split
  · exact (deliverTo hread).trans (of_view rfl id id)
  · exact runFrame s f

theorem onRead (s : TlsStream) (ec : Option Code) (call : ChannelCall) :
    Quiet s (s.onRead ec call) := by
  have hstart : Quiet s { s with reading := false } := of_view rfl id id
  unfold TlsStream.onRead
  simp only
  split
  · exact hstart
  cases ec with
  | some ec =>
      simp only
      split
      · have hpeer : Quiet s { s with reading := false, peerClosed := true } := of_view rfl id id
        exact hpeer.trans (deliverRead _ _)
      · exact hstart.trans (fail _ _)
  | none =>
      simp only
      split
      · exact hstart.trans ((callbacks _ _).trans (fail _ _))
      · exact hstart.trans ((callbacks _ _).trans (deliverRead _ _))

theorem onWritten (h : QueueInv s) (ec : Option Code) {data : Octets} {rest : List Octets}
    (hflight : s.inFlight = data :: rest) :
    Quiet s (TlsStream.onWritten { s with inFlight := rest } ec data) := by
  unfold TlsStream.onWritten
  simp only
  split
  · exact of_view rfl id id
  next hopen =>
  rw [Bool.not_eq_true] at hopen
  rcases h.pop_front hopen hflight with ⟨_, _, _, _, _, htail⟩
  have hpop : Quiet s { s with
      inFlight := rest
      writing := false
      written := if ec.isSome then s.written else s.written ++ [data]
      outQueue := s.outQueue.tail } := by
    refine of_view ?_ id id
    simp only [view, htail]
  cases ec with
  | some ec => exact hpop.trans (fail _ _)
  | none => exact hpop.trans (startWrite _)

theorem close (s : TlsStream) : Quiet s s.close := by
  unfold TlsStream.close
  split
  · exact refl s
  · have hclosed : Quiet s { s with closed := true } := of_view rfl nofun id
    exact hclosed.trans (failPending _ _)

end Quiet

/-! ## Every run -/

/-- Every handler that the stream was given is stored or finished, once. -/
structure HandlerInv (s : TlsStream) : Prop where
  queue : QueueInv s
  load_eq : ∀ h, s.load h = if h < s.calls then 1 else 0
  handshake_channel : s.channel = false → s.closed = false → s.handshake = none
  shutdown_closing : s.closing = false → s.shutdown = none
  accepted_lt : ∀ p ∈ s.accepted, p.1 < s.calls
  increasing : (s.accepted.map (·.1)).Pairwise (· < ·)
  in_order : s.completed.Sublist (s.invoked ++ s.posted)

theorem HandlerInv.quiet (h : HandlerInv s) (hq : Quiet s t) (hqueue : QueueInv t) :
    HandlerInv t := by
  constructor
  · exact hqueue
  · intro g
    rw [hq.load_eq, hq.calls_eq]
    exact h.load_eq g
  · intro hchannel hclosed
    exact Quiet.slot_none hq.handshake
      (h.handshake_channel (hq.channel hchannel) (hq.closed hclosed))
  · intro hclosing
    exact Quiet.slot_none hq.shutdown (h.shutdown_closing (hq.closing_eq.symm.trans hclosing))
  · rw [hq.accepted_eq, hq.calls_eq]
    exact h.accepted_lt
  · rw [hq.accepted_eq]
    exact h.increasing
  · exact hq.in_order h.in_order

/-- The load when the next handler is given. -/
theorem load_succ {g n load : Nat} (h : load = if g < n then 1 else 0) :
    load + [n].count g = if g < n + 1 then 1 else 0 := by
  rw [h, List.count_singleton]
  split_ifs <;> simp_all <;> omega

/-- A handler that is given goes into a slot that is free. -/
theorem load_handshake (hnone : s.handshake = none) (g : Handler) :
    load { s with calls := s.calls + 1, handshake := some s.calls } g =
      s.load g + [s.calls].count g := by
  simp only [load, stored, finished, hnone, Option.toList_some, Option.toList_none,
    List.count_append, List.count_nil]
  omega

theorem load_read (hnone : s.pendingRead = none) (size : Nat) (g : Handler) :
    load { s with calls := s.calls + 1, pendingBuffer := size, pendingRead := some s.calls } g =
      s.load g + [s.calls].count g := by
  simp only [load, stored, finished, hnone, Option.toList_some, Option.toList_none,
    List.count_append, List.count_nil]
  omega

theorem load_shutdown (hnone : s.shutdown = none) (g : Handler) :
    load { s with
      calls := s.calls + 1, closing := true, shutdown := some s.calls
      shutdownCall := some s.calls } g = s.load g + [s.calls].count g := by
  simp only [load, stored, finished, hnone, Option.toList_some, Option.toList_none,
    List.count_append, List.count_nil]
  omega

theorem load_post (s : TlsStream) (h g : Handler) (ec : Option Code) (bytes : Nat) :
    (s.post h ec bytes).load g = s.load g + [h].count g := by
  simp only [load, finished, post, ← List.append_assoc, List.map_append, List.map_cons,
    List.map_nil, List.count_append]
  have hstored : (s.post h ec bytes).stored = s.stored := rfl
  rw [← post, hstored]
  omega

/-- The stream is given the next handler, and goes on quietly. -/
theorem HandlerInv.given (h : HandlerInv s) (hload : ∀ g, u.load g = s.load g + [s.calls].count g)
    (hcalls : u.calls = s.calls + 1) (haccepted : u.accepted = s.accepted)
    (horder : u.completed.Sublist (u.invoked ++ u.posted)) (hq : Quiet u t) (hqueue : QueueInv t)
    (hhandshake : t.channel = false → t.closed = false → t.handshake = none)
    (hshutdown : t.closing = false → t.shutdown = none) : HandlerInv t := by
  constructor
  · exact hqueue
  · intro g
    rw [hq.load_eq, hq.calls_eq, hload, hcalls]
    exact load_succ (h.load_eq g)
  · exact hhandshake
  · exact hshutdown
  · rw [hq.accepted_eq, hq.calls_eq, haccepted, hcalls]
    intro p hp
    exact Nat.lt_succ_of_lt (h.accepted_lt p hp)
  · rw [hq.accepted_eq, haccepted]
    exact h.increasing
  · exact hq.in_order horder

/-- A posted handler goes behind the others. -/
theorem in_order_post (h : s.completed.Sublist (s.invoked ++ s.posted)) (c : Completion) :
    s.completed.Sublist (s.invoked ++ (s.posted ++ [c])) := by
  rw [← List.append_assoc]
  exact h.trans (List.sublist_append_left _ _)

theorem HandlerInv.reject (h : HandlerInv s) (ec : Option Code) :
    HandlerInv (post { s with calls := s.calls + 1 } s.calls ec 0) := by
  refine h.given (load_post { s with calls := s.calls + 1 } s.calls · ec 0) rfl rfl
    (in_order_post h.in_order _) (Quiet.refl _) ?_ h.handshake_channel h.shutdown_closing
  exact h.queue.congr rfl

/-- Behind `fail` the stream is closed. -/
theorem closed_fail (h : QueueInv s) (ec : Code) : (s.fail ec).closed = true := by
  unfold fail
  split
  next hguard =>
    rw [Bool.or_eq_true] at hguard
    exact hguard.elim h.write.closed_of_error id
  next => rfl

theorem HandlerInv.asyncHandshake (h : HandlerInv s) (call : ChannelCall) :
    HandlerInv (s.asyncHandshake call) := by
  have hqueue := h.queue.asyncHandshake call
  unfold TlsStream.asyncHandshake at hqueue ⊢
  simp only at hqueue ⊢
  split
  · exact h.reject _
  next hguard =>
  rw [if_neg hguard] at hqueue
  rw [Bool.or_eq_true, not_or, Bool.not_eq_true, Bool.not_eq_true] at hguard
  have hnone := h.handshake_channel hguard.1 hguard.2
  generalize hu : ({ s with calls := s.calls + 1, handshake := some s.calls } : TlsStream) = u
    at hqueue ⊢
  have hload : ∀ g, u.load g = s.load g + [s.calls].count g := by
    rw [← hu]
    exact load_handshake hnone
  have horder : u.completed.Sublist (u.invoked ++ u.posted) := by
    rw [← hu]
    exact h.in_order
  have hq : Quiet u (u.callbacks call.callbacks) := Quiet.callbacks u _
  have hqueueU : QueueInv u := by
    rw [← hu]
    exact h.queue.congr rfl
  have hshutdown : ∀ t, Quiet u t → t.closing = false → t.shutdown = none := by
    intro t hq hclosing
    refine Quiet.slot_none hq.shutdown ?_
    have := hq.closing_eq.symm.trans hclosing
    rw [← hu] at this ⊢
    exact h.shutdown_closing this
  unfold doHandshake at hqueue ⊢
  simp only at hqueue ⊢
  split at hqueue
  next hthrows =>
    rw [if_pos hthrows]
    have hq := hq.trans (Quiet.fail _ .handshakeFailed)
    refine h.given hload (by rw [← hu]) (by rw [← hu]) horder hq hqueue ?_ (hshutdown _ hq)
    -- without a channel the stream is closed, so the slot need not be free
    intro _ hopen
    have hclosed := closed_fail (hqueueU.callbacks call.callbacks) .handshakeFailed
    exact absurd (hclosed.symm.trans hopen) (by decide)
  next hthrows =>
    rw [if_neg hthrows]
    have hchannel : Quiet (u.callbacks call.callbacks)
        { u.callbacks call.callbacks with channel := true } := Quiet.of_view rfl id nofun
    have hread := Quiet.startRead { u.callbacks call.callbacks with channel := true }
    have hq := hq.trans (hchannel.trans hread)
    refine h.given hload (by rw [← hu]) (by rw [← hu]) horder hq hqueue ?_ (hshutdown _ hq)
    intro hfalse
    cases hread.channel hfalse

theorem HandlerInv.asyncReadSome (h : HandlerInv s) (size : Nat) :
    HandlerInv (s.asyncReadSome size) := by
  have hqueue := h.queue.asyncReadSome size
  unfold TlsStream.asyncReadSome at hqueue ⊢
  simp only at hqueue ⊢
  split
  · exact h.reject _
  next hpending =>
  rw [if_neg hpending] at hqueue
  split
  · exact h.reject _
  next hguard =>
  rw [if_neg hguard] at hqueue
  have hnone : s.pendingRead = none := by simpa using hpending
  have hq := Quiet.deliverRead { s with
    calls := s.calls + 1, pendingBuffer := size, pendingRead := some s.calls } .startRead
  refine h.given (u := { s with
    calls := s.calls + 1, pendingBuffer := size, pendingRead := some s.calls }) ?_ rfl rfl
    h.in_order hq hqueue ?_ ?_
  · exact load_read hnone size
  · intro hchannel hclosed
    exact Quiet.slot_none hq.handshake
      (h.handshake_channel (hq.channel hchannel) (hq.closed hclosed))
  · intro hclosing
    exact Quiet.slot_none hq.shutdown (h.shutdown_closing (hq.closing_eq.symm.trans hclosing))

theorem HandlerInv.asyncShutdown (h : HandlerInv s) (call : Option ChannelCall) :
    HandlerInv (s.asyncShutdown call) := by
  have hqueue := h.queue.asyncShutdown call
  unfold TlsStream.asyncShutdown at hqueue ⊢
  simp only at hqueue ⊢
  split
  · exact h.reject _
  next hguard =>
  rw [if_neg hguard] at hqueue
  simp only [Bool.or_eq_true, not_or, Bool.not_eq_true] at hguard
  have hnone := h.shutdown_closing hguard.1.2
  have hq := (Quiet.endRead { s with
      calls := s.calls + 1, closing := true, shutdown := some s.calls
      shutdownCall := some s.calls } (some .connectionClosed)).trans
    ((Quiet.closeChannel _ call).trans (Quiet.startWrite _))
  refine h.given (u := { s with
    calls := s.calls + 1, closing := true, shutdown := some s.calls
    shutdownCall := some s.calls }) ?_ rfl rfl h.in_order hq hqueue ?_ ?_
  · exact load_shutdown hnone
  · intro hchannel hclosed
    exact Quiet.slot_none hq.handshake
      (h.handshake_channel (hq.channel hchannel) (hq.closed hclosed))
  · intro hclosing
    cases hq.closing_eq.symm.trans hclosing

/-- The marker of an accepted write. -/
theorem load_accept (s : TlsStream) (h g : Handler) (size : Nat)
    (accepted : List (Handler × Nat)) :
    load { s with outQueue := s.outQueue ++ [⟨[], some h, size⟩], accepted := accepted } g =
      s.load g + [h].count g := by
  have hqueued : queued (s.outQueue ++ [⟨[], some h, size⟩]) = queued s.outQueue ++ [h] := by
    rw [queued_append]
    rfl
  simp only [load, stored, finished, hqueued, List.count_append]
  omega

theorem HandlerInv.asyncWrite (h : HandlerInv s) (size : Nat) (call : ChannelCall) :
    HandlerInv (s.asyncWrite size call) := by
  unfold TlsStream.asyncWrite
  simp only
  split
  · exact h.reject _
  have hstart : QueueInv { s with calls := s.calls + 1 } := h.queue.congr rfl
  have hqueue := hstart.callbacks call.callbacks
  have hq := Quiet.callbacks { s with calls := s.calls + 1 } call.callbacks
  generalize callbacks { s with calls := s.calls + 1 } call.callbacks = u at hqueue hq
  have hload : ∀ t, Quiet { s with calls := s.calls + 1 } t → ∀ g, t.load g = s.load g :=
    fun t hq g => hq.load_eq g
  have hhandshake : ∀ t, Quiet { s with calls := s.calls + 1 } t → t.channel = false →
      t.closed = false → t.handshake = none := fun t hq hchannel hclosed =>
    Quiet.slot_none hq.handshake (h.handshake_channel (hq.channel hchannel) (hq.closed hclosed))
  have hshutdown : ∀ t, Quiet { s with calls := s.calls + 1 } t → t.closing = false →
      t.shutdown = none := fun t hq hclosing =>
    Quiet.slot_none hq.shutdown (h.shutdown_closing (hq.closing_eq.symm.trans hclosing))
  split
  -- `send` threw: the handler is posted with the error of the stream, and never queued
  · have hfail := hq.trans (Quiet.fail u .tlsFailure)
    refine h.given (u := (u.fail .tlsFailure).post s.calls (u.fail .tlsFailure).error 0) ?_
      hfail.calls_eq hfail.accepted_eq (in_order_post (hfail.in_order h.in_order) _)
      (Quiet.refl _) ?_ ?_ ?_
    · intro g
      rw [load_post, hload _ hfail]
    · exact (hqueue.fail .tlsFailure).congr rfl
    · exact hhandshake (u.fail .tlsFailure) hfail
    · exact hshutdown (u.fail .tlsFailure) hfail
  -- the marker goes behind the records that `send` emitted
  · have hwrite := Quiet.startWrite { u with
      outQueue := u.outQueue ++ [⟨[], some s.calls, size⟩]
      accepted := u.accepted ++ [(s.calls, u.emitted.length)] }
    have hnew : ∀ p ∈ u.accepted, p.1 < s.calls := by
      rw [hq.accepted_eq]
      exact h.accepted_lt
    constructor
    · exact (hqueue.accept size fun p hp => (hnew p hp).ne).startWrite
    · intro g
      rw [hwrite.load_eq, hwrite.calls_eq, load_accept, hload u hq g]
      show _ = if g < u.calls then 1 else 0
      rw [hq.calls_eq]
      exact load_succ (h.load_eq g)
    · intro hchannel hclosed
      exact Quiet.slot_none hwrite.handshake
        (hhandshake u hq (hwrite.channel hchannel) (hwrite.closed hclosed))
    · intro hclosing
      exact Quiet.slot_none hwrite.shutdown
        (hshutdown u hq (hwrite.closing_eq.symm.trans hclosing))
    · rw [hwrite.accepted_eq, hwrite.calls_eq]
      show ∀ p ∈ u.accepted ++ [(s.calls, u.emitted.length)], p.1 < u.calls
      rw [hq.calls_eq]
      intro p hp
      rcases List.mem_append.mp hp with hp | hp
      · exact Nat.lt_succ_of_lt (hnew p hp)
      · rw [List.mem_singleton.mp hp]
        exact Nat.lt_succ_self _
    · rw [hwrite.accepted_eq]
      show ((u.accepted ++ [(s.calls, u.emitted.length)]).map (·.1)).Pairwise (· < ·)
      rw [List.map_append, List.pairwise_append]
      refine ⟨?_, List.pairwise_singleton _ _, ?_⟩
      · rw [hq.accepted_eq]
        exact h.increasing
      · intro g hg g' hg'
        rcases List.mem_map.mp hg with ⟨p, hp, rfl⟩
        rw [List.map_singleton, List.mem_singleton] at hg'
        rw [hg']
        exact hnew p hp
    · exact hwrite.in_order (hq.in_order h.in_order)

theorem HandlerInv.step {a : Action} (h : HandlerInv s) (hstep : step a s = some t) :
    HandlerInv t := by
  cases a with
  | asyncHandshake call =>
      obtain rfl := Option.some.inj hstep
      exact h.asyncHandshake call
  | asyncReadSome size =>
      obtain rfl := Option.some.inj hstep
      exact h.asyncReadSome size
  | asyncWrite size call =>
      obtain rfl := Option.some.inj hstep
      exact h.asyncWrite size call
  | asyncShutdown call =>
      obtain rfl := Option.some.inj hstep
      exact h.asyncShutdown call
  | close =>
      obtain rfl := Option.some.inj hstep
      exact h.quiet (Quiet.close s) h.queue.close
  | onRead ec call =>
      simp only [TlsStream.step, Option.ite_none_right_eq_some, Option.some.injEq] at hstep
      rcases hstep with ⟨_, rfl⟩
      exact h.quiet (Quiet.onRead s ec call) (h.queue.onRead ec call)
  | onWritten ec =>
      rcases onWritten_of_step hstep with ⟨data, rest, _, hflight, rfl⟩
      exact h.quiet (Quiet.onWritten h.queue ec hflight) (h.queue.onWritten ec hflight)
  | returns =>
      rcases returns_of_step hstep with ⟨f, fs, _, rfl⟩
      have hframe : Quiet s { s with frames := fs } := Quiet.of_view rfl id id
      have hqueue : QueueInv { s with frames := fs } := h.queue.congr rfl
      exact h.quiet (hframe.trans (Quiet.runFrame _ f)) (hqueue.runFrame f)
  | invoke =>
      rcases invoke_of_step hstep with ⟨c, cs, _, hposted, rfl⟩
      refine h.quiet (Quiet.of_view ?_ id id) (h.queue.congr rfl)
      simp [Quiet.view, hposted]

theorem handlerInv_init : HandlerInv init := by
  constructor
  · constructor
    · constructor <;> simp [init, queued]
    · intro _
      constructor <;> simp [init, records]
  · intro h
    rfl
  · exact fun _ _ => rfl
  · exact fun _ => rfl
  · intro p hp
    cases hp
  · exact List.Pairwise.nil
  · exact List.Sublist.slnil

theorem handlerInv_of_run {as : List Action} (hrun : Machine.run step as init = some s) :
    HandlerInv s :=
  Machine.invariant_of_forall (fun _ _ _ (_ : True) hinv hstep => hinv.step hstep)
    (fun _ _ => trivial) handlerInv_init hrun

theorem nodup_finished (h : HandlerInv s) : s.finished.Nodup := by
  rw [List.nodup_iff_count_le_one]
  intro g
  have hload := h.load_eq g
  unfold load at hload
  split at hload <;> omega

end TlsStream

end Securepath.Network
