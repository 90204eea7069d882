import Securepath.Network.TlsStreamHandlers

/-!
# The end of a TLS stream

A closed stream holds no handler, and none that it was given before
`async_shutdown` is invoked behind the handler of the shutdown. This holds of the
runs in which no shutdown begins during the handshake: `finish_shutdown` does not
know of the handler of the handshake.
-/

namespace Securepath.Network

open Serialisation

namespace TlsStream

variable {s t u : TlsStream}

/-- How the handlers are completed. -/
structure Completes (s : TlsStream) : Prop where
  at_most_once : s.finished.Nodup
  none_stranded : s.closed = true →
    s.handshake = none ∧ s.pendingRead = none ∧ s.shutdown = none ∧ queued s.outQueue = []
  shutdown_last : ∀ sd, s.shutdownCall = some sd →
    s.finished.Pairwise fun a b => a = sd → sd < b

/-- No shutdown begins while the handler of the handshake waits, and no handshake
once a shutdown has begun; sending reports no fatal alert, unless it throws. -/
def Orderly : Action → TlsStream → Prop
  | .asyncHandshake _, s => s.closing = true → s.channel = true ∨ s.closed = true
  | .asyncShutdown _, s => s.handshake = none ∨ s.closing = true ∨ s.closed = true
  | .asyncWrite _ call, _ => call.throws = true ∨ .alert .fatal ∉ call.callbacks
  | _, _ => True

/-! ## The shutdown -/

structure ShutdownInv (s : TlsStream) : Prop where
  once : ∀ h, s.load h ≤ 1
  closing_empty : s.closing = true → s.handshake = none ∧ s.pendingRead = none
  open_call : s.closing = false → s.shutdownCall = none
  shutdown_call : s.shutdown = none ∨ s.shutdown = s.shutdownCall
  ended : s.closing = true → s.shutdown = none → queued s.outQueue = []
  ordered : s.finished.Pairwise fun a b => s.shutdownCall = some a → a < b

theorem ShutdownInv.call_of_shutdown (h : ShutdownInv s) {sd : Handler}
    (hshutdown : s.shutdown = some sd) : s.shutdownCall = some sd := by
  rcases h.shutdown_call with hnone | hsome
  · cases hshutdown.symm.trans hnone
  · exact hsome.symm.trans hshutdown

/-- The handler of a shutdown that has not ended is not finished. -/
theorem not_finished_of_shutdown (honce : ∀ h, s.load h ≤ 1) {sd : Handler}
    (hshutdown : s.shutdown = some sd) : sd ∉ s.finished := by
  intro hfinished
  have hstored : sd ∈ s.stored := by simp [stored, hshutdown]
  have hone := List.count_pos_iff.mpr hstored
  have htwo := List.count_pos_iff.mpr hfinished
  have hload := honce sd
  unfold load at hload
  omega

theorem ordered_of_shutdown (honce : ∀ h, s.load h ≤ 1) {sd : Handler}
    (hshutdown : s.shutdown = some sd) (hcall : s.shutdownCall = some sd) :
    s.finished.Pairwise fun a b => s.shutdownCall = some a → a < b := by
  refine List.pairwise_iff_forall_sublist.mpr ?_
  intro a b hsub ha
  have hmem : a ∈ s.finished := hsub.subset (by simp)
  obtain rfl := Option.some.inj (hcall.symm.trans ha)
  exact absurd hmem (not_finished_of_shutdown honce hshutdown)

theorem ordered_of_none (hcall : s.shutdownCall = none) (hs : List Handler) :
    hs.Pairwise fun a b => s.shutdownCall = some a → a < b := by
  refine List.pairwise_of_forall ?_
  intro a b ha
  cases hcall.symm.trans ha

/-- Where nothing is stored, nothing more is finished. -/
theorem finished_eq_of_stored (hq : Quiet s t) (hread : s.pendingRead = none)
    (hstored : s.stored = []) : t.finished = s.finished := by
  rcases hq.finished_prefix hread with ⟨ends, hends⟩
  have hnil : ends = [] := by
    rw [List.eq_nil_iff_forall_not_mem]
    intro g hg
    have hload := hq.load_eq g
    unfold load at hload
    rw [← hends, hstored, List.count_append, List.count_nil] at hload
    have := List.count_pos_iff.mpr hg
    omega
  rw [← hends, hnil, List.append_nil]

theorem ShutdownInv.quiet (h : ShutdownInv s) (hq : Quiet s t) (hshutdown : t.shutdown = s.shutdown)
    (hqueue : queued s.outQueue = [] → queued t.outQueue = []) : ShutdownInv t := by
  have honce : ∀ g, t.load g ≤ 1 := fun g => (hq.load_eq g).trans_le (h.once g)
  constructor
  · exact honce
  · intro hclosing
    rcases h.closing_empty (hq.closing_eq.symm.trans hclosing) with ⟨hhandshake, hread⟩
    exact ⟨Quiet.slot_none hq.handshake hhandshake, Quiet.slot_none hq.pendingRead hread⟩
  · intro hclosing
    rw [hq.shutdownCall_eq]
    exact h.open_call (hq.closing_eq.symm.trans hclosing)
  · rw [hshutdown, hq.shutdownCall_eq]
    exact h.shutdown_call
  · intro hclosing hnone
    exact hqueue (h.ended (hq.closing_eq.symm.trans hclosing) (hshutdown.symm.trans hnone))
  · cases hclosing : s.closing with
    | false => exact ordered_of_none (hq.shutdownCall_eq.trans (h.open_call hclosing)) _
    | true =>
        rcases h.closing_empty hclosing with ⟨hhandshake, hread⟩
        cases hcall : s.shutdown with
        | none =>
            have hstored : s.stored = [] := by
              simp [stored, hhandshake, hread, hcall, h.ended hclosing hcall]
            rw [finished_eq_of_stored hq hread hstored, hq.shutdownCall_eq]
            exact h.ordered
        | some sd =>
            have hsd := h.call_of_shutdown hcall
            exact ordered_of_shutdown honce (hshutdown.trans hcall) (hq.shutdownCall_eq.trans hsd)

/-- The handler of the shutdown ends behind all others. -/
theorem ShutdownInv.endShutdown (h : ShutdownInv s) (hqueue : queued s.outQueue = [])
    (ec : Option Code) : ShutdownInv (s.endShutdown ec) := by
  have hq := Quiet.endShutdown s ec
  cases hcall : s.shutdown with
  | none => exact h.quiet hq (by rw [hcall]; rfl) id
  | some sd =>
      have hsd := h.call_of_shutdown hcall
      have hfinished : (s.endShutdown ec).finished = s.finished ++ [sd] := by
        simp [finished, TlsStream.endShutdown, hcall]
      constructor
      · exact fun g => (hq.load_eq g).trans_le (h.once g)
      · exact h.closing_empty
      · exact h.open_call
      · exact Or.inl rfl
      · exact fun _ _ => hqueue
      · rw [hfinished, List.pairwise_append]
        refine ⟨ordered_of_shutdown h.once hcall hsd, List.pairwise_singleton _ _, ?_⟩
        intro a ha b _ haCall
        obtain rfl := Option.some.inj (hsd.symm.trans haCall)
        exact absurd ha (not_finished_of_shutdown h.once hcall)

/-! ## A closed stream -/

structure SettledInv (s : TlsStream) : Prop where
  shutdown : ShutdownInv s
  none_stranded : s.closed = true →
    s.handshake = none ∧ s.pendingRead = none ∧ s.shutdown = none ∧ queued s.outQueue = []

theorem SettledInv.quiet (h : SettledInv s) (hq : Quiet s t) (hshutdown : t.shutdown = s.shutdown)
    (hclosed : t.closed = s.closed) (hqueue : queued s.outQueue = [] → queued t.outQueue = []) :
    SettledInv t := by
  constructor
  · exact h.shutdown.quiet hq hshutdown hqueue
  · intro ht
    rcases h.none_stranded (hclosed.symm.trans ht) with ⟨h1, h2, h3, h4⟩
    exact ⟨Quiet.slot_none hq.handshake h1, Quiet.slot_none hq.pendingRead h2,
      hshutdown.trans h3, hqueue h4⟩

theorem ShutdownInv.failPending (h : ShutdownInv s) (ec : Code) :
    SettledInv (s.failPending ec) := by
  have hslots : ShutdownInv ((s.endHandshake (some ec)).endRead (some ec)) :=
    h.quiet ((Quiet.endHandshake s _).trans (Quiet.endRead _ _)) rfl id
  have hempty : queued (((s.endHandshake (some ec)).endRead (some ec)).endItems (some ec)
      s.outQueue.length).outQueue = [] := by
    show queued (s.outQueue.drop s.outQueue.length) = []
    rw [List.drop_length]
    rfl
  have hitems := hslots.quiet (Quiet.endItems _ (some ec) s.outQueue.length) rfl fun _ => hempty
  exact ⟨hitems.endShutdown hempty _, fun _ => ⟨rfl, rfl, rfl, hempty⟩⟩

theorem SettledInv.fail (h : SettledInv s) (ec : Code) : SettledInv (s.fail ec) := by
  unfold TlsStream.fail
  split
  · exact h
  · have hclosed : Quiet s { s with error := some ec, closed := true } :=
      Quiet.of_view rfl nofun id
    exact (h.shutdown.quiet hclosed rfl id).failPending ec

theorem SettledInv.finishShutdown (h : SettledInv s) : SettledInv s.finishShutdown := by
  unfold TlsStream.finishShutdown
  split
  · exact h
  next hguard =>
  simp only [Bool.or_eq_true, not_or, Bool.not_eq_true, Bool.not_eq_false', decide_eq_true_eq,
    not_not] at hguard
  rcases hguard with ⟨⟨⟨hclosing, _⟩, hqueue⟩, hopen⟩
  rcases h.shutdown.closing_empty hclosing with ⟨hhandshake, hread⟩
  have hclosed : Quiet s { s with closed := s.peerClosed } := Quiet.of_view rfl (fun _ => hopen) id
  have hempty : queued s.outQueue = [] := by
    rw [hqueue]
    rfl
  constructor
  · exact (h.shutdown.quiet hclosed rfl id).endShutdown hempty none
  · exact fun _ => ⟨hhandshake, hread, rfl, hempty⟩

theorem SettledInv.startWrite (h : SettledInv s) : SettledInv s.startWrite := by
  unfold TlsStream.startWrite
  split
  · exact h
  have hmarkers : SettledInv s.completeWriteMarkers := by
    refine h.quiet (Quiet.completeWriteMarkers s) rfl rfl ?_
    intro hempty
    refine List.eq_nil_of_sublist_nil ?_
    rw [← hempty]
    exact (List.drop_sublist _ s.outQueue).filterMap _
  simp only
  split
  · split
    · exact hmarkers.finishShutdown
    · exact hmarkers
  · exact hmarkers.quiet (Quiet.of_view rfl id id) rfl rfl id

theorem SettledInv.callback (h : SettledInv s) (c : Callback) : SettledInv (s.callback c) := by
  cases c with
  | emit data =>
      have hqueue : queued (s.outQueue ++ [⟨data, none, 0⟩]) = queued s.outQueue := by
        rw [queued_append]
        exact List.append_nil _
      have hemit : SettledInv { s with
          outQueue := s.outQueue ++ [⟨data, none, 0⟩]
          emitted := if data.isEmpty then s.emitted else s.emitted ++ [data] } := by
        refine h.quiet (Quiet.of_view ?_ id id) rfl rfl hqueue.trans
        simp only [Quiet.view, hqueue]
      exact hemit.startWrite
  | record data => exact h.quiet (Quiet.of_view rfl id id) rfl rfl id
  | alert a =>
      cases a with
      | closeNotify => exact h.quiet (Quiet.of_view rfl id id) rfl rfl id
      | fatal => exact h.fail _
      | warning => exact h
  | activated => exact h.quiet (Quiet.callback s .activated) rfl rfl id

theorem SettledInv.callbacks (h : SettledInv s) (cs : List Callback) :
    SettledInv (s.callbacks cs) := by
  induction cs generalizing s with
  | nil => exact h
  | cons c cs ih => exact ih (h.callback c)

theorem SettledInv.startRead (h : SettledInv s) : SettledInv s.startRead := by
  unfold TlsStream.startRead
  split
  · exact h
  · exact h.quiet (Quiet.of_view rfl id id) rfl rfl id

theorem SettledInv.runFrame (h : SettledInv s) (f : Frame) : SettledInv (s.runFrame f) := by
  cases f with
  | startRead => exact h.startRead
  | finishShutdown => exact h.finishShutdown

theorem SettledInv.deliverRead (h : SettledInv s) (f : Frame) : SettledInv (s.deliverRead f) := by
  unfold TlsStream.deliverRead
  split
  · exact h.runFrame f
  next c hread =>
  split
  · have hslots : ((s.deliverTo c).shutdown, (s.deliverTo c).closed, (s.deliverTo c).outQueue) =
        (s.shutdown, s.closed, s.outQueue) := by
      unfold deliverTo compactPlainIn
      simp only
      split
      · split
        · rfl
        · split <;> rfl
      · rfl
    simp only [Prod.mk.injEq] at hslots
    rcases hslots with ⟨hshutdown, hclosed, hqueue⟩
    have hdeliver := h.quiet (Quiet.deliverTo hread) hshutdown hclosed (by rw [hqueue]; exact id)
    exact hdeliver.quiet (Quiet.of_view rfl id id) rfl rfl id
  · exact h.runFrame f

theorem SettledInv.onRead (h : SettledInv s) (ec : Option Code) (call : ChannelCall) :
    SettledInv (s.onRead ec call) := by
  have hstart : SettledInv { s with reading := false } :=
    h.quiet (Quiet.of_view rfl id id) rfl rfl id
  unfold TlsStream.onRead
  simp only
  split
  · exact hstart
  cases ec with
  | some ec =>
      simp only
      split
      · have hpeer : SettledInv { s with reading := false, peerClosed := true } :=
          h.quiet (Quiet.of_view rfl id id) rfl rfl id
        exact hpeer.deliverRead .finishShutdown
      · exact hstart.fail _
  | none =>
      simp only
      split
      · exact (hstart.callbacks call.callbacks).fail _
      · exact (hstart.callbacks call.callbacks).deliverRead .startRead

theorem SettledInv.closeChannel (h : SettledInv s) (call : Option ChannelCall) :
    SettledInv (s.closeChannel call) := by
  unfold TlsStream.closeChannel
  split
  · exact h
  · split
    · exact h.callbacks _
    · exact h

theorem SettledInv.close (h : SettledInv s) : SettledInv s.close := by
  unfold TlsStream.close
  split
  · exact h
  · have hclosed : Quiet s { s with closed := true } := Quiet.of_view rfl nofun id
    exact (h.shutdown.quiet hclosed rfl id).failPending _

theorem SettledInv.onWritten (h : SettledInv s) (hqueue : QueueInv s) (ec : Option Code)
    {data : Octets} {rest : List Octets} (hflight : s.inFlight = data :: rest) :
    SettledInv (TlsStream.onWritten { s with inFlight := rest } ec data) := by
  unfold TlsStream.onWritten
  simp only
  split
  · exact h.quiet (Quiet.of_view rfl id id) rfl rfl id
  next hopen =>
  rw [Bool.not_eq_true] at hopen
  rcases hqueue.pop_front hopen hflight with ⟨_, _, _, _, _, htail⟩
  have hpop : SettledInv { s with
      inFlight := rest
      writing := false
      written := if ec.isSome then s.written else s.written ++ [data]
      outQueue := s.outQueue.tail } := by
    refine h.quiet (Quiet.of_view ?_ id id) rfl rfl htail.trans
    simp only [Quiet.view, htail]
  cases ec with
  | some ec => exact hpop.fail _
  | none => exact hpop.startWrite

/-! ## The calls -/

/-- While the stream is open and no shutdown has begun, there is nothing to check. -/
theorem settledInv_of_open (honce : ∀ h, s.load h ≤ 1) (hclosing : s.closing = false)
    (hclosed : s.closed = false) (hcall : s.shutdownCall = none) (hshutdown : s.shutdown = none) :
    SettledInv s := by
  constructor
  · constructor
    · exact honce
    · exact fun htrue => absurd (hclosing.symm.trans htrue) (by decide)
    · exact fun _ => hcall
    · exact Or.inl hshutdown
    · exact fun htrue => absurd (hclosing.symm.trans htrue) (by decide)
    · exact ordered_of_none hcall _
  · exact fun htrue => absurd (hclosed.symm.trans htrue) (by decide)

theorem HandlerInv.once (h : HandlerInv s) (g : Handler) : s.load g ≤ 1 := by
  rw [h.load_eq g]
  split <;> omega

/-- The handler that the stream is given next is not there yet. -/
theorem HandlerInv.once_given (h : HandlerInv s) {g : Handler}
    (hload : t.load g = s.load g + [s.calls].count g) : t.load g ≤ 1 := by
  rw [hload, load_succ (h.load_eq g)]
  split <;> omega

/-- A handler that is given and posted at once. -/
theorem SettledInv.reject (h : SettledInv s) (hinv : HandlerInv s) (ec : Option Code) :
    SettledInv (post { s with calls := s.calls + 1 } s.calls ec 0) := by
  have hfinished : (post { s with calls := s.calls + 1 } s.calls ec 0).finished =
      s.finished ++ [s.calls] := by
    simp [finished, post]
  constructor
  · constructor
    · exact (hinv.reject ec).once
    · exact h.shutdown.closing_empty
    · exact h.shutdown.open_call
    · exact h.shutdown.shutdown_call
    · exact h.shutdown.ended
    · rw [hfinished, List.pairwise_append]
      refine ⟨h.shutdown.ordered, List.pairwise_singleton _ _, ?_⟩
      intro a ha b hb _
      rw [List.mem_singleton.mp hb]
      -- what is finished was given before
      have hload := hinv.load_eq a
      have := List.count_pos_iff.mpr ha
      unfold load at hload
      split at hload
      next hlt => exact hlt
      next => omega
  · exact h.none_stranded

theorem SettledInv.asyncHandshake (h : SettledInv s) (hinv : HandlerInv s) (call : ChannelCall)
    (hgood : Orderly (.asyncHandshake call) s) : SettledInv (s.asyncHandshake call) := by
  unfold TlsStream.asyncHandshake
  simp only
  split
  · exact h.reject hinv _
  next hguard =>
  rw [Bool.or_eq_true, not_or, Bool.not_eq_true, Bool.not_eq_true] at hguard
  have hclosing : s.closing = false := by
    rw [Bool.eq_false_iff]
    intro hclosing
    rcases hgood hclosing with hchannel | hclosed
    · exact absurd (hguard.1.symm.trans hchannel) (by decide)
    · exact absurd (hguard.2.symm.trans hclosed) (by decide)
  -- before the handshake no other handler is in its slot
  have hnone := hinv.handshake_channel hguard.1 hguard.2
  have hstart : SettledInv { s with calls := s.calls + 1, handshake := some s.calls } := by
    refine settledInv_of_open ?_ hclosing hguard.2 (h.shutdown.open_call hclosing)
      (hinv.shutdown_closing hclosing)
    intro g
    exact hinv.once_given (load_handshake hnone g)
  have hcallbacks := hstart.callbacks call.callbacks
  unfold doHandshake
  simp only
  split
  · exact hcallbacks.fail _
  · have hchannel := hcallbacks.quiet (t := { TlsStream.callbacks { s with
        calls := s.calls + 1, handshake := some s.calls } call.callbacks with channel := true })
      (Quiet.of_view rfl id nofun) rfl rfl id
    exact hchannel.startRead

theorem SettledInv.asyncReadSome (h : SettledInv s) (hinv : HandlerInv s) (size : Nat) :
    SettledInv (s.asyncReadSome size) := by
  unfold TlsStream.asyncReadSome
  simp only
  split
  · exact h.reject hinv _
  next hpending =>
  split
  · exact h.reject hinv _
  next hguard =>
  have hnone : s.pendingRead = none := by simpa using hpending
  rw [Bool.or_eq_true, not_or, Bool.not_eq_true, Bool.not_eq_true] at hguard
  refine SettledInv.deliverRead ?_ .startRead
  refine settledInv_of_open ?_ hguard.2 hguard.1 (h.shutdown.open_call hguard.2)
    (hinv.shutdown_closing hguard.2)
  intro g
  exact hinv.once_given (load_read hnone size g)

/-- Without a shutdown, writing does not close the stream. -/
theorem closed_startWrite (hclosing : s.closing = false) : s.startWrite.closed = s.closed := by
  unfold startWrite
  split
  · rfl
  simp only
  split
  · split
    next htrue => exact absurd (hclosing.symm.trans htrue) (by decide)
    next => rfl
  · rfl

theorem closed_callbacks (hclosing : s.closing = false) {cs : List Callback}
    (hfatal : .alert .fatal ∉ cs) : (s.callbacks cs).closed = s.closed := by
  induction cs generalizing s with
  | nil => rfl
  | cons c cs ih =>
      rw [List.mem_cons, not_or] at hfatal
      have hrest := ih (s := s.callback c) ((Quiet.callback s c).closing_eq.trans hclosing) hfatal.2
      refine hrest.trans ?_
      cases c with
      | emit data => exact closed_startWrite hclosing
      | record data => rfl
      | alert a =>
          cases a with
          | closeNotify => rfl
          | fatal => exact absurd rfl hfatal.1
          | warning => rfl
      | activated => rfl

theorem SettledInv.asyncWrite (h : SettledInv s) (hinv : HandlerInv s) (size : Nat)
    (call : ChannelCall) (hgood : Orderly (.asyncWrite size call) s) :
    SettledInv (s.asyncWrite size call) := by
  have honce := (hinv.asyncWrite size call).once
  unfold TlsStream.asyncWrite at honce ⊢
  simp only at honce ⊢
  split
  · exact h.reject hinv _
  next hguard =>
  rw [if_neg hguard] at honce
  simp only [Bool.or_eq_true, not_or, Bool.not_eq_true] at hguard
  rcases hguard with ⟨⟨⟨_, hopen⟩, hclosing⟩, _⟩
  have hcall := h.shutdown.open_call hclosing
  have hstart : SettledInv { s with calls := s.calls + 1 } :=
    settledInv_of_open h.shutdown.once hclosing hopen hcall (hinv.shutdown_closing hclosing)
  have hcallbacks := hstart.callbacks call.callbacks
  have hq := Quiet.callbacks { s with calls := s.calls + 1 } call.callbacks
  have hclosed : .alert .fatal ∉ call.callbacks →
      (TlsStream.callbacks { s with calls := s.calls + 1 } call.callbacks).closed = false :=
    fun hfatal =>
      (closed_callbacks (s := { s with calls := s.calls + 1 }) hclosing hfatal).trans hopen
  generalize TlsStream.callbacks { s with calls := s.calls + 1 } call.callbacks = u at *
  split
  next hthrows =>
    -- `fail` closes the stream before the handler is posted
    rw [if_pos hthrows] at honce
    have hfail := hcallbacks.fail .tlsFailure
    have hfailq := hq.trans (Quiet.fail u .tlsFailure)
    have hclosingFail := hfailq.closing_eq.trans hclosing
    constructor
    · constructor
      · exact honce
      · exact fun htrue => absurd (hclosingFail.symm.trans htrue) (by decide)
      · exact hfail.shutdown.open_call
      · exact hfail.shutdown.shutdown_call
      · exact hfail.shutdown.ended
      · exact ordered_of_none (hfailq.shutdownCall_eq.trans hcall) _
    · exact hfail.none_stranded
  next hthrows =>
    have hfatal : .alert .fatal ∉ call.callbacks := hgood.resolve_left hthrows
    refine SettledInv.startWrite (settledInv_of_open ?_ (hq.closing_eq.trans hclosing)
      (hclosed hfatal) (hq.shutdownCall_eq.trans hcall)
      (Quiet.slot_none hq.shutdown (hinv.shutdown_closing hclosing)))
    intro g
    refine hinv.once_given ?_
    rw [load_accept, hq.load_eq g]
    rfl

theorem SettledInv.asyncShutdown (h : SettledInv s) (hinv : HandlerInv s)
    (call : Option ChannelCall) (hgood : Orderly (.asyncShutdown call) s) :
    SettledInv (s.asyncShutdown call) := by
  unfold TlsStream.asyncShutdown
  simp only
  split
  · exact h.reject hinv _
  next hguard =>
  simp only [Bool.or_eq_true, not_or, Bool.not_eq_true] at hguard
  rcases hguard with ⟨⟨hopen, hclosing⟩, _⟩
  have hhandshake : s.handshake = none := by
    rcases hgood with hnone | htrue | htrue
    · exact hnone
    · exact absurd (hclosing.symm.trans htrue) (by decide)
    · exact absurd (hopen.symm.trans htrue) (by decide)
  have hnone := hinv.shutdown_closing hclosing
  generalize hu : ({ s with
    calls := s.calls + 1, closing := true, shutdown := some s.calls
    shutdownCall := some s.calls } : TlsStream) = u
  have honce : ∀ g, (u.endRead (some .connectionClosed)).load g ≤ 1 := by
    intro g
    refine hinv.once_given ?_
    rw [(Quiet.endRead u _).load_eq, ← hu]
    exact load_shutdown hnone g
  have hread : SettledInv (u.endRead (some .connectionClosed)) := by
    subst hu
    constructor
    · constructor
      · exact honce
      · exact fun _ => ⟨hhandshake, rfl⟩
      · intro hfalse
        cases hfalse
      · exact Or.inr rfl
      · intro _ hfalse
        cases hfalse
      · exact ordered_of_shutdown honce rfl rfl
    · exact fun htrue => absurd (hopen.symm.trans htrue) (by decide)
  exact (hread.closeChannel call).startWrite

theorem SettledInv.step {a : Action} (h : SettledInv s) (hinv : HandlerInv s)
    (hgood : Orderly a s) (hstep : step a s = some t) : SettledInv t := by
  cases a with
  | asyncHandshake call =>
      obtain rfl := Option.some.inj hstep
      exact h.asyncHandshake hinv call hgood
  | asyncReadSome size =>
      obtain rfl := Option.some.inj hstep
      exact h.asyncReadSome hinv size
  | asyncWrite size call =>
      obtain rfl := Option.some.inj hstep
      exact h.asyncWrite hinv size call hgood
  | asyncShutdown call =>
      obtain rfl := Option.some.inj hstep
      exact h.asyncShutdown hinv call hgood
  | close =>
      obtain rfl := Option.some.inj hstep
      exact h.close
  | onRead ec call =>
      simp only [TlsStream.step, Option.ite_none_right_eq_some, Option.some.injEq] at hstep
      rcases hstep with ⟨_, rfl⟩
      exact h.onRead ec call
  | onWritten ec =>
      rcases onWritten_of_step hstep with ⟨data, rest, _, hflight, rfl⟩
      exact h.onWritten hinv.queue ec hflight
  | returns =>
      rcases returns_of_step hstep with ⟨f, fs, _, rfl⟩
      have hframe : SettledInv { s with frames := fs } :=
        h.quiet (Quiet.of_view rfl id id) rfl rfl id
      exact hframe.runFrame f
  | invoke =>
      rcases invoke_of_step hstep with ⟨c, cs, _, hposted, rfl⟩
      refine h.quiet (Quiet.of_view ?_ id id) rfl rfl id
      simp [Quiet.view, hposted]

/-- Orderly runs complete every handler once, strand none, and end with the handler
of the shutdown. -/
theorem handlers_complete {as : List Action} (hgood : Machine.EachStep step Orderly as init)
    (hrun : Machine.run step as init = some s) : Completes s := by
  have hinit : SettledInv init :=
    settledInv_of_open (fun _ => Nat.zero_le 1) rfl rfl rfl rfl
  have h := @Machine.invariant _ _ step Orderly (fun s => HandlerInv s ∧ SettledInv s)
    (fun _ _ _ hgood hinv hstep => ⟨hinv.1.step hstep, hinv.2.step hinv.1 hgood hstep⟩)
    as init s hgood ⟨handlerInv_init, hinit⟩ hrun
  constructor
  · exact nodup_finished h.1
  · exact h.2.none_stranded
  · intro sd hsd
    refine h.2.shutdown.ordered.imp ?_
    rintro a b hlt rfl
    exact hlt hsd

/-- A handshake, and a shutdown behind it. -/
def orderlyRun : List Action := [
  .asyncHandshake ⟨[.emit [1]], false⟩,
  .onRead none ⟨[.activated], false⟩,
  .asyncShutdown (some ⟨[.emit [2]], false⟩),
  .onWritten none, .onWritten none, .invoke, .invoke]

theorem handlers_complete_orderlyRun :
    ∃ s, Machine.run step orderlyRun init = some s ∧ Completes s ∧
      s.finished = [0, 1] ∧ s.shutdownCall = some 1 := by
  have hrun : Machine.run step orderlyRun init = some _ := rfl
  have hgood : Machine.EachStep step Orderly orderlyRun init := by
    refine Machine.EachStep.cons nofun rfl ?_
    refine Machine.EachStep.cons trivial rfl ?_
    refine Machine.EachStep.cons (Or.inl rfl) rfl ?_
    refine Machine.EachStep.cons trivial rfl ?_
    refine Machine.EachStep.cons trivial rfl ?_
    refine Machine.EachStep.cons trivial rfl ?_
    exact Machine.EachStep.cons trivial rfl trivial
  exact ⟨_, hrun, handlers_complete hgood hrun, by decide, by decide⟩

/-- A shutdown during the handshake, which the peer ends. -/
def shutdownInHandshake : List Action := [
  .asyncHandshake ⟨[.emit [1]], false⟩,
  .onWritten none,
  .asyncShutdown (some ⟨[.emit [2]], false⟩),
  .onWritten none,
  .onRead (some .eof) ⟨[], false⟩]

/-- The stream is closed, and the handler of the handshake is never invoked. -/
theorem handshake_stranded :
    ¬ ∀ (as : List Action) (s : TlsStream), Machine.run step as init = some s → Completes s := by
  intro h
  have hrun : Machine.run step shutdownInHandshake init = some _ := rfl
  have hhandshake := ((h _ _ hrun).none_stranded rfl).1
  cases hhandshake

end TlsStream

end Securepath.Network
