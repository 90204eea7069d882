import Securepath.Network.Framing

/-!
# The send queue of an encrypted connection

`send`, `do_send` and `become_connected` of `encrypted_connection_impl`
(`network/encryption/detail/encrypted_connection_impl.cpp`), cut where a thread
holds the mutex or tests `is_connected_`. `send` runs on any thread, what is else
here on the strand, one function after the other.
-/

namespace Securepath.Network

open Serialisation

/-- What the strand is about to do. -/
inductive Strand where
  | idle
  /-- `become_connected` has set `is_connected_` and has still to call `do_send` -/
  | connecting
  /-- `do_send` has released the mutex and has still to call `async_send_frame` -/
  | submitting (payload : Octets)
  /-- the handler of the frame has started, and has still to reset `writing_` -/
  | completing (payload : Octets) (ok : Bool)
  /-- and has reset it: what is left is `do_send`, or the disconnect -/
  | completed (ok : Bool)
deriving DecidableEq, Repr

/-- The frame that is taken off the queue and not submitted yet. -/
def Strand.taken : Strand → List Octets
  | .submitting payload => [payload]
  | _ => []

/-- The frame whose handler is running, up to the mutex. -/
def Strand.handled : Strand → List Octets
  | .completing payload _ => [payload]
  | _ => []

structure SendQueue where
  outQueue : List Octets
  isConnected : Bool
  disconnected : Bool
  writing : Bool
  /-- the calls of `send` that have still to test `is_connected_` -/
  sending : Nat
  /-- the posted calls of `do_send` -/
  posted : Nat
  strand : Strand
  /-- the frames whose handler has not been invoked -/
  outstanding : List Octets
  /-- all that was sent, that was given to `async_send_frame`, and that this has
  given to the stream -/
  enqueued : List Octets
  submitted : List Octets
  streamed : List Octets

namespace SendQueue

def init : SendQueue where
  outQueue := []
  isConnected := false
  disconnected := false
  writing := false
  sending := 0
  posted := 0
  strand := .idle
  outstanding := []
  enqueued := []
  submitted := []
  streamed := []

variable (s : SendQueue)

/-- `do_send` with the mutex. -/
def doSend : SendQueue :=
  match s.outQueue with
  | [] => { s with strand := .idle }
  | payload :: rest =>
      if s.writing || !s.isConnected then { s with strand := .idle }
      else { s with writing := true, outQueue := rest, strand := .submitting payload }

/-- `async_send_frame`: a payload over the cap completes with an error. -/
def asyncSendFrame (payload : Octets) : SendQueue :=
  { s with
    outstanding := s.outstanding ++ [payload]
    submitted := s.submitted ++ [payload]
    streamed := if maxFrameSize < payload.length then s.streamed else s.streamed ++ [payload] }

/-- What `disconnect_with` does here. -/
def disconnect : SendQueue := { s with isConnected := false, disconnected := true }

end SendQueue

inductive SendAction where
  | push (payload : Octets)
  | testConnected
  | becomeConnected
  /-- `become_connected` calls `do_send` -/
  | drain
  | runPosted
  | submit
  /-- the handler of a frame is invoked, resets `writing_`, and goes on -/
  | invoke (ok : Bool)
  | resetWriting
  | finish
  | disconnect
deriving DecidableEq, Repr

/-- A connection that has disconnected gets no frame of the handshake any more, by
which it would become connected. -/
def SendAction.step : SendAction → SendQueue → Option SendQueue
  | .push payload, s => some { s with
      outQueue := s.outQueue ++ [payload]
      enqueued := s.enqueued ++ [payload]
      sending := s.sending + 1 }
  | .testConnected, s =>
      if s.sending = 0 then none
      else some { s with
        sending := s.sending - 1
        posted := if s.isConnected then s.posted + 1 else s.posted }
  | .becomeConnected, s =>
      if s.strand = .idle ∧ s.disconnected = false then
        some { s with isConnected := true, strand := .connecting }
      else none
  | .drain, s => if s.strand = .connecting then some s.doSend else none
  | .runPosted, s =>
      if s.strand = .idle ∧ s.posted ≠ 0 then
        some (SendQueue.doSend { s with posted := s.posted - 1 })
      else none
  | .submit, s =>
      match s.strand with
      | .submitting payload => some (SendQueue.asyncSendFrame { s with strand := .idle } payload)
      | _ => none
  | .invoke ok, s =>
      match s.strand, s.outstanding with
      | .idle, payload :: rest =>
          if ok ∧ maxFrameSize < payload.length then none
          else some { s with strand := .completing payload ok, outstanding := rest }
      | _, _ => none
  | .resetWriting, s =>
      match s.strand with
      | .completing _ ok => some { s with writing := false, strand := .completed ok }
      | _ => none
  | .finish, s =>
      match s.strand with
      | .completed true => some s.doSend
      | .completed false => some (SendQueue.disconnect { s with strand := .idle })
      | _ => none
  | .disconnect, s => some s.disconnect

namespace SendQueue

variable {s t : SendQueue}

/-- A frame is outstanding: it is being submitted, the stream has it, or its handler
has not returned. -/
def FrameOutstanding (s : SendQueue) : Prop :=
  s.outstanding ≠ [] ∨ s.strand.taken ≠ [] ∨ s.strand.handled ≠ [] ∨ ∃ ok, s.strand = .completed ok

/-- A call of `do_send` is still to come. -/
def DoSendPending (s : SendQueue) : Prop :=
  s.posted ≠ 0 ∨ s.sending ≠ 0 ∨ s.strand = .connecting ∨ s.strand = .completed true

/-- The payload over the cap that was submitted last; the connection ends by it. -/
def Refused (s : SendQueue) : Prop :=
  ∃ payload, maxFrameSize < payload.length ∧ s.submitted = s.streamed ++ [payload] ∧
    (s.outstanding = [payload] ∨ s.strand = .completing payload false ∨
      s.strand = .completed false ∨ (s.disconnected = true ∧ s.strand.taken = []))

structure QueueInv (s : SendQueue) : Prop where
  fifo : s.enqueued = s.submitted ++ s.strand.taken ++ s.outQueue
  /-- `writing_` is the one frame on its way -/
  one : (s.strand.taken ++ s.outstanding ++ s.strand.handled).length = if s.writing then 1 else 0
  streamed : s.streamed = s.submitted ∨ Refused s
  within : ∀ payload, s.strand = .completing payload true → payload.length ≤ maxFrameSize
  disconnected : s.disconnected = true → s.isConnected = false
  awake : s.isConnected = true → s.outQueue ≠ [] → FrameOutstanding s ∨ DoSendPending s

/-! ## Each step -/

/-- `do_send` takes the front of the queue, or finds that there is nothing to do. -/
theorem doSend_cases (s : SendQueue) :
    (s.doSend = { s with strand := .idle } ∧
        (s.outQueue = [] ∨ s.writing = true ∨ s.isConnected = false)) ∨
      ∃ payload rest, s.outQueue = payload :: rest ∧ s.writing = false ∧ s.isConnected = true ∧
        s.doSend = { s with
          writing := true, outQueue := rest, strand := .submitting payload } := by
  unfold doSend
  split
  next hqueue => exact Or.inl ⟨rfl, Or.inl hqueue⟩
  next payload rest hqueue =>
    split
    next hguard =>
      rw [Bool.or_eq_true, Bool.not_eq_true'] at hguard
      exact Or.inl ⟨rfl, Or.inr hguard⟩
    next hguard =>
      rw [Bool.or_eq_true, not_or, Bool.not_eq_true, Bool.not_eq_true, Bool.not_eq_false'] at hguard
      exact Or.inr ⟨payload, rest, hqueue, hguard.1, hguard.2, rfl⟩

/-- The strand calls `do_send` where no frame is being taken or handled; the call may
be one of the posted ones. -/
theorem QueueInv.doSend (h : QueueInv s) (n : Nat) (htaken : s.strand.taken = [])
    (hhandled : s.strand.handled = []) (hfailed : s.strand ≠ .completed false) :
    QueueInv (SendQueue.doSend { s with posted := n }) := by
  have hone := h.one
  have hfifo := h.fifo
  rw [htaken, hhandled, List.nil_append, List.append_nil] at hone
  rw [htaken, List.append_nil] at hfifo
  -- a refused payload keeps the stream busy until it has ended the connection
  have hrefused : Refused s → s.outstanding ≠ [] ∨ s.disconnected = true := by
    rintro ⟨payload, _, _, hflight | hcompleting | hfalse | ⟨hdisconnected, _⟩⟩
    · exact Or.inl (by simp [hflight])
    · rw [hcompleting] at hhandled
      cases hhandled
    · exact absurd hfalse hfailed
    · exact Or.inr hdisconnected
  rcases doSend_cases { s with posted := n } with ⟨heq, hwhy⟩ |
    ⟨payload, rest, hqueue, hwriting, hconnected, heq⟩
  · rw [heq]
    constructor
    · exact hfifo.trans (by simp [Strand.taken])
    · simpa [Strand.taken, Strand.handled] using hone
    · refine h.streamed.imp_right ?_
      intro hr
      rcases hr with ⟨payload, hsize, hsubmitted, hplace⟩
      refine ⟨payload, hsize, hsubmitted, ?_⟩
      rcases hplace with hflight | hcompleting | hfalse | ⟨hdisconnected, _⟩
      · exact Or.inl hflight
      · rw [hcompleting] at hhandled
        cases hhandled
      · exact absurd hfalse hfailed
      · exact Or.inr (Or.inr (Or.inr ⟨hdisconnected, rfl⟩))
    · intro payload hfalse
      cases hfalse
    · exact h.disconnected
    -- nothing is taken while a frame is being written, and that one is outstanding
    · intro hconnected hne
      rcases hwhy with hempty | hwriting | hfalse
      · exact absurd hempty hne
      · refine Or.inl (Or.inl ?_)
        rw [hwriting] at hone
        exact List.ne_nil_of_length_pos (by rw [hone]; decide)
      · exact absurd (hfalse.symm.trans hconnected) (by decide)
  · have hnone : s.outstanding = [] := by
      rw [hwriting] at hone
      exact List.length_eq_zero_iff.mp hone
    have hopen : s.disconnected = false := by
      rw [Bool.eq_false_iff]
      intro hdisconnected
      exact absurd ((h.disconnected hdisconnected).symm.trans hconnected) (by decide)
    rw [heq]
    constructor
    · rw [hfifo, hqueue]
      simp [Strand.taken]
    · simp [Strand.taken, Strand.handled, hnone]
    · refine Or.inl (h.streamed.resolve_right ?_)
      intro hr
      rcases hrefused hr with hflight | hdisconnected
      · exact hflight hnone
      · exact absurd (hopen.symm.trans hdisconnected) (by decide)
    · intro payload hfalse
      cases hfalse
    · exact h.disconnected
    · exact fun _ _ => Or.inl (Or.inr (Or.inl (by simp [Strand.taken])))

theorem QueueInv.disconnect (h : QueueInv s) : QueueInv s.disconnect := by
  constructor
  · exact h.fifo
  · exact h.one
  · exact h.streamed.imp_right fun ⟨payload, hsize, hsubmitted, hplace⟩ =>
      ⟨payload, hsize, hsubmitted, hplace.imp_right (Or.imp_right (Or.imp_right
        fun hplace => ⟨rfl, hplace.2⟩))⟩
  · exact h.within
  · exact fun _ => rfl
  · intro hfalse
    cases hfalse

theorem QueueInv.push (h : QueueInv s) (payload : Octets) :
    QueueInv { s with
      outQueue := s.outQueue ++ [payload]
      enqueued := s.enqueued ++ [payload]
      sending := s.sending + 1 } := by
  constructor
  · simp only [h.fifo, List.append_assoc]
  · exact h.one
  · exact h.streamed
  · exact h.within
  · exact h.disconnected
  -- `send` has still to look whether the connection is connected
  · exact fun _ _ => Or.inr (Or.inr (Or.inl (Nat.succ_ne_zero _)))

theorem QueueInv.testConnected (h : QueueInv s) :
    QueueInv { s with
      sending := s.sending - 1
      posted := if s.isConnected then s.posted + 1 else s.posted } := by
  constructor
  · exact h.fifo
  · exact h.one
  · exact h.streamed
  · exact h.within
  · exact h.disconnected
  · intro hconnected _
    have hconnected : s.isConnected = true := hconnected
    refine Or.inr (Or.inl ?_)
    show (if s.isConnected then s.posted + 1 else s.posted) ≠ 0
    rw [if_pos hconnected]
    exact Nat.succ_ne_zero _

theorem QueueInv.becomeConnected (h : QueueInv s) (hidle : s.strand = .idle)
    (hopen : s.disconnected = false) :
    QueueInv { s with isConnected := true, strand := .connecting } := by
  have hfifo := h.fifo
  have hone := h.one
  rw [hidle] at hfifo hone
  constructor
  · exact hfifo
  · exact hone
  · refine h.streamed.imp_right ?_
    rintro ⟨payload, hsize, hsubmitted, hflight | hfalse | hfalse | ⟨hdisconnected, _⟩⟩
    · exact ⟨payload, hsize, hsubmitted, Or.inl hflight⟩
    · cases hidle.symm.trans hfalse
    · cases hidle.symm.trans hfalse
    · exact absurd (hopen.symm.trans hdisconnected) (by decide)
  · intro payload hfalse
    cases hfalse
  · exact fun hdisconnected => absurd (hopen.symm.trans hdisconnected) (by decide)
  -- whatever was queued before, `become_connected` goes on to `do_send`
  · exact fun _ _ => Or.inr (Or.inr (Or.inr (Or.inl rfl)))

/-- The frame goes to `async_send_frame`. -/
theorem QueueInv.submit (h : QueueInv s) {payload : Octets}
    (hstrand : s.strand = .submitting payload) :
    QueueInv (asyncSendFrame { s with strand := .idle } payload) := by
  have hfifo := h.fifo
  have hone := h.one
  rw [hstrand] at hfifo hone
  have hwriting : s.writing = true := by
    cases hwriting : s.writing with
    | true => rfl
    | false => simp [hwriting, Strand.taken] at hone
  have hnone : s.outstanding = [] := by
    rw [hwriting] at hone
    simpa [Strand.taken, Strand.handled] using hone
  have hstreamed : s.streamed = s.submitted := by
    refine h.streamed.resolve_right ?_
    rintro ⟨_, _, _, hflight | hfalse | hfalse | ⟨_, hfalse⟩⟩
    · cases hnone.symm.trans hflight
    · cases hstrand.symm.trans hfalse
    · cases hstrand.symm.trans hfalse
    · rw [hstrand] at hfalse
      cases hfalse
  constructor
  · simpa [asyncSendFrame, Strand.taken] using hfifo
  · simp [asyncSendFrame, Strand.taken, Strand.handled, hnone, hwriting]
  · by_cases hsize : maxFrameSize < payload.length
    · refine Or.inr ⟨payload, hsize, ?_, Or.inl ?_⟩
      · simp [asyncSendFrame, hsize, hstreamed]
      · simp [asyncSendFrame, hnone]
    · exact Or.inl (by simp [asyncSendFrame, hsize, hstreamed])
  · intro payload hfalse
    cases hfalse
  · exact h.disconnected
  · exact fun _ _ => Or.inl (Or.inl (by simp [asyncSendFrame]))

theorem QueueInv.invoke (h : QueueInv s) (hidle : s.strand = .idle) {payload : Octets}
    {rest : List Octets} (hflight : s.outstanding = payload :: rest) {ok : Bool}
    (hok : ¬ (ok = true ∧ maxFrameSize < payload.length)) :
    QueueInv { s with strand := .completing payload ok, outstanding := rest } := by
  have hfifo := h.fifo
  have hone := h.one
  rw [hidle] at hfifo hone
  rw [hflight] at hone
  constructor
  · exact hfifo
  · simpa [Strand.taken, Strand.handled] using hone
  · refine h.streamed.imp_right ?_
    rintro ⟨refused, hsize, hsubmitted, hplace | hfalse | hfalse | ⟨hdisconnected, _⟩⟩
    · -- what is invoked is the handler of the refused payload, with an error
      obtain ⟨rfl, -⟩ := List.cons.inj (hflight.symm.trans hplace)
      have hfailed : ok = false := by
        rw [Bool.eq_false_iff]
        exact fun htrue => hok ⟨htrue, hsize⟩
      refine ⟨payload, hsize, hsubmitted, Or.inr (Or.inl ?_)⟩
      rw [hfailed]
    · cases hidle.symm.trans hfalse
    · cases hidle.symm.trans hfalse
    · exact ⟨refused, hsize, hsubmitted, Or.inr (Or.inr (Or.inr ⟨hdisconnected, rfl⟩))⟩
  · rintro _ ⟨rfl, rfl⟩
    exact Nat.le_of_not_lt fun hlt => hok ⟨rfl, hlt⟩
  · exact h.disconnected
  · exact fun _ _ => Or.inl (Or.inr (Or.inr (Or.inl (by simp [Strand.handled]))))

theorem QueueInv.resetWriting (h : QueueInv s) {payload : Octets} {ok : Bool}
    (hstrand : s.strand = .completing payload ok) :
    QueueInv { s with writing := false, strand := .completed ok } := by
  have hfifo := h.fifo
  have hone := h.one
  rw [hstrand] at hfifo hone
  have hnone : s.outstanding = [] := by
    rw [← List.length_eq_zero_iff]
    simp only [Strand.taken, Strand.handled, List.nil_append, List.length_append,
      List.length_singleton] at hone
    split at hone <;> omega
  constructor
  · exact hfifo
  · simp [Strand.taken, Strand.handled, hnone]
  · refine h.streamed.imp_right ?_
    rintro ⟨refused, hsize, hsubmitted, hplace | hplace | hfalse | ⟨hdisconnected, _⟩⟩
    · cases hnone.symm.trans hplace
    · obtain ⟨rfl, rfl⟩ := Strand.completing.inj (hstrand.symm.trans hplace)
      exact ⟨payload, hsize, hsubmitted, Or.inr (Or.inr (Or.inl rfl))⟩
    · cases hstrand.symm.trans hfalse
    · exact ⟨refused, hsize, hsubmitted, Or.inr (Or.inr (Or.inr ⟨hdisconnected, rfl⟩))⟩
  · intro _ hfalse
    cases hfalse
  · exact h.disconnected
  · exact fun _ _ => Or.inl (Or.inr (Or.inr (Or.inr ⟨ok, rfl⟩)))

/-- The handler of a frame that failed disconnects. -/
theorem QueueInv.fail (h : QueueInv s) (hstrand : s.strand = .completed false) :
    QueueInv (SendQueue.disconnect { s with strand := .idle }) := by
  have hfifo := h.fifo
  have hone := h.one
  rw [hstrand] at hfifo hone
  constructor
  · exact hfifo
  · exact hone
  · exact h.streamed.imp_right fun ⟨payload, hsize, hsubmitted, _⟩ =>
      ⟨payload, hsize, hsubmitted, Or.inr (Or.inr (Or.inr ⟨rfl, rfl⟩))⟩
  · intro _ hfalse
    cases hfalse
  · exact fun _ => rfl
  · intro hfalse
    cases hfalse

theorem QueueInv.step {a : SendAction} (h : QueueInv s) (hstep : a.step s = some t) :
    QueueInv t := by
  cases a with
  | push payload =>
      obtain rfl := Option.some.inj hstep
      exact h.push payload
  | testConnected =>
      simp only [SendAction.step, Option.ite_none_left_eq_some, Option.some.injEq] at hstep
      rcases hstep with ⟨_, rfl⟩
      exact h.testConnected
  | becomeConnected =>
      simp only [SendAction.step, Option.ite_none_right_eq_some, Option.some.injEq] at hstep
      rcases hstep with ⟨⟨hidle, hopen⟩, rfl⟩
      exact h.becomeConnected hidle hopen
  | drain =>
      simp only [SendAction.step, Option.ite_none_right_eq_some, Option.some.injEq] at hstep
      rcases hstep with ⟨hstrand, rfl⟩
      exact h.doSend s.posted (by rw [hstrand]; rfl) (by rw [hstrand]; rfl)
        (by rw [hstrand]; decide)
  | runPosted =>
      simp only [SendAction.step, Option.ite_none_right_eq_some, Option.some.injEq] at hstep
      rcases hstep with ⟨⟨hidle, _⟩, rfl⟩
      exact h.doSend (s.posted - 1) (by rw [hidle]; rfl) (by rw [hidle]; rfl)
        (by rw [hidle]; decide)
  | submit =>
      simp only [SendAction.step] at hstep
      split at hstep
      next payload hstrand =>
        obtain rfl := Option.some.inj hstep
        exact h.submit hstrand
      next => cases hstep
  | invoke ok =>
      simp only [SendAction.step] at hstep
      split at hstep
      next payload rest hidle hflight =>
        rw [Option.ite_none_left_eq_some] at hstep
        rcases hstep with ⟨hok, hstep⟩
        obtain rfl := Option.some.inj hstep
        exact h.invoke hidle hflight hok
      next => cases hstep
  | resetWriting =>
      simp only [SendAction.step] at hstep
      split at hstep
      next payload ok hstrand =>
        obtain rfl := Option.some.inj hstep
        exact h.resetWriting hstrand
      next => cases hstep
  | finish =>
      simp only [SendAction.step] at hstep
      split at hstep
      next hstrand =>
        obtain rfl := Option.some.inj hstep
        exact h.doSend s.posted (by rw [hstrand]; rfl) (by rw [hstrand]; rfl)
          (by rw [hstrand]; decide)
      next hstrand =>
        obtain rfl := Option.some.inj hstep
        exact h.fail hstrand
      next => cases hstep
  | disconnect =>
      obtain rfl := Option.some.inj hstep
      exact h.disconnect

theorem queueInv_init : QueueInv init := by
  constructor
  · rfl
  · rfl
  · exact Or.inl rfl
  · intro _ hfalse
    cases hfalse
  · exact fun _ => rfl
  · intro hfalse
    cases hfalse

/-- The frames go out in the order of `send`, one at a time, and none is left behind
while the connection is connected. -/
theorem send_queue_fifo {as : List SendAction}
    (hrun : Machine.run SendAction.step as init = some s) :
    s.enqueued = s.submitted ++ s.strand.taken ++ s.outQueue ∧ s.streamed <+: s.submitted ∧
      (s.strand.taken ++ s.outstanding ++ s.strand.handled).length ≤ 1 ∧
      (s.isConnected = true → s.outQueue ≠ [] → FrameOutstanding s ∨ DoSendPending s) := by
  have h := Machine.invariant_of_forall
    (fun _ _ _ (_ : True) hinv hstep => QueueInv.step hinv hstep)
    (fun _ _ => trivial) queueInv_init hrun
  refine ⟨h.fifo, ?_, ?_, h.awake⟩
  · rcases h.streamed with heq | ⟨payload, _, hsubmitted, _⟩
    · rw [heq]
    · rw [hsubmitted]
      exact List.prefix_append _ _
  · rw [h.one]
    split <;> decide

/-- A frame that was sent before the connection was there, and one behind it. -/
def twoFrames : List SendAction := [
  .push [1], .testConnected, .becomeConnected, .push [2], .drain, .testConnected, .submit,
  .invoke true, .resetWriting, .finish, .submit, .runPosted]

theorem send_queue_fifo_twoFrames :
    ∃ s, Machine.run SendAction.step twoFrames init = some s ∧
      (s.enqueued = s.submitted ++ s.strand.taken ++ s.outQueue ∧ s.streamed <+: s.submitted ∧
        (s.strand.taken ++ s.outstanding ++ s.strand.handled).length ≤ 1 ∧
        (s.isConnected = true → s.outQueue ≠ [] → FrameOutstanding s ∨ DoSendPending s)) ∧
      s.streamed = [[1], [2]] := by
  have hrun : Machine.run SendAction.step twoFrames init = some _ := rfl
  exact ⟨_, hrun, send_queue_fifo hrun, by decide⟩

end SendQueue

end Securepath.Network
