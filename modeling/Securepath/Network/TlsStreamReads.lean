import Securepath.Network.TlsStream

/-!
# Reading from a TLS stream

What the users have got and what is still in the buffer is what Botan has
reported, in its order, whatever the buffers of the users, the pauses and the
compaction were.
-/

namespace Securepath.Network

open Serialisation

namespace ReadEvent

/-- The octets that Botan has reported. -/
def receivedOctets (events : List ReadEvent) : Octets :=
  events.flatMap fun
    | .received data => data
    | _ => []

/-- The octets that were copied to the users, in the order of the completions. -/
def deliveredOctets (events : List ReadEvent) : Octets :=
  events.flatMap fun
    | .delivered _ data => data
    | _ => []

variable (events events' : List ReadEvent)

@[simp] theorem receivedOctets_append :
    receivedOctets (events ++ events') = receivedOctets events ++ receivedOctets events' :=
  List.flatMap_append

@[simp] theorem deliveredOctets_append :
    deliveredOctets (events ++ events') = deliveredOctets events ++ deliveredOctets events' :=
  List.flatMap_append

/-- A read ends with the peer only when all before it was delivered. -/
def EndsDrained : Prop :=
  ∀ before h after, events = before ++ .ended h :: after →
    deliveredOctets before = receivedOctets before

variable {events}

theorem EndsDrained.append {e : ReadEvent} (h : EndsDrained events)
    (he : ∀ c, e = .ended c → deliveredOctets events = receivedOctets events) :
    EndsDrained (events ++ [e]) := by
  intro before c after heq
  -- the end of a read is the new event, or was there before
  rcases List.eq_nil_or_concat after with rfl | ⟨after', last, rfl⟩
  · have hsplit := List.append_inj' heq rfl
    have hlast : e = .ended c := by simpa using hsplit.2
    rw [← hsplit.1]
    exact he c hlast
  · rw [List.concat_eq_append, ← List.cons_append, ← List.append_assoc] at heq
    exact h before c after' (List.append_inj' heq rfl).1

end ReadEvent

namespace TlsStream

open ReadEvent

variable {s t : TlsStream}

/-- What the reading goes by. -/
structure ReadInv (s : TlsStream) : Prop where
  pos_le : s.plainPos ≤ s.plainIn.length
  octets : receivedOctets s.reads = deliveredOctets s.reads ++ s.plainIn.drop s.plainPos
  drained : EndsDrained s.reads

/-! ## What does not read -/

/-- The part of the state that only the reading changes. -/
def readView (s : TlsStream) : Octets × Nat × List ReadEvent := (s.plainIn, s.plainPos, s.reads)

theorem ReadInv.congr (h : ReadInv s) (hview : t.readView = s.readView) : ReadInv t := by
  have hin : t.plainIn = s.plainIn := congrArg Prod.fst hview
  have hpos : t.plainPos = s.plainPos := congrArg (fun v => v.2.1) hview
  have hreads : t.reads = s.reads := congrArg (fun v => v.2.2) hview
  constructor
  · rw [hin, hpos]
    exact h.pos_le
  · rw [hin, hpos, hreads]
    exact h.octets
  · rw [hreads]
    exact h.drained

theorem readView_finishShutdown : s.finishShutdown.readView = s.readView := by
  unfold finishShutdown
  split <;> rfl

theorem readView_failPending (ec : Code) : (s.failPending ec).readView = s.readView := rfl

theorem readView_fail (ec : Code) : (s.fail ec).readView = s.readView := by
  unfold fail
  split
  · rfl
  · exact readView_failPending ec

theorem readView_startWrite : s.startWrite.readView = s.readView := by
  unfold startWrite
  split
  · rfl
  · simp only
    split
    · split
      · exact readView_finishShutdown
      · rfl
    · rfl

theorem readView_startRead : s.startRead.readView = s.readView := by
  unfold startRead
  split <;> rfl

theorem readView_runFrame (f : Frame) : (s.runFrame f).readView = s.readView := by
  cases f with
  | startRead => exact readView_startRead
  | finishShutdown => exact readView_finishShutdown

/-! ## Each step -/

theorem ReadInv.callback (h : ReadInv s) (c : Callback) : ReadInv (s.callback c) := by
  cases c with
  | emit data => exact h.congr readView_startWrite
  | record data =>
      constructor
      · show s.plainPos ≤ (s.plainIn ++ data).length
        rw [List.length_append]
        exact Nat.le_add_right_of_le h.pos_le
      · show receivedOctets (s.reads ++ [.received data]) =
          deliveredOctets (s.reads ++ [.received data]) ++ (s.plainIn ++ data).drop s.plainPos
        rw [receivedOctets_append, deliveredOctets_append, h.octets,
          List.drop_append_of_le_length h.pos_le]
        simp [receivedOctets, deliveredOctets]
      · exact h.drained.append (by simp)
  | alert a =>
      cases a with
      | closeNotify => exact h.congr rfl
      | fatal => exact h.congr (readView_fail _)
      | warning => exact h
  | activated => exact h.congr rfl

theorem ReadInv.callbacks (h : ReadInv s) (cs : List Callback) : ReadInv (s.callbacks cs) := by
  induction cs generalizing s with
  | nil => exact h
  | cons c cs ih => exact ih (h.callback c)

/-- Compaction drops what was delivered. -/
theorem drop_compactPlainIn : s.compactPlainIn.plainIn.drop s.compactPlainIn.plainPos =
    s.plainIn.drop s.plainPos := by
  unfold compactPlainIn
  split
  next hend =>
    rw [List.drop_eq_nil_of_le (Nat.le_of_eq hend.symm)]
    rfl
  next =>
    split
    · exact List.drop_zero
    · rfl

theorem compactPlainIn_pos_le (h : s.plainPos ≤ s.plainIn.length) :
    s.compactPlainIn.plainPos ≤ s.compactPlainIn.plainIn.length := by
  unfold compactPlainIn
  split
  · exact Nat.zero_le _
  · split
    · exact Nat.zero_le _
    · exact h

theorem compactPlainIn_reads : s.compactPlainIn.reads = s.reads := by
  unfold compactPlainIn
  split
  · rfl
  · split <;> rfl

theorem ReadInv.deliverTo (h : ReadInv s) (c : Handler) : ReadInv (s.deliverTo c) := by
  unfold TlsStream.deliverTo
  simp only
  split
  next havailable =>
    have hpos := h.pos_le
    have hle : s.plainPos + min (s.plainIn.length - s.plainPos) s.pendingBuffer ≤
        s.plainIn.length := by omega
    constructor
    · exact compactPlainIn_pos_le
        (s := { s with
          plainPos := s.plainPos + min (s.plainIn.length - s.plainPos) s.pendingBuffer })
        hle
    · simp only [compactPlainIn_reads, drop_compactPlainIn, receivedOctets_append,
        deliveredOctets_append, h.octets]
      -- what is copied is the front of what is left
      rw [← List.drop_drop]
      simp [receivedOctets, deliveredOctets]
    · simp only [compactPlainIn_reads]
      exact h.drained.append (by simp)
  next hnone =>
    -- the read ends without octets only when none are left
    have hempty : s.plainIn.drop s.plainPos = [] := List.drop_eq_nil_of_le (by omega)
    have hall : deliveredOctets s.reads = receivedOctets s.reads := by
      rw [h.octets, hempty, List.append_nil]
    split
    · exact ⟨h.pos_le, h.octets, h.drained⟩
    · refine ⟨h.pos_le, ?_, h.drained.append fun _ _ => hall⟩
      simp only [receivedOctets_append, deliveredOctets_append, h.octets]
      simp [receivedOctets, deliveredOctets]

theorem ReadInv.deliverRead (h : ReadInv s) (f : Frame) : ReadInv (s.deliverRead f) := by
  unfold TlsStream.deliverRead
  split
  · exact h.congr (readView_runFrame f)
  · split
    · exact (h.deliverTo _).congr rfl
    · exact h.congr (readView_runFrame f)

theorem ReadInv.onRead (h : ReadInv s) (ec : Option Code) (call : ChannelCall) :
    ReadInv (s.onRead ec call) := by
  have hstart : ReadInv { s with reading := false } := h.congr rfl
  unfold TlsStream.onRead
  simp only
  split
  · exact hstart
  cases ec with
  | some ec =>
      simp only
      split
      · have hclosed : ReadInv { s with reading := false, peerClosed := true } := h.congr rfl
        exact hclosed.deliverRead .finishShutdown
      · exact hstart.congr (readView_fail _)
  | none =>
      simp only
      split
      · exact (hstart.callbacks call.callbacks).congr (readView_fail _)
      · exact (hstart.callbacks call.callbacks).deliverRead .startRead

theorem ReadInv.onWritten (h : ReadInv s) (ec : Option Code) (data : Octets) :
    ReadInv (s.onWritten ec data) := by
  unfold TlsStream.onWritten
  simp only
  split
  · exact h.congr rfl
  cases ec with
  | some ec => exact h.congr (readView_fail _)
  | none => exact h.congr readView_startWrite

theorem ReadInv.asyncHandshake (h : ReadInv s) (call : ChannelCall) :
    ReadInv (s.asyncHandshake call) := by
  unfold TlsStream.asyncHandshake doHandshake
  simp only
  split
  · exact h.congr rfl
  have hstart : ReadInv { s with calls := s.calls + 1, handshake := some s.calls } := h.congr rfl
  split
  · exact (hstart.callbacks call.callbacks).congr (readView_fail _)
  · exact (hstart.callbacks call.callbacks).congr readView_startRead

theorem ReadInv.asyncReadSome (h : ReadInv s) (size : Nat) : ReadInv (s.asyncReadSome size) := by
  unfold TlsStream.asyncReadSome
  simp only
  split
  · exact h.congr rfl
  split
  · exact h.congr rfl
  have hstart : ReadInv { s with
    calls := s.calls + 1, pendingBuffer := size, pendingRead := some s.calls } := h.congr rfl
  exact hstart.deliverRead .startRead

theorem ReadInv.asyncWrite (h : ReadInv s) (size : Nat) (call : ChannelCall) :
    ReadInv (s.asyncWrite size call) := by
  unfold TlsStream.asyncWrite
  simp only
  split
  · exact h.congr rfl
  have hstart : ReadInv { s with calls := s.calls + 1 } := h.congr rfl
  split
  · exact (hstart.callbacks call.callbacks).congr (readView_fail _)
  · exact (hstart.callbacks call.callbacks).congr readView_startWrite

theorem ReadInv.closeChannel (h : ReadInv s) (call : Option ChannelCall) :
    ReadInv (s.closeChannel call) := by
  unfold TlsStream.closeChannel
  split
  · exact h
  · split
    · exact h.callbacks _
    · exact h

theorem ReadInv.asyncShutdown (h : ReadInv s) (call : Option ChannelCall) :
    ReadInv (s.asyncShutdown call) := by
  unfold TlsStream.asyncShutdown
  simp only
  split
  · exact h.congr rfl
  refine ReadInv.congr (ReadInv.closeChannel ?_ call) readView_startWrite
  exact h.congr rfl

theorem ReadInv.step {a : Action} (h : ReadInv s) (hstep : step a s = some t) : ReadInv t := by
  cases a with
  | asyncHandshake call =>
      obtain rfl := Option.some.inj hstep
      exact h.asyncHandshake call
  | asyncReadSome size =>
      obtain rfl := Option.some.inj hstep
      exact h.asyncReadSome size
  | asyncWrite size call =>
      obtain rfl := Option.some.inj hstep
      exact h.asyncWrite size call
  | asyncShutdown call =>
      obtain rfl := Option.some.inj hstep
      exact h.asyncShutdown call
  | close =>
      obtain rfl := Option.some.inj hstep
      unfold close
      split
      · exact h
      · exact h.congr rfl
  | onRead ec call =>
      simp only [TlsStream.step, Option.ite_none_right_eq_some, Option.some.injEq] at hstep
      rcases hstep with ⟨_, rfl⟩
      exact h.onRead ec call
  | onWritten ec =>
      rcases onWritten_of_step hstep with ⟨data, rest, _, _, rfl⟩
      have hstart : ReadInv { s with inFlight := rest } := h.congr rfl
      exact hstart.onWritten ec data
  | returns =>
      rcases returns_of_step hstep with ⟨f, fs, _, rfl⟩
      exact h.congr (readView_runFrame f)
  | invoke =>
      rcases invoke_of_step hstep with ⟨c, cs, _, _, rfl⟩
      exact h.congr rfl

end TlsStream

end Securepath.Network
