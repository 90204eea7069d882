import Securepath.Network.TlsStreamHandlers

/-!
# Writing to a TLS stream

The records reach the socket in the order in which Botan has emitted them, and the
writes complete in the order of the calls.
-/

namespace Securepath.Network

open Serialisation

namespace TlsStream

variable {s : TlsStream}

/-- The completions of the accepted writes, among the handlers that were invoked or
that the strand has to run. -/
def writeCompletions (s : TlsStream) : List Completion :=
  (s.invoked ++ s.posted).filter fun c => c.handler ∈ s.accepted.map (·.1)

/-- While the socket writes, the front of the queue is what it writes. -/
def FrontInFlight (s : TlsStream) : Prop :=
  s.writing = true → ∃ item rest, s.outQueue = item :: rest ∧ s.inFlight = [item.data]

/-- The completion of a handler is the only one. -/
theorem completion_injective (h : HandlerInv s) {c d : Completion}
    (hc : c ∈ s.invoked ++ s.posted) (hd : d ∈ s.invoked ++ s.posted)
    (heq : c.handler = d.handler) : c = d :=
  List.inj_on_of_nodup_map (nodup_finished h) hc hd heq

/-- A handler that still waits in the queue has no completion. -/
theorem not_finished_of_queued (h : HandlerInv s) {g : Handler} (hg : g ∈ queued s.outQueue) :
    g ∉ s.finished := by
  intro hfinished
  have hload := h.load_eq g
  have hstored : g ∈ s.stored := by simp [stored, hg]
  have hone := List.count_pos_iff.mpr hstored
  have htwo := List.count_pos_iff.mpr hfinished
  unfold load at hload
  split at hload <;> omega

theorem writeCompletions_eq (h : HandlerInv s) : s.writeCompletions = s.completed := by
  have hhandlers : ∀ c ∈ s.completed, c.handler ∈ s.accepted.map (·.1) := by
    intro c hc
    rw [h.queue.write.order]
    exact List.mem_append_left _ (List.mem_map_of_mem hc)
  -- as lists without repetitions, each is contained in the other
  have hsublist : s.completed.Sublist s.writeCompletions := by
    have hself : s.completed.filter (fun c => c.handler ∈ s.accepted.map (·.1)) = s.completed :=
      List.filter_eq_self.mpr fun c hc => decide_eq_true (hhandlers c hc)
    rw [← hself]
    exact h.in_order.filter _
  have hsubset : s.writeCompletions ⊆ s.completed := by
    intro c hc
    rcases List.mem_filter.mp hc with ⟨hstrand, haccepted⟩
    have haccepted := of_decide_eq_true haccepted
    rw [h.queue.write.order] at haccepted
    rcases List.mem_append.mp haccepted with hmem | hmem
    · rcases List.mem_map.mp hmem with ⟨d, hd, heq⟩
      rw [completion_injective h hstrand (h.in_order.subset hd) heq.symm]
      exact hd
    -- what is queued is not finished
    · exact absurd (List.mem_map_of_mem hstrand) (not_finished_of_queued h hmem)
  have hnodup : s.writeCompletions.Nodup :=
    List.Nodup.filter _ (List.Nodup.of_map (fun c : Completion => c.handler) (nodup_finished h))
  exact (hsublist.eq_of_length_le (hnodup.subperm hsubset).length_le).symm

/-- The order of the records and of the writes. -/
theorem writes_in_order {as : List Action} (hrun : Machine.run step as init = some s) :
    (s.closed = false → FrontInFlight s ∧ s.emitted = s.written ++ records s.outQueue) ∧
      s.inFlight.length = (if s.writing then 1 else 0) ∧
      s.written ++ s.inFlight <+: s.submitted ∧ s.submitted <+: s.emitted ∧
      s.writeCompletions.map (·.handler) <+: s.accepted.map (·.1) ∧
      (s.accepted.map (·.1)).Pairwise (· < ·) ∧
      ∀ c ∈ s.writeCompletions, c.ec = none → ∀ k, (c.handler, k) ∈ s.accepted →
        s.emitted.take k <+: s.written := by
  have h := handlerInv_of_run hrun
  have hwrite := h.queue.write
  have hwritten : s.written <+: s.emitted :=
    ((List.prefix_append _ _).trans hwrite.written_prefix).trans hwrite.submitted_prefix
  refine ⟨?_, ?_, hwrite.written_prefix, hwrite.submitted_prefix, ?_, h.increasing, ?_⟩
  · intro hopen
    have ho := h.queue.opened hopen
    refine ⟨?_, ho.emitted_eq⟩
    intro hbusy
    rcases ho.front hbusy with ⟨item, rest, hqueue, hflight, _⟩
    exact ⟨item, rest, hqueue, hflight⟩
  · split
    next hbusy =>
      rcases hwrite.busy hbusy with ⟨data, hflight⟩
      rw [hflight, List.length_singleton]
    next hidle =>
      rw [hwrite.idle (Bool.not_eq_true _ ▸ hidle), List.length_nil]
  · rw [writeCompletions_eq h, hwrite.order]
    exact List.prefix_append _ _
  -- `k` records were emitted until the write, and at least as many are written
  · rw [writeCompletions_eq h]
    intro c hc hnone k hk
    have hle := hwrite.success c hc hnone k hk
    rcases hwritten with ⟨rest, hrest⟩
    rw [← hrest, List.take_append_of_le_length hle]
    exact List.take_prefix k s.written

/-- Two writes of one record each, of which the first one completes. -/
def twoWrites : List Action := [
  .asyncHandshake ⟨[.emit [1]], false⟩,
  .onRead none ⟨[.emit [2], .activated], false⟩,
  .asyncWrite 5 ⟨[.emit [3]], false⟩,
  .asyncWrite 6 ⟨[.emit [4]], false⟩,
  .onWritten none, .onWritten none, .onWritten none]

theorem writes_in_order_twoWrites :
    ∃ s, Machine.run step twoWrites init = some s ∧
      ((s.closed = false → FrontInFlight s ∧ s.emitted = s.written ++ records s.outQueue) ∧
        s.inFlight.length = (if s.writing then 1 else 0) ∧
        s.written ++ s.inFlight <+: s.submitted ∧ s.submitted <+: s.emitted ∧
        s.writeCompletions.map (·.handler) <+: s.accepted.map (·.1) ∧
        (s.accepted.map (·.1)).Pairwise (· < ·) ∧
        ∀ c ∈ s.writeCompletions, c.ec = none → ∀ k, (c.handler, k) ∈ s.accepted →
          s.emitted.take k <+: s.written) ∧
      s.writeCompletions = [⟨1, none, 5⟩] ∧ s.written = [[1], [2], [3]] := by
  have hrun : Machine.run step twoWrites init = some _ := rfl
  exact ⟨_, hrun, writes_in_order hrun, by decide, by decide⟩

/-- Closing clears the queue, while the socket still writes. -/
theorem not_frontInFlight_closed :
    ¬ ∀ (as : List Action) (s : TlsStream), Machine.run step as init = some s →
      FrontInFlight s := by
  intro h
  have hrun : Machine.run step [.asyncHandshake ⟨[.emit [1]], false⟩, .close] init = some _ := rfl
  rcases h _ _ hrun rfl with ⟨item, rest, hqueue, _⟩
  cases hqueue

end TlsStream

end Securepath.Network
