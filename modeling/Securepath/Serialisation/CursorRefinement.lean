import Securepath.Library.Observation
import Securepath.Serialisation.BufferedStream

/-!
# The buffered stream refines a cursor

The users of `buffered_stream` read, ask what is readable, and look ahead under
guards: a `peek_guard` takes the token of `start_peek` and gives it back to
`end_peek` when it goes, so that the tokens form a stack. Along every such use in
which the underlying stream has what is asked of it, the answers and `pos()` are
those of a plain cursor over all the octets.
-/

namespace Securepath.Serialisation

open BufferedStream (Peek Represents)

/-- What is called on the stream; `endPeek` ends the innermost guard. -/
inductive StreamCall where
  | read (n : Nat)
  | startPeek
  | endPeek (commit : Bool)
  | readableBytes (n : Nat)
  deriving DecidableEq, Repr

inductive StreamAnswer where
  | octets (buf : Octets)
  | endOfStream
  | readable (b : Bool)
  | done
  deriving DecidableEq, Repr

/-! ## The stream under guards -/

/-- A stream and the tokens its guards hold, the innermost first. -/
structure GuardedStream where
  stream : BufferedStream
  tokens : List Nat

namespace GuardedStream

/-- A stream over the octets `d`, without guards. -/
def ofOctets (d : Octets) : GuardedStream where
  stream := BufferedStream.ofStream (OctetSpanIstream.ofOctets d)
  tokens := []

/-- One call: its answer with `pos()` behind it. -/
def step (c : StreamCall) (s : GuardedStream) : (StreamAnswer × Nat) × GuardedStream :=
  match c with
  | .read n =>
      match s.stream.read n with
      | .ok buf t => ((.octets buf, t.pos), { s with stream := t })
      | .error _ t => ((.endOfStream, t.pos), { s with stream := t })
  | .startPeek =>
      let (token, t) := s.stream.startPeek
      ((.done, t.pos), ⟨t, token :: s.tokens⟩)
  | .endPeek commit =>
      match s.tokens with
      | [] => ((.done, s.stream.pos), s)
      | token :: rest =>
          let t := BufferedStream.endPeek token commit s.stream
          ((.done, t.pos), ⟨t, rest⟩)
  | .readableBytes n =>
      let (b, t) := s.stream.readableBytes n
      ((.readable b, t.pos), { s with stream := t })

/-- How many octets the call asks of the underlying stream. -/
def request (c : StreamCall) (s : BufferedStream) : Nat :=
  match c with
  | .read n => n - (s.readFromBuffer n).1.length
  | .readableBytes n => n - (s.buffer.length - s.lookAheadPos)
  | .startPeek | .endPeek _ => 0

/-- The underlying stream has what the call asks of it, and a guard that goes was
there. -/
def Served (c : StreamCall) (s : GuardedStream) : Prop :=
  (s.stream.stream.read (request c s.stream)).1 ≠ none ∧
    (∀ commit, c = .endPeek commit → s.tokens ≠ [])

end GuardedStream

/-! ## The cursor -/

/-- A position and the positions at which peeks were started, the innermost
first. -/
structure Cursor where
  pos : Nat
  saved : List Nat

/-- One call on a cursor over the octets `d`. -/
def Cursor.step (d : Octets) (c : StreamCall) (s : Cursor) : (StreamAnswer × Nat) × Cursor :=
  match c with
  | .read n => ((.octets ((d.drop s.pos).take n), s.pos + n), { s with pos := s.pos + n })
  | .startPeek => ((.done, s.pos), { s with saved := s.pos :: s.saved })
  | .endPeek commit =>
      match s.saved with
      | [] => ((.done, s.pos), s)
      | start :: rest =>
          let pos := if commit then s.pos else start
          ((.done, pos), ⟨pos, rest⟩)
  | .readableBytes n => ((.readable (s.pos + n ≤ d.length), s.pos), s)

/-! ## The simulation -/

/-- The guarded stream stands where the cursor does, and its guards hold the
tokens of the positions the cursor saved. -/
def StandsAt (d : Octets) (s : GuardedStream) (c : Cursor) : Prop :=
  ∃ peeks : List Peek, Represents peeks d s.stream ∧
    s.tokens = peeks.map Peek.token ∧ c.saved = peeks.map Peek.pos ∧ c.pos = s.stream.pos

theorem standsAt_ofOctets (d : Octets) : StandsAt d (GuardedStream.ofOctets d) ⟨0, []⟩ :=
  ⟨[], BufferedStream.represents_ofOctets d, rfl, rfl, rfl⟩

variable {d : Octets} {s : GuardedStream} {c : Cursor} {peeks : List Peek}

/-- A read that the underlying stream can serve ends within the octets. -/
theorem read_fits (h : Represents peeks d s.stream) {n : Nat}
    (hserved : (s.stream.stream.read (GuardedStream.request (.read n) s.stream)).1 ≠ none) :
    s.stream.pos + n ≤ d.length := by
  by_contra hlong
  have hle := h.pos_le
  have hstream := h.length_stream
  have hout := (BufferedStream.readFromBuffer_spec h n).1
  have hlen : (s.stream.readFromBuffer n).1.length =
      min n (s.stream.buffer.length - s.stream.lookAheadPos) := by
    rw [hout, List.length_take, List.length_drop]
  apply hserved
  apply (OctetSpanIstream.read_of_lt _).1
  have hunread := h.length_unread
  simp only [BufferedStream.unread, List.length_append, List.length_drop] at hunread
  simp only [GuardedStream.request, hlen]
  omega

/-- So does what `readable_bytes` asks for. -/
theorem readableBytes_fits (h : Represents peeks d s.stream) {n : Nat}
    (hserved :
      (s.stream.stream.read (GuardedStream.request (.readableBytes n) s.stream)).1 ≠ none) :
    s.stream.pos + n ≤ d.length := by
  by_contra hlong
  have hle := h.pos_le
  have hstream := h.length_stream
  apply hserved
  apply (OctetSpanIstream.read_of_lt _).1
  have hunread := h.length_unread
  simp only [BufferedStream.unread, List.length_append, List.length_drop] at hunread
  simp only [GuardedStream.request]
  omega

/-- The cursor makes each step of the stream. -/
theorem step_standsAt (call : StreamCall) (hserved : GuardedStream.Served call s)
    (h : StandsAt d s c) :
    (GuardedStream.step call s).1 = (Cursor.step d call c).1 ∧
      StandsAt d (GuardedStream.step call s).2 (Cursor.step d call c).2 := by
  obtain ⟨peeks, hrep, htokens, hsaved, hpos⟩ := h
  cases call with
  | read n =>
      have hfits := read_fits hrep hserved.1
      obtain ⟨t, hread, hrep', hpos'⟩ := BufferedStream.read_of_le hrep hfits
      simp only [GuardedStream.step, Cursor.step, hread]
      constructor
      · rw [hpos, hpos']
      · exact ⟨peeks, hrep', htokens, hsaved, by rw [hpos, hpos']⟩
  | startPeek =>
      obtain ⟨hrep', hpos'⟩ := BufferedStream.startPeek_spec hrep
      constructor
      · simp only [GuardedStream.step, Cursor.step, hpos', hpos]
      · refine ⟨⟨s.stream.startPeek.1, s.stream.pos⟩ :: peeks, hrep', ?_, ?_, ?_⟩
        · simp only [GuardedStream.step, htokens, List.map_cons]
        · simp only [Cursor.step, hsaved, hpos, List.map_cons]
        · simp only [GuardedStream.step, Cursor.step, hpos', hpos]
  | endPeek commit =>
      cases peeks with
      -- a peek that was not started is not served
      | nil => exact absurd htokens (hserved.2 commit rfl)
      | cons p peeks =>
          cases commit with
          | false =>
              obtain ⟨hrep', hpos'⟩ := BufferedStream.endPeek_restore hrep
              simp only [GuardedStream.step, Cursor.step, htokens, hsaved, List.map_cons]
              constructor
              · rw [hpos']
                rfl
              · exact ⟨peeks, hrep', rfl, rfl, hpos'.symm⟩
          | true =>
              obtain ⟨hrep', hpos'⟩ := BufferedStream.endPeek_commit hrep
              simp only [GuardedStream.step, Cursor.step, htokens, hsaved, List.map_cons]
              constructor
              · rw [hpos', ← hpos]
                rfl
              · exact ⟨peeks, hrep', rfl, rfl, hpos.trans hpos'.symm⟩
  | readableBytes n =>
      have hfits := readableBytes_fits hrep hserved.1
      obtain ⟨t, hanswer, hrep', hpos'⟩ := BufferedStream.readableBytes_of_le hrep hfits
      have hyes : (decide (c.pos + n ≤ d.length)) = true := by
        rw [hpos]
        exact decide_eq_true hfits
      simp only [GuardedStream.step, Cursor.step, hanswer, hyes]
      constructor
      · rw [hpos', hpos]
      · exact ⟨peeks, hrep', htokens, hsaved, by rw [hpos, hpos']⟩

/-- Whatever is called on the stream, as long as the underlying stream serves it:
the octets, the answers of `readable_bytes` and `pos()` are those of the cursor. -/
theorem guardedStream_refines_cursor (d : Octets) (calls : List StreamCall)
    (hserved : Observation.Along GuardedStream.step GuardedStream.Served calls
      (GuardedStream.ofOctets d)) :
    Observation.observe GuardedStream.step calls (GuardedStream.ofOctets d) =
      Observation.observe (Cursor.step d) calls ⟨0, []⟩ :=
  Observation.observe_eq (fun call _ _ => step_standsAt call) hserved (standsAt_ofOctets d)

/-- A peek within a peek over a buffer that `readable_bytes` filled: the inner one
is committed, the outer one is not. -/
theorem guardedStream_refines_cursor_nested :
    Observation.observe GuardedStream.step
        [.readableBytes 3, .read 1, .startPeek, .read 1, .startPeek, .read 2, .endPeek true,
          .endPeek false, .read 3]
        (GuardedStream.ofOctets [1, 2, 3, 4]) =
      [(.readable true, 0), (.octets [1], 1), (.done, 1), (.octets [2], 2), (.done, 2),
        (.octets [3, 4], 4), (.done, 4), (.done, 1), (.octets [2, 3, 4], 4)] := by
  rw [guardedStream_refines_cursor [1, 2, 3, 4] _ ?_]
  · rfl
  · simp [Observation.Along, GuardedStream.Served, GuardedStream.request, GuardedStream.step,
      GuardedStream.ofOctets, BufferedStream.ofStream, OctetSpanIstream.ofOctets,
      OctetSpanIstream.read, BufferedStream.readFromBuffer, BufferedStream.read,
      BufferedStream.readableBytes, BufferedStream.readFromStream, BufferedStream.startPeek,
      BufferedStream.endPeek]

end Securepath.Serialisation
