import Securepath.Serialisation.Types

/-!
# The buffered stream under the decoder

`octet_span_istream` and `buffered_stream` (`serialisation/octet_vector_stream.cpp`,
`serialisation/codec/asn_der/buffered_stream.hpp`). The decoder looks ahead by
opening a *peek*: octets read while a peek is open are kept in a buffer, and
ending the peek without committing sets the read position back.

`Represents saved d s` says what such a stream is for: it is a plain cursor at
`s.pos` over the octets `d`, and each open peek (the list `saved`) can be ended
to set the cursor back to where that peek was started.
-/

namespace Securepath.Serialisation

/-! ## `octet_span_istream` -/

/-- A read position over a span of octets; the span's `size` may be shorter
than its data. -/
structure OctetSpanIstream where
  data : Octets
  readPos : Nat
  size : Nat
  size_le : size ≤ data.length
  readPos_le : readPos ≤ size

namespace OctetSpanIstream

/-- The octets not read yet. -/
def unread (s : OctetSpanIstream) : Octets := (s.data.take s.size).drop s.readPos

/-- A stream over all of `d`. -/
def ofOctets (d : Octets) : OctetSpanIstream where
  data := d
  readPos := 0
  size := d.length
  size_le := le_refl _
  readPos_le := Nat.zero_le _

@[simp] theorem unread_ofOctets (d : Octets) : (ofOctets d).unread = d := by
  simp [unread, ofOctets]

theorem length_unread (s : OctetSpanIstream) : s.unread.length = s.size - s.readPos := by
  have := s.size_le
  simp only [unread, List.length_drop, List.length_take]
  omega

/-- Read exactly `n` octets; a short read fails and drops what was left. -/
def read (s : OctetSpanIstream) (n : Nat) : Option Octets × OctetSpanIstream :=
  if h : s.readPos + n ≤ s.size then
    (some ((s.data.drop s.readPos).take n), { s with readPos := s.readPos + n, readPos_le := h })
  else
    (none, { s with readPos := s.size, readPos_le := le_refl _ })

theorem read_of_le {s : OctetSpanIstream} {n : Nat} (h : n ≤ s.unread.length) :
    (s.read n).1 = some (s.unread.take n) ∧ (s.read n).2.unread = s.unread.drop n := by
  rw [length_unread] at h
  have hle := s.readPos_le
  have hfit : s.readPos + n ≤ s.size := by omega
  refine ⟨?_, ?_⟩
  · rw [read, dif_pos hfit]
    simp only [unread, List.drop_take, List.take_take]
    rw [min_eq_left h]
  · rw [read, dif_pos hfit]
    simp only [unread, List.drop_drop]

theorem read_of_lt {s : OctetSpanIstream} {n : Nat} (h : s.unread.length < n) :
    (s.read n).1 = none ∧ (s.read n).2.unread = [] := by
  rw [length_unread] at h
  have hfit : ¬ s.readPos + n ≤ s.size := by omega
  refine ⟨?_, ?_⟩
  · rw [read, dif_neg hfit]
  · rw [read, dif_neg hfit]
    simp [unread]

end OctetSpanIstream

/-! ## `buffered_stream` -/

structure BufferedStream where
  stream : OctetSpanIstream
  buffer : Octets
  lookAheadPos : Nat
  realPos : Nat
  peekCount : Nat

namespace BufferedStream

def ofStream (stream : OctetSpanIstream) : BufferedStream where
  stream := stream
  buffer := []
  lookAheadPos := 0
  realPos := 0
  peekCount := 0

/-- `pos()`. -/
def pos (s : BufferedStream) : Nat := s.realPos + s.lookAheadPos

/-- `read_from_buffer`: what the buffer still holds, up to `n` octets. Outside
a peek a buffer that is used up is dropped. -/
def readFromBuffer (s : BufferedStream) (n : Nat) : Octets × BufferedStream :=
  if s.lookAheadPos < s.buffer.length then
    let rs := min n (s.buffer.length - s.lookAheadPos)
    let out := (s.buffer.drop s.lookAheadPos).take rs
    let lookAheadPos := s.lookAheadPos + rs
    if s.peekCount = 0 ∧ lookAheadPos = s.buffer.length then
      (out, { s with realPos := s.realPos + lookAheadPos, lookAheadPos := 0, buffer := [] })
    else
      (out, { s with lookAheadPos := lookAheadPos })
  else
    ([], s)

/-- `read_from_stream`: `n` octets of the underlying stream, kept in the buffer
inside a peek. -/
def readFromStream (n : Nat) : EStateM Error BufferedStream Octets := fun s =>
  match s.stream.read n with
  | (some buf, stream) =>
      if s.peekCount ≠ 0 then
        .ok buf { s with stream := stream, buffer := s.buffer ++ buf,
                         lookAheadPos := s.lookAheadPos + n }
      else
        .ok buf { s with stream := stream, realPos := s.realPos + n }
  | (none, stream) => .error Error.endOfStream { s with stream := stream }

/-- `read(buf, n)`. -/
def read (n : Nat) : EStateM Error BufferedStream Octets := fun s =>
  let (fromBuffer, s) := s.readFromBuffer n
  if fromBuffer.length ≠ n then
    match readFromStream (n - fromBuffer.length) s with
    | .ok fromStream s => .ok (fromBuffer ++ fromStream) s
    | .error e s => .error e s
  else
    .ok fromBuffer s

/-- `readable_bytes(n)`: whether `n` octets can be read from here. Octets that
had to be fetched stay in the buffer; after a short read they are lost. -/
def readableBytes (s : BufferedStream) (n : Nat) : Bool × BufferedStream :=
  let buffered := if s.lookAheadPos < s.buffer.length
    then s.buffer.length - s.lookAheadPos else 0
  if n ≤ buffered then
    (true, s)
  else
    match s.stream.read (n - buffered) with
    | (some buf, stream) => (true, { s with stream := stream, buffer := s.buffer ++ buf })
    | (none, stream) => (false, { s with stream := stream })

/-- `is_peeking()`. -/
def isPeeking (s : BufferedStream) : Bool := 0 < s.peekCount

/-- `start_peek()`: the token to end the peek with. -/
def startPeek (s : BufferedStream) : Nat × BufferedStream :=
  (s.lookAheadPos, { s with peekCount := s.peekCount + 1 })

/-- `end_peek(pos, commit)`. -/
def endPeek (token : Nat) (commit : Bool) (s : BufferedStream) : BufferedStream :=
  let s := { s with peekCount := s.peekCount - 1 }
  if commit then s else { s with lookAheadPos := token }

/-- The octets ahead of the read position. -/
def unread (s : BufferedStream) : Octets := s.buffer.drop s.lookAheadPos ++ s.stream.unread

/-! ## The stream is a cursor -/

/-- A started peek: the token of `startPeek` and the position it was started at. -/
structure Peek where
  token : Nat
  pos : Nat

/-- Ending the peek `p` without committing puts the cursor at `p.pos`. -/
structure Restorable (d : Octets) (s : BufferedStream) (p : Peek) : Prop where
  token_le : p.token ≤ s.buffer.length
  pos_eq : p.pos = s.realPos + p.token
  pos_le : p.pos ≤ d.length
  ahead : s.buffer.drop p.token ++ s.stream.unread = d.drop p.pos

/-- `s` is a cursor at `s.pos` over `d` with the peeks `saved` open, the
innermost first. -/
structure Represents (saved : List Peek) (d : Octets) (s : BufferedStream) : Prop where
  lookAhead_le : s.lookAheadPos ≤ s.buffer.length
  pos_le : s.pos ≤ d.length
  ahead : s.unread = d.drop s.pos
  peekCount_eq : s.peekCount = saved.length
  restorable : ∀ p ∈ saved, Restorable d s p

variable {saved : List Peek} {d : Octets} {s : BufferedStream}

theorem represents_ofOctets (d : Octets) :
    Represents [] d (ofStream (OctetSpanIstream.ofOctets d)) where
  lookAhead_le := by simp [ofStream]
  pos_le := by simp [ofStream, pos]
  ahead := by simp [ofStream, unread, pos]
  peekCount_eq := rfl
  restorable := by simp

theorem Represents.length_unread (h : Represents saved d s) :
    s.unread.length = d.length - s.pos := by
  rw [h.ahead, List.length_drop]

/-- The octets ahead that the buffer does not hold. -/
theorem Represents.length_stream (h : Represents saved d s) :
    s.stream.unread.length = d.length - s.pos - (s.buffer.length - s.lookAheadPos) := by
  have := h.length_unread
  simp only [unread, List.length_append, List.length_drop] at this
  omega

/-- Reading `n` octets from the buffer. -/
theorem readFromBuffer_spec (h : Represents saved d s) (n : Nat) :
    let r := s.readFromBuffer n
    r.1 = (s.buffer.drop s.lookAheadPos).take n ∧ Represents saved d r.2 ∧
      r.2.pos = s.pos + r.1.length ∧ r.2.stream = s.stream ∧ r.2.peekCount = s.peekCount ∧
      r.2.buffer.length - r.2.lookAheadPos = s.buffer.length - s.lookAheadPos - r.1.length := by
  have hla := h.lookAhead_le
  have hpos := h.pos_le
  have hlen := h.length_unread
  simp only [unread, List.length_append, List.length_drop] at hlen
  have htake : (s.buffer.drop s.lookAheadPos).take
      (min n (s.buffer.length - s.lookAheadPos)) = (s.buffer.drop s.lookAheadPos).take n := by
    have := List.take_eq_take_min (l := s.buffer.drop s.lookAheadPos) (i := n)
    rw [this, List.length_drop]
  simp only [readFromBuffer]
  split
  · rename_i hlt
    split
    · -- the buffer is used up outside a peek
      rename_i hdrop
      obtain ⟨hpeek, hall⟩ := hdrop
      refine ⟨htake, ⟨by simp, ?_, ?_, h.peekCount_eq, ?_⟩, ?_, rfl, rfl, ?_⟩
      · simp only [pos] at hpos hlen ⊢
        omega
      · have hahead := h.ahead
        simp only [unread, pos] at hahead ⊢
        simp only [List.drop_nil, List.nil_append, Nat.add_zero]
        have hdrop := congrArg (List.drop (s.buffer.length - s.lookAheadPos)) hahead
        rw [List.drop_append_of_le_length (by simp), List.drop_drop, List.drop_drop] at hdrop
        rw [List.drop_eq_nil_of_le (by omega), List.nil_append] at hdrop
        rw [hdrop]
        congr 1
        omega
      · have hnil : saved = [] := by
          have := h.peekCount_eq
          rw [hpeek] at this
          exact List.eq_nil_of_length_eq_zero this.symm
        simp [hnil]
      · simp only [pos, List.length_take, List.length_drop]
        omega
      · simp only [List.length_take, List.length_drop, List.length_nil]
        omega
    · refine ⟨htake, ⟨?_, ?_, ?_, h.peekCount_eq, ?_⟩, ?_, rfl, rfl, ?_⟩
      · dsimp only
        omega
      · simp only [pos] at hpos hlen ⊢
        omega
      · have hahead := h.ahead
        simp only [unread, pos] at hahead ⊢
        have hdrop := congrArg (List.drop (min n (s.buffer.length - s.lookAheadPos))) hahead
        rw [List.drop_append_of_le_length (by simp), List.drop_drop, List.drop_drop] at hdrop
        rw [hdrop]
        congr 1
        omega
      · intro p hp
        obtain ⟨h₁, h₂, h₃, h₄⟩ := h.restorable p hp
        exact ⟨h₁, h₂, h₃, h₄⟩
      · simp only [pos, List.length_take, List.length_drop]
        omega
      · simp only [List.length_take, List.length_drop]
        omega
  · rename_i hge
    have hempty : s.buffer.drop s.lookAheadPos = [] := List.drop_eq_nil_of_le (by omega)
    refine ⟨by simp [hempty], h, by simp, rfl, rfl, by simp⟩

/-- A read that fits the underlying stream, where the buffer is used up. -/
theorem readFromStream_of_le (h : Represents saved d s)
    (hused : s.lookAheadPos = s.buffer.length) {n : Nat} (hn : n ≤ s.stream.unread.length) :
    ∃ s', readFromStream n s = .ok (s.stream.unread.take n) s' ∧ Represents saved d s' ∧
      s'.pos = s.pos + n := by
  obtain ⟨hbuf, hrest⟩ := OctetSpanIstream.read_of_le hn
  have hahead : s.stream.unread = d.drop s.pos := by
    have := h.ahead
    rwa [unread, hused, List.drop_length, List.nil_append] at this
  have hpos : s.pos + n ≤ d.length := by
    have := h.pos_le
    rw [hahead, List.length_drop] at hn
    omega
  have hdrop : s.stream.unread.drop n = d.drop (s.pos + n) := by
    rw [hahead, List.drop_drop]
  have hlen : (s.stream.unread.take n).length = n := by
    rw [List.length_take]
    omega
  cases hr : s.stream.read n with
  | mk buf stream =>
      rw [hr] at hbuf hrest
      simp only at hbuf hrest
      subst hbuf
      by_cases hpeek : s.peekCount ≠ 0
      · have hrun : readFromStream n s = .ok (s.stream.unread.take n)
            { s with stream := stream, buffer := s.buffer ++ s.stream.unread.take n,
                     lookAheadPos := s.lookAheadPos + n } := by
          simp only [readFromStream, hr, if_pos hpeek]
        refine ⟨_, hrun, ⟨?_, ?_, ?_, h.peekCount_eq, ?_⟩, ?_⟩
        · simp only [List.length_append, hlen]
          omega
        · simp only [pos] at hpos ⊢
          omega
        · have hall : (s.buffer ++ s.stream.unread.take n).drop (s.lookAheadPos + n) = [] := by
            apply List.drop_eq_nil_of_le
            simp only [List.length_append, hlen]
            omega
          simp only [unread, hall, List.nil_append, hrest, hdrop, pos, Nat.add_assoc]
        · intro p hp
          obtain ⟨h₁, h₂, h₃, h₄⟩ := h.restorable p hp
          refine ⟨?_, h₂, h₃, ?_⟩
          · simp only [List.length_append]
            omega
          · simp only [hrest]
            rw [List.drop_append_of_le_length h₁, List.append_assoc, List.take_append_drop]
            exact h₄
        · simp only [pos]
          omega
      · have hrun : readFromStream n s = .ok (s.stream.unread.take n)
            { s with stream := stream, realPos := s.realPos + n } := by
          simp only [readFromStream, hr, if_neg hpeek]
        have hnil : saved = [] := by
          have := h.peekCount_eq
          exact List.eq_nil_of_length_eq_zero (by omega)
        refine ⟨_, hrun, ⟨h.lookAhead_le, ?_, ?_, h.peekCount_eq, by simp [hnil]⟩, ?_⟩
        · simp only [pos] at hpos ⊢
          omega
        · have hposn : s.realPos + n + s.lookAheadPos = s.pos + n := by
            simp only [pos]
            omega
          have hnone : s.buffer.drop s.lookAheadPos = [] := by rw [hused, List.drop_length]
          change s.buffer.drop s.lookAheadPos ++ stream.unread =
            d.drop (s.realPos + n + s.lookAheadPos)
          rw [hnone, List.nil_append, hrest, hdrop, hposn]
        · simp only [pos]
          omega

/-- A read that fits returns the next `n` octets and moves past them. -/
theorem read_of_le (h : Represents saved d s) {n : Nat} (hn : s.pos + n ≤ d.length) :
    ∃ s', read n s = .ok ((d.drop s.pos).take n) s' ∧ Represents saved d s' ∧
      s'.pos = s.pos + n := by
  obtain ⟨hout, hrep, hpos, hstream, -, hrest⟩ := readFromBuffer_spec h n
  cases hr : s.readFromBuffer n with
  | mk out t =>
      rw [hr] at hout hrep hpos hstream hrest
      simp only at hout hrep hpos hstream hrest
      have hunread : d.drop s.pos = s.buffer.drop s.lookAheadPos ++ s.stream.unread :=
        h.ahead.symm
      by_cases hall : out.length = n
      · refine ⟨t, ?_, hrep, by omega⟩
        have hn' : n ≤ (s.buffer.drop s.lookAheadPos).length := by
          rw [← hall, hout, List.length_take]
          omega
        rw [hunread, List.take_append_of_le_length hn', ← hout]
        simp [read, hr, hall]
      · -- the rest comes from the stream, and the buffer is used up
        have hlen : out.length = s.buffer.length - s.lookAheadPos := by
          rw [hout, List.length_take, List.length_drop] at hall ⊢
          omega
        have hlt : s.buffer.length - s.lookAheadPos < n := by
          rw [hout, List.length_take, List.length_drop] at hall
          omega
        have hused : t.lookAheadPos = t.buffer.length := by
          have := hrep.lookAhead_le
          omega
        have hfit : n - out.length ≤ t.stream.unread.length := by
          have := hrep.length_stream
          omega
        obtain ⟨t', hrun, hrep', hpos'⟩ := readFromStream_of_le hrep hused hfit
        refine ⟨t', ?_, hrep', by omega⟩
        have hdrop : s.buffer.drop s.lookAheadPos = out := by
          rw [hout, List.take_of_length_le]
          rw [List.length_drop]
          omega
        rw [hunread, hdrop, List.take_append, List.take_of_length_le (by omega : out.length ≤ n)]
        simp only [read, hr, ne_eq, hall, not_false_eq_true, if_true, hrun, hstream]

/-- A read past the end throws. -/
theorem read_of_lt (h : Represents saved d s) {n : Nat} (hn : d.length < s.pos + n) :
    ∃ s', read n s = .error Error.endOfStream s' := by
  obtain ⟨hout, hrep, hpos, hstream, -, hrest⟩ := readFromBuffer_spec h n
  cases hr : s.readFromBuffer n with
  | mk out t =>
      rw [hr] at hout hrep hpos hstream hrest
      simp only at hout hrep hpos hstream hrest
      have hle := hrep.pos_le
      have hlen : out.length ≤ n := by
        rw [hout, List.length_take]
        omega
      have hall : out.length ≠ n := by omega
      have hshort : t.stream.unread.length < n - out.length := by
        have := hrep.length_stream
        omega
      obtain ⟨hnone, -⟩ := OctetSpanIstream.read_of_lt hshort
      cases hrs : t.stream.read (n - out.length) with
      | mk buf stream =>
          rw [hrs] at hnone
          simp only at hnone
          subst hnone
          exact ⟨{ t with stream := stream }, by
            simp only [read, hr, ne_eq, hall, not_false_eq_true, if_true, readFromStream, hrs]⟩

/-- Asking whether `n` octets are readable answers for the cursor; when they
are, nothing changes for the reader. -/
theorem readableBytes_of_le (h : Represents saved d s) {n : Nat} (hn : s.pos + n ≤ d.length) :
    ∃ s', s.readableBytes n = (true, s') ∧ Represents saved d s' ∧ s'.pos = s.pos := by
  have hla := h.lookAhead_le
  have hbuffered : (if s.lookAheadPos < s.buffer.length
      then s.buffer.length - s.lookAheadPos else 0) = s.buffer.length - s.lookAheadPos := by
    split <;> omega
  by_cases hin : n ≤ s.buffer.length - s.lookAheadPos
  · exact ⟨s, by simp [readableBytes, hbuffered, hin], h, rfl⟩
  · have hfit : n - (s.buffer.length - s.lookAheadPos) ≤ s.stream.unread.length := by
      have := h.length_stream
      omega
    obtain ⟨hbuf, hrest⟩ := OctetSpanIstream.read_of_le hfit
    cases hr : s.stream.read (n - (s.buffer.length - s.lookAheadPos)) with
    | mk buf stream =>
        rw [hr] at hbuf hrest
        simp only at hbuf hrest
        subst hbuf
        refine ⟨{ s with
            stream := stream
            buffer := s.buffer ++ s.stream.unread.take (n - (s.buffer.length - s.lookAheadPos)) },
          by simp only [readableBytes, hbuffered, if_neg hin, hr],
          ⟨?_, h.pos_le, ?_, h.peekCount_eq, ?_⟩, rfl⟩
        · simp only [List.length_append]
          omega
        · have hahead := h.ahead
          simp only [unread, pos, hrest] at hahead ⊢
          rw [List.drop_append_of_le_length hla, List.append_assoc, List.take_append_drop]
          exact hahead
        · intro p hp
          obtain ⟨h₁, h₂, h₃, h₄⟩ := h.restorable p hp
          refine ⟨?_, h₂, h₃, ?_⟩
          · simp only [List.length_append]
            omega
          · simp only [hrest]
            rw [List.drop_append_of_le_length h₁, List.append_assoc, List.take_append_drop]
            exact h₄

/-- When `n` octets are not readable the answer is no; at the very end of the
octets nothing is lost by asking. -/
theorem readableBytes_of_lt (h : Represents saved d s) {n : Nat} (hn : d.length < s.pos + n) :
    ∃ s', s.readableBytes n = (false, s') ∧
      (s.pos = d.length → Represents saved d s' ∧ s'.pos = s.pos) := by
  have hla := h.lookAhead_le
  have hle := h.pos_le
  have hbuffered : (if s.lookAheadPos < s.buffer.length
      then s.buffer.length - s.lookAheadPos else 0) = s.buffer.length - s.lookAheadPos := by
    split <;> omega
  have hlen := h.length_unread
  simp only [unread, List.length_append, List.length_drop] at hlen
  have hin : ¬ n ≤ s.buffer.length - s.lookAheadPos := by omega
  have hshort : s.stream.unread.length < n - (s.buffer.length - s.lookAheadPos) := by omega
  obtain ⟨hnone, hrest⟩ := OctetSpanIstream.read_of_lt hshort
  cases hr : s.stream.read (n - (s.buffer.length - s.lookAheadPos)) with
  | mk buf stream =>
      rw [hr] at hnone hrest
      simp only at hnone hrest
      subst hnone
      refine ⟨{ s with stream := stream },
        by simp only [readableBytes, hbuffered, if_neg hin, hr], fun hend => ?_⟩
      have hnil : s.stream.unread = [] := List.eq_nil_of_length_eq_zero (by omega)
      refine ⟨⟨hla, hle, ?_, h.peekCount_eq, ?_⟩, rfl⟩
      · have hahead := h.ahead
        simpa only [unread, pos, hrest, hnil] using hahead
      · intro p hp
        obtain ⟨h₁, h₂, h₃, h₄⟩ := h.restorable p hp
        exact ⟨h₁, h₂, h₃, by simpa only [hrest, hnil] using h₄⟩

/-- A started peek can be ended at the present position. -/
theorem startPeek_spec (h : Represents saved d s) :
    Represents (⟨s.startPeek.1, s.pos⟩ :: saved) d s.startPeek.2 ∧
      s.startPeek.2.pos = s.pos := by
  refine ⟨⟨h.lookAhead_le, h.pos_le, h.ahead, ?_, ?_⟩, rfl⟩
  · simp [startPeek, h.peekCount_eq]
  · intro p hp
    rcases List.mem_cons.mp hp with rfl | hp
    · exact ⟨h.lookAhead_le, rfl, h.pos_le, h.ahead⟩
    · obtain ⟨h₁, h₂, h₃, h₄⟩ := h.restorable p hp
      exact ⟨h₁, h₂, h₃, h₄⟩

/-- Committing a peek leaves the cursor where it is. -/
theorem endPeek_commit {p : Peek} (h : Represents (p :: saved) d s) :
    Represents saved d (endPeek p.token true s) ∧ (endPeek p.token true s).pos = s.pos := by
  refine ⟨⟨h.lookAhead_le, h.pos_le, h.ahead, ?_, ?_⟩, rfl⟩
  · simp [endPeek, h.peekCount_eq]
  · intro q hq
    obtain ⟨h₁, h₂, h₃, h₄⟩ := h.restorable q (List.mem_cons_of_mem _ hq)
    exact ⟨h₁, h₂, h₃, h₄⟩

/-- Without commit the cursor goes back to where the peek was started. -/
theorem endPeek_restore {p : Peek} (h : Represents (p :: saved) d s) :
    Represents saved d (endPeek p.token false s) ∧ (endPeek p.token false s).pos = p.pos := by
  obtain ⟨htok, hpos, hle, hahead⟩ := h.restorable p (List.mem_cons_self ..)
  have hp : (endPeek p.token false s).pos = p.pos := by
    simp [endPeek, pos, hpos]
  refine ⟨⟨htok, by omega, ?_, ?_, ?_⟩, hp⟩
  · rw [hp, ← hahead]
    rfl
  · simp [endPeek, h.peekCount_eq]
  · intro q hq
    obtain ⟨h₁, h₂, h₃, h₄⟩ := h.restorable q (List.mem_cons_of_mem _ hq)
    exact ⟨h₁, h₂, h₃, h₄⟩

end BufferedStream

end Securepath.Serialisation
