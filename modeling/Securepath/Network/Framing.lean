import Securepath.Library.Machine
import Securepath.Network.TlsStream

/-!
# Framing

`encode_frame` and `frame_reader` (`network/encryption/framing.cpp`). The reader asks
the stream for what its frame still lacks; the stream gives some of it each time.
-/

namespace Securepath.Network

open Serialisation

/-- `max_frame_size`. -/
def maxFrameSize : Nat := 16 * 1024 * 1024

/-- `frame_header_size`. -/
def frameHeaderSize : Nat := 4

/-! ## The header -/

/-- The header of a payload of the size, as a `uint32_t`. -/
def frameHeader (size : Nat) : Octets :=
  let size := size % 2 ^ 32
  [UInt8.ofNat (size >>> 24), UInt8.ofNat (size >>> 16), UInt8.ofNat (size >>> 8), UInt8.ofNat size]

/-- `encode_frame`. -/
def encodeFrame (payload : Octets) : Octets := frameHeader payload.length ++ payload

/-- `decode_frame_length`. -/
def decodeFrameLength (header : Octets) : Nat :=
  let octet (i : Nat) := (header.getD i 0).toNat
  (octet 0 <<< 24) ||| (octet 1 <<< 16) ||| (octet 2 <<< 8) ||| octet 3

@[simp] theorem length_frameHeader (size : Nat) : (frameHeader size).length = frameHeaderSize := rfl

/-- The header is a `uint32_t`. -/
theorem decodeFrameLength_frameHeader (size : Nat) :
    decodeFrameLength (frameHeader size) = size % 2 ^ 32 := by
  have hlt : size % 2 ^ 32 < 2 ^ 32 := Nat.mod_lt _ (by decide)
  simp only [decodeFrameLength, frameHeader, List.getD_cons_zero, List.getD_cons_succ,
    UInt8.toNat_ofNat', Nat.shiftRight_eq_div_pow]
  generalize size % 2 ^ 32 = n at hlt
  rw [Nat.or_assoc, Nat.or_assoc]
  rw [← Nat.shiftLeft_add_eq_or_of_lt (i := 8) (by omega)]
  rw [← Nat.shiftLeft_add_eq_or_of_lt (i := 16) (by simp only [Nat.shiftLeft_eq]; omega)]
  rw [← Nat.shiftLeft_add_eq_or_of_lt (i := 24) (by simp only [Nat.shiftLeft_eq]; omega)]
  simp only [Nat.shiftLeft_eq]
  omega

/-! ## `frame_reader` -/

structure FrameReader where
  buffer : Octets
  received : Nat
  expected : Nat
  maxPayload : Nat
  headerDone : Bool
  busy : Bool
deriving DecidableEq, Repr

/-- `resize`. -/
def resize (o : Octets) (n : Nat) : Octets := o.take n ++ List.replicate (n - o.length) 0

namespace FrameReader

/-- The constructor. -/
def init : FrameReader where
  buffer := List.replicate frameHeaderSize 0
  received := 0
  expected := frameHeaderSize
  maxPayload := maxFrameSize
  headerDone := false
  busy := false

variable (r : FrameReader)

/-- `async_receive_frame`, when the reader is not busy. -/
def receiveFrame : FrameReader :=
  { r with
    busy := true
    received := 0
    expected := frameHeaderSize
    headerDone := false
    buffer := resize r.buffer frameHeaderSize }

/-- The octets that `read_more` asks for. -/
def request : Nat := r.expected - r.received

/-- `complete`; the handler gets what is in the buffer. -/
def complete (ec : Option Code) : FrameReader × Option (Except Code Octets) :=
  match ec with
  | some ec => ({ r with busy := false }, some (.error ec))
  | none => ({ r with busy := false, buffer := [] }, some (.ok r.buffer))

/-- What the stream has read, in the buffer and counted. -/
def write (data : Octets) : FrameReader :=
  { r with
    buffer := r.buffer.take r.received ++ data ++ r.buffer.drop (r.received + data.length)
    received := r.received + data.length }

/-- `on_read`; without a result, `read_more` is called again. -/
def onRead (data : Octets) : FrameReader × Option (Except Code Octets) :=
  let r := r.write data
  if r.received < r.expected then (r, none)
  else if r.headerDone then r.complete none
  else
    let length := decodeFrameLength r.buffer
    if r.maxPayload < length then r.complete (some .invalidRecord)
    else
      let r := { r with
        headerDone := true
        received := 0
        expected := length
        buffer := resize r.buffer length }
      if length = 0 then r.complete none else (r, none)

end FrameReader

/-! ## Receiving from a stream -/

/-- A reader, what the stream has still to give, and what the handlers got. -/
structure Receiver where
  reader : FrameReader
  input : Octets
  results : List (Except Code Octets)

inductive ReceiveAction where
  | setMaxFrameSize (max : Nat)
  | receiveFrame
  /-- the stream gives the next `n` octets -/
  | read (n : Nat)
  | fail (ec : Code)

namespace Receiver

def start (input : Octets) : Receiver := ⟨.init, input, []⟩

/-- The reader goes on, or its handler is invoked. -/
def advance (s : Receiver) (p : FrameReader × Option (Except Code Octets)) : Receiver :=
  { s with reader := p.1, results := s.results ++ p.2.toList }

/-- A read gives at least one octet, and no more than was asked for. -/
def step : ReceiveAction → Receiver → Option Receiver
  | .setMaxFrameSize max, s => some { s with reader := { s.reader with maxPayload := max } }
  | .receiveFrame, s =>
      -- while the reader is busy the handler gets `operation_in_progress`
      if s.reader.busy then some s else some { s with reader := s.reader.receiveFrame }
  | .read n, s =>
      if s.reader.busy ∧ 0 < n ∧ n ≤ s.reader.request ∧ n ≤ s.input.length then
        some (advance { s with input := s.input.drop n } (s.reader.onRead (s.input.take n)))
      else none
  | .fail ec, s =>
      if s.reader.busy then some (s.advance (s.reader.complete (some ec))) else none

/-! ## The frames -/

/-- The payloads come in their order, and the reader asks for no octet behind the
frame that it receives. -/
structure Receives (payloads : List Octets) (s : Receiver) : Prop where
  results : s.results = (payloads.take s.results.length).map .ok
  between : s.reader.busy = false →
    s.input = (payloads.drop s.results.length).flatMap encodeFrame
  within : s.reader.busy = true → s.results.length < payloads.length →
    ∃ rest, s.input = rest ++ (payloads.drop (s.results.length + 1)).flatMap encodeFrame ∧
      0 < s.reader.request ∧ s.reader.request ≤ rest.length

/-- The reads succeed, and the cap is changed between the frames only, to no less
than the next payload. -/
def Capped (payloads : List Octets) : ReceiveAction → Receiver → Prop
  | .setMaxFrameSize _, s => s.reader.busy = false
  | .receiveFrame, s => ∀ p, payloads[s.results.length]? = some p → p.length ≤ s.reader.maxPayload
  | .read _, _ => True
  | .fail _, _ => False

/-- The reader fills its buffer with `target`, behind which the stream has `rest`. -/
structure Filling (r : FrameReader) (target rest input : Octets) : Prop where
  buffer_length : r.buffer.length = target.length
  expected_eq : r.expected = target.length
  received_lt : r.received < target.length
  filled : r.buffer.take r.received = target.take r.received
  input_eq : input = target.drop r.received ++ rest

variable {r : FrameReader} {target rest input : Octets} {n : Nat}

theorem Filling.take_input (h : Filling r target rest input) (hn : n ≤ r.request) :
    input.take n = (target.drop r.received).take n := by
  rw [FrameReader.request, h.expected_eq] at hn
  rw [h.input_eq, List.take_append_of_le_length (by rw [List.length_drop]; exact hn)]

theorem Filling.length_take (h : Filling r target rest input) (hn : n ≤ r.request) :
    (input.take n).length = n := by
  rw [h.take_input hn, List.length_take, List.length_drop]
  rw [FrameReader.request, h.expected_eq] at hn
  omega

theorem Filling.filled_write (h : Filling r target rest input) (hn : n ≤ r.request) :
    (r.write (input.take n)).buffer.length = target.length ∧
      (r.write (input.take n)).buffer.take (r.received + n) = target.take (r.received + n) ∧
      input.drop n = target.drop (r.received + n) ++ rest := by
  have hdata := h.length_take hn
  have hlt := h.received_lt
  have hlength := h.buffer_length
  have htake : (r.buffer.take r.received ++ input.take n).length = r.received + n := by
    rw [List.length_append, List.length_take, hdata]
    omega
  rw [FrameReader.request, h.expected_eq] at hn
  refine ⟨?_, ?_, ?_⟩
  · simp only [FrameReader.write, List.length_append, List.length_take, List.length_drop, hdata]
    omega
  · show (r.buffer.take r.received ++ input.take n ++ _).take (r.received + n) = _
    rw [List.take_append_of_le_length (by rw [htake]), List.take_of_length_le (by rw [htake]),
      h.filled, h.take_input (by rw [FrameReader.request, h.expected_eq]; exact hn),
      ← List.take_add]
  · rw [h.input_eq, List.drop_append_of_le_length (by rw [List.length_drop]; exact hn),
      List.drop_drop]

theorem Filling.received_write (h : Filling r target rest input) (hn : n ≤ r.request) :
    (r.write (input.take n)).received = r.received + n := by
  rw [FrameReader.write, h.length_take hn]

/-- A read that fills some of the buffer. -/
theorem Filling.write (h : Filling r target rest input) (hn : n ≤ r.request)
    (hmore : r.received + n < target.length) :
    Filling (r.write (input.take n)) target rest (input.drop n) := by
  rcases h.filled_write hn with ⟨hlength, hfilled, hinput⟩
  have hreceived := h.received_write hn
  constructor
  · exact hlength
  · exact h.expected_eq
  · rw [hreceived]
    exact hmore
  · rw [hreceived]
    exact hfilled
  · rw [hreceived]
    exact hinput

/-- A read that fills all of it. -/
theorem Filling.complete (h : Filling r target rest input) (hn : n ≤ r.request)
    (hall : ¬ r.received + n < target.length) :
    (r.write (input.take n)).buffer = target ∧ input.drop n = rest := by
  rcases h.filled_write hn with ⟨hlength, hfilled, hinput⟩
  have hbuffer : (r.write (input.take n)).buffer.take (r.received + n) =
      (r.write (input.take n)).buffer := List.take_of_length_le (by omega)
  have htarget : target.take (r.received + n) = target := List.take_of_length_le (by omega)
  have hdrop : target.drop (r.received + n) = [] := List.drop_eq_nil_of_le (by omega)
  rw [hbuffer, htarget] at hfilled
  rw [hdrop, List.nil_append] at hinput
  exact ⟨hfilled, hinput⟩

/-- The frame that is being received. -/
def InFrame (payload more : Octets) (s : Receiver) : Prop :=
  (s.reader.headerDone = false ∧ payload.length ≤ s.reader.maxPayload ∧
      Filling s.reader (frameHeader payload.length) (payload ++ more) s.input) ∨
    (s.reader.headerDone = true ∧ Filling s.reader payload more s.input)

structure ReceiveInv (payloads : List Octets) (s : Receiver) : Prop where
  results : s.results = (payloads.take s.results.length).map .ok
  between : s.reader.busy = false →
    s.input = (payloads.drop s.results.length).flatMap encodeFrame
  frame : s.reader.busy = true → ∀ p, payloads[s.results.length]? = some p →
    InFrame p ((payloads.drop (s.results.length + 1)).flatMap encodeFrame) s
  behind : s.reader.busy = true → payloads.length ≤ s.results.length → s.input = []

variable {payloads : List Octets} {s t : Receiver}

theorem length_resize (o : Octets) (n : Nat) : (resize o n).length = n := by
  rw [resize, List.length_append, List.length_take, List.length_replicate]
  omega

/-- What is left of a list behind one more of its members. -/
theorem drop_eq_cons {l : List Octets} {n : Nat} {p : Octets} (h : l[n]? = some p) :
    l.drop n = p :: l.drop (n + 1) := by
  rcases List.getElem?_eq_some_iff.mp h with ⟨hlt, rfl⟩
  exact List.drop_eq_getElem_cons hlt

theorem map_take_succ {l : List Octets} {n : Nat} {p : Octets} (h : l[n]? = some p) :
    (l.take (n + 1)).map (Except.ok (ε := Code)) = (l.take n).map .ok ++ [.ok p] := by
  rw [List.take_add_one, h, List.map_append]
  rfl

theorem ReceiveInv.receiveFrame (h : ReceiveInv payloads s) (hidle : s.reader.busy = false)
    (hcap : Capped payloads .receiveFrame s) :
    ReceiveInv payloads { s with reader := s.reader.receiveFrame } := by
  have hinput := h.between hidle
  constructor
  · exact h.results
  · intro hfalse
    cases hfalse
  · intro _ p hp
    refine Or.inl ⟨rfl, hcap p hp, ?_⟩
    constructor
    · exact length_resize _ _
    · rfl
    · exact Nat.zero_lt_succ _
    · rfl
    · show s.input = _
      rw [hinput, drop_eq_cons hp, List.flatMap_cons, encodeFrame, List.append_assoc]
      rfl
  · intro _ hle
    show s.input = []
    rw [hinput, List.drop_eq_nil_of_le hle]
    rfl

/-- A payload is handed over. -/
theorem ReceiveInv.deliver (h : ReceiveInv payloads s) {p : Octets} {r : FrameReader}
    (hp : payloads[s.results.length]? = some p) (hidle : r.busy = false)
    (hinput : input = (payloads.drop (s.results.length + 1)).flatMap encodeFrame) :
    ReceiveInv payloads ⟨r, input, s.results ++ [.ok p]⟩ := by
  have hlength : (s.results ++ [Except.ok (ε := Code) p]).length = s.results.length + 1 := by
    rw [List.length_append, List.length_singleton]
  constructor
  · show s.results ++ [Except.ok p] =
      (payloads.take (s.results ++ [Except.ok (ε := Code) p]).length).map .ok
    rw [hlength, map_take_succ hp, ← h.results]
  · intro _
    show input =
      (payloads.drop (s.results ++ [Except.ok (ε := Code) p]).length).flatMap encodeFrame
    rw [hlength]
    exact hinput
  · intro hbusy
    exact absurd (hidle.symm.trans hbusy) (by decide)
  · intro hbusy
    exact absurd (hidle.symm.trans hbusy) (by decide)

/-- The reader is still in the frame. -/
theorem ReceiveInv.stay (h : ReceiveInv payloads s) {p : Octets} {r : FrameReader}
    (hp : payloads[s.results.length]? = some p) (hbusy : r.busy = true)
    (hframe : InFrame p ((payloads.drop (s.results.length + 1)).flatMap encodeFrame)
      ⟨r, input, s.results⟩) :
    ReceiveInv payloads ⟨r, input, s.results⟩ := by
  constructor
  · exact h.results
  · intro hidle
    exact absurd (hbusy.symm.trans hidle) (by decide)
  · intro _ q hq
    obtain rfl := Option.some.inj (hp.symm.trans hq)
    exact hframe
  · intro _ hle
    rw [List.getElem?_eq_none hle] at hp
    cases hp

theorem ReceiveInv.read (h : ReceiveInv payloads s) (hsizes : ∀ p ∈ payloads, p.length < 2 ^ 32)
    {n : Nat} (hbusy : s.reader.busy = true) (hpos : 0 < n) (hn : n ≤ s.reader.request)
    (hle : n ≤ s.input.length) :
    ReceiveInv payloads
      (advance { s with input := s.input.drop n } (s.reader.onRead (s.input.take n))) := by
  -- behind the last frame the input is empty, and a read takes at least one octet
  have hlt : s.results.length < payloads.length := by
    by_contra hge
    rw [h.behind hbusy (Nat.le_of_not_lt hge)] at hle
    exact absurd (Nat.le_zero.mp hle) (Nat.ne_of_gt hpos)
  have hp : payloads[s.results.length]? = some payloads[s.results.length] :=
    List.getElem?_eq_getElem hlt
  have hsize := hsizes _ (List.getElem_mem hlt)
  generalize payloads[s.results.length] = p at hp hsize
  unfold FrameReader.onRead
  simp only
  rcases h.frame hbusy p hp with ⟨hheader, hcap, hfill⟩ | ⟨hheader, hfill⟩
  · -- the header, which may end with this read
    have hreceived := hfill.received_write hn
    split
    next hmore =>
      rw [hreceived] at hmore
      have hmore : s.reader.received + n < (frameHeader p.length).length := by
        rw [← hfill.expected_eq]
        exact hmore
      simp only [advance, Option.toList_none, List.append_nil]
      exact h.stay hp hbusy (Or.inl ⟨hheader, hcap, hfill.write hn hmore⟩)
    next hall =>
      rw [hreceived] at hall
      have hall : ¬ s.reader.received + n < (frameHeader p.length).length := by
        rw [← hfill.expected_eq]
        exact hall
      rcases hfill.complete hn hall with ⟨hbuffer, hinput⟩
      have hnot : ¬ (s.reader.write (s.input.take n)).headerDone = true := by
        show ¬ s.reader.headerDone = true
        rw [hheader]
        decide
      have hcap : ¬ (s.reader.write (s.input.take n)).maxPayload < p.length := Nat.not_lt.mpr hcap
      have hdecode : decodeFrameLength (s.reader.write (s.input.take n)).buffer = p.length := by
        rw [hbuffer, decodeFrameLength_frameHeader, Nat.mod_eq_of_lt hsize]
      rw [if_neg hnot, hdecode, if_neg hcap]
      split
      -- an empty frame ends with its header, the others go on in the resized buffer
      next hempty =>
        obtain rfl := List.eq_nil_of_length_eq_zero hempty
        simp only [FrameReader.complete, advance, Option.toList_some]
        have hnil : resize (s.reader.write (s.input.take n)).buffer ([] : Octets).length = [] :=
          List.eq_nil_of_length_eq_zero (length_resize _ _)
        rw [hnil]
        exact h.deliver hp rfl hinput
      next hne =>
        simp only [advance, Option.toList_none, List.append_nil]
        refine h.stay hp hbusy (Or.inr ⟨rfl, ?_⟩)
        constructor
        · exact length_resize _ _
        · rfl
        · exact Nat.pos_of_ne_zero hne
        · rfl
        · exact hinput
  · -- the payload
    have hreceived := hfill.received_write hn
    split
    next hmore =>
      rw [hreceived] at hmore
      have hmore : s.reader.received + n < p.length := by
        rw [← hfill.expected_eq]
        exact hmore
      simp only [advance, Option.toList_none, List.append_nil]
      exact h.stay hp hbusy (Or.inr ⟨hheader, hfill.write hn hmore⟩)
    next hall =>
      rw [hreceived] at hall
      have hall : ¬ s.reader.received + n < p.length := by
        rw [← hfill.expected_eq]
        exact hall
      rcases hfill.complete hn hall with ⟨hbuffer, hinput⟩
      have hdone : (s.reader.write (s.input.take n)).headerDone = true := hheader
      rw [if_pos hdone]
      simp only [FrameReader.complete, advance, Option.toList_some, hbuffer]
      exact h.deliver hp rfl hinput

theorem ReceiveInv.step {a : ReceiveAction} (h : ReceiveInv payloads s)
    (hsizes : ∀ p ∈ payloads, p.length < 2 ^ 32) (hgood : Capped payloads a s)
    (hstep : step a s = some t) : ReceiveInv payloads t := by
  cases a with
  | setMaxFrameSize max =>
      obtain rfl := Option.some.inj hstep
      constructor
      · exact h.results
      · exact h.between
      -- the cap changes between frames only
      · exact fun hbusy => absurd (hgood.symm.trans hbusy) (by decide)
      · exact h.behind
  | receiveFrame =>
      simp only [Receiver.step] at hstep
      split at hstep
      next =>
        obtain rfl := Option.some.inj hstep
        exact h
      next hidle =>
        obtain rfl := Option.some.inj hstep
        exact h.receiveFrame (Bool.not_eq_true _ ▸ hidle) hgood
  | read n =>
      simp only [Receiver.step, Option.ite_none_right_eq_some, Option.some.injEq] at hstep
      rcases hstep with ⟨⟨hbusy, hpos, hn, hle⟩, rfl⟩
      exact h.read hsizes hbusy hpos hn hle
  | fail ec => exact hgood.elim

/-! ## A header over the cap -/

/-- While the header is read, the buffer has room for it alone. -/
def HeaderRoom (s : Receiver) : Prop :=
  s.reader.busy = true → s.reader.headerDone = false →
    s.reader.buffer.length = frameHeaderSize ∧ s.reader.expected = frameHeaderSize

/-- A read that completes the header of a payload over the cap ends the frame, with
the buffer as it was. -/
def RefusesOversize (s : Receiver) : Prop :=
  ∀ n t, Receiver.step (.read n) s = some t → s.reader.headerDone = false →
    s.reader.received + n = frameHeaderSize →
    s.reader.maxPayload < decodeFrameLength (s.reader.write (s.input.take n)).buffer →
    t.results = s.results ++ [.error .invalidRecord] ∧ t.reader.busy = false ∧
      t.reader.buffer.length = frameHeaderSize

theorem length_buffer_write {data : Octets}
    (h : r.received + data.length ≤ r.buffer.length) :
    (r.write data).buffer.length = r.buffer.length := by
  simp only [FrameReader.write, List.length_append, List.length_take, List.length_drop]
  omega

/-- A read while the header is read leaves the buffer its size. -/
theorem HeaderRoom.length_write (h : HeaderRoom s) (hbusy : s.reader.busy = true)
    (hheader : s.reader.headerDone = false) {n : Nat} (hpos : 0 < n) (hn : n ≤ s.reader.request)
    (hle : n ≤ s.input.length) :
    (s.reader.write (s.input.take n)).buffer.length = frameHeaderSize ∧
      (s.reader.write (s.input.take n)).received = s.reader.received + n := by
  rcases h hbusy hheader with ⟨hbuffer, hexpected⟩
  have hlength : (s.input.take n).length = n := List.length_take_of_le hle
  rw [FrameReader.request, hexpected] at hn
  constructor
  · rw [length_buffer_write, hbuffer]
    rw [hlength, hbuffer]
    omega
  · rw [FrameReader.write, hlength]

theorem HeaderRoom.step {a : ReceiveAction} (h : HeaderRoom s) (hstep : step a s = some t) :
    HeaderRoom t := by
  cases a with
  | setMaxFrameSize max =>
      obtain rfl := Option.some.inj hstep
      exact h
  | receiveFrame =>
      simp only [Receiver.step] at hstep
      split at hstep
      next =>
        obtain rfl := Option.some.inj hstep
        exact h
      next =>
        obtain rfl := Option.some.inj hstep
        exact fun _ _ => ⟨length_resize _ _, rfl⟩
  | read n =>
      simp only [Receiver.step, Option.ite_none_right_eq_some, Option.some.injEq] at hstep
      rcases hstep with ⟨⟨hbusy, hpos, hn, hle⟩, rfl⟩
      intro hstill hheader
      unfold FrameReader.onRead at hstill hheader ⊢
      simp only at hstill hheader ⊢
      split at hstill
      next hmore =>
        rw [if_pos hmore] at hheader ⊢
        exact ⟨(h.length_write hbusy hheader hpos hn hle).1, (h hbusy hheader).2⟩
      next hall =>
        rw [if_neg hall] at hheader
        split at hstill
        next => cases hstill
        next hdone =>
          rw [if_neg hdone] at hheader
          split at hstill
          next => cases hstill
          next hcap =>
            rw [if_neg hcap] at hheader
            split at hstill
            next => cases hstill
            next hne =>
              rw [if_neg hne] at hheader
              cases hheader
  | fail ec =>
      simp only [Receiver.step, Option.ite_none_right_eq_some, Option.some.injEq] at hstep
      rcases hstep with ⟨_, rfl⟩
      intro hfalse
      cases hfalse

theorem HeaderRoom.refusesOversize (h : HeaderRoom s) : RefusesOversize s := by
  intro n t hstep hheader hcomplete hcap
  simp only [Receiver.step, Option.ite_none_right_eq_some, Option.some.injEq] at hstep
  rcases hstep with ⟨⟨hbusy, hpos, hn, hle⟩, rfl⟩
  rcases h.length_write hbusy hheader hpos hn hle with ⟨hbuffer, hreceived⟩
  have hall : ¬ (s.reader.write (s.input.take n)).received <
      (s.reader.write (s.input.take n)).expected := by
    have hexpected : (s.reader.write (s.input.take n)).expected = frameHeaderSize :=
      (h hbusy hheader).2
    rw [hreceived, hcomplete, hexpected]
    exact Nat.lt_irrefl _
  have hdone : ¬ (s.reader.write (s.input.take n)).headerDone = true := by
    show ¬ s.reader.headerDone = true
    rw [hheader]
    decide
  have hcap : (s.reader.write (s.input.take n)).maxPayload <
      decodeFrameLength (s.reader.write (s.input.take n)).buffer := hcap
  unfold FrameReader.onRead
  simp only
  rw [if_neg hall, if_neg hdone, if_pos hcap]
  exact ⟨rfl, rfl, hbuffer⟩

/-! ## Every run -/

theorem receiveInv_start (payloads : List Octets) :
    ReceiveInv payloads (start (payloads.flatMap encodeFrame)) := by
  constructor
  · rfl
  · exact fun _ => rfl
  · intro hfalse
    cases hfalse
  · intro hfalse
    cases hfalse

/-- However the stream is cut, the reader gets the payloads of the frames; and it makes
no room for a payload over the cap, whatever the stream holds. -/
theorem receive_frames {payloads : List Octets} {as : List ReceiveAction} {s : Receiver}
    (hsizes : ∀ p ∈ payloads, p.length < 2 ^ 32)
    (hgood : Machine.EachStep step (Capped payloads) as (start (payloads.flatMap encodeFrame)))
    (hrun : Machine.run step as (start (payloads.flatMap encodeFrame)) = some s) :
    Receives payloads s ∧ ∀ (input : Octets) (bs : List ReceiveAction) (t : Receiver),
      Machine.run step bs (start input) = some t → RefusesOversize t := by
  constructor
  · have h := @Machine.invariant _ _ step (Capped payloads) (ReceiveInv payloads)
      (fun _ _ _ hgood hinv hstep => hinv.step hsizes hgood hstep) as _ s hgood
      (receiveInv_start payloads) hrun
    refine ⟨h.results, h.between, ?_⟩
    intro hbusy hlt
    -- what is left of the frame: of the header with the payload, or of the payload
    rcases h.frame hbusy _ (List.getElem?_eq_getElem hlt) with ⟨_, _, hfill⟩ | ⟨_, hfill⟩
    · refine ⟨(frameHeader payloads[s.results.length].length).drop s.reader.received ++
        payloads[s.results.length], ?_, ?_, ?_⟩
      · rw [hfill.input_eq, List.append_assoc]
      · rw [FrameReader.request, hfill.expected_eq]
        exact Nat.sub_pos_of_lt hfill.received_lt
      · rw [FrameReader.request, hfill.expected_eq, List.length_append, List.length_drop]
        exact Nat.le_add_right _ _
    · refine ⟨payloads[s.results.length].drop s.reader.received, hfill.input_eq, ?_, ?_⟩
      · rw [FrameReader.request, hfill.expected_eq]
        exact Nat.sub_pos_of_lt hfill.received_lt
      · rw [FrameReader.request, hfill.expected_eq, List.length_drop]
  · intro input bs t hrun
    have hstart : HeaderRoom (start input) := by
      intro hfalse
      cases hfalse
    exact (Machine.invariant_of_forall
      (fun _ _ _ (_ : True) hinv hstep => HeaderRoom.step hinv hstep)
      (fun _ _ => trivial) hstart hrun).refusesOversize

/-- Two frames, of which the second one is empty. -/
def twoPayloads : List ReceiveAction := [
  .receiveFrame, .read 3, .read 1, .read 1, .read 1,
  .setMaxFrameSize 0, .receiveFrame, .read 4]

theorem receive_frames_twoPayloads :
    ∃ s, Machine.run step twoPayloads (start ([[7, 8], []].flatMap encodeFrame)) = some s ∧
      (Receives [[7, 8], []] s ∧ ∀ (input : Octets) (bs : List ReceiveAction) (t : Receiver),
        Machine.run step bs (start input) = some t → RefusesOversize t) ∧
      s.results = [.ok [7, 8], .ok []] := by
  have hrun : Machine.run step twoPayloads (start ([[7, 8], []].flatMap encodeFrame)) =
      some _ := rfl
  have hgood : Machine.EachStep step (Capped [[7, 8], []]) twoPayloads
      (start ([[7, 8], []].flatMap encodeFrame)) := by
    refine Machine.EachStep.cons ?_ rfl ?_
    · rintro p ⟨rfl⟩
      decide
    refine Machine.EachStep.cons trivial rfl ?_
    refine Machine.EachStep.cons trivial rfl ?_
    refine Machine.EachStep.cons trivial rfl ?_
    refine Machine.EachStep.cons trivial rfl ?_
    refine Machine.EachStep.cons rfl rfl ?_
    refine Machine.EachStep.cons ?_ rfl ?_
    · rintro p ⟨rfl⟩
      decide
    exact Machine.EachStep.cons trivial rfl trivial
  exact ⟨_, hrun, receive_frames (by decide) hgood hrun, rfl⟩

/-- The header of a payload of 2 ^ 32 octets says that there are none. -/
theorem not_receives_of_length {payload : Octets} (h : payload.length = 2 ^ 32) :
    ∃ (as : List ReceiveAction) (s : Receiver),
      Machine.EachStep step (Capped [payload]) as (start ([payload].flatMap encodeFrame)) ∧
        Machine.run step as (start ([payload].flatMap encodeFrame)) = some s ∧
        ¬ Receives [payload] s := by
  have hinput : [payload].flatMap encodeFrame = 0 :: 0 :: 0 :: 0 :: payload := by
    rw [List.flatMap_singleton, encodeFrame, h]
    rfl
  rw [hinput]
  have hread : step (.read 4) ⟨{ FrameReader.receiveFrame .init with maxPayload := 2 ^ 32 },
      0 :: 0 :: 0 :: 0 :: payload, []⟩ =
        some ⟨⟨[], 0, 0, 2 ^ 32, true, false⟩, payload, [.ok []]⟩ := by
    simp only [step]
    rw [if_pos ⟨rfl, by decide, by decide, by simp⟩]
    have hwrite : FrameReader.write { FrameReader.receiveFrame .init with maxPayload := 2 ^ 32 }
        (List.take 4 (0 :: 0 :: 0 :: 0 :: payload)) =
        ⟨[0, 0, 0, 0], 4, 4, 2 ^ 32, false, true⟩ := rfl
    simp only [FrameReader.onRead, hwrite]
    rfl
  refine ⟨[.setMaxFrameSize (2 ^ 32), .receiveFrame, .read 4], _, ?_,
    Machine.run_cons_eq_some.mpr ⟨_, rfl, Machine.run_cons_eq_some.mpr ⟨_, rfl,
      Machine.run_cons_eq_some.mpr ⟨_, hread, rfl⟩⟩⟩, ?_⟩
  · refine Machine.EachStep.cons rfl rfl (Machine.EachStep.cons ?_ rfl
      (Machine.EachStep.cons trivial hread trivial))
    rintro p ⟨rfl⟩
    exact Nat.le_of_eq h
  · intro hreceives
    have hresults := hreceives.results
    obtain rfl : [] = payload := by simpa using hresults
    cases h

/-- The size of a frame is a `uint32_t`, whatever the cap. -/
theorem not_receives_large : ¬ ∀ (payloads : List Octets) (as : List ReceiveAction) (s : Receiver),
    Machine.EachStep step (Capped payloads) as (start (payloads.flatMap encodeFrame)) →
    Machine.run step as (start (payloads.flatMap encodeFrame)) = some s →
    Receives payloads s := by
  intro h
  have hlength : (List.replicate (2 ^ 32) 0 : Octets).length = 2 ^ 32 := List.length_replicate
  rcases not_receives_of_length hlength with ⟨as, s, hgood, hrun, hnot⟩
  exact hnot (h _ as s hgood hrun)

end Receiver

end Securepath.Network
