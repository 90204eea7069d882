import Securepath.Library.StreamFraming
import Securepath.Serialisation.Decoder

/-!
# `packet_deserialiser_base`

The helper of `serialisation/util.hpp` that cuts packets out of what arrives
from the network. `doCheck` follows the code with its two paths: with an empty
buffer the packets are taken straight from the input, otherwise the input is
first added to the buffer.

The abstract side is `derFraming`: the packets of a stream are its DER elements,
however the stream arrives. `doCheck_spec` says what one call does in its terms.
-/

namespace Securepath.Serialisation

open StateExcept BufferedStream

structure PacketDeserialiserBase where
  bufMaxSize : Nat
  buf : Octets

/-- A fresh `packet_deserialiser_base`. -/
def PacketDeserialiserBase.ofMax (max : Nat) : PacketDeserialiserBase where
  bufMaxSize := max
  buf := []

/-- What can leave `do_check`: its own error or one of the callback. -/
inductive CheckError (ε : Type) where
  | maxBufferSize
  | callback (e : ε)
deriving DecidableEq, Repr

abbrev Callback (ε σ : Type) := Deserialiser → Octets → EStateM ε σ Unit

variable {ε σ : Type}

/-- `deser_func`: pass the packet at the front of `s` to the callback and
return its length, or 0 when there is none. -/
def deserFunc (callback : Callback ε σ) (s : Octets) : EStateM ε σ Nat :=
  match hasNext (Deserialiser.ofOctets s) with
  | .ok length deser =>
      if length ≠ 0 then do
        callback deser (s.take length)
        return length
      else
        return 0
  | .error _ _ => return 0

/-- `while(deser_func(...)) {}` from `pos` on. A packet has at least one octet,
so `data.length` rounds are enough. -/
def checkLoop (callback : Callback ε σ) (data : Octets) : Nat → Nat → EStateM ε σ Nat
  | 0, pos => return pos
  | rounds + 1, pos => do
      let length ← deserFunc callback (data.drop pos)
      if length ≠ 0 then checkLoop callback data rounds (pos + length) else return pos

/-- `do_check`. -/
def doCheck (callback : Callback ε σ) (data : Octets) :
    EStateM (CheckError ε) (PacketDeserialiserBase × σ) Unit := fun (p, t) =>
  if p.buf.length + data.length > p.bufMaxSize then
    .error .maxBufferSize (p, t)
  else if p.buf.isEmpty then
    match checkLoop callback data data.length 0 t with
    | .ok pos t => .ok () ({ p with buf := p.buf ++ data.drop pos }, t)
    | .error e t => .error (.callback e) (p, t)
  else
    let buf := p.buf ++ data
    match checkLoop callback buf buf.length 0 t with
    | .ok pos t => .ok () ({ p with buf := buf.drop pos }, t)
    | .error e t => .error (.callback e) ({ p with buf := buf }, t)

/-! ## The packets of a stream -/

/-- A packet is a DER element. -/
def derFraming : Framing UInt8 where
  first := elementLength
  first_le := elementLength_le
  first_append _ x h := elementLength_append h x

/-- What the callback is called with for the packet at the front of `l`. -/
structure Call where
  deser : Deserialiser
  packet : Octets

/-- The deserialiser stands at the start of the packet, with nothing entered
and no tag pending. -/
def Call.AtPacket (c : Call) : Prop :=
  ∃ rest, Represents [] (c.packet ++ rest) c.deser.s ∧ c.deser.pos = 0 ∧
    c.deser.seqPos = [] ∧ c.deser.currentTag = none ∧ c.deser.ex = none

theorem hasNext_ofOctets (l : Octets) :
    ∃ s, hasNext (Deserialiser.ofOctets l) =
        .ok (elementLength l) { Deserialiser.ofOctets l with s := s } ∧
      (elementLength l ≠ 0 → Represents [] l s ∧ s.pos = 0) := by
  obtain ⟨s, hrun, hs⟩ :=
    hasNext_spec (d := Deserialiser.ofOctets l) (represents_ofOctets l)
  have hpos : (Deserialiser.ofOctets l).pos = 0 := rfl
  rw [hpos, List.drop_zero] at hrun hs
  exact ⟨s, hrun, hs⟩

/-- The first call that `l` gives rise to. -/
def firstCall (l : Octets) : Call where
  deser := match hasNext (Deserialiser.ofOctets l) with
    | .ok _ deser => deser
    | .error _ deser => deser
  packet := l.take (elementLength l)

theorem firstCall_atPacket {l : Octets} (h : elementLength l ≠ 0) : (firstCall l).AtPacket := by
  obtain ⟨s, hrun, hs⟩ := hasNext_ofOctets l
  obtain ⟨hrep, hpos⟩ := hs h
  refine ⟨l.drop (elementLength l), ?_⟩
  simp only [firstCall, hrun, List.take_append_drop]
  exact ⟨hrep, hpos, rfl, rfl, rfl⟩

/-- The calls for all the packets of `l`. -/
def callsOf (l : Octets) : List Call :=
  if elementLength l = 0 then []
  else firstCall l :: callsOf (l.drop (elementLength l))
termination_by l.length
decreasing_by exact derFraming.length_drop_first ‹_›

theorem callsOf_of_eq_zero {l : Octets} (h : elementLength l = 0) : callsOf l = [] := by
  rw [callsOf, if_pos h]

theorem callsOf_of_ne_zero {l : Octets} (h : elementLength l ≠ 0) :
    callsOf l = firstCall l :: callsOf (l.drop (elementLength l)) := by
  rw [callsOf, if_neg h]

theorem map_packet_callsOf (l : Octets) :
    (callsOf l).map Call.packet = derFraming.frames l := by
  induction l using callsOf.induct with
  | case1 l h => rw [callsOf_of_eq_zero h, derFraming.frames_of_first_eq_zero h, List.map_nil]
  | case2 l h ih =>
      rw [callsOf_of_ne_zero h, derFraming.frames_of_first_ne_zero h, List.map_cons, ih]
      rfl

theorem callsOf_atPacket (l : Octets) : ∀ c ∈ callsOf l, c.AtPacket := by
  induction l using callsOf.induct with
  | case1 l h => simp [callsOf_of_eq_zero h]
  | case2 l h ih =>
      rw [callsOf_of_ne_zero h]
      intro c hc
      rcases List.mem_cons.mp hc with rfl | hc
      · exact firstCall_atPacket h
      · exact ih c hc

/-- Make the calls one after the other, until one throws. -/
def runCalls (callback : Callback ε σ) : List Call → EStateM ε σ Unit
  | [] => pure ()
  | c :: cs => do
      callback c.deser c.packet
      runCalls callback cs

theorem runCalls_cons_of_ok {callback : Callback ε σ} {c : Call} {t t' : σ}
    (h : callback c.deser c.packet t = .ok () t') (cs : List Call) :
    runCalls callback (c :: cs) t = runCalls callback cs t' :=
  bind_of_ok h

theorem runCalls_cons_of_error {callback : Callback ε σ} {c : Call} {t t' : σ} {e : ε}
    (h : callback c.deser c.packet t = .error e t') (cs : List Call) :
    runCalls callback (c :: cs) t = .error e t' :=
  bind_of_error h

theorem deserFunc_of_eq_zero (callback : Callback ε σ) {l : Octets} (h : elementLength l = 0)
    (t : σ) : deserFunc callback l t = .ok 0 t := by
  obtain ⟨s, hrun, hs⟩ := hasNext_ofOctets l
  unfold deserFunc
  simp only [hrun]
  rw [if_neg (not_not.mpr h)]
  rfl

theorem deserFunc_of_ne_zero (callback : Callback ε σ) {l : Octets} (h : elementLength l ≠ 0) :
    deserFunc callback l = (do
      callback (firstCall l).deser (firstCall l).packet
      return elementLength l) := by
  obtain ⟨s, hrun, hs⟩ := hasNext_ofOctets l
  have hdeser : (firstCall l).deser = { Deserialiser.ofOctets l with s := s } := by
    simp only [firstCall, hrun]
  unfold deserFunc
  simp only [hrun]
  rw [if_pos h, hdeser]
  rfl

/-- The loop makes the calls and stops behind the last whole packet. -/
theorem checkLoop_spec (callback : Callback ε σ) (data : Octets) {rounds pos : Nat}
    (hpos : pos ≤ data.length) (hrounds : data.length ≤ pos + rounds) (t : σ) :
    checkLoop callback data rounds pos t =
      match runCalls callback (callsOf (data.drop pos)) t with
      | .ok () t' => .ok (data.length - (derFraming.remainder (data.drop pos)).length) t'
      | .error e t' => .error e t' := by
  induction rounds generalizing pos t with
  | zero =>
      have hnil : data.drop pos = [] := List.drop_eq_nil_of_le (by omega)
      have hzero : elementLength [] = 0 := Nat.le_zero.mp (elementLength_le [])
      have hend : pos = data.length := by omega
      rw [hnil, callsOf_of_eq_zero hzero,
        derFraming.remainder_of_first_eq_zero (l := []) hzero, hend]
      rfl
  | succ rounds ih =>
      rw [checkLoop]
      by_cases h : elementLength (data.drop pos) = 0
      · have hback : data.length - (data.drop pos).length = pos := by
          rw [List.length_drop]
          omega
        rw [bind_of_ok (deserFunc_of_eq_zero callback h t), callsOf_of_eq_zero h,
          derFraming.remainder_of_first_eq_zero (l := data.drop pos) h, if_neg (by simp), hback]
        rfl
      · have hle := elementLength_le (data.drop pos)
        have hlen : (data.drop pos).length = data.length - pos := List.length_drop ..
        rw [callsOf_of_ne_zero h, derFraming.remainder_of_first_ne_zero (l := data.drop pos) h,
          deserFunc_of_ne_zero callback h]
        cases hc : callback (firstCall (data.drop pos)).deser
            (firstCall (data.drop pos)).packet t with
        | error e t' =>
            rw [bind_of_error (bind_of_error hc), runCalls_cons_of_error hc]
        | ok a t' =>
            have hfunc : (callback (firstCall (data.drop pos)).deser
                (firstCall (data.drop pos)).packet >>= fun _ =>
                  (pure (elementLength (data.drop pos)) : EStateM ε σ Nat)) t =
                .ok (elementLength (data.drop pos)) t' := bind_of_ok hc
            rw [bind_of_ok hfunc, if_pos h, ih (by omega) (by omega), runCalls_cons_of_ok hc,
              ← List.drop_drop]
            rfl

/-- One call of `do_check` that fits: the packets of the buffer and the new data
are passed on, and the rest is kept. When the callback throws, a buffer that
was empty stays empty and any other one keeps everything. -/
theorem doCheck_spec (callback : Callback ε σ) (data : Octets) (p : PacketDeserialiserBase)
    (t : σ) (hfit : p.buf.length + data.length ≤ p.bufMaxSize) :
    doCheck callback data (p, t) =
      match runCalls callback (callsOf (p.buf ++ data)) t with
      | .ok () t' => .ok () ({ p with buf := derFraming.remainder (p.buf ++ data) }, t')
      | .error e t' =>
          .error (.callback e) ({ p with buf := if p.buf = [] then [] else p.buf ++ data }, t') := by
  simp only [doCheck]
  rw [if_neg (by omega)]
  by_cases hempty : p.buf = []
  · rw [if_pos (by rw [hempty]; rfl), checkLoop_spec callback data (by omega) (by omega) t,
      List.drop_zero, hempty, List.nil_append, if_pos rfl]
    cases runCalls callback (callsOf data) t with
    | ok a t' => simp only [derFraming.drop_frames, List.nil_append]
    | error e t' =>
        obtain ⟨max, buf⟩ := p
        simp only at hempty
        simp only [hempty]
  · rw [if_neg (by simpa using hempty),
      checkLoop_spec callback (p.buf ++ data) (by omega) (by omega) t, List.drop_zero,
      if_neg hempty]
    cases runCalls callback (callsOf (p.buf ++ data)) t with
    | ok a t' => simp only [derFraming.drop_frames]
    | error e t' => rfl

/-! ## Feeding a stream in pieces -/

/-- A call of the callback and whether it returned. -/
structure Delivery where
  call : Call
  returned : Bool

/-- `callback`, with a log of its calls. -/
def recording (callback : Callback ε σ) : Callback ε (σ × List Delivery) :=
  fun deser packet (t, log) =>
    match callback deser packet t with
    | .ok () t => .ok () (t, log ++ [⟨⟨deser, packet⟩, true⟩])
    | .error e t => .error e (t, log ++ [⟨⟨deser, packet⟩, false⟩])

/-- The packets that the callback was called with. -/
def passedPackets (log : List Delivery) : List Octets :=
  log.map fun d => d.call.packet

/-- Successive calls of `do_check`, up to the first that throws. -/
def feed (callback : Callback ε σ) :
    List Octets → EStateM (CheckError ε) (PacketDeserialiserBase × σ) Unit
  | [] => pure ()
  | chunk :: chunks => do
      doCheck callback chunk
      feed callback chunks

/-- Successive calls of `do_check` by a caller that catches every exception and
goes on with what is received next (`key_client::impl::on_received`). -/
def feedCatching (callback : Callback ε σ) (chunks : List Octets)
    (s : PacketDeserialiserBase × σ) : PacketDeserialiserBase × σ :=
  chunks.foldl (fun s chunk => finalState (doCheck callback chunk s)) s

theorem runCalls_recording_ok {callback : Callback ε σ} {cs : List Call} {t t' : σ}
    (h : runCalls callback cs t = .ok () t') (log : List Delivery) :
    runCalls (recording callback) cs (t, log) = .ok () (t', log ++ cs.map (⟨·, true⟩)) := by
  induction cs generalizing t log with
  | nil =>
      cases h
      simp [runCalls]
  | cons c cs ih =>
      cases hc : callback c.deser c.packet t with
      | ok a t₁ =>
          rw [runCalls_cons_of_ok hc] at h
          have hrec : recording callback c.deser c.packet (t, log) =
              .ok () (t₁, log ++ [⟨c, true⟩]) := by simp only [recording, hc]
          rw [runCalls_cons_of_ok hrec, ih h]
          simp
      | error e t₁ =>
          rw [runCalls_cons_of_error hc] at h
          cases h

/-- A throwing call ends the round: the calls before it returned. -/
theorem runCalls_recording_error {callback : Callback ε σ} {cs : List Call} {t t' : σ} {e : ε}
    (h : runCalls callback cs t = .error e t') (log : List Delivery) :
    ∃ before c after, cs = before ++ c :: after ∧
      runCalls (recording callback) cs (t, log) =
        .error e (t', log ++ before.map (⟨·, true⟩) ++ [⟨c, false⟩]) := by
  induction cs generalizing t log with
  | nil => cases h
  | cons c cs ih =>
      cases hc : callback c.deser c.packet t with
      | ok a t₁ =>
          rw [runCalls_cons_of_ok hc] at h
          have hrec : recording callback c.deser c.packet (t, log) =
              .ok () (t₁, log ++ [⟨c, true⟩]) := by simp only [recording, hc]
          obtain ⟨before, c', after, rfl, hrun⟩ := ih h (log ++ [⟨c, true⟩])
          refine ⟨c :: before, c', after, rfl, ?_⟩
          rw [runCalls_cons_of_ok hrec, hrun]
          simp
      | error e' t₁ =>
          rw [runCalls_cons_of_error hc] at h
          obtain ⟨rfl, rfl⟩ := EStateM.Result.error.inj h
          have hrec : recording callback c.deser c.packet (t, log) =
              .error e' (t₁, log ++ [⟨c, false⟩]) := by simp only [recording, hc]
          exact ⟨[], c, cs, rfl, by rw [runCalls_cons_of_error hrec]; simp⟩

theorem passedPackets_append (log log' : List Delivery) :
    passedPackets (log ++ log') = passedPackets log ++ passedPackets log' :=
  List.map_append ..

theorem passedPackets_calls (cs : List Call) (b : Bool) :
    passedPackets (cs.map (⟨·, b⟩)) = cs.map Call.packet := by
  simp [passedPackets]

/-- What one call that does not throw adds to the log. -/
theorem doCheck_ok {callback : Callback ε σ} {data : Octets}
    {p p' : PacketDeserialiserBase} {t t' : σ} {log log' : List Delivery}
    (h : doCheck (recording callback) data (p, t, log) = .ok () (p', t', log')) :
    p'.buf = derFraming.remainder (p.buf ++ data) ∧
      log' = log ++ (callsOf (p.buf ++ data)).map (⟨·, true⟩) := by
  by_cases hfit : p.buf.length + data.length ≤ p.bufMaxSize
  · rw [doCheck_spec _ _ _ _ hfit] at h
    cases hr : runCalls callback (callsOf (p.buf ++ data)) t with
    | ok a t₁ =>
        rw [runCalls_recording_ok hr] at h
        simp only [EStateM.Result.ok.injEq, Prod.mk.injEq, true_and] at h
        obtain ⟨rfl, -, rfl⟩ := h
        exact ⟨rfl, rfl⟩
    | error e t₁ =>
        obtain ⟨before, c, after, -, hrun⟩ := runCalls_recording_error hr log
        rw [hrun] at h
        cases h
  · simp only [doCheck] at h
    rw [if_pos (by omega)] at h
    cases h

/-- A whole feed that does not throw: its log is that of the packets of the
stream, and the buffer holds the rest. -/
theorem feed_ok {callback : Callback ε σ} {chunks : List Octets}
    {p p' : PacketDeserialiserBase} {t t' : σ} {log log' : List Delivery}
    (h : feed (recording callback) chunks (p, t, log) = .ok () (p', t', log'))
    (hbuf : derFraming.first p.buf = 0) :
    p'.buf = derFraming.remainder (p.buf ++ chunks.flatten) ∧
      ∃ new, log' = log ++ new ∧
        passedPackets new = derFraming.frames (p.buf ++ chunks.flatten) ∧
        ∀ d ∈ new, d.call.AtPacket := by
  induction chunks generalizing p t log with
  | nil =>
      cases h
      rw [List.flatten_nil, List.append_nil, derFraming.remainder_of_first_eq_zero hbuf,
        derFraming.frames_of_first_eq_zero hbuf]
      exact ⟨rfl, [], (List.append_nil _).symm, rfl, by simp⟩
  | cons chunk chunks ih =>
      obtain ⟨_, ⟨p₁, t₁, log₁⟩, h₁, h₂⟩ := bind_eq_ok.mp h
      obtain ⟨hbuf₁, rfl⟩ := doCheck_ok h₁
      have hrest : derFraming.first p₁.buf = 0 := by
        rw [hbuf₁]
        exact derFraming.first_remainder _
      obtain ⟨hp', new, rfl, hnew, hat⟩ := ih h₂ hrest
      rw [hbuf₁] at hp' hnew
      refine ⟨?_, (callsOf (p.buf ++ chunk)).map (⟨·, true⟩) ++ new, by simp, ?_, ?_⟩
      · rw [hp', List.flatten_cons, ← List.append_assoc, ← derFraming.remainder_append]
      · rw [passedPackets_append, passedPackets_calls, map_packet_callsOf, hnew,
          List.flatten_cons, ← List.append_assoc, ← derFraming.frames_append]
      · intro d hd
        rcases List.mem_append.mp hd with hd | hd
        · obtain ⟨c, hc, rfl⟩ := List.mem_map.mp hd
          exact callsOf_atPacket _ c hc
        · exact hat d hd

/-- The callback sees the packets of the stream however the stream is cut into
calls, each at its own start, and what is left over is the same: packets and
rest make up the stream. -/
theorem doCheck_chunking {callback : Callback ε σ} {max : Nat} {t : σ}
    {chunks₁ chunks₂ : List Octets} {s₁ s₂ : PacketDeserialiserBase × σ × List Delivery}
    (hsame : chunks₁.flatten = chunks₂.flatten)
    (h₁ : feed (recording callback) chunks₁ (.ofMax max, t, []) = .ok () s₁)
    (h₂ : feed (recording callback) chunks₂ (.ofMax max, t, []) = .ok () s₂) :
    passedPackets s₁.2.2 = passedPackets s₂.2.2 ∧ s₁.1.buf = s₂.1.buf ∧
      (∀ d ∈ s₁.2.2, d.call.AtPacket) ∧ (∀ d ∈ s₂.2.2, d.call.AtPacket) ∧
      (passedPackets s₁.2.2).flatten ++ s₁.1.buf = chunks₁.flatten := by
  have hempty : derFraming.first [] = 0 := Nat.le_zero.mp (elementLength_le [])
  obtain ⟨p₁, t₁, log₁⟩ := s₁
  obtain ⟨p₂, t₂, log₂⟩ := s₂
  obtain ⟨hbuf₁, new₁, rfl, hnew₁, hat₁⟩ := feed_ok h₁ hempty
  obtain ⟨hbuf₂, new₂, rfl, hnew₂, hat₂⟩ := feed_ok h₂ hempty
  simp only [PacketDeserialiserBase.ofMax, List.nil_append] at hbuf₁ hbuf₂ hnew₁ hnew₂ ⊢
  refine ⟨?_, ?_, hat₁, hat₂, ?_⟩
  · rw [hnew₁, hnew₂, hsame]
  · rw [hbuf₁, hbuf₂, hsame]
  · rw [hnew₁, hbuf₁]
    exact derFraming.flatten_frames_append_remainder _

/-- A feed with a callback that does nothing. -/
def feedIdle (chunks : List Octets) :
    EStateM.Result (CheckError Unit) (PacketDeserialiserBase × Unit × List Delivery) Unit :=
  feed (recording fun _ _ => pure ()) chunks (.ofMax 16, (), [])

/-- Two packets and a bit of a third, cut within the first header and not at all. -/
theorem doCheck_chunking_two_packets :
    passedPackets (finalState (feedIdle [[1], [1, 0, 4, 2, 7], [8, 4]])).2.2 =
        passedPackets (finalState (feedIdle [[1, 1, 0, 4, 2, 7, 8, 4]])).2.2 ∧
      (finalState (feedIdle [[1], [1, 0, 4, 2, 7], [8, 4]])).1.buf =
        (finalState (feedIdle [[1, 1, 0, 4, 2, 7, 8, 4]])).1.buf := by
  have hcut : returns (feedIdle [[1], [1, 0, 4, 2, 7], [8, 4]]) = true := by decide +kernel
  have hwhole : returns (feedIdle [[1, 1, 0, 4, 2, 7, 8, 4]]) = true := by decide +kernel
  have hsame : [[1], [1, 0, 4, 2, 7], [8, 4]].flatten =
      ([[1, 1, 0, 4, 2, 7, 8, 4]] : List Octets).flatten := by decide
  -- kept abstract, so that no unifier runs the feeds
  generalize ([[1], [1, 0, 4, 2, 7], [8, 4]] : List Octets) = cut at hsame hcut ⊢
  generalize ([[1, 1, 0, 4, 2, 7, 8, 4]] : List Octets) = whole at hsame hwhole ⊢
  have h := @doCheck_chunking Unit Unit (fun _ _ => pure ()) 16 () _ _ _ _
    hsame (eq_ok_of_returns hcut) (eq_ok_of_returns hwhole)
  exact ⟨h.1, h.2.1⟩

/-! ## Callbacks that throw -/

/-- The packets on which the callback returned. -/
def returnedPackets (log : List Delivery) : List Octets :=
  passedPackets (log.filter (·.returned))

/-- The callback that throws on the packets of a set. -/
def throwingOn (throws : Octets → Bool) : Callback Unit Unit :=
  fun _ packet => if throws packet then throw () else pure ()

/-- A packet behind the one that throws is lost when the buffer was empty: the
input is dropped with it. -/
theorem feedCatching_loses_packet :
    ¬ ∀ (throws : Octets → Bool) (chunks : List Octets),
      returnedPackets
          (feedCatching (recording (throwingOn throws)) chunks (.ofMax (1024 * 1024), (), [])).2.2 =
        (derFraming.frames chunks.flatten).filter (fun packet => !throws packet) := by
  intro h
  have hlost := h (· == [1, 1, 0]) [[1, 1, 0, 1, 1, 0xff]]
  have hreturned : returnedPackets (feedCatching (recording (throwingOn (· == [1, 1, 0])))
      [[1, 1, 0, 1, 1, 0xff]] (.ofMax (1024 * 1024), (), [])).2.2 = [] := by decide +kernel
  have hfirst : derFraming.first [1, 1, 0, 1, 1, 0xff] = 3 := by decide +kernel
  have hsecond : derFraming.first [1, 1, 0xff] = 3 := by decide +kernel
  have hnone : derFraming.first [] = 0 := by decide +kernel
  rw [hreturned] at hlost
  simp only [List.flatten_cons, List.flatten_nil, List.append_nil] at hlost
  rw [derFraming.frames_of_first_ne_zero (by rw [hfirst]; decide), hfirst,
    show List.drop 3 ([1, 1, 0, 1, 1, 0xff] : Octets) = [1, 1, 0xff] from rfl,
    derFraming.frames_of_first_ne_zero (by rw [hsecond]; decide), hsecond,
    show List.drop 3 ([1, 1, 0xff] : Octets) = [] from rfl,
    derFraming.frames_of_first_eq_zero hnone] at hlost
  revert hlost
  decide

/-- A call of `do_check` from `(p, t)` that leaves nothing behind when the
callback throws: it returns on every packet, or the buffer is empty, the data
ends with a packet, and no packet before this last one throws. -/
def CleanCall (callback : Callback ε σ) (chunk : Octets) (p : PacketDeserialiserBase) (t : σ) :
    Prop :=
  p.buf.length + chunk.length ≤ p.bufMaxSize ∧
    ((∃ t', runCalls callback (callsOf (p.buf ++ chunk)) t = .ok () t') ∨
      (p.buf = [] ∧ derFraming.remainder chunk = [] ∧ ∃ before last t',
        callsOf chunk = before ++ [last] ∧ runCalls callback before t = .ok () t'))

/-- Every call of the feed is clean in the state it starts from. -/
def CleanRun (callback : Callback ε σ) : List Octets → PacketDeserialiserBase × σ → Prop
  | [], _ => True
  | chunk :: chunks, s =>
      CleanCall callback chunk s.1 s.2 ∧ CleanRun callback chunks (feedCatching callback [chunk] s)

theorem CleanRun.cons {callback : Callback ε σ} {chunk : Octets} {chunks : List Octets}
    {s : PacketDeserialiserBase × σ} (h : CleanRun callback (chunk :: chunks) s) :
    CleanCall callback chunk s.1 s.2 ∧
      CleanRun callback chunks (finalState (doCheck callback chunk s)) := h

/-- The log of calls that were made up to the end or up to one that threw. -/
theorem runCalls_recording_log {callback : Callback ε σ} {cs : List Call} {t : σ}
    {log : List Delivery} {s : σ × List Delivery}
    (h : runCalls (recording callback) cs (t, log) = .ok () s) :
    s.2 = log ++ cs.map (⟨·, true⟩) := by
  cases hr : runCalls callback cs t with
  | ok a t' =>
      rw [runCalls_recording_ok hr] at h
      cases h
      rfl
  | error e t' =>
      obtain ⟨before, c, after, -, hrun⟩ := runCalls_recording_error hr log
      rw [hrun] at h
      cases h

theorem runCalls_append_of_ok {callback : Callback ε σ} {cs cs' : List Call} {t t' : σ}
    (h : runCalls callback cs t = .ok () t') :
    runCalls callback (cs ++ cs') t = runCalls callback cs' t' := by
  induction cs generalizing t with
  | nil =>
      cases h
      rfl
  | cons c cs ih =>
      cases hc : callback c.deser c.packet t with
      | ok a t₁ =>
          rw [runCalls_cons_of_ok hc] at h
          rw [List.cons_append, runCalls_cons_of_ok hc, ih h]
      | error e t₁ =>
          rw [runCalls_cons_of_error hc] at h
          cases h

/-- A clean call passes each of its packets once and keeps what is behind them. -/
theorem CleanCall.step {callback : Callback ε σ} {chunk : Octets} {p : PacketDeserialiserBase}
    {t : σ} {log : List Delivery} (h : CleanCall (recording callback) chunk p (t, log)) :
    let s := finalState (doCheck (recording callback) chunk (p, t, log))
    s.1.buf = derFraming.remainder (p.buf ++ chunk) ∧
      ∃ new, s.2.2 = log ++ new ∧ passedPackets new = derFraming.frames (p.buf ++ chunk) := by
  obtain ⟨hfit, ⟨t', hrun⟩ | ⟨hempty, hrest, before, last, t', hcalls, hrun⟩⟩ := h
  · -- no packet throws
    rw [doCheck_spec _ _ _ _ hfit, hrun]
    refine ⟨rfl, (callsOf (p.buf ++ chunk)).map (⟨·, true⟩), runCalls_recording_log hrun, ?_⟩
    rw [passedPackets_calls, map_packet_callsOf]
  · -- the last packet may throw; nothing is behind it
    have hframes := map_packet_callsOf chunk
    rw [hcalls, List.map_append] at hframes
    rw [doCheck_spec _ _ _ _ hfit, hempty, List.nil_append, hrest, hcalls,
      runCalls_append_of_ok hrun]
    obtain ⟨t₁, log₁⟩ := t'
    have hlog : log₁ = log ++ before.map (⟨·, true⟩) := runCalls_recording_log hrun
    cases hlast : callback last.deser last.packet t₁ with
    | ok a t₂ =>
        have hrec : recording callback last.deser last.packet (t₁, log₁) =
            .ok () (t₂, log₁ ++ [⟨last, true⟩]) := by simp only [recording, hlast]
        rw [runCalls_cons_of_ok hrec]
        refine ⟨rfl, before.map (⟨·, true⟩) ++ [⟨last, true⟩], ?_, ?_⟩
        · change log₁ ++ [⟨last, true⟩] = _
          rw [hlog, List.append_assoc]
        · rw [passedPackets_append, passedPackets_calls, ← hframes]
          rfl
    | error e t₂ =>
        have hrec : recording callback last.deser last.packet (t₁, log₁) =
            .error e (t₂, log₁ ++ [⟨last, false⟩]) := by simp only [recording, hlast]
        rw [runCalls_cons_of_error hrec]
        refine ⟨rfl, before.map (⟨·, true⟩) ++ [⟨last, false⟩], ?_, ?_⟩
        · change log₁ ++ [⟨last, false⟩] = _
          rw [hlog, List.append_assoc]
        · rw [passedPackets_append, passedPackets_calls, ← hframes]
          rfl

theorem CleanRun.run {callback : Callback ε σ} {chunks : List Octets}
    {p : PacketDeserialiserBase} {t : σ} {log : List Delivery}
    (h : CleanRun (recording callback) chunks (p, t, log)) (hbuf : derFraming.first p.buf = 0) :
    ∃ new, (feedCatching (recording callback) chunks (p, t, log)).2.2 = log ++ new ∧
      passedPackets new = derFraming.frames (p.buf ++ chunks.flatten) := by
  induction chunks generalizing p t log with
  | nil =>
      refine ⟨[], (List.append_nil _).symm, ?_⟩
      rw [List.flatten_nil, List.append_nil, derFraming.frames_of_first_eq_zero hbuf]
      rfl
  | cons chunk chunks ih =>
      obtain ⟨hcall, hrun⟩ := h.cons
      obtain ⟨hbuf₁, new₁, hlog₁, hnew₁⟩ := hcall.step
      have hstep : feedCatching (recording callback) (chunk :: chunks) (p, t, log) =
          feedCatching (recording callback) chunks
            (finalState (doCheck (recording callback) chunk (p, t, log))) := rfl
      rw [hstep]
      generalize finalState (doCheck (recording callback) chunk (p, t, log)) = s
        at hrun hbuf₁ hlog₁
      obtain ⟨p₁, t₁, log₁⟩ := s
      simp only at hbuf₁ hlog₁
      have hrest : derFraming.first p₁.buf = 0 := by
        rw [hbuf₁]
        exact derFraming.first_remainder _
      obtain ⟨new₂, hlog₂, hnew₂⟩ := ih hrun hrest
      refine ⟨new₁ ++ new₂, by rw [hlog₂, hlog₁, List.append_assoc], ?_⟩
      rw [passedPackets_append, hnew₁, hnew₂, hbuf₁, List.flatten_cons, ← List.append_assoc,
        ← derFraming.frames_append]

/-- In a feed of clean calls every packet of the stream is passed to the
callback once, in order; so the calls that return are those of the packets it
does not throw on. -/
theorem feedCatching_clean {callback : Callback ε σ} {chunks : List Octets} {max : Nat} {t : σ}
    (h : CleanRun (recording callback) chunks (.ofMax max, t, [])) :
    let log := (feedCatching (recording callback) chunks (.ofMax max, t, [])).2.2
    passedPackets log = derFraming.frames chunks.flatten ∧
      ∀ throws : Octets → Bool, (∀ d ∈ log, d.returned = !throws d.call.packet) →
        returnedPackets log =
          (derFraming.frames chunks.flatten).filter fun packet => !throws packet := by
  have hempty : derFraming.first [] = 0 := Nat.le_zero.mp (elementLength_le [])
  obtain ⟨new, hlog, hnew⟩ := h.run hempty
  rw [List.nil_append] at hlog
  intro log
  have hpassed : passedPackets log = derFraming.frames chunks.flatten := by
    rw [show log = new from hlog, hnew]
    rfl
  refine ⟨hpassed, fun throws hthrows => ?_⟩
  rw [← hpassed, returnedPackets, passedPackets, passedPackets, List.filter_map,
    List.filter_congr hthrows]
  rfl

/-- One call with two packets, of which the second throws. -/
theorem feedCatching_clean_last_throws :
    passedPackets (feedCatching (recording (throwingOn (· == [1, 1, 0])))
        [[1, 1, 0xff, 1, 1, 0]] (.ofMax 16, (), [])).2.2 =
      derFraming.frames [[1, 1, 0xff, 1, 1, 0]].flatten := by
  have hfirst : elementLength [1, 1, 0xff, 1, 1, 0] = 3 := by decide +kernel
  have hlast : elementLength [1, 1, 0] = 3 := by decide +kernel
  have hnone : elementLength [] = 0 := by decide +kernel
  have hcalls : callsOf [1, 1, 0xff, 1, 1, 0] =
      [firstCall [1, 1, 0xff, 1, 1, 0]] ++ [firstCall [1, 1, 0]] := by
    rw [callsOf_of_ne_zero (by rw [hfirst]; decide), hfirst,
      show ([1, 1, 0xff, 1, 1, 0] : Octets).drop 3 = [1, 1, 0] from rfl,
      callsOf_of_ne_zero (by rw [hlast]; decide), hlast,
      show ([1, 1, 0] : Octets).drop 3 = [] from rfl, callsOf_of_eq_zero hnone]
    rfl
  have hframes : (derFraming.frames [1, 1, 0xff, 1, 1, 0]).flatten = [1, 1, 0xff, 1, 1, 0] := by
    rw [← map_packet_callsOf, hcalls]
    simp only [firstCall, List.map_append, List.map_cons, List.map_nil, hfirst, hlast]
    decide
  have hpacket : (firstCall [1, 1, 0xff, 1, 1, 0]).packet = [1, 1, 0xff] := by
    simp only [firstCall, hfirst]
    decide
  have hreturns : recording (throwingOn (· == [1, 1, 0])) (firstCall [1, 1, 0xff, 1, 1, 0]).deser
      (firstCall [1, 1, 0xff, 1, 1, 0]).packet ((), []) =
      .ok () ((), [⟨firstCall [1, 1, 0xff, 1, 1, 0], true⟩]) := by
    simp only [recording, throwingOn, hpacket]
    rfl
  have hclean : CleanCall (recording (throwingOn (· == [1, 1, 0]))) [1, 1, 0xff, 1, 1, 0]
      (.ofMax 16) ((), []) :=
    ⟨by decide, Or.inr ⟨rfl, derFraming.remainder_eq_nil hframes, _, _, _, hcalls,
      runCalls_cons_of_ok hreturns []⟩⟩
  exact (feedCatching_clean (show CleanRun _ [_] (_, _, _) from ⟨hclean, trivial⟩)).1

end Securepath.Serialisation
