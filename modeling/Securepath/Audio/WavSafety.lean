import Securepath.Audio.Wav

/-!
# Loading is safe

Whatever the stream holds, `load` ends: it throws `invalid_format`, or it leaves
data and a format that describes them. `Safe` is what every part of it keeps on the
way, thrown or not: no allocation over its cap, the octets of the stream, a position
that only moves forward.
-/

namespace Securepath.Audio

open Serialisation (Octets)
open Bounds (AllInBounds)
open Riff

variable {α β : Type} {seekable : Seekable}

/-! ## What every part keeps -/

/-- The allocations and the data are within their caps. -/
structure Bounded (s : Loader) : Prop where
  allocated_le : ∀ a ∈ s.allocated, a.2 ≤ a.1.cap
  data_le : s.data.length ≤ maxDataChunkSize

/-- The stream is the same, further on. -/
structure Forward (s s' : Loader) : Prop where
  data_eq : s'.stream.data = s.stream.data
  pos_le : s.stream.pos ≤ s'.stream.pos

theorem Forward.refl (s : Loader) : Forward s s := ⟨rfl, Nat.le_refl _⟩

theorem Forward.trans {s s' s'' : Loader} (h : Forward s s') (h' : Forward s' s'') :
    Forward s s'' :=
  ⟨h'.data_eq.trans h.data_eq, h.pos_le.trans h'.pos_le⟩

/-- From a bounded state, `m` returns something with `Q` further on in the stream or
throws `invalid_format`, in a bounded state either way. -/
def Safe (m : LoadM α) (Q : α → Prop) : Prop :=
  ∀ s, Bounded s →
    match m s with
    | .ok a s' => Bounded s' ∧ Forward s s' ∧ Q a
    | .error e s' => Bounded s' ∧ ∃ what, e = .invalidFormat what

namespace Safe

variable {m : LoadM α} {f : α → LoadM β} {Q : α → Prop} {R : β → Prop}

theorem bind (hm : Safe m Q) (hf : ∀ a, Q a → Safe (f a) R) : Safe (m >>= f) R := by
  intro s hs
  have hms := hm s hs
  cases h : m s with
  | error e s' =>
      rw [StateExcept.bind_of_error h]
      rwa [h] at hms
  | ok a s' =>
      rw [StateExcept.bind_of_ok h]
      rw [h] at hms
      obtain ⟨hbounded, hforward, hq⟩ := hms
      have hfs := hf a hq s' hbounded
      cases h' : f a s' with
      | error e s'' => rwa [h'] at hfs
      | ok b s'' =>
          rw [h'] at hfs
          exact ⟨hfs.1, hforward.trans hfs.2.1, hfs.2.2⟩

theorem pure {a : α} (h : Q a) : Safe (pure a : LoadM α) Q := by
  intro s hs
  exact ⟨hs, Forward.refl s, h⟩

theorem throw (what : String) : Safe (throw (.invalidFormat what) : LoadM α) Q := by
  intro s hs
  exact ⟨hs, what, rfl⟩

theorem ite {c : Prop} [Decidable c] {m m' : LoadM α} (hm : c → Safe m Q)
    (hm' : ¬ c → Safe m' Q) : Safe (if c then m else m') Q := by
  split
  · next h => exact hm h
  · next h => exact hm' h

/-- A header is read out of a buffer that is long enough. -/
theorem imported {o : Option (α × Octets)} (h : ∃ r, o = some r) :
    Safe (imported o) fun _ => True := by
  obtain ⟨⟨a, rest⟩, rfl⟩ := h
  exact pure trivial

end Safe

/-! ## The parts -/

theorem IStream.read_spec (s : IStream) (n : Nat) :
    (s.read n).1.length ≤ n ∧ (s.read n).2.data = s.data ∧ s.pos ≤ (s.read n).2.pos := by
  unfold IStream.read
  dsimp only
  split
  · exact ⟨Nat.zero_le n, rfl, Nat.le_refl _⟩
  · split
    · next h => exact ⟨h.le, rfl, Nat.le_add_right _ _⟩
    · exact ⟨Nat.zero_le n, rfl, Nat.le_add_right _ _⟩

theorem IStream.seekg_spec (s : IStream) (seekable : Seekable) (n : Nat) :
    (s.seekg seekable n).data = s.data ∧ s.pos ≤ (s.seekg seekable n).pos := by
  unfold IStream.seekg
  split
  · exact ⟨rfl, Nat.le_refl _⟩
  · split
    · exact ⟨rfl, Nat.le_add_right _ _⟩
    · exact ⟨rfl, Nat.le_refl _⟩

theorem readOctets_safe {purpose : Purpose} {n : Nat} (h : n ≤ purpose.cap) :
    Safe (readOctets purpose n) fun buf => buf.length ≤ n := by
  intro s hs
  obtain ⟨hlen, hdata, hpos⟩ := s.stream.read_spec n
  refine ⟨⟨?_, hs.data_le⟩, ⟨hdata, hpos⟩, hlen⟩
  intro a ha
  rcases List.mem_cons.mp ha with rfl | ha
  · exact h
  · exact hs.allocated_le a ha

theorem seekForward_safe (n : Nat) : Safe (seekForward seekable n) fun _ => True := by
  intro s hs
  obtain ⟨hdata, hpos⟩ := s.stream.seekg_spec seekable n
  exact ⟨⟨hs.allocated_le, hs.data_le⟩, ⟨hdata, hpos⟩, trivial⟩

theorem setFormat_safe (fmt : RiffFmtData) :
    Safe (modify fun s => { s with format := some fmt }) fun _ => True := by
  intro s hs
  exact ⟨⟨hs.allocated_le, hs.data_le⟩, ⟨rfl, Nat.le_refl _⟩, trivial⟩

theorem setData_safe {data : Octets} (h : data.length ≤ maxDataChunkSize) :
    Safe (modify fun s => { s with data := data }) fun _ => True := by
  intro s hs
  exact ⟨⟨hs.allocated_le, h⟩, ⟨rfl, Nat.le_refl _⟩, trivial⟩

theorem loadFormatChunk_safe (size : Nat) : Safe (loadFormatChunk size) fun _ => True := by
  apply Safe.ite
  · intro _
    exact Safe.throw _
  · intro hlow
    apply Safe.ite
    · intro _
      exact Safe.throw _
    · intro hcap
      apply Safe.bind (readOctets_safe (Nat.le_of_not_lt hcap))
      intro buf hbuf
      apply Safe.ite
      · intro _
        exact Safe.throw _
      · intro hlen
        apply Safe.bind (Safe.imported (RiffFmtData.read_of_length (by omega)))
        intro fmt _
        exact setFormat_safe fmt

theorem loadDataChunk_safe (size : Nat) : Safe (loadDataChunk size) fun _ => True := by
  apply Safe.ite
  · intro _
    exact Safe.throw _
  · intro hcap
    apply Safe.bind (readOctets_safe (Nat.le_of_not_lt hcap))
    intro buf hbuf
    apply Safe.bind (setData_safe (by omega))
    intro _ _
    apply Safe.ite
    · intro _
      exact Safe.throw _
    · intro _
      exact Safe.pure trivial

theorem loadPayload_safe (h : ChunkHeader) : Safe (loadPayload seekable h) fun _ => True := by
  apply Safe.ite
  · intro _
    exact loadFormatChunk_safe _
  · intro _
    apply Safe.ite
    · intro _
      exact loadDataChunk_safe _
    · intro _
      exact seekForward_safe _

theorem skipPad_safe (h : ChunkHeader) : Safe (skipPad seekable h) fun _ => True := by
  apply Safe.ite
  · intro _
    exact seekForward_safe 1
  · intro _
    exact Safe.pure trivial

/-! ## The loop -/

/-- A read of octets that are there. -/
theorem IStream.read_of_le {s : IStream} {n : Nat} (hfail : s.fail = false)
    (h : n = 0 ∨ s.pos + n ≤ s.data.length) :
    s.read n = ((s.data.drop s.pos).take n, { s with pos := s.pos + n, gcount := n }) := by
  have hlen : ((s.data.drop s.pos).take n).length = n := by
    rw [List.length_take, List.length_drop]
    omega
  unfold IStream.read
  rw [hfail]
  simp only [Bool.false_eq_true, if_false, hlen, if_true]

/-- A read of more fails the stream. -/
theorem IStream.read_of_lt {s : IStream} {n : Nat} (hfail : s.fail = false) (hn : n ≠ 0)
    (h : s.data.length < s.pos + n) :
    (s.read n).1 = [] ∧ (s.read n).2.fail = true ∧
      (s.read n).2.gcount = s.data.length - s.pos := by
  have hlen : ((s.data.drop s.pos).take n).length = s.data.length - s.pos := by
    rw [List.length_take, List.length_drop]
    omega
  have hshort : ¬ s.data.length - s.pos = n := by omega
  unfold IStream.read
  rw [hfail]
  simp [hlen, hshort]

/-- The state behind `readOctets`. -/
def Loader.afterRead (s : Loader) (purpose : Purpose) (n : Nat) : Loader :=
  { s with stream := (s.stream.read n).2, allocated := (purpose, n) :: s.allocated }

theorem readOctets_bind {purpose : Purpose} {n : Nat} {f : Octets → LoadM β} {s : Loader} :
    (readOctets purpose n >>= f) s = f (s.stream.read n).1 (s.afterRead purpose n) := rfl

/-- `load_chunk` at a whole header. -/
theorem loadChunk_of_le {s : Loader} (hfail : s.stream.fail = false)
    (h : s.stream.pos + ChunkHeader.size ≤ s.stream.data.length) :
    loadChunk seekable s = (imported
        (ChunkHeader.read ((s.stream.data.drop s.stream.pos).take ChunkHeader.size)) >>= fun h =>
          loadPayload seekable h >>= fun _ => skipPad seekable h)
      (s.afterRead .chunkHeader ChunkHeader.size) := by
  have hread := IStream.read_of_le hfail (Or.inr h)
  have hne : (s.stream.read ChunkHeader.size).1 ≠ [] := by
    rw [hread]
    apply List.ne_nil_of_length_pos
    rw [List.length_take, List.length_drop]
    have : ChunkHeader.size = 8 := rfl
    omega
  rw [loadChunk, readOctets_bind]
  change (if (s.stream.read ChunkHeader.size).1 = [] then _ else _ : LoadM Unit) _ = _
  rw [if_neg hne, hread]

/-- `load_chunk` where no whole header is left. -/
theorem loadChunk_of_lt {s : Loader} (hfail : s.stream.fail = false)
    (h : s.stream.data.length < s.stream.pos + ChunkHeader.size) :
    loadChunk seekable s =
      if s.stream.data.length - s.stream.pos ≠ 0 then
        .error (.invalidFormat "truncated chunk header") (s.afterRead .chunkHeader ChunkHeader.size)
      else
        .ok () (s.afterRead .chunkHeader ChunkHeader.size) := by
  obtain ⟨hnil, -, hgcount⟩ := IStream.read_of_lt hfail (by decide) h
  rw [loadChunk, readOctets_bind]
  change (if (s.stream.read ChunkHeader.size).1 = [] then
    if (s.stream.read ChunkHeader.size).2.gcount ≠ 0 then _ else _ else _ : LoadM Unit) _ = _
  rw [if_pos hnil, hgcount]
  split
  · rfl
  · rfl

/-- A round of the loop fails the stream or takes a chunk header off it. -/
theorem loadChunk_spec (seekable : Seekable) {s : Loader} (hs : Bounded s)
    (hfail : s.stream.fail = false) :
    match loadChunk seekable s with
    | .ok _ s' => Bounded s' ∧ Forward s s' ∧
        (s'.stream.fail = true ∨
          (s.stream.pos + 8 ≤ s'.stream.pos ∧ s.stream.pos + 8 ≤ s.stream.data.length))
    | .error e s' => Bounded s' ∧ ∃ what, e = .invalidFormat what := by
  have hread : Bounded (s.afterRead .chunkHeader ChunkHeader.size) ∧
      Forward s (s.afterRead .chunkHeader ChunkHeader.size) ∧ _ :=
    readOctets_safe (show ChunkHeader.size ≤ Purpose.cap .chunkHeader from Nat.le_refl _) s hs
  have hsize : ChunkHeader.size = 8 := rfl
  by_cases hfit : s.stream.pos + ChunkHeader.size ≤ s.stream.data.length
  · -- the payload and its pad lie behind the header
    have hlen : ((s.stream.data.drop s.stream.pos).take ChunkHeader.size).length =
        ChunkHeader.size := by
      rw [List.length_take, List.length_drop]
      omega
    have hbody : Safe (imported
        (ChunkHeader.read ((s.stream.data.drop s.stream.pos).take ChunkHeader.size)) >>= fun h =>
          loadPayload seekable h >>= fun _ => skipPad seekable h) fun _ => True :=
      Safe.bind (Safe.imported ⟨_, ChunkHeader.read_of_length hlen.ge⟩) fun h _ =>
        Safe.bind (loadPayload_safe h) fun _ _ => skipPad_safe h
    have hpos : (s.afterRead .chunkHeader ChunkHeader.size).stream.pos =
        s.stream.pos + ChunkHeader.size := by
      simp only [Loader.afterRead, IStream.read_of_le hfail (Or.inr hfit)]
    rw [loadChunk_of_le hfail hfit]
    have hafter := hbody _ hread.1
    split
    · next heq =>
      rw [heq] at hafter
      obtain ⟨hbounded, hforward, -⟩ := hafter
      have := hforward.pos_le
      exact ⟨hbounded, hread.2.1.trans hforward, Or.inr ⟨by omega, by omega⟩⟩
    · next heq =>
      rw [heq] at hafter
      exact hafter
  · have hlt : s.stream.data.length < s.stream.pos + ChunkHeader.size := by omega
    obtain ⟨-, hfailed, -⟩ := IStream.read_of_lt hfail (by decide) hlt
    rw [loadChunk_of_lt hfail hlt]
    by_cases hrest : s.stream.data.length - s.stream.pos = 0
    · rw [if_neg (by simp [hrest])]
      exact ⟨hread.1, hread.2.1, Or.inl hfailed⟩
    · rw [if_pos hrest]
      exact ⟨hread.1, _, rfl⟩

theorem loadChunks_of_fail {fuel : Nat} {s : Loader} (h : s.stream.fail = true) :
    loadChunks seekable (fuel + 1) s = .ok () s := by
  rw [loadChunks]
  exact if_pos h

theorem loadChunks_of_not_fail {fuel : Nat} {s : Loader} (h : s.stream.fail = false) :
    loadChunks seekable (fuel + 1) s =
      (loadChunk seekable >>= fun _ => loadChunks seekable fuel) s := by
  rw [loadChunks]
  exact if_neg (by rw [h]; decide)

/-- The loop ends, given a round for each octet that is left and two more. -/
theorem loadChunks_safe (seekable : Seekable) (fuel : Nat) {s : Loader} (hs : Bounded s)
    (hpos : 1 ≤ fuel)
    (hfuel : s.stream.fail = true ∨ s.stream.data.length - s.stream.pos + 2 ≤ fuel) :
    match loadChunks seekable fuel s with
    | .ok _ s' => Bounded s'
    | .error e s' => Bounded s' ∧ ∃ what, e = .invalidFormat what := by
  induction fuel generalizing s with
  | zero => omega
  | succ fuel ih =>
      cases hfail : s.stream.fail with
      | true =>
          rw [loadChunks_of_fail hfail]
          exact hs
      | false =>
          -- a round that leaves the stream good has taken eight octets of what is left
          have hround := loadChunk_spec seekable hs hfail
          rw [loadChunks_of_not_fail hfail]
          cases h : loadChunk seekable s with
          | error e s' =>
              rw [h] at hround
              rw [StateExcept.bind_of_error h]
              exact hround
          | ok u s' =>
              rw [h] at hround
              rw [StateExcept.bind_of_ok h]
              obtain ⟨hbounded, hforward, hprogress⟩ := hround
              have hleft : s.stream.data.length - s.stream.pos + 2 ≤ fuel + 1 := by
                rcases hfuel with hfuel | hfuel
                · exact absurd (hfail.symm.trans hfuel) (by decide)
                · exact hfuel
              apply ih hbounded
              · omega
              · rcases hprogress with hfailed | ⟨hmoved, hfit⟩
                · exact Or.inl hfailed
                · right
                  rw [hforward.data_eq]
                  omega

/-! ## The whole -/

theorem loadHeader_safe (s : Loader) (hallocated : ∀ a ∈ s.allocated, a.2 ≤ a.1.cap) :
    match loadHeader s with
    | .ok _ s' => Bounded s' ∧ Forward s s'
    | .error e s' => Bounded s' ∧ ∃ what, e = .invalidFormat what := by
  have hrest : Safe (readOctets .header RiffHeader.size >>= fun buf =>
      if buf.length ≠ RiffHeader.size then
        throw (.invalidFormat "truncated RIFF header")
      else do
        let header ← imported (RiffHeader.read buf)
        if header.header.chunkId ≠ tag "RIFF" then
          throw (.invalidFormat "not a RIFF file")
        else if header.format ≠ tag "WAVE" then
          throw (.invalidFormat "not a RIFF WAVE file")
        else
          pure ()) fun _ => True := by
    apply Safe.bind (readOctets_safe (Nat.le_refl _))
    intro buf _
    apply Safe.ite
    · intro _
      exact Safe.throw _
    · intro hlen
      apply Safe.bind (Safe.imported (RiffHeader.read_of_length (by omega)))
      intro header _
      apply Safe.ite
      · intro _
        exact Safe.throw _
      · intro _
        apply Safe.ite
        · intro _
          exact Safe.throw _
        · intro _
          exact Safe.pure trivial
  -- what an earlier load left in `data_` is dropped first
  have hafter := hrest { s with data := [] } ⟨hallocated, Nat.zero_le _⟩
  have hrun : loadHeader s = _ := StateExcept.bind_of_ok
    (show (modify fun s => { s with data := [] } : LoadM Unit) s = .ok () { s with data := [] }
      from rfl)
  rw [hrun]
  split
  · next heq =>
    rw [heq] at hafter
    exact ⟨hafter.1, ⟨hafter.2.1.data_eq, hafter.2.1.pos_le⟩⟩
  · next heq =>
    rw [heq] at hafter
    exact hafter

/-- The format describes the data: as wide as its type, with channels and a rate
within the limits, over whole frames. -/
structure Describes (fmt : AudioFormat) (data : Octets) : Prop where
  bits_eq : fmt.bitsPerSample.toNat = 8 * fmt.type.readWidth
  channels_pos : 1 ≤ fmt.channels.toNat
  channels_le : fmt.channels.toNat ≤ maxSupportedChannels
  rate_pos : 1 ≤ fmt.samplesPerSecond.toNat
  rate_le : fmt.samplesPerSecond.toNat ≤ maxSampleRate
  endian_eq : fmt.endian = .little
  data_ne : data ≠ []
  whole : data.length % fmt.frame = 0

/-- What `validate_wav_format` lets through. -/
theorem validateWavFormat_ok {fmt : RiffFmtData} {size : Nat}
    (h : validateWavFormat fmt size = .ok ()) :
    (1 ≤ fmt.channels ∧ fmt.channels ≤ maxSupportedChannels) ∧
      (1 ≤ fmt.sampleRate ∧ fmt.sampleRate ≤ maxSampleRate) ∧
      ((fmt.audioFormat = 3 ∧ fmt.bitsPerSample = 32) ∨
        (fmt.audioFormat ≠ 3 ∧
          (fmt.bitsPerSample = 8 ∨ fmt.bitsPerSample = 16 ∨ fmt.bitsPerSample = 24))) ∧
      size % (fmt.channels * (fmt.bitsPerSample / 8)) = 0 := by
  unfold validateWavFormat wavFormatFloat at h
  split at h
  · exact absurd h (by simp)
  · split at h
    · exact absurd h (by simp)
    · split at h
      · exact absurd h (by simp)
      · split at h
        · exact absurd h (by simp)
        · split at h
          · exact absurd h (by simp)
          · split at h
            · exact absurd h (by simp)
            · exact ⟨by omega, by omega, by omega, by omega⟩

/-- It throws nothing else than `invalid_format`. -/
theorem validateWavFormat_error {fmt : RiffFmtData} {size : Nat} {e : WavError}
    (h : validateWavFormat fmt size = .error e) : ∃ what, e = .invalidFormat what := by
  unfold validateWavFormat at h
  repeat' split at h
  all_goals cases h
  all_goals exact ⟨_, rfl⟩

/-- What passed the checks is described by `format()`. -/
theorem audioFormat_describes {s : Loader} {raw : RiffFmtData} (hformat : s.format = some raw)
    (hdata : s.data ≠ []) (hvalid : validateWavFormat raw s.data.length = .ok ()) :
    ∃ fmt, s.audioFormat = .ok fmt ∧ Describes fmt s.data := by
  obtain ⟨⟨hch₁, hch₂⟩, ⟨hrate₁, hrate₂⟩, hbits, hwhole⟩ := validateWavFormat_ok hvalid
  have hch : (UInt32.ofNat raw.channels).toNat = raw.channels :=
    UInt32.toNat_ofNat_of_lt' (by unfold maxSupportedChannels at hch₂; show _ < 2 ^ 32; omega)
  have hrate : (UInt32.ofNat raw.sampleRate).toNat = raw.sampleRate :=
    UInt32.toNat_ofNat_of_lt' (by unfold maxSampleRate at hrate₂; show _ < 2 ^ 32; omega)
  have hbit : (UInt32.ofNat raw.bitsPerSample).toNat = raw.bitsPerSample :=
    UInt32.toNat_ofNat_of_lt' (by show _ < 2 ^ 32; omega)
  simp only [Loader.audioFormat, hformat]
  refine ⟨_, rfl, ?_⟩
  constructor
  · simp only [hbit]
    rcases hbits with ⟨htag, hbits⟩ | ⟨htag, hbits | hbits | hbits⟩
    · simp [htag, hbits, SampleType.readWidth]
    · simp [htag, hbits, SampleType.readWidth]
    · simp [htag, hbits, SampleType.readWidth]
    · simp [htag, hbits, SampleType.readWidth]
  · simpa only [hch] using hch₁
  · simpa only [hch] using hch₂
  · simpa only [hrate] using hrate₁
  · simpa only [hrate] using hrate₂
  · rfl
  · exact hdata
  · simp only [AudioFormat.frame, AudioFormat.stride, hch, hbit]
    rw [Nat.mul_comm]
    exact hwhole

/-- Frames that a format describes are decoded in bounds. -/
theorem Describes.decodeFrames_inBounds {fmt : AudioFormat} {data : Octets}
    (h : Describes fmt data) (hlen : data.length ≤ maxDataChunkSize) {room : Room} {dstCh : UInt32}
    {t : Touched} (ht : decodeFrames room data.length fmt dstCh.toNat = some t) :
    AllInBounds t.accesses := by
  rw [(decodeFrames_inBounds_iff h.channels_le ht).2]
  right
  constructor
  · have hbits := h.bits_eq
    unfold AudioFormat.stride
    omega
  · have hframes : fmt.frames data.length ≤ data.length := by
      unfold AudioFormat.frames
      split
      · exact Nat.div_le_self _ _
      · exact Nat.zero_le _
    have hdst := dstCh.toNat_lt
    calc fmt.frames data.length * dstCh.toNat
        ≤ maxDataChunkSize * 2 ^ 32 := Nat.mul_le_mul (hframes.trans hlen) hdst.le
      _ < 2 ^ 64 := by decide

/-- Loading any stream ends: with `invalid_format`, or with a format and data that
are decoded in bounds; nothing over its cap is allocated either way. -/
theorem load_safe (seekable : Seekable) (stream : IStream) (data : Octets)
    (format : Option RiffFmtData) :
    match load seekable ⟨stream, data, format, []⟩ with
    | .ok _ s =>
        (∀ a ∈ s.allocated, a.2 ≤ a.1.cap) ∧
        ∃ fmt, s.audioFormat = .ok fmt ∧ Describes fmt s.data ∧
          ∀ (room : Room) (dstCh : UInt32) (t : Touched),
            decodeFrames room s.data.length fmt dstCh.toNat = some t → AllInBounds t.accesses
    | .error e s =>
        (∀ a ∈ s.allocated, a.2 ≤ a.1.cap) ∧ ∃ what, e = .invalidFormat what := by
  have hheader := loadHeader_safe ⟨stream, data, format, []⟩ (by simp)
  simp only [load]
  cases h : loadHeader ⟨stream, data, format, []⟩ with
  | error e s =>
      rw [h] at hheader
      rw [StateExcept.bind_of_error h]
      exact ⟨hheader.1.allocated_le, hheader.2⟩
  | ok u s =>
      rw [h] at hheader
      rw [StateExcept.bind_of_ok h]
      obtain ⟨hbounded, hforward⟩ := hheader
      have hdata : s.stream.data = stream.data := hforward.data_eq
      -- the header has not gone back, so the rounds suffice for what is left
      have hloop := loadChunks_safe seekable (stream.data.length + 2) hbounded
        (by omega) (Or.inr (by rw [hdata]; omega))
      cases h' : loadChunks seekable (stream.data.length + 2) s with
      | error e s' =>
          rw [h'] at hloop
          rw [StateExcept.bind_of_error h']
          exact ⟨hloop.1.allocated_le, hloop.2⟩
      | ok u s' =>
          rw [h'] at hloop
          rw [StateExcept.bind_of_ok h']
          -- the checks behind the loop
          simp only [loadChecks]
          cases hformat : s'.format with
          | none => exact ⟨hloop.allocated_le, _, rfl⟩
          | some raw =>
              by_cases hempty : s'.data = []
              · simp only [hempty, if_true]
                exact ⟨hloop.allocated_le, _, rfl⟩
              · simp only [hempty, if_false]
                cases hvalid : validateWavFormat raw s'.data.length with
                | ok u =>
                    obtain ⟨fmt, hfmt, hdescribes⟩ := audioFormat_describes hformat hempty hvalid
                    exact ⟨hloop.allocated_le, fmt, hfmt, hdescribes,
                      fun room dstCh t ht => hdescribes.decodeFrames_inBounds hloop.data_le ht⟩
                | error e => exact ⟨hloop.allocated_le, validateWavFormat_error hvalid⟩

end Securepath.Audio
