import Securepath.Audio.WavSafety

/-!
# What is saved is loaded

`load` goes over the chunks of a saved file and over any chunks it does not know
that stand between them. The padding of an odd data chunk is not written; the seek
over it leads past the end of the file, which ends the loop whether the stream
refuses the seek or not.
-/

namespace Securepath.Audio

open Serialisation (Octets)
open Riff

variable {seekable : Seekable}

/-! ## Streams with known octets ahead -/

/-- `rest` is what the stream has ahead. -/
structure Ahead (s : IStream) (rest : Octets) : Prop where
  fail_eq : s.fail = false
  pos_le : s.pos ≤ s.data.length
  rest_eq : s.data.drop s.pos = rest

/-- A seek within the stream succeeds. -/
def SeeksWithin (seekable : Seekable) : Prop := ∀ size pos, pos ≤ size → seekable size pos = true

namespace Ahead

variable {s : IStream} {u rest : Octets} {n : Nat}

theorem length_eq (h : Ahead s rest) : s.pos + rest.length = s.data.length := by
  have hle := h.pos_le
  rw [← h.rest_eq, List.length_drop]
  omega

theorem drop_eq (h : Ahead s (u ++ rest)) (hu : u.length = n) :
    s.data.drop (s.pos + n) = rest := by
  rw [← List.drop_drop, h.rest_eq, List.drop_append_of_le_length hu.ge,
    List.drop_of_length_le hu.le, List.nil_append]

theorem read (h : Ahead s (u ++ rest)) (hu : u.length = n) :
    (s.read n).1 = u ∧ Ahead (s.read n).2 rest ∧ (s.read n).2.data = s.data := by
  have hlen := h.length_eq
  rw [List.length_append] at hlen
  have hread := IStream.read_of_le h.fail_eq (n := n) (Or.inr (by omega))
  rw [hread]
  refine ⟨?_, ⟨h.fail_eq, ?_, h.drop_eq hu⟩, rfl⟩
  · rw [h.rest_eq, List.take_append_of_le_length hu.ge, List.take_of_length_le hu.le]
  · dsimp only
    omega

theorem seekg (hseek : SeeksWithin seekable) (h : Ahead s (u ++ rest)) (hu : u.length = n) :
    Ahead (s.seekg seekable n) rest ∧ (s.seekg seekable n).data = s.data := by
  have hlen := h.length_eq
  rw [List.length_append] at hlen
  have hok : s.seekg seekable n = { s with pos := s.pos + n } := by
    rw [IStream.seekg, h.fail_eq, hseek _ _ (by omega)]
    rfl
  rw [hok]
  refine ⟨⟨h.fail_eq, ?_, h.drop_eq hu⟩, rfl⟩
  dsimp only
  omega

end Ahead

/-! ## One chunk -/

variable {s : Loader} {rest : Octets}

/-- The chunk header ahead is read, and its body is next. -/
theorem loadChunk_header (seekable : Seekable) {h : ChunkHeader} {body : Octets}
    (hid : h.chunkId.length = 4) (hsize : h.chunkSize < 2 ^ 32)
    (hahead : Ahead s.stream (h.write ++ body)) :
    ∃ s', loadChunk seekable s = (loadPayload seekable h >>= fun _ => skipPad seekable h) s' ∧
      Ahead s'.stream body ∧ s'.stream.data = s.stream.data ∧ s'.data = s.data ∧
      s'.format = s.format := by
  have hwrite := ChunkHeader.write_length hid
  have hlen := hahead.length_eq
  rw [List.length_append, hwrite] at hlen
  obtain ⟨-, hnext, hdata⟩ := hahead.read hwrite
  refine ⟨s.afterRead .chunkHeader ChunkHeader.size, ?_, hnext, hdata, rfl, rfl⟩
  have hbuf : (s.stream.data.drop s.stream.pos).take ChunkHeader.size = h.write := by
    rw [hahead.rest_eq, List.take_append_of_le_length hwrite.ge, List.take_of_length_le hwrite.le]
  have hread : ChunkHeader.read h.write = some (h, []) := by
    have := ChunkHeader.read_write hid hsize []
    rwa [List.append_nil] at this
  rw [loadChunk_of_le hahead.fail_eq (by omega), hbuf, hread]
  rfl

/-- A chunk that `load` does not know, padded when it is odd. -/
structure ForeignChunk where
  chunkId : Octets
  payload : Octets
  pad : Octets
  chunkId_length : chunkId.length = 4
  ne_fmt : chunkId ≠ tag "fmt "
  ne_data : chunkId ≠ tag "data"
  payload_lt : payload.length < 2 ^ 32
  pad_length : pad.length = payload.length % 2

namespace ForeignChunk

def header (c : ForeignChunk) : ChunkHeader := ⟨c.chunkId, c.payload.length⟩

def octets (c : ForeignChunk) : Octets := c.header.write ++ (c.payload ++ c.pad)

end ForeignChunk

/-- The octets of several chunks. -/
def foreignOctets (cs : List ForeignChunk) : Octets := cs.flatMap ForeignChunk.octets

/-- A foreign chunk is skipped. -/
theorem loadChunk_foreign (hseek : SeeksWithin seekable) (c : ForeignChunk)
    (hahead : Ahead s.stream (c.octets ++ rest)) :
    ∃ s', loadChunk seekable s = .ok () s' ∧ Ahead s'.stream rest ∧
      s'.stream.data = s.stream.data ∧ s'.data = s.data ∧ s'.format = s.format := by
  rw [ForeignChunk.octets, List.append_assoc, List.append_assoc] at hahead
  obtain ⟨s₁, hrun, hahead₁, hdata₁, hsame₁, hformat₁⟩ :=
    loadChunk_header seekable (h := c.header) c.chunkId_length c.payload_lt hahead
  have hpayload : loadPayload seekable c.header = seekForward seekable c.payload.length := by
    rw [loadPayload, ForeignChunk.header, if_neg c.ne_fmt, if_neg c.ne_data]
  obtain ⟨hahead₂, hdata₂⟩ := hahead₁.seekg hseek rfl
  rw [hrun, hpayload]
  -- odd payloads are padded with one octet, which is sought past
  by_cases hodd : c.payload.length % 2 ≠ 0
  · have hpad : c.pad.length = 1 := by
      rw [c.pad_length]
      omega
    obtain ⟨hahead₃, hdata₃⟩ := hahead₂.seekg hseek hpad
    refine ⟨{ s₁ with
      stream := (s₁.stream.seekg seekable c.payload.length).seekg seekable 1 }, ?_, hahead₃,
      hdata₃.trans (hdata₂.trans hdata₁), hsame₁, hformat₁⟩
    rw [skipPad, ForeignChunk.header, if_pos hodd]
    rfl
  · have hpad : c.pad = [] := by
      apply List.eq_nil_of_length_eq_zero
      rw [c.pad_length]
      omega
    rw [hpad, List.nil_append] at hahead₂
    refine ⟨{ s₁ with stream := s₁.stream.seekg seekable c.payload.length }, ?_, hahead₂,
      hdata₂.trans hdata₁, hsame₁, hformat₁⟩
    rw [skipPad, ForeignChunk.header, if_neg hodd]
    rfl

/-- The format chunk that was written is taken over. -/
theorem loadChunk_fmt (seekable : Seekable) {fmt : RiffFmtData} (hfits : fmt.Fits)
    (hahead : Ahead s.stream (writeRiffFmt fmt ++ rest)) :
    ∃ s', loadChunk seekable s = .ok () s' ∧ Ahead s'.stream rest ∧
      s'.stream.data = s.stream.data ∧ s'.data = s.data ∧ s'.format = some fmt := by
  rw [writeRiffFmt, List.append_assoc] at hahead
  obtain ⟨s₁, hrun, hahead₁, hdata₁, hsame₁, -⟩ :=
    loadChunk_header seekable rfl (by decide) hahead
  have hwrite := fmt.write_length
  obtain ⟨hbuf, hahead₂, hdata₂⟩ := hahead₁.read hwrite
  refine ⟨{ s₁.afterRead .fmtChunk RiffFmtData.size with format := some fmt }, ?_, hahead₂,
    hdata₂.trans hdata₁, hsame₁, rfl⟩
  have hread : RiffFmtData.read fmt.write = some (fmt, []) := by
    have := RiffFmtData.read_write hfits []
    rwa [List.append_nil] at this
  have hpayload : loadPayload seekable ⟨tag "fmt ", riffFmtSize - ChunkHeader.size⟩ s₁ =
      .ok () { s₁.afterRead .fmtChunk RiffFmtData.size with format := some fmt } := by
    rw [loadPayload, if_pos rfl, loadFormatChunk, if_neg (by decide), if_neg (by decide)]
    change (readOctets .fmtChunk RiffFmtData.size >>= _) s₁ = _
    rw [readOctets_bind, hbuf, if_neg (by rw [hwrite]; decide), hread]
    rfl
  rw [hrun, StateExcept.bind_of_ok hpayload]
  rfl

/-- The data chunk that was written is taken over; behind odd data the stream is
sought past. -/
theorem loadChunk_data (seekable : Seekable) {data : Octets} (hcap : data.length ≤ maxDataChunkSize)
    (hahead : Ahead s.stream (writeRiffData data ++ rest)) :
    ∃ s', loadChunk seekable s = .ok () s' ∧ s'.stream.data = s.stream.data ∧ s'.data = data ∧
      s'.format = s.format ∧
      ∃ stream, Ahead stream rest ∧ stream.data = s.stream.data ∧
        s'.stream = if data.length % 2 ≠ 0 then stream.seekg seekable 1 else stream := by
  rw [writeRiffData, List.append_assoc] at hahead
  have hsmall : data.length < 2 ^ 32 := by
    unfold maxDataChunkSize at hcap
    omega
  obtain ⟨s₁, hrun, hahead₁, hdata₁, -, hformat₁⟩ :=
    loadChunk_header seekable rfl hsmall hahead
  obtain ⟨hbuf, hahead₂, hdata₂⟩ := hahead₁.read rfl
  have hpayload : loadPayload seekable ⟨tag "data", data.length⟩ s₁ =
      .ok () { s₁.afterRead .dataChunk data.length with data := data } := by
    have hnot : ¬ maxDataChunkSize < data.length := by omega
    have hne : tag "data" ≠ tag "fmt " := by decide
    rw [loadPayload, if_neg hne, if_pos rfl]
    simp only [loadDataChunk, if_neg hnot]
    rw [readOctets_bind, hbuf]
    change (if data.length ≠ data.length then _ else _ : LoadM Unit) _ = _
    rw [if_neg (by simp)]
    rfl
  rw [hrun, StateExcept.bind_of_ok hpayload]
  by_cases hodd : data.length % 2 ≠ 0
  · obtain ⟨hsought, -⟩ := (s₁.afterRead .dataChunk data.length).stream.seekg_spec seekable 1
    refine ⟨{ s₁.afterRead .dataChunk data.length with
      data := data
      stream := (s₁.afterRead .dataChunk data.length).stream.seekg seekable 1 }, ?_,
      hsought.trans (hdata₂.trans hdata₁), rfl, hformat₁,
      (s₁.afterRead .dataChunk data.length).stream, hahead₂, hdata₂.trans hdata₁, ?_⟩
    · simp only [skipPad, if_pos hodd]
      rfl
    · rw [if_pos hodd]
  · refine ⟨{ s₁.afterRead .dataChunk data.length with data := data }, ?_,
      hdata₂.trans hdata₁, rfl, hformat₁,
      (s₁.afterRead .dataChunk data.length).stream, hahead₂, hdata₂.trans hdata₁, ?_⟩
    · simp only [skipPad, if_neg hodd]
      rfl
    · rw [if_neg hodd]

/-! ## Rounds of the loop -/

/-- `n` rounds of the loop lead from `s` to `s'`. -/
def Rounds (seekable : Seekable) (n : Nat) (s s' : Loader) : Prop :=
  ∀ fuel, loadChunks seekable (fuel + n) s = loadChunks seekable fuel s'

theorem Rounds.refl (s : Loader) : Rounds seekable 0 s s := fun _ => rfl

theorem Rounds.trans {n m : Nat} {s s' s'' : Loader} (h : Rounds seekable n s s')
    (h' : Rounds seekable m s' s'') : Rounds seekable (n + m) s s'' := by
  intro fuel
  rw [← h' fuel, ← h (fuel + m)]
  congr 1
  omega

theorem Rounds.of_loadChunk {s' : Loader} (hfail : s.stream.fail = false)
    (h : loadChunk seekable s = .ok () s') : Rounds seekable 1 s s' := by
  intro fuel
  rw [loadChunks_of_not_fail hfail, StateExcept.bind_of_ok h]

/-- All foreign chunks ahead are skipped. -/
theorem rounds_foreign (hseek : SeeksWithin seekable) (cs : List ForeignChunk)
    (hahead : Ahead s.stream (foreignOctets cs ++ rest)) :
    ∃ s', Rounds seekable cs.length s s' ∧ Ahead s'.stream rest ∧
      s'.stream.data = s.stream.data ∧ s'.data = s.data ∧ s'.format = s.format := by
  induction cs generalizing s with
  | nil => exact ⟨s, Rounds.refl s, hahead, rfl, rfl, rfl⟩
  | cons c cs ih =>
      rw [foreignOctets, List.flatMap_cons, List.append_assoc] at hahead
      obtain ⟨s₁, hrun, hahead₁, hstream₁, hdata₁, hformat₁⟩ := loadChunk_foreign hseek c hahead
      obtain ⟨s₂, hrounds, hahead₂, hstream₂, hdata₂, hformat₂⟩ := ih hahead₁
      refine ⟨s₂, ?_, hahead₂, hstream₂.trans hstream₁, hdata₂.trans hdata₁,
        hformat₂.trans hformat₁⟩
      have hone := (Rounds.of_loadChunk hahead.fail_eq hrun).trans hrounds
      rwa [Nat.add_comm, ← List.length_cons] at hone

/-- There is no whole octet left, or the stream failed. -/
def Ended (s : IStream) : Prop := s.fail = true ∨ s.data.length ≤ s.pos

theorem Ahead.ended {s : IStream} (h : Ahead s []) : Ended s := by
  have := h.length_eq
  rw [List.length_nil] at this
  exact Or.inr (by omega)

/-- A seek over a pad octet that is not there ends the stream either way. -/
theorem Ahead.seekg_ended {s : IStream} (h : Ahead s []) : Ended (s.seekg seekable 1) := by
  have := h.length_eq
  rw [List.length_nil] at this
  rw [IStream.seekg, h.fail_eq]
  simp only [Bool.false_eq_true, if_false]
  split
  · right
    dsimp only
    omega
  · exact Or.inl rfl

/-- At the end the loop returns. -/
theorem loadChunks_ended (seekable : Seekable) (hended : Ended s.stream) {fuel : Nat}
    (hfuel : 2 ≤ fuel) :
    ∃ s', loadChunks seekable fuel s = .ok () s' ∧ s'.data = s.data ∧ s'.format = s.format := by
  obtain ⟨n, rfl⟩ := Nat.exists_eq_add_of_le hfuel
  rw [Nat.add_comm 2 n]
  cases hfail : s.stream.fail with
  | true => exact ⟨s, loadChunks_of_fail hfail, rfl, rfl⟩
  | false =>
      have hpos : s.stream.data.length ≤ s.stream.pos := by
        rcases hended with h | h
        · exact absurd (hfail.symm.trans h) (by decide)
        · exact h
      have hlt : s.stream.data.length < s.stream.pos + ChunkHeader.size := by
        have : ChunkHeader.size = 8 := rfl
        omega
      -- nothing is read, which ends the loop in the round after
      obtain ⟨-, hfailed, -⟩ := IStream.read_of_lt hfail (by decide) hlt
      have hrun : loadChunk seekable s = .ok () (s.afterRead .chunkHeader ChunkHeader.size) := by
        rw [loadChunk_of_lt hfail hlt, if_neg (by simp [Nat.sub_eq_zero_of_le hpos])]
      refine ⟨s.afterRead .chunkHeader ChunkHeader.size, ?_, rfl, rfl⟩
      rw [loadChunks_of_not_fail hfail, StateExcept.bind_of_ok hrun]
      exact loadChunks_of_fail hfailed

/-! ## Saving -/

/-- A format that `save` writes and that is what it says: the sample type and the
width belong together. -/
structure Saveable (format : AudioFormat) : Prop where
  endian_eq : format.endian = .little
  consistent : (format.type = .uchar ∧ format.bitsPerSample = 8) ∨
    (format.type = .short ∧ format.bitsPerSample = 16) ∨
    (format.type = .float ∧ format.bitsPerSample = 32)
  channels_pos : 1 ≤ format.channels.toNat
  channels_le : format.channels.toNat ≤ 16
  rate_pos : 1 ≤ format.samplesPerSecond.toNat
  rate_le : format.samplesPerSecond.toNat ≤ 768000

/-- The format chunk that `save` writes. -/
def savedFmt (format : AudioFormat) : RiffFmtData where
  audioFormat := if format.type = .float then 3 else 1
  channels := format.channels.toNat
  sampleRate := format.samplesPerSecond.toNat
  byteRate :=
    uint32 (format.samplesPerSecond.toNat * format.channels.toNat * format.bitsPerSample.toNat) / 8
  blockAlign := uint32 (format.channels.toNat * format.bitsPerSample.toNat) / 8
  bitsPerSample := format.bitsPerSample.toNat

variable {format : AudioFormat} {data : Octets}

theorem save_eq (h : Saveable format) :
    save data format = .ok ((RiffHeader.ofSize (riffFmtSize + riffDataSize + data.length)).write ++
      (writeRiffFmt (savedFmt format) ++ writeRiffData data)) := by
  have hendian := h.endian_eq
  unfold save
  rw [if_neg (by simp [hendian]), if_neg]
  · rfl
  · rcases h.consistent with ⟨htype, -⟩ | ⟨htype, -⟩ | ⟨htype, -⟩
    · simp [htype]
    · simp [htype]
    · simp [htype]

theorem Saveable.bits_le (h : Saveable format) : format.bitsPerSample.toNat ≤ 32 := by
  rcases h.consistent with ⟨-, hbits⟩ | ⟨-, hbits⟩ | ⟨-, hbits⟩
  · rw [hbits]
    decide
  · rw [hbits]
    decide
  · rw [hbits]
    decide

/-- No field of the format chunk is cut off. -/
theorem savedFmt_fits (h : Saveable format) : (savedFmt format).Fits := by
  have hchannels := h.channels_le
  have hrate := h.rate_le
  have hbits := h.bits_le
  have hblock : uint32 (format.channels.toNat * format.bitsPerSample.toNat) ≤ 16 * 32 :=
    (Nat.mod_le _ _).trans (Nat.mul_le_mul hchannels hbits)
  have hbyte : uint32 (format.samplesPerSecond.toNat * format.channels.toNat *
      format.bitsPerSample.toNat) < 2 ^ 32 := Nat.mod_lt _ (by decide)
  constructor
  · simp only [savedFmt]
    split
    · decide
    · decide
  · simp only [savedFmt]
    omega
  · simp only [savedFmt]
    omega
  · simp only [savedFmt]
    omega
  · simp only [savedFmt]
    omega
  · simp only [savedFmt]
    omega

/-- It passes the checks. -/
theorem savedFmt_valid (h : Saveable format) (hwhole : data.length % format.frame = 0) :
    validateWavFormat (savedFmt format) data.length = .ok () := by
  have hchannels := h.channels_le
  have hchannels' := h.channels_pos
  have hrate := h.rate_le
  have hrate' := h.rate_pos
  have hframe : format.channels.toNat * (format.bitsPerSample.toNat / 8) = format.frame := by
    rw [AudioFormat.frame, AudioFormat.stride, Nat.mul_comm]
  have hpos : format.frame ≠ 0 := by
    rw [← hframe]
    apply Nat.mul_ne_zero (by omega)
    rcases h.consistent with ⟨-, hbits⟩ | ⟨-, hbits⟩ | ⟨-, hbits⟩
    · rw [hbits]
      decide
    · rw [hbits]
      decide
    · rw [hbits]
      decide
  unfold validateWavFormat wavFormatPcm wavFormatFloat maxSupportedChannels maxSampleRate
  simp only [savedFmt, hframe]
  -- none of the six checks refuses
  rw [if_neg, if_neg, if_neg, if_neg, if_neg, if_neg]
  · simp [hpos, hwhole]
  · rcases h.consistent with ⟨htype, hbits⟩ | ⟨htype, hbits⟩ | ⟨htype, hbits⟩
    · simp [htype, hbits]
    · simp [htype, hbits]
    · simp [htype, hbits]
  · rcases h.consistent with ⟨htype, hbits⟩ | ⟨htype, hbits⟩ | ⟨htype, hbits⟩
    · simp [htype, hbits]
    · simp [htype, hbits]
    · simp [htype, hbits]
  · omega
  · omega
  · split
    · simp
    · simp

/-- `format()` gives the format back. -/
theorem audioFormat_savedFmt (h : Saveable format) (hformat : s.format = some (savedFmt format)) :
    s.audioFormat = .ok format := by
  have hendian := h.endian_eq
  obtain ⟨type, channels, bits, rate, endian⟩ := format
  simp only at hendian
  subst hendian
  simp only [Loader.audioFormat, hformat, savedFmt, UInt32.ofNat_toNat]
  rcases h.consistent with ⟨htype, hbits⟩ | ⟨htype, hbits⟩ | ⟨htype, hbits⟩
  · simp only at htype hbits
    subst htype hbits
    rfl
  · simp only at htype hbits
    subst htype hbits
    rfl
  · simp only at htype hbits
    subst htype hbits
    rfl

/-! ## Loading what was saved -/

theorem foreignOctets_length (cs : List ForeignChunk) : cs.length ≤ (foreignOctets cs).length := by
  induction cs with
  | nil => exact Nat.le_refl 0
  | cons c cs ih =>
      have hheader := ChunkHeader.write_length (h := c.header) c.chunkId_length
      have hsize : ChunkHeader.size = 8 := rfl
      rw [foreignOctets, List.flatMap_cons, List.length_append, ForeignChunk.octets,
        List.length_append, List.length_cons]
      rw [foreignOctets] at ih
      omega

theorem riffHeader_write_length (size : Nat) :
    (RiffHeader.ofSize size).write.length = RiffHeader.size := by
  simp only [RiffHeader.write, RiffHeader.ofSize, List.length_append]
  rw [ChunkHeader.write_length rfl]
  rfl

theorem writeRiffFmt_length (fmt : RiffFmtData) : (writeRiffFmt fmt).length = riffFmtSize := by
  rw [writeRiffFmt, List.length_append, ChunkHeader.write_length rfl, fmt.write_length]
  rfl

/-- A saved header is accepted. -/
theorem loadHeader_saved {size : Nat}
    (hahead : Ahead s.stream ((RiffHeader.ofSize size).write ++ rest))
    (hsize : 4 + size < 2 ^ 32) :
    ∃ s', loadHeader s = .ok () s' ∧ Ahead s'.stream rest ∧ s'.stream.data = s.stream.data := by
  have hwrite := riffHeader_write_length size
  obtain ⟨hbuf, hnext, hdata⟩ := hahead.read hwrite
  have hread : RiffHeader.read (RiffHeader.ofSize size).write =
      some (RiffHeader.ofSize size, []) := by
    have hheader := ChunkHeader.read_write (h := ⟨tag "RIFF", 4 + size⟩) rfl hsize (tag "WAVE")
    simp only [RiffHeader.read, RiffHeader.write, RiffHeader.ofSize, hheader, Option.bind_some]
    rfl
  refine ⟨{ s with data := [] }.afterRead .header RiffHeader.size, ?_, hnext, hdata⟩
  have hrun : loadHeader s = _ := StateExcept.bind_of_ok
    (show (modify fun s => { s with data := [] } : LoadM Unit) s = .ok () { s with data := [] }
      from rfl)
  rw [hrun, readOctets_bind]
  dsimp only
  rw [hbuf, if_neg (by simp [hwrite]), hread]
  rfl

/-- Loading what was saved gives back the format and the data, with any foreign
chunks before, between and behind its chunks; behind odd data, which is not padded,
there is none. -/
theorem load_save (seekable : Seekable) (hseek : SeeksWithin seekable)
    (hformat : Saveable format) (hne : data ≠ []) (hwhole : data.length % format.frame = 0)
    (hcap : data.length ≤ maxDataChunkSize) (before between after : List ForeignChunk)
    (hafter : data.length % 2 = 0 ∨ after = []) (data₀ : Octets) (format₀ : Option RiffFmtData) :
    ∃ saved, save data format = .ok saved ∧
      ∃ s, load seekable
          ⟨{ data := saved.take RiffHeader.size ++ (foreignOctets before ++
              ((saved.drop RiffHeader.size).take riffFmtSize ++ (foreignOctets between ++
                (saved.drop (RiffHeader.size + riffFmtSize) ++ foreignOctets after)))) },
            data₀, format₀, []⟩ = .ok () s ∧
        s.data = data ∧ s.audioFormat = .ok format := by
  refine ⟨_, save_eq hformat, ?_⟩
  -- the three parts of the saved file
  have hheader := riffHeader_write_length (riffFmtSize + riffDataSize + data.length)
  have hfmt := writeRiffFmt_length (savedFmt format)
  rw [← List.drop_drop]
  rw [List.take_left' hheader, List.drop_left' hheader, List.take_left' hfmt,
    List.drop_left' hfmt]
  generalize hoctets : (RiffHeader.ofSize (riffFmtSize + riffDataSize + data.length)).write ++
    (foreignOctets before ++ (writeRiffFmt (savedFmt format) ++ (foreignOctets between ++
      (writeRiffData data ++ foreignOctets after)))) = octets
  have hlen := congrArg List.length hoctets
  simp only [List.length_append] at hlen
  have hbefore := foreignOctets_length before
  have hbetween := foreignOctets_length between
  have hbehind := foreignOctets_length after
  -- header, foreign chunks, format, foreign chunks, data
  have hstart : Ahead ({ data := octets } : IStream)
      ((RiffHeader.ofSize (riffFmtSize + riffDataSize + data.length)).write ++
        (foreignOctets before ++ (writeRiffFmt (savedFmt format) ++ (foreignOctets between ++
          (writeRiffData data ++ foreignOctets after))))) :=
    ⟨rfl, Nat.zero_le _, hoctets.symm⟩
  have hsize : 4 + (riffFmtSize + riffDataSize + data.length) < 2 ^ 32 := by
    unfold maxDataChunkSize at hcap
    have : riffFmtSize = 24 := rfl
    have : riffDataSize = 8 := rfl
    omega
  obtain ⟨s₁, hrun₁, hahead₁, hstream₁⟩ :=
    loadHeader_saved (s := ⟨{ data := octets }, data₀, format₀, []⟩) hstart hsize
  obtain ⟨s₂, hrounds₂, hahead₂, -, -, -⟩ := rounds_foreign hseek before hahead₁
  obtain ⟨s₃, hrun₃, hahead₃, -, -, hformat₃⟩ :=
    loadChunk_fmt seekable (savedFmt_fits hformat) hahead₂
  obtain ⟨s₄, hrounds₄, hahead₄, -, -, hformat₄⟩ := rounds_foreign hseek between hahead₃
  obtain ⟨s₅, hrun₅, -, hdata₅, hformat₅, stream, hahead₅, -, hstream₅⟩ :=
    loadChunk_data seekable hcap hahead₄
  have hrounds := ((hrounds₂.trans (Rounds.of_loadChunk hahead₂.fail_eq hrun₃)).trans
    hrounds₄).trans (Rounds.of_loadChunk hahead₄.fail_eq hrun₅)
  -- what is behind the data
  obtain ⟨s₆, n, hrounds₆, hn, hended, hdata₆, hformat₆⟩ : ∃ s₆ n, Rounds seekable n s₅ s₆ ∧
      n ≤ after.length ∧ Ended s₆.stream ∧ s₆.data = s₅.data ∧ s₆.format = s₅.format := by
    by_cases hodd : data.length % 2 ≠ 0
    · have hnone : after = [] := by
        rcases hafter with h | h
        · exact absurd h hodd
        · exact h
      rw [hnone] at hahead₅
      rw [if_pos hodd] at hstream₅
      refine ⟨s₅, 0, Rounds.refl s₅, Nat.zero_le _, ?_, rfl, rfl⟩
      rw [hstream₅]
      exact Ahead.seekg_ended hahead₅
    · rw [if_neg hodd] at hstream₅
      rw [← hstream₅, ← List.append_nil (foreignOctets after)] at hahead₅
      obtain ⟨s₆, hrounds₆, hahead₆, -, hdata₆, hformat₆⟩ := rounds_foreign hseek after hahead₅
      exact ⟨s₆, after.length, hrounds₆, Nat.le_refl _, hahead₆.ended, hdata₆, hformat₆⟩
  obtain ⟨fuel, hfuel⟩ : ∃ fuel, octets.length + 2 =
      fuel + 2 + (before.length + 1 + between.length + 1 + n) := by
    have : (writeRiffData data).length = riffDataSize + data.length := by
      rw [writeRiffData, List.length_append, ChunkHeader.write_length rfl]
      rfl
    have : riffFmtSize = 24 := rfl
    exact ⟨octets.length - (before.length + 1 + between.length + 1 + n), by omega⟩
  obtain ⟨s₇, hrun₇, hdata₇, hformat₇⟩ := loadChunks_ended seekable hended
    (Nat.le_add_left 2 fuel)
  have hloop : loadChunks seekable (octets.length + 2) s₁ = .ok () s₇ := by
    rw [hfuel, hrounds.trans hrounds₆, hrun₇]
  -- the checks
  have hdata : s₇.data = data := hdata₇.trans (hdata₆.trans hdata₅)
  have hfmt₇ : s₇.format = some (savedFmt format) := by
    rw [hformat₇, hformat₆, hformat₅, hformat₄, hformat₃]
  refine ⟨s₇, ?_, hdata, audioFormat_savedFmt hformat hfmt₇⟩
  simp only [load]
  rw [StateExcept.bind_of_ok hrun₁, StateExcept.bind_of_ok hloop]
  simp only [loadChecks, hfmt₇, hdata, if_neg hne, savedFmt_valid hformat hwhole]

/-- One sample of 8 bits, with an odd foreign chunk in front of the format. -/
theorem load_save_uchar :
    ∃ saved, save [7] { type := .uchar, bitsPerSample := 8 } = .ok saved ∧
      ∃ s, load (fun size pos => pos ≤ size)
          ⟨{ data := saved.take RiffHeader.size ++
              (foreignOctets [⟨tag "LIST", [1], [0], rfl, by decide, by decide, by decide, rfl⟩] ++
                ((saved.drop RiffHeader.size).take riffFmtSize ++ (foreignOctets [] ++
                  (saved.drop (RiffHeader.size + riffFmtSize) ++ foreignOctets [])))) },
            [], none, []⟩ = .ok () s ∧
        s.data = [7] ∧ s.audioFormat = .ok { type := .uchar, bitsPerSample := 8 } :=
  load_save (fun size pos => pos ≤ size) (fun _ _ h => decide_eq_true h)
    ⟨rfl, Or.inl ⟨rfl, rfl⟩, by decide, by decide, by decide, by decide⟩ (by simp) rfl (by decide)
    [⟨tag "LIST", [1], [0], rfl, by decide, by decide, by decide, rfl⟩] [] [] (Or.inr rfl) [] none

end Securepath.Audio
