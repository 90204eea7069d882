import Securepath.Library.StateExcept
import Securepath.Audio.Resample
import Securepath.Audio.RiffFormat

/-!
# WAV files

`wav` (`audio/util/detail/wav.cpp`). Loading goes over the chunks of a RIFF stream,
whatever their order and number, keeps the last format and the last data, skips
what it does not know, and validates the two at the end.

An input stream is followed as far as loading can tell: the octets, the position,
whether it failed, and how much the last read got. Whether a seek past the end
fails or is found out at the next read depends on the kind of stream, so the
positions that a seek accepts are a parameter. What is allocated is recorded, with
what it was for.
-/

namespace Securepath.Audio

open Serialisation (Octets)
open Bounds (AllInBounds)
open Riff

/-! ## Input streams -/

/-- `std::istream`. -/
structure IStream where
  data : Octets
  pos : Nat := 0
  fail : Bool := false
  gcount : Nat := 0

/-- The positions in a stream of some size to which a seek succeeds. -/
abbrev Seekable := Nat → Nat → Bool

namespace IStream

/-- `read(buf, n)`; the octets are those of a read that got all of them. -/
def read (s : IStream) (n : Nat) : Octets × IStream :=
  let got := (s.data.drop s.pos).take n
  if s.fail then ([], { s with gcount := 0 })
  else if got.length = n then (got, { s with pos := s.pos + n, gcount := n })
  else ([], { s with pos := s.pos + got.length, fail := true, gcount := got.length })

/-- `seekg(n, std::ios_base::cur)`. -/
def seekg (seekable : Seekable) (s : IStream) (n : Nat) : IStream :=
  if s.fail then s
  else if seekable s.data.length (s.pos + n) then { s with pos := s.pos + n }
  else { s with fail := true }

end IStream

/-! ## Limits -/

def wavFormatPcm : Nat := 1
def wavFormatFloat : Nat := 3
def maxSampleRate : Nat := 768000
def maxDataChunkSize : Nat := 256 * 1024 * 1024
def maxFmtChunkSize : Nat := 1024

/-- What memory is allocated for. -/
inductive Purpose where
  | header
  | chunkHeader
  | fmtChunk
  | dataChunk
  deriving DecidableEq, Repr

/-- The most that may be allocated for a purpose. -/
def Purpose.cap : Purpose → Nat
  | .header => RiffHeader.size
  | .chunkHeader => ChunkHeader.size
  | .fmtChunk => maxFmtChunkSize
  | .dataChunk => maxDataChunkSize

inductive WavError where
  | invalidFormat (what : String)
  | outOfRange (what : String)
  /-- The loop over the chunks was cut off; `load` lets it run long enough. -/
  | outOfFuel
  deriving DecidableEq, Repr

/-- `validate_wav_format`. -/
def validateWavFormat (fmt : RiffFmtData) (dataSize : Nat) : Except WavError Unit :=
  if fmt.audioFormat ≠ wavFormatPcm ∧ fmt.audioFormat ≠ wavFormatFloat then
    .error (.invalidFormat "unsupported WAV format; only PCM and IEEE float are supported")
  else if fmt.channels < 1 ∨ maxSupportedChannels < fmt.channels then
    .error (.invalidFormat "unsupported channel count")
  else if fmt.sampleRate < 1 ∨ maxSampleRate < fmt.sampleRate then
    .error (.invalidFormat "unsupported sample rate")
  else if fmt.audioFormat = wavFormatFloat ∧ fmt.bitsPerSample ≠ 32 then
    .error (.invalidFormat "IEEE float WAV must be 32 bits per sample")
  else if fmt.audioFormat ≠ wavFormatFloat ∧
      fmt.bitsPerSample ≠ 8 ∧ fmt.bitsPerSample ≠ 16 ∧ fmt.bitsPerSample ≠ 24 then
    .error (.invalidFormat "only 8, 16 or 24 bit PCM is supported")
  else if fmt.channels * (fmt.bitsPerSample / 8) = 0 ∨
      dataSize % (fmt.channels * (fmt.bitsPerSample / 8)) ≠ 0 then
    .error (.invalidFormat "WAV data size is not a multiple of the frame size")
  else
    .ok ()

/-! ## Loading -/

/-- The stream being loaded, `data_`, `format_`, and what was allocated. -/
structure Loader where
  stream : IStream
  data : Octets
  format : Option RiffFmtData
  allocated : List (Purpose × Nat) := []

abbrev LoadM := EStateM WavError Loader

/-- `read`: nothing when there are fewer octets. -/
def readOctets (purpose : Purpose) (n : Nat) : LoadM Octets := fun s =>
  .ok (s.stream.read n).1
    { s with stream := (s.stream.read n).2, allocated := (purpose, n) :: s.allocated }

/-- `in.seekg(n, std::ios_base::cur)`. -/
def seekForward (seekable : Seekable) (n : Nat) : LoadM Unit := fun s =>
  .ok () { s with stream := s.stream.seekg seekable n }

/-- The result of reading a header out of a buffer. -/
def imported {α : Type} : Option (α × Octets) → LoadM α
  | some (a, _) => pure a
  | none => throw (.outOfRange "endian_import")

/-- `load_format_chunk`. -/
def loadFormatChunk (size : Nat) : LoadM Unit :=
  if size < RiffFmtData.size then
    throw (.invalidFormat "truncated fmt chunk")
  else if maxFmtChunkSize < size then
    throw (.invalidFormat "fmt chunk size out of bounds")
  else do
    let buf ← readOctets .fmtChunk size
    if buf.length ≠ size then
      throw (.invalidFormat "truncated fmt chunk")
    else do
      let fmt ← imported (RiffFmtData.read buf)
      modify fun s => { s with format := some fmt }

/-- `load_data_chunk`. -/
def loadDataChunk (size : Nat) : LoadM Unit :=
  if maxDataChunkSize < size then
    throw (.invalidFormat "data chunk size out of bounds")
  else do
    let buf ← readOctets .dataChunk size
    modify fun s => { s with data := buf }
    if buf.length ≠ size then
      throw (.invalidFormat "invalid data chunk; size does not match")
    else
      pure ()

/-- `load_chunk` on the payload behind the chunk header `h`. -/
def loadPayload (seekable : Seekable) (h : ChunkHeader) : LoadM Unit :=
  if h.chunkId = tag "fmt " then loadFormatChunk h.chunkSize
  else if h.chunkId = tag "data" then loadDataChunk h.chunkSize
  else seekForward seekable h.chunkSize

/-- `load_chunk` on the pad octet of an odd payload. -/
def skipPad (seekable : Seekable) (h : ChunkHeader) : LoadM Unit :=
  if h.chunkSize % 2 ≠ 0 then seekForward seekable 1 else pure ()

/-- `load_chunk`. -/
def loadChunk (seekable : Seekable) : LoadM Unit := do
  let buf ← readOctets .chunkHeader ChunkHeader.size
  let s ← get
  if buf = [] then
    if s.stream.gcount ≠ 0 then throw (.invalidFormat "truncated chunk header") else pure ()
  else do
    let h ← imported (ChunkHeader.read buf)
    loadPayload seekable h
    skipPad seekable h

/-- The loop of `load`, for at most `fuel` rounds. -/
def loadChunks (seekable : Seekable) : Nat → LoadM Unit
  | 0 => throw .outOfFuel
  | fuel + 1 => fun s =>
      if s.stream.fail then .ok () s
      else (loadChunk seekable >>= fun _ => loadChunks seekable fuel) s

/-- `load` up to the first chunk. -/
def loadHeader : LoadM Unit := do
  modify fun s => { s with data := [] }
  let buf ← readOctets .header RiffHeader.size
  if buf.length ≠ RiffHeader.size then
    throw (.invalidFormat "truncated RIFF header")
  else do
    let header ← imported (RiffHeader.read buf)
    if header.header.chunkId ≠ tag "RIFF" then
      throw (.invalidFormat "not a RIFF file")
    else if header.format ≠ tag "WAVE" then
      throw (.invalidFormat "not a RIFF WAVE file")
    else
      pure ()

/-- `load` behind the last chunk. -/
def loadChecks : LoadM Unit := fun s =>
  match s.format with
  | none => .error (.invalidFormat "format chunk not found") s
  | some fmt =>
      if s.data = [] then .error (.invalidFormat "data chunk not found") s
      else
        match validateWavFormat fmt s.data.length with
        | .ok () => .ok () s
        | .error e => .error e s

/-- `load`. A round of the loop that the stream does not fail takes a chunk header
off it, so that there are fewer rounds than octets. -/
def load (seekable : Seekable) : LoadM Unit := fun s =>
  (loadHeader >>= fun _ => loadChunks seekable (s.stream.data.length + 2) >>= fun _ =>
    loadChecks) s

/-- `format()`. -/
def Loader.audioFormat (s : Loader) : Except WavError AudioFormat :=
  match s.format with
  | none => .error (.invalidFormat "format chunk not found")
  | some fmt =>
      .ok {
        type :=
          if fmt.audioFormat = 3 then .float
          else if fmt.bitsPerSample = 8 then .uchar
          else if fmt.bitsPerSample = 24 then .int24
          else .short
        channels := UInt32.ofNat fmt.channels
        bitsPerSample := UInt32.ofNat fmt.bitsPerSample
        samplesPerSecond := UInt32.ofNat fmt.sampleRate
        endian := .little }

/-! ## Saving -/

/-- `save`. -/
def save (data : Octets) (format : AudioFormat) : Except WavError Octets :=
  if format.endian ≠ .little then
    .error (.invalidFormat "unsupported endian type")
  else if format.type ≠ .uchar ∧ format.type ≠ .short ∧ format.type ≠ .float then
    .error (.invalidFormat "wav only supports uchar_t, short_t and float_t sample types")
  else
    let fmt : RiffFmtData := {
      audioFormat := if format.type = .float then 3 else 1
      channels := format.channels.toNat
      sampleRate := format.samplesPerSecond.toNat
      byteRate :=
        uint32 (format.samplesPerSecond.toNat * format.channels.toNat *
          format.bitsPerSample.toNat) / 8
      blockAlign := uint32 (format.channels.toNat * format.bitsPerSample.toNat) / 8
      bitsPerSample := format.bitsPerSample.toNat }
    .ok ((RiffHeader.ofSize (riffFmtSize + riffDataSize + data.length)).write ++
      (writeRiffFmt fmt ++ writeRiffData data))

end Securepath.Audio
