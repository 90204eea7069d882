import Securepath.Library.LittleEndian
import Securepath.Serialisation.Types

/-!
# RIFF headers

The headers of `audio/util/riff_format.hpp`. Each is written field after field and
read back in the same order; fields are numbers here, and writing keeps as many of
their octets as the field has. A read that runs out of octets is `none`, where
`endian_import` throws `std::out_of_range`.
-/

namespace Securepath.Audio.Riff

open Serialisation (Octets)

/-- The octets of a string literal. -/
def tag (s : String) : Octets := s.toList.map fun c => UInt8.ofNat c.toNat

structure ChunkHeader where
  chunkId : Octets
  chunkSize : Nat
  deriving DecidableEq, Repr

namespace ChunkHeader

/-- `chunk_header::size`. -/
def size : Nat := 8

def read (buf : Octets) : Option (ChunkHeader × Octets) :=
  if 4 ≤ buf.length then
    (LittleEndian.get 4 (buf.drop 4)).map fun r => (⟨buf.take 4, r.1⟩, r.2)
  else
    none

def write (h : ChunkHeader) : Octets := h.chunkId ++ LittleEndian.octets 4 h.chunkSize

end ChunkHeader

structure RiffHeader where
  header : ChunkHeader
  format : Octets
  deriving DecidableEq, Repr

namespace RiffHeader

/-- `riff_header::size`. -/
def size : Nat := ChunkHeader.size + 4

/-- The constructor, for `size` octets behind the header. -/
def ofSize (size : Nat) : RiffHeader := ⟨⟨tag "RIFF", 4 + size⟩, tag "WAVE"⟩

def read (buf : Octets) : Option (RiffHeader × Octets) :=
  (ChunkHeader.read buf).bind fun r =>
    if 4 ≤ r.2.length then some (⟨r.1, r.2.take 4⟩, r.2.drop 4) else none

def write (h : RiffHeader) : Octets := h.header.write ++ h.format

end RiffHeader

structure RiffFmtData where
  audioFormat : Nat
  channels : Nat
  sampleRate : Nat
  byteRate : Nat
  blockAlign : Nat
  bitsPerSample : Nat
  deriving DecidableEq, Repr

namespace RiffFmtData

/-- `riff_fmt_data::size`. -/
def size : Nat := 16

def read (buf : Octets) : Option (RiffFmtData × Octets) := do
  let (audioFormat, buf) ← LittleEndian.get 2 buf
  let (channels, buf) ← LittleEndian.get 2 buf
  let (sampleRate, buf) ← LittleEndian.get 4 buf
  let (byteRate, buf) ← LittleEndian.get 4 buf
  let (blockAlign, buf) ← LittleEndian.get 2 buf
  let (bitsPerSample, buf) ← LittleEndian.get 2 buf
  pure (⟨audioFormat, channels, sampleRate, byteRate, blockAlign, bitsPerSample⟩, buf)

def write (d : RiffFmtData) : Octets :=
  LittleEndian.octets 2 d.audioFormat ++ (LittleEndian.octets 2 d.channels ++
    (LittleEndian.octets 4 d.sampleRate ++ (LittleEndian.octets 4 d.byteRate ++
      (LittleEndian.octets 2 d.blockAlign ++ LittleEndian.octets 2 d.bitsPerSample))))

end RiffFmtData

/-- `riff_fmt::size`. -/
def riffFmtSize : Nat := ChunkHeader.size + RiffFmtData.size

/-- `riff_fmt::write`. -/
def writeRiffFmt (d : RiffFmtData) : Octets :=
  ChunkHeader.write ⟨tag "fmt ", riffFmtSize - ChunkHeader.size⟩ ++ d.write

/-- `riff_data::size`. -/
def riffDataSize : Nat := ChunkHeader.size

/-- `riff_data::write`. -/
def writeRiffData (data : Octets) : Octets := ChunkHeader.write ⟨tag "data", data.length⟩ ++ data

/-! ## What is written is read back -/

theorem ChunkHeader.read_of_length {buf : Octets} (h : ChunkHeader.size ≤ buf.length) :
    ChunkHeader.read buf =
      some (⟨buf.take 4, LittleEndian.value ((buf.drop 4).take 4)⟩, buf.drop 8) := by
  unfold ChunkHeader.size at h
  have hlen : 4 ≤ (buf.drop 4).length := by
    rw [List.length_drop]
    omega
  have hget := LittleEndian.get_of_le hlen
  rw [ChunkHeader.read, if_pos (by omega), hget, List.drop_drop]
  rfl

theorem ChunkHeader.read_write {h : ChunkHeader} (hid : h.chunkId.length = 4)
    (hsize : h.chunkSize < 2 ^ 32) (rest : Octets) :
    ChunkHeader.read (h.write ++ rest) = some (h, rest) := by
  have htake : (h.write ++ rest).take 4 = h.chunkId := by
    rw [ChunkHeader.write, List.append_assoc, List.take_append_of_le_length (by omega),
      List.take_of_length_le (by omega)]
  have hdrop : (h.write ++ rest).drop 4 = LittleEndian.octets 4 h.chunkSize ++ rest := by
    rw [ChunkHeader.write, List.append_assoc, List.drop_append_of_le_length (by omega),
      List.drop_of_length_le (by omega), List.nil_append]
  have hget := LittleEndian.get_octets (n := 4) (v := h.chunkSize) (by omega) rest
  rw [ChunkHeader.read, if_pos, hdrop, hget, htake]
  · rfl
  · rw [ChunkHeader.write, List.length_append, List.length_append]
    omega

theorem ChunkHeader.write_length {h : ChunkHeader} (hid : h.chunkId.length = 4) :
    h.write.length = ChunkHeader.size := by
  rw [ChunkHeader.write, List.length_append, LittleEndian.octets_length, hid]
  rfl

theorem RiffHeader.read_of_length {buf : Octets} (h : RiffHeader.size ≤ buf.length) :
    ∃ r, RiffHeader.read buf = some r := by
  unfold RiffHeader.size ChunkHeader.size at h
  have hsize : ChunkHeader.size ≤ buf.length := by
    unfold ChunkHeader.size
    omega
  have hheader := ChunkHeader.read_of_length hsize
  have hformat : 4 ≤ (buf.drop 8).length := by
    rw [List.length_drop]
    omega
  rw [RiffHeader.read, hheader, Option.bind_some, if_pos hformat]
  exact ⟨_, rfl⟩

/-- A format chunk of at least its size is read. -/
theorem RiffFmtData.read_of_length {buf : Octets} (h : RiffFmtData.size ≤ buf.length) :
    ∃ r, RiffFmtData.read buf = some r := by
  unfold RiffFmtData.size at h
  have hget : ∀ n k, n + k ≤ 16 →
      LittleEndian.get n (buf.drop k) = some (_, (buf.drop k).drop n) := fun n k hk =>
    LittleEndian.get_of_le (by rw [List.length_drop]; omega)
  have hfirst : 2 ≤ buf.length := by omega
  rw [RiffFmtData.read, LittleEndian.get_of_le hfirst]
  simp only [Option.bind_eq_bind, Option.bind_some, hget 2 2 (by omega), List.drop_drop,
    hget 4 4 (by omega), hget 4 8 (by omega), hget 2 12 (by omega), hget 2 14 (by omega)]
  exact ⟨_, rfl⟩

/-- The fields fit the octets they are written to. -/
structure RiffFmtData.Fits (d : RiffFmtData) : Prop where
  audioFormat_lt : d.audioFormat < 2 ^ 16
  channels_lt : d.channels < 2 ^ 16
  sampleRate_lt : d.sampleRate < 2 ^ 32
  byteRate_lt : d.byteRate < 2 ^ 32
  blockAlign_lt : d.blockAlign < 2 ^ 16
  bitsPerSample_lt : d.bitsPerSample < 2 ^ 16

theorem RiffFmtData.read_write {d : RiffFmtData} (h : d.Fits) (rest : Octets) :
    RiffFmtData.read (d.write ++ rest) = some (d, rest) := by
  obtain ⟨h₁, h₂, h₃, h₄, h₅, h₆⟩ := h
  simp only [RiffFmtData.read, RiffFmtData.write, List.append_assoc, Option.bind_eq_bind,
    LittleEndian.get_octets (n := 2) h₁, LittleEndian.get_octets (n := 2) h₂,
    LittleEndian.get_octets (n := 4) h₃, LittleEndian.get_octets (n := 4) h₄,
    LittleEndian.get_octets (n := 2) h₅, LittleEndian.get_octets (n := 2) h₆, Option.bind_some]
  rfl

theorem RiffFmtData.write_length (d : RiffFmtData) : d.write.length = RiffFmtData.size := by
  simp only [RiffFmtData.write, List.length_append, LittleEndian.octets_length]
  rfl

end Securepath.Audio.Riff
