import Securepath.Library.Bounds
import Securepath.Serialisation.Types

/-!
# Audio formats and frames

`audio_format` (`audio/audio_lib/audio_format.hpp`) and the functions of
`audio/util/audio_data.cpp` that go over samples. What a sample is worth is left
out: which places are touched depends on the formats and the sizes alone, and of
each function these places are kept, with the size of what it returns.

Sizes come from `bits_per_sample`, the octets of a sample from its type. Sizes are
computed in `std::size_t`, where products wrap (`sizeT`).
-/

namespace Securepath.Audio

open Bounds (Access)

/-- `sample_type`; `other` is a value of the enumeration without a name. -/
inductive SampleType where
  | char
  | uchar
  | short
  | float
  | int24
  | other
  deriving DecidableEq, Repr

/-- `std::endian`. -/
inductive Endian where
  | little
  | big
  deriving DecidableEq, Repr

structure AudioFormat where
  type : SampleType := .short
  channels : UInt32 := 1
  bitsPerSample : UInt32 := 16
  samplesPerSecond : UInt32 := 24000
  endian : Endian := .little
  deriving DecidableEq, Repr

namespace AudioFormat

/-- The octets from one sample to the next. -/
def stride (fmt : AudioFormat) : Nat := fmt.bitsPerSample.toNat / 8

/-- The octets of a frame. -/
def frame (fmt : AudioFormat) : Nat := fmt.stride * fmt.channels.toNat

/-- The whole frames in `size` octets. -/
def frames (fmt : AudioFormat) (size : Nat) : Nat :=
  if fmt.frame ≠ 0 then size / fmt.frame else 0

end AudioFormat

/-- `max_supported_channels`. -/
def maxSupportedChannels : Nat := 16

/-- A `std::size_t`. -/
def sizeT (n : Nat) : Nat := n % 2 ^ 64

/-- A `std::uint32_t`. -/
def uint32 (n : Nat) : Nat := n % 2 ^ 32

/-- What a function touched, and the size of the vector it returns. -/
structure Touched where
  size : Nat := 0
  accesses : List Access := []

/-! ## Samples -/

/-- The octets that `read_sample` takes a sample from. -/
def SampleType.readWidth : SampleType → Nat
  | .char | .uchar => 1
  | .short => 2
  | .float => 4
  | .int24 => 3
  | .other => 0

/-- The octets that `write_sample` writes; it leaves a 24-bit sample out. -/
def SampleType.writeWidth : SampleType → Nat
  | .char | .uchar => 1
  | .short => 2
  | .float => 4
  | .int24 | .other => 0

/-- `read_sample` at the offset `src` of `size` octets. -/
def readSample (type : SampleType) (src size : Nat) : List Access :=
  if type.readWidth ≠ 0 then [⟨src, type.readWidth, size⟩] else []

/-- `write_sample` at the offset `dst` of `size` octets. -/
def writeSample (type : SampleType) (dst size : Nat) : List Access :=
  if type.writeWidth ≠ 0 then [⟨dst, type.writeWidth, size⟩] else []

/-! ## Frames -/

/-- `mix_channels`. -/
def mixChannels (count : Nat) : List Access :=
  (List.range count).flatMap fun i => [⟨i, 1, maxSupportedChannels⟩]

/-- `remap_channel`. -/
def remapChannel (srcCh dstCh ch : Nat) : List Access :=
  if dstCh < srcCh then mixChannels srcCh
  else if ch < srcCh then [⟨ch, 1, maxSupportedChannels⟩]
  else [⟨0, 1, maxSupportedChannels⟩]

/-- What the allocator has room for; a vector refuses more than `PTRDIFF_MAX`
octets by itself. -/
abbrev Room := Nat → Bool

/-- `std::vector<T>(n)`, for elements of `elem` octets. -/
def allocates (room : Room) (elem n : Nat) : Bool := n * elem < 2 ^ 63 && room (n * elem)

/-- `decode_frames` over `size` octets; `none` when the result cannot be allocated. -/
def decodeFrames (room : Room) (size : Nat) (src : AudioFormat) (dstCh : Nat) :
    Option Touched :=
  let numFrames := src.frames size
  let outSize := sizeT (numFrames * dstCh)
  if allocates room 4 outSize then
    some {
      size := outSize
      accesses := (List.range numFrames).flatMap fun f =>
        ((List.range src.channels.toNat).flatMap fun c =>
          readSample src.type (f * src.frame + uint32 (c * src.stride)) size ++
            [⟨c, 1, maxSupportedChannels⟩]) ++
        ((List.range dstCh).flatMap fun c =>
          remapChannel src.channels.toNat dstCh c ++ [⟨sizeT (f * dstCh + c), 1, outSize⟩]) }
  else
    none

/-- `convert_rate` over a vector of `inSize` samples. The interpolation starts at
`position f`, the whole part of a product of doubles. -/
def convertRate (room : Room) (position : Nat → Nat) (inSize channels srcRate dstRate : Nat) :
    Option Touched :=
  let srcFrames := if channels ≠ 0 then inSize / channels else 0
  if srcFrames = 0 then
    some {}
  else
    let dstFrames := max 1 (sizeT (srcFrames * dstRate + srcRate / 2) / srcRate)
    let outSize := sizeT (dstFrames * channels)
    if allocates room 4 outSize then
      some {
        size := outSize
        accesses := (List.range dstFrames).flatMap fun f =>
          let i₀ := min (position f) (srcFrames - 1)
          let i₁ := min (i₀ + 1) (srcFrames - 1)
          (List.range channels).flatMap fun c =>
            [⟨i₀ * channels + c, 1, inSize⟩, ⟨i₁ * channels + c, 1, inSize⟩,
              ⟨sizeT (f * channels + c), 1, outSize⟩] }
    else
      none

/-- `encode_frames` of `samples` samples. -/
def encodeFrames (room : Room) (samples : Nat) (target : AudioFormat) : Option Touched :=
  let outSize := sizeT (samples * target.stride)
  if allocates room 1 outSize then
    some {
      size := outSize
      accesses := (List.range samples).flatMap fun i =>
        writeSample target.type (sizeT (i * target.stride)) outSize }
  else
    none

end Securepath.Audio
