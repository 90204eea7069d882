import Securepath.Audio.AudioFormat
import Mathlib.Tactic.Ring

/-!
# Resampling

`audio_data::resample` decodes the frames, converts their rate and encodes them.
The reader and the writer go from sample to sample by `bits_per_sample` and touch
as many octets as the type has; nothing compares the two. For each of the three
functions it is said when exactly all that it touches is in bounds, and `Fits` is
what comes of that for all three.
-/

namespace Securepath.Audio

open Bounds (Access AllInBounds)

/-! ## The function -/

/-- `audio_data`. -/
structure AudioData where
  format : AudioFormat
  data : Serialisation.Octets

inductive ResampleError where
  | tooManyChannels
  | zeroSampleRate
  | badAlloc
  deriving DecidableEq, Repr

/-- `resample`: what it touches and how many octets it leaves. -/
def resample (room : Room) (position : UInt32 → UInt32 → Nat → Nat) (d : AudioData)
    (target : AudioFormat) : Except ResampleError Touched :=
  let rate := d.format.samplesPerSecond
  if maxSupportedChannels < d.format.channels.toNat then
    .error .tooManyChannels
  else if rate ≠ target.samplesPerSecond ∧ (rate = 0 ∨ target.samplesPerSecond = 0) then
    .error .zeroSampleRate
  else
    match decodeFrames room d.data.length d.format target.channels.toNat with
    | none => .error .badAlloc
    | some decoded =>
        -- only where the rates differ
        let converted :=
          if rate ≠ target.samplesPerSecond then
            convertRate room (position rate target.samplesPerSecond) decoded.size
              target.channels.toNat rate.toNat target.samplesPerSecond.toNat
          else
            some { size := decoded.size }
        match converted with
        | none => .error .badAlloc
        | some converted =>
            match encodeFrames room converted.size target with
            | none => .error .badAlloc
            | some encoded =>
                .ok { size := encoded.size
                      accesses := decoded.accesses ++ converted.accesses ++ encoded.accesses }

/-! ## Arithmetic of sizes -/

theorem sizeT_of_lt {n : Nat} (h : n < 2 ^ 64) : sizeT n = n := Nat.mod_eq_of_lt h

/-- The cells of an `n` by `m` table lie in a vector of that many elements exactly
when their number has not wrapped. -/
theorem table_inBounds_iff {n m : Nat} (hsmall : sizeT (n * m) < 2 ^ 63) :
    (∀ f < n, ∀ c < m, sizeT (f * m + c) + 1 ≤ sizeT (n * m)) ↔ n * m < 2 ^ 64 := by
  constructor
  · intro h
    by_contra hwrap
    have hm : 0 < m := by
      rcases Nat.eq_zero_or_pos m with rfl | hm
      · omega
      · exact hm
    -- the cell whose index is the last number before the wrap
    have hf : (2 ^ 64 - 1) / m < n := by
      rw [Nat.div_lt_iff_lt_mul hm]
      omega
    have hcell := h _ hf _ (Nat.mod_lt (2 ^ 64 - 1) hm)
    rw [Nat.div_add_mod', sizeT_of_lt (by omega)] at hcell
    omega
  · intro hlt f hf c hc
    have hrow : (f + 1) * m ≤ n * m := Nat.mul_le_mul_right m hf
    rw [Nat.add_mul] at hrow
    rw [sizeT_of_lt hlt, sizeT_of_lt (by omega)]
    omega

theorem AudioFormat.stride_lt (fmt : AudioFormat) : fmt.stride < 2 ^ 29 := by
  have := fmt.bitsPerSample.toNat_lt
  unfold AudioFormat.stride
  omega

theorem allocates_lt {room : Room} {elem n : Nat} (h : allocates room elem n = true) :
    n * elem < 2 ^ 63 := by
  simp only [allocates, Bool.and_eq_true, decide_eq_true_eq] at h
  exact h.1

/-! ## Decoding -/

variable {room : Room} {src target : AudioFormat} {size dstCh : Nat}

theorem SampleType.readWidth_le (type : SampleType) : type.readWidth ≤ 4 := by
  cases type <;> decide

theorem SampleType.writeWidth_le (type : SampleType) : type.writeWidth ≤ 4 := by
  cases type <;> decide

theorem readSample_inBounds_iff {type : SampleType} {offset : Nat} :
    AllInBounds (readSample type offset size) ↔
      type.readWidth = 0 ∨ offset + type.readWidth ≤ size := by
  unfold readSample
  split
  · next h => simp [Access.InBounds, h]
  · next h => simpa using Or.inl (not_not.mp h)

theorem writeSample_inBounds_iff {type : SampleType} {offset : Nat} :
    AllInBounds (writeSample type offset size) ↔
      type.writeWidth = 0 ∨ offset + type.writeWidth ≤ size := by
  unfold writeSample
  split
  · next h => simp [Access.InBounds, h]
  · next h => simpa using Or.inl (not_not.mp h)

theorem remapChannel_inBounds {srcCh ch : Nat} (hch : srcCh ≤ maxSupportedChannels) :
    AllInBounds (remapChannel srcCh dstCh ch) := by
  unfold remapChannel
  split
  · simp only [mixChannels, Bounds.allInBounds_loop, Bounds.allInBounds_cons,
      Bounds.allInBounds_nil, and_true, Access.InBounds]
    intro i hi
    omega
  · split
    · simp only [Bounds.allInBounds_cons, Bounds.allInBounds_nil, and_true, Access.InBounds]
      omega
    · simp [Access.InBounds, maxSupportedChannels]

/-- The frames there are, and what is left behind them. -/
theorem frames_spec (h : src.frames size ≠ 0) :
    0 < src.stride ∧ 0 < src.channels.toNat ∧
      size = src.frames size * src.frame + size % src.frame := by
  unfold AudioFormat.frames at h ⊢
  split at h
  · next hframe =>
    have hpos : 0 < src.stride * src.channels.toNat := Nat.pos_of_ne_zero hframe
    refine ⟨Nat.pos_of_mul_pos_right hpos, Nat.pos_of_mul_pos_left hpos, ?_⟩
    rw [if_pos hframe]
    exact (Nat.div_add_mod' size src.frame).symm
  · exact absurd rfl h

/-- Every sample that is read lies in the data exactly when the last one does. -/
theorem reads_inBounds_iff (h : src.frames size ≠ 0)
    (hch : src.channels.toNat ≤ maxSupportedChannels) :
    (∀ f < src.frames size, ∀ c < src.channels.toNat,
        AllInBounds (readSample src.type (f * src.frame + uint32 (c * src.stride)) size)) ↔
      src.type.readWidth ≤ src.stride + size % src.frame := by
  obtain ⟨hstride, hchannels, hsize⟩ := frames_spec h
  have hwidth := src.type.readWidth_le
  have hframe : src.frame = src.stride * src.channels.toNat := rfl
  simp only [readSample_inBounds_iff]
  constructor
  · intro hall
    rcases Nat.lt_or_ge src.stride src.type.readWidth with hnarrow | hwide
    · obtain ⟨n, hn⟩ := Nat.exists_eq_succ_of_ne_zero h
      obtain ⟨k, hk⟩ := Nat.exists_eq_succ_of_ne_zero (Nat.pos_iff_ne_zero.mp hchannels)
      -- the last sample of the last frame
      have hlast := hall n (by omega) k (by omega)
      have hsmall : k * src.stride ≤ 16 * 4 := by
        apply Nat.mul_le_mul
        · unfold maxSupportedChannels at hch
          omega
        · omega
      have hoffset : uint32 (k * src.stride) = k * src.stride := Nat.mod_eq_of_lt (by omega)
      have hrow : src.frame = k * src.stride + src.stride := by
        rw [hframe, hk, Nat.mul_succ, Nat.mul_comm]
      have hframes : src.frames size * src.frame = n * src.frame + src.frame := by
        rw [hn, Nat.succ_mul]
      rw [hoffset] at hlast
      omega
    · omega
  · intro hfits f hf c hc
    right
    have hoffset : uint32 (c * src.stride) ≤ c * src.stride := Nat.mod_le _ _
    have hrow : (c + 1) * src.stride ≤ src.frame := by
      rw [hframe, Nat.mul_comm src.stride]
      exact Nat.mul_le_mul_right _ hc
    have hrows : (f + 1) * src.frame ≤ src.frames size * src.frame :=
      Nat.mul_le_mul_right _ hf
    rw [Nat.add_mul] at hrow hrows
    omega

/-- When `decode_frames` stays in bounds. -/
theorem decodeFrames_inBounds_iff {t : Touched}
    (hch : src.channels.toNat ≤ maxSupportedChannels)
    (ht : decodeFrames room size src dstCh = some t) :
    t.size = sizeT (src.frames size * dstCh) ∧
      (AllInBounds t.accesses ↔ src.frames size = 0 ∨
        (src.type.readWidth ≤ src.stride + size % src.frame ∧
          src.frames size * dstCh < 2 ^ 64)) := by
  simp only [decodeFrames] at ht
  split at ht
  · next halloc =>
    obtain rfl := Option.some.inj ht
    have hsmall := allocates_lt halloc
    refine ⟨rfl, ?_⟩
    simp only [Bounds.allInBounds_loop, Bounds.allInBounds_append, Bounds.allInBounds_cons,
      Bounds.allInBounds_nil, and_true, remapChannel_inBounds hch, true_and]
    by_cases hnone : src.frames size = 0
    · simp [hnone]
    · have hreads := reads_inBounds_iff hnone hch
      have hwrites : (∀ f < src.frames size, ∀ c < dstCh,
          (⟨sizeT (f * dstCh + c), 1, sizeT (src.frames size * dstCh)⟩ : Access).InBounds) ↔
            src.frames size * dstCh < 2 ^ 64 := table_inBounds_iff (by omega)
      rw [← hreads, ← hwrites]
      constructor
      · intro hall
        right
        exact ⟨fun f hf c hc => ((hall f hf).1 c hc).1, fun f hf => (hall f hf).2⟩
      · rintro (hzero | ⟨hread, hwrite⟩) f hf
        · exact absurd hzero hnone
        · refine ⟨fun c hc => ⟨hread f hf c hc, ?_⟩, hwrite f hf⟩
          simp only [Access.InBounds]
          omega
  · exact absurd ht (by simp)

/-! ## Rate conversion -/

/-- The frames that `n` frames become. -/
def convertedFrames (n srcRate dstRate : Nat) : Nat :=
  max 1 (sizeT (n * dstRate + srcRate / 2) / srcRate)

/-- When `convert_rate` stays in bounds: reading it always does. -/
theorem convertRate_inBounds_iff {position : Nat → Nat} {n channels srcRate dstRate : Nat}
    {t : Touched} (hn : n ≠ 0) (hchannels : channels ≠ 0)
    (ht : convertRate room position (n * channels) channels srcRate dstRate = some t) :
    t.size = sizeT (convertedFrames n srcRate dstRate * channels) ∧
      (AllInBounds t.accesses ↔ convertedFrames n srcRate dstRate * channels < 2 ^ 64) := by
  have hframes : n * channels / channels = n := Nat.mul_div_cancel n (Nat.pos_of_ne_zero hchannels)
  simp only [convertRate, if_pos hchannels, hframes, if_neg hn] at ht
  split at ht
  · next halloc =>
    obtain rfl := Option.some.inj ht
    have hsmall := allocates_lt halloc
    refine ⟨rfl, ?_⟩
    have hread : ∀ i ≤ n - 1, ∀ c < channels, i * channels + c + 1 ≤ n * channels := by
      intro i hi c hc
      have hrow : (i + 1) * channels ≤ n * channels := Nat.mul_le_mul_right _ (by omega)
      rw [Nat.add_mul] at hrow
      omega
    have hwrites := table_inBounds_iff (n := convertedFrames n srcRate dstRate) (m := channels)
      (by simp only [convertedFrames]; omega)
    rw [← hwrites]
    simp only [Bounds.allInBounds_loop, Bounds.allInBounds_cons, Bounds.allInBounds_nil, and_true,
      Access.InBounds]
    constructor
    · intro hall f hf c hc
      exact (hall f hf c hc).2.2
    · intro hall f hf c hc
      exact ⟨hread _ (Nat.min_le_right _ _) c hc, hread _ (Nat.min_le_right _ _) c hc,
        hall f hf c hc⟩
  · exact absurd ht (by simp)

/-! ## Encoding -/

/-- When `encode_frames` stays in bounds. -/
theorem encodeFrames_inBounds_iff {samples : Nat} {t : Touched}
    (ht : encodeFrames room samples target = some t) :
    AllInBounds t.accesses ↔ samples = 0 ∨ target.type.writeWidth = 0 ∨
      (target.type.writeWidth ≤ target.stride ∧ samples * target.stride < 2 ^ 64) := by
  simp only [encodeFrames] at ht
  split at ht
  · next halloc =>
    obtain rfl := Option.some.inj ht
    have hsmall := allocates_lt halloc
    have hstride := target.stride_lt
    have hwidth := target.type.writeWidth_le
    simp only [Bounds.allInBounds_loop, writeSample_inBounds_iff]
    constructor
    · intro hall
      by_contra hnot
      simp only [not_or, not_and] at hnot
      obtain ⟨hsamples, hzero, hrest⟩ := hnot
      rcases Nat.lt_or_ge (samples * target.stride) (2 ^ 64) with hlt | hwrap
      · -- the last sample does not fit
        have hnarrow : ¬ target.type.writeWidth ≤ target.stride := fun h => hrest h hlt
        obtain ⟨n, rfl⟩ := Nat.exists_eq_succ_of_ne_zero hsamples
        have hlast := hall n (by omega)
        have hrow : (n + 1) * target.stride = n * target.stride + target.stride := by ring
        rw [Nat.succ_eq_add_one] at hlt hlast
        rw [sizeT_of_lt hlt, sizeT_of_lt (by omega)] at hlast
        omega
      · -- nor does the last one before the wrap
        have hpos : 0 < target.stride := by
          rcases Nat.eq_zero_or_pos target.stride with h | h
          · rw [h] at hwrap
            omega
          · exact h
        have hdiv := Nat.div_add_mod' (2 ^ 64 - 1) target.stride
        have hmod := Nat.mod_lt (2 ^ 64 - 1) hpos
        have hlt : (2 ^ 64 - 1) / target.stride < samples := by
          rw [Nat.div_lt_iff_lt_mul hpos]
          omega
        have hlast := hall _ hlt
        rw [sizeT_of_lt (n := (2 ^ 64 - 1) / target.stride * target.stride) (by omega)] at hlast
        omega
    · rintro (rfl | hzero | ⟨hfits, hlt⟩) i hi
      · exact absurd hi (Nat.not_lt_zero i)
      · exact Or.inl hzero
      · right
        have hrow : (i + 1) * target.stride ≤ samples * target.stride :=
          Nat.mul_le_mul_right _ hi
        rw [Nat.add_mul] at hrow
        rw [sizeT_of_lt hlt, sizeT_of_lt (by omega)]
        omega
  · exact absurd ht (by simp)

/-! ## Resampling -/

/-- The frames that the data of `size` octets become. -/
def outFrames (src : AudioFormat) (size : Nat) (target : AudioFormat) : Nat :=
  if src.samplesPerSecond ≠ target.samplesPerSecond then
    convertedFrames (src.frames size) src.samplesPerSecond.toNat target.samplesPerSecond.toNat
  else
    src.frames size

/-- The formats fit each other and the data: there is no frame, or the last sample
lies in the data and, where samples are made, their numbers do not wrap and a
target sample is as wide as its type. -/
def Fits (src : AudioFormat) (size : Nat) (target : AudioFormat) : Prop :=
  src.frames size = 0 ∨
    (src.type.readWidth ≤ src.stride + size % src.frame ∧
      (target.channels.toNat = 0 ∨
        (src.frames size * target.channels.toNat < 2 ^ 64 ∧
          outFrames src size target * target.channels.toNat < 2 ^ 64 ∧
          (target.type.writeWidth = 0 ∨
            (target.type.writeWidth ≤ target.stride ∧
              outFrames src size target * target.channels.toNat * target.stride < 2 ^ 64)))))

/-- The three parts of a resampling that does not throw. -/
theorem resample_eq_ok {position : UInt32 → UInt32 → Nat → Nat} {d : AudioData} {t : Touched}
    (ht : resample room position d target = .ok t) :
    d.format.channels.toNat ≤ maxSupportedChannels ∧
      ∃ decoded converted encoded,
        decodeFrames room d.data.length d.format target.channels.toNat = some decoded ∧
        (if d.format.samplesPerSecond ≠ target.samplesPerSecond then
            convertRate room (position d.format.samplesPerSecond target.samplesPerSecond)
              decoded.size target.channels.toNat d.format.samplesPerSecond.toNat
              target.samplesPerSecond.toNat
          else
            some { size := decoded.size }) = some converted ∧
        encodeFrames room converted.size target = some encoded ∧
        t.accesses = decoded.accesses ++ converted.accesses ++ encoded.accesses := by
  simp only [resample] at ht
  split at ht
  · exact absurd ht (by simp)
  · next hch =>
    split at ht
    · exact absurd ht (by simp)
    · split at ht
      · exact absurd ht (by simp)
      · next decoded hdecoded =>
        split at ht
        · exact absurd ht (by simp)
        · next converted hconverted =>
          split at ht
          · exact absurd ht (by simp)
          · next encoded hencoded =>
            obtain rfl := Except.ok.inj ht
            exact ⟨by omega, decoded, converted, encoded, hdecoded, hconverted, hencoded, rfl⟩

/-- The samples that are encoded, and when their making stays in bounds. -/
theorem converted_inBounds_iff {position : Nat → Nat} {n dst : Nat} {converted : Touched}
    (hlt : n * dst < 2 ^ 64) (hn : n ≠ 0) (hdst : dst ≠ 0) {rate rate' : UInt32}
    (ht : (if rate ≠ rate' then
        convertRate room position (n * dst) dst rate.toNat rate'.toNat
      else some { size := n * dst }) = some converted) :
    let out := if rate ≠ rate' then convertedFrames n rate.toNat rate'.toNat else n
    converted.size = sizeT (out * dst) ∧ (AllInBounds converted.accesses ↔ out * dst < 2 ^ 64) := by
  by_cases hrate : rate = rate'
  · simp only [hrate, ne_eq, not_true_eq_false, if_false, Option.some.injEq] at ht ⊢
    subst ht
    exact ⟨(sizeT_of_lt hlt).symm, fun _ => hlt, fun _ => Bounds.allInBounds_nil⟩
  · simp only [ne_eq, hrate, not_false_eq_true, if_true] at ht ⊢
    exact convertRate_inBounds_iff hn hdst ht

/-- A resampling that does not throw stays in bounds exactly when the formats fit. -/
theorem resample_inBounds_iff (room : Room) (position : UInt32 → UInt32 → Nat → Nat)
    (d : AudioData) (target : AudioFormat) {t : Touched}
    (ht : resample room position d target = .ok t) :
    AllInBounds t.accesses ↔ Fits d.format d.data.length target := by
  obtain ⟨hch, decoded, converted, encoded, hdecoded, hconverted, hencoded, hall⟩ :=
    resample_eq_ok ht
  obtain ⟨hsize, hdecode⟩ := decodeFrames_inBounds_iff hch hdecoded
  have hencode := encodeFrames_inBounds_iff hencoded
  rw [hall, Bounds.allInBounds_append, Bounds.allInBounds_append, hdecode, hencode]
  unfold Fits
  by_cases hnone : d.format.frames d.data.length = 0 ∨ target.channels.toNat = 0
  · -- no samples are made
    have hzero : d.format.frames d.data.length * target.channels.toNat = 0 :=
      Nat.mul_eq_zero.mpr hnone
    have hempty : converted.size = 0 ∧ converted.accesses = [] := by
      rw [hsize, hzero] at hconverted
      split at hconverted
      · simp only [convertRate, sizeT, Nat.zero_mod, Nat.zero_div, ite_self, if_true] at hconverted
        obtain rfl := Option.some.inj hconverted
        exact ⟨rfl, rfl⟩
      · obtain rfl := Option.some.inj hconverted
        exact ⟨rfl, rfl⟩
    simp only [hempty, Bounds.allInBounds_nil, true_or, and_true, hzero]
    rcases hnone with h | h
    · simp [h]
    · simp [h]
  · simp only [not_or] at hnone
    obtain ⟨hframes, hdst⟩ := hnone
    simp only [hframes, hdst, false_or]
    by_cases hlt : d.format.frames d.data.length * target.channels.toNat < 2 ^ 64
    · rw [hsize, sizeT_of_lt hlt] at hconverted
      obtain ⟨hsize', hconvert⟩ := converted_inBounds_iff hlt hframes hdst hconverted
      rw [hconvert]
      change (_ ∧ _) ∧ _ ↔ _
      have hout : (if d.format.samplesPerSecond ≠ target.samplesPerSecond then
          convertedFrames (d.format.frames d.data.length) d.format.samplesPerSecond.toNat
            target.samplesPerSecond.toNat
        else d.format.frames d.data.length) = outFrames d.format d.data.length target := rfl
      rw [hout] at hsize' ⊢
      by_cases hwrap : outFrames d.format d.data.length target * target.channels.toNat < 2 ^ 64
      · rw [sizeT_of_lt hwrap] at hsize'
        have hsome : outFrames d.format d.data.length target * target.channels.toNat ≠ 0 := by
          apply Nat.mul_ne_zero _ hdst
          unfold outFrames convertedFrames
          split
          · omega
          · exact hframes
        simp only [hsize', hsome, false_or, hlt, hwrap, and_true, true_and]
      · simp only [hwrap, and_false, false_and]
    · simp only [hlt, and_false, false_and]

/-- Two frames of 16-bit samples fit a 32-bit float target. -/
theorem resample_inBounds_iff_float :
    ∃ t, resample (fun _ => true) (fun _ _ f => f) ⟨{ type := .short }, [1, 2, 3, 4]⟩
        { type := .float, bitsPerSample := 32 } = .ok t ∧ AllInBounds t.accesses := by
  refine ⟨_, rfl, ?_⟩
  apply (resample_inBounds_iff (fun _ => true) (fun _ _ f => f) ⟨{ type := .short }, [1, 2, 3, 4]⟩
    { type := .float, bitsPerSample := 32 } rfl).mpr
  right
  decide

/-- A 16-bit target with 8 bits per sample: the sample at the end of the two octets
of the result is written over it. -/
theorem resample_overruns :
    ∃ t, resample (fun _ => true) (fun _ _ f => f) ⟨{ type := .short }, [1, 2, 3, 4]⟩
        { type := .short, bitsPerSample := 8 } = .ok t ∧ ¬ AllInBounds t.accesses := by
  refine ⟨_, rfl, ?_⟩
  decide

end Securepath.Audio
