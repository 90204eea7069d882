import Securepath.Serialisation.ExactIntegers
import Securepath.Serialisation.RoundTrip

/-!
# Times and back

A primitive value comes back as what its content octets are read as. The octets of
a time hold the seconds, cut towards the epoch, and behind them the milliseconds
without a sign: a time before the epoch comes back with its fraction on the wrong
side, and the second that `timegm` reports errors with does not come back.
-/

namespace Securepath.Serialisation

open StateExcept BufferedStream

section Primitive

variable [KeyOrder] {p : Prim} {v v' : p.Val} {c : Octets}

omit [KeyOrder] in
/-- A primitive value on its own is written as one element. -/
theorem asnDerSerialise_prim (hc : p.content v = .ok c) :
    asnDerSerialise (.prim p) v = .ok (element (getIdent none p.defaultTag) false c) := by
  rw [asnDerSerialise_eq, Schema.encoding, Prim.encoding, hc]
  rfl

/-- Content that the decoder accepts. -/
theorem asnDerDeserialise_content (hle : c.length ≤ maxStructureSize)
    (hcheck : p.checkLength c.length = .ok ()) (hcontent : p.ofContent c = .ok v') :
    asnDerDeserialise (.prim p) (element (getIdent none p.defaultTag) false c) = .ok v' := by
  obtain ⟨w, d, hrun, rfl⟩ := (@Accepts.content p c maxStructureDepth ⟨[], .endOfOctets⟩ none v'
    hle hcheck hcontent).amp.ofOctets
  have hdecode : (Schema.prim p).decode (.ofOctets _) = .ok w d := hrun
  unfold asnDerDeserialise
  rw [hdecode]

/-- Content that the decoder refuses. -/
theorem asnDerDeserialise_refused (hc : p.content v = .ok c) (hlen : c.length < 2 ^ 64)
    (hv : ¬ p.Loadable v) :
    ∃ e, asnDerDeserialise (.prim p) (element (getIdent none p.defaultTag) false c) = .error e := by
  obtain ⟨e, d, hrun⟩ := (@Rejects.prim p v c maxStructureDepth ⟨[], .endOfOctets⟩ none
    hc hv hlen).amp.ofOctets
  refine ⟨e, ?_⟩
  have hdecode : (Schema.prim p).decode (.ofOctets _) = .error e d := hrun
  unfold asnDerDeserialise
  rw [hdecode]

/-- The value comes back as `v'`. -/
def ComesBackAs (p : Prim) (v v' : p.Val) : Prop :=
  ∃ b, asnDerSerialise (.prim p) v = .ok b ∧ asnDerDeserialise (.prim p) b = .ok v'

end Primitive

/-! ## Times -/

/-- The distance from the epoch in whole milliseconds. -/
def wholeMillis (time : TimePoint) : TimePoint :=
  .cast nanoseconds (time.val.tdiv 1000000 * 1000000)

/-- A time since the epoch, or within a millisecond behind a full second before it,
but for the second that ends a second before it. -/
def SurvivesEncoding (time : TimePoint) : Prop :=
  0 ≤ time.val ∨ (-1000000 < time.val.tmod 1000000000 ∧
    ¬ (-2000000000 < time.val ∧ time.val ≤ -1000000000))

theorem encodeTime_length_le (time : TimePoint) : (encodeTime time).length ≤ 19 := by
  obtain ⟨hlow, hhigh⟩ := toTimeT_bounds time
  obtain ⟨h₁, h₂, h₃, h₄, h₅, h₆, h₇, h₈, h₉, h₁₀, h₁₁, h₁₂, -⟩ := gmtime_spec hlow hhigh
  obtain ⟨tail, htext, htail⟩ := encodeTime_eq time
  have htail' : tail.length ≤ 5 := by
    rcases htail with ⟨rfl, -⟩ | rfl
    · decide
    · rw [List.length_cons, List.length_append, decimal_length (fractionMillis_lt time)]
      decide
  rw [htext]
  simp only [List.length_append]
  rw [decimal_length (by omega), decimal_length (by omega), decimal_length (by omega),
    decimal_length (by omega), decimal_length (by omega), decimal_length (by omega)]
  omega

theorem content_time (time : TimePoint) : Prim.content .time time = .ok (encodeTime time) := by
  have hle := encodeTime_length_le time
  exact Prim.text_eq_ok.mpr ⟨hle.trans (by decide), rfl⟩

/-- The range of the representation. -/
theorem timePoint_bounds (time : TimePoint) :
    -9223372036854775808 ≤ time.val ∧ time.val ≤ 9223372036854775807 := by
  obtain ⟨z, hmin, hmax⟩ := time
  simp [nanoseconds, IntType.min, IntType.max, IntType.bytes, IntWidth.bytes] at hmin hmax
  exact ⟨hmin, hmax⟩

theorem cast_nanoseconds {z : Int} (hmin : -9223372036854775808 ≤ z)
    (hmax : z ≤ 9223372036854775807) : (FixedInt.cast nanoseconds z).val = z :=
  FixedInt.cast_of_range (by simpa [nanoseconds, IntType.min, IntType.bytes, IntWidth.bytes])
    (by simpa [nanoseconds, IntType.max, IntType.bytes, IntWidth.bytes])

/-- The quotients of a time since the epoch. -/
theorem quotients_of_nonneg {z : Int} (h : 0 ≤ z) : z.tdiv 1000000000 = z / 1000000000 ∧
    z.tdiv 1000000 = z / 1000000 ∧ (z.tdiv 1000000).tmod 1000 = z / 1000000 % 1000 := by
  have hq : 0 ≤ z / 1000000 := by omega
  rw [Int.tdiv_eq_ediv_of_nonneg h, Int.tdiv_eq_ediv_of_nonneg h, Int.tmod_eq_emod_of_nonneg hq]
  exact ⟨rfl, rfl, rfl⟩

/-- Those of a time before it are those of its distance. -/
theorem quotients_of_neg (z : Int) : (-z).tdiv 1000000000 = -z.tdiv 1000000000 ∧
    (-z).tdiv 1000000 = -z.tdiv 1000000 ∧
    ((-z).tdiv 1000000).tmod 1000 = -(z.tdiv 1000000).tmod 1000 ∧
    (-z).tmod 1000000000 = -z.tmod 1000000000 := by
  refine ⟨Int.neg_tdiv _ _, Int.neg_tdiv _ _, ?_, Int.neg_tmod _ _⟩
  rw [Int.neg_tdiv, Int.neg_tmod]

/-- The seconds and milliseconds put together: the sign of the milliseconds is lost. -/
theorem seconds_millis_eq_iff (time : TimePoint) :
    (toTimeT time ≠ -1 ∧
      toTimeT time * 1000000000 + fractionMillis time * 1000000 =
        time.val.tdiv 1000000 * 1000000) ↔ SurvivesEncoding time := by
  unfold SurvivesEncoding toTimeT fractionMillis
  generalize time.val = z
  rcases le_total 0 z with hz | hz
  · obtain ⟨h₁, h₂, h₃⟩ := quotients_of_nonneg hz
    rw [h₁, h₃, h₂]
    omega
  · obtain ⟨n, rfl⟩ : ∃ n : Int, z = -n := ⟨-z, by omega⟩
    have hn : 0 ≤ n := by omega
    obtain ⟨h₁, h₂, h₃⟩ := quotients_of_nonneg hn
    obtain ⟨g₁, g₂, g₃, g₄⟩ := quotients_of_neg n
    rw [g₁, g₃, g₂, g₄, h₁, h₃, h₂, Int.tmod_eq_emod_of_nonneg hn]
    omega

/-- What comes back are the seconds and milliseconds that were written. -/
theorem comesBackAs_wholeMillis [KeyOrder] (time : TimePoint) :
    ComesBackAs .time time (wholeMillis time) ↔ toTimeT time ≠ -1 ∧
      toTimeT time * 1000000000 + fractionMillis time * 1000000 =
        time.val.tdiv 1000000 * 1000000 := by
  have hle := encodeTime_length_le time
  have hwritten := asnDerSerialise_prim (content_time time)
  obtain ⟨hmin, hmax⟩ := timePoint_bounds time
  by_cases hminus : toTimeT time = -1
  · -- the error value of `timegm`
    refine iff_of_false ?_ fun h => h.1 hminus
    rintro ⟨b, hb, hback⟩
    obtain ⟨e, he⟩ := asnDerDeserialise_refused (content_time time) (by omega)
      (show ¬ Prim.Loadable .time time from not_not.mpr hminus)
    obtain rfl := Except.ok.inj (hwritten.symm.trans hb)
    rw [he] at hback
    cases hback
  · have hcontent : Prim.ofContent .time (encodeTime time) = .ok (FixedInt.cast nanoseconds
        (toTimeT time * 1000000000 + fractionMillis time * 1000000)) := by
      show decodeTime (encodeTime time) = _
      rw [decodeTime_encodeTime_eq, if_neg hminus]
    have hback := asnDerDeserialise_content (p := .time) (hle.trans (by decide)) rfl hcontent
    have hbounds : -9223372036854775808 ≤ time.val.tdiv 1000000 * 1000000 ∧
        time.val.tdiv 1000000 * 1000000 ≤ 9223372036854775807 ∧
        -9223372036854775808 ≤ toTimeT time * 1000000000 + fractionMillis time * 1000000 ∧
        toTimeT time * 1000000000 + fractionMillis time * 1000000 ≤ 9223372036854775807 := by
      unfold toTimeT fractionMillis
      generalize time.val = z at hmin hmax
      rcases le_total 0 z with hz | hz
      · obtain ⟨h₁, h₂, h₃⟩ := quotients_of_nonneg hz
        rw [h₁, h₃, h₂]
        omega
      · obtain ⟨n, rfl⟩ : ∃ n : Int, z = -n := ⟨-z, by omega⟩
        obtain ⟨h₁, h₂, h₃⟩ := quotients_of_nonneg (show 0 ≤ n by omega)
        obtain ⟨g₁, g₂, g₃, -⟩ := quotients_of_neg n
        rw [g₁, g₃, g₂, h₁, h₃, h₂]
        omega
    obtain ⟨hmin₁, hmax₁, hmin₂, hmax₂⟩ := hbounds
    constructor
    · rintro ⟨b, hb, hsame⟩
      obtain rfl := Except.ok.inj (hwritten.symm.trans hb)
      have hvalues := congrArg Subtype.val (Except.ok.inj (hback.symm.trans hsame))
      rw [cast_nanoseconds hmin₂ hmax₂, wholeMillis, cast_nanoseconds hmin₁ hmax₁] at hvalues
      exact ⟨hminus, hvalues⟩
    · rintro ⟨-, hvalues⟩
      refine ⟨_, hwritten, ?_⟩
      rw [hback, hvalues]
      rfl

/-- A time comes back in whole milliseconds exactly if it survives. -/
theorem time_comes_back_iff [KeyOrder] (time : TimePoint) :
    ComesBackAs .time time (wholeMillis time) ↔ SurvivesEncoding time :=
  (comesBackAs_wholeMillis time).trans (seconds_millis_eq_iff time)

/-- Two and a half seconds before the epoch come back as one and a half. -/
theorem time_lost : ¬ ∀ time : TimePoint,
    @ComesBackAs .unordered .time time (wholeMillis time) := by
  intro hclaim
  have hvalues := (@comesBackAs_wholeMillis .unordered (.cast nanoseconds (-2500000000))).mp
    (hclaim _)
  exact absurd hvalues.2 (by decide +kernel)

end Securepath.Serialisation
