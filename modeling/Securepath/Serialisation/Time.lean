import Securepath.Serialisation.Integers

/-!
# Time points

The textual form of a `time_point` in the encoder and the decoder, with the
functions of the C and C++ libraries they call: `gmtime` and `timegm` over the
proleptic Gregorian calendar, `snprintf` and `sscanf` for the formats used.

A `time_point` counts nanoseconds since the epoch in 64 bits.
-/

namespace Securepath.Serialisation

open Positional

/-- The representation of `std::chrono::system_clock::duration`. -/
def nanoseconds : IntType := ⟨true, .w64⟩

abbrev TimePoint := FixedInt nanoseconds

/-! ## The calendar -/

def isLeap (y : Int) : Bool := y % 4 = 0 ∧ (y % 100 ≠ 0 ∨ y % 400 = 0)

def daysInYear (y : Int) : Int := if isLeap y then 366 else 365

def monthLengths (y : Int) : List Int :=
  [31, if isLeap y then 29 else 28, 31, 30, 31, 30, 31, 31, 30, 31, 30, 31]

/-- Days from the first of January of the year 1 to that of the year `y`. -/
def daysBeforeYear (y : Int) : Int :=
  365 * (y - 1) + (y - 1) / 4 - (y - 1) / 100 + (y - 1) / 400

/-- Broken-down time, with the offsets of `std::tm`. -/
structure Tm where
  year : Int
  mon : Int
  mday : Int
  hour : Int
  min : Int
  sec : Int
deriving DecidableEq, Repr

/-- The year and the day in it, `days` after the first of January of `y`,
looking at most `fuel` years ahead. -/
def yearOfDays : Nat → Int → Int → Int × Int
  | 0, y, days => (y, days)
  | fuel + 1, y, days =>
      if days < daysInYear y then (y, days)
      else yearOfDays fuel (y + 1) (days - daysInYear y)

/-- The month and the day in it of a day of the year. -/
def monthOfDay : List Int → Int → Nat × Int
  | [], day => (0, day)
  | l :: ls, day =>
      if day < l then (0, day)
      else
        let (m, day) := monthOfDay ls (day - l)
        (m + 1, day)

/-- `gmtime_r` for the seconds that a `time_point` can hold: they fall in the
years 1677 to 2262. -/
def gmtime (time : Int) : Tm :=
  let days := time / 86400
  let rem := time % 86400
  let (y, day) := yearOfDays 1000 1600 (days + daysBeforeYear 1970 - daysBeforeYear 1600)
  let (m, day) := monthOfDay (monthLengths y) day
  { year := y - 1900, mon := m, mday := day + 1,
    hour := rem / 3600, min := rem % 3600 / 60, sec := rem % 60 }

/-- `timegm`: months outside the year count on in the next or previous ones. -/
def timegm (t : Tm) : Int :=
  let y := t.year + 1900 + t.mon / 12
  let m := (t.mon % 12).toNat
  let days := daysBeforeYear y - daysBeforeYear 1970 + ((monthLengths y).take m).sum + (t.mday - 1)
  days * 86400 + t.hour * 3600 + t.min * 60 + t.sec

/-! ## The text -/

/-- `%0<width>u`. -/
def decimal (width n : Nat) : Octets :=
  (digits 10 (max width (Nat.digits 10 n).length) n).map fun d => UInt8.ofNat (0x30 + d)

def isDigit (o : UInt8) : Bool := 0x30 ≤ o ∧ o ≤ 0x39

/-- `isspace` in the C locale. -/
def isSpace (o : UInt8) : Bool := o = 0x20 ∨ (0x09 ≤ o ∧ o ≤ 0x0d)

/-- `%0<width>d` of `sscanf`: white space, then at most `width` characters of an
optional sign and at least one digit. -/
def scanDecimal (width : Nat) (l : Octets) : Option (Int × Octets) :=
  let l := l.dropWhile isSpace
  let negative := l.headD 0 = 0x2d
  let signs := if negative ∨ l.headD 0 = 0x2b then 1 else 0
  let l := l.drop signs
  let ds := (l.take (width - signs)).takeWhile isDigit
  if ds = [] then none
  else
    let n := value 10 (ds.map fun o => o.toNat - 0x30)
    some (if negative then -(n : Int) else n, l.drop ds.length)

/-- One conversion after the other; `none` when one of them fails. -/
def scanDecimals : List Nat → Octets → Option (List Int)
  | [], _ => some []
  | width :: widths, l => do
      let (n, l) ← scanDecimal width l
      let ns ← scanDecimals widths l
      return n :: ns

namespace Error

def illegalTime : Error := .serialisationError "illegal time value"
def illegalTimeFractions : Error := .serialisationError "illegal time value, bad fractions"
def illegalTimeRange : Error :=
  .serialisationError "illegal time value, could not convert to time_t"

end Error

/-- `time_point::clock::to_time_t`: seconds, towards zero. -/
def toTimeT (time : TimePoint) : Int := time.val.tdiv 1000000000

/-- `std::abs` of the milliseconds within the second, towards zero. -/
def fractionMillis (time : TimePoint) : Nat := ((time.val.tdiv 1000000).tmod 1000).natAbs

/-- The string that `encode(time_point)` writes. -/
def encodeTime (time : TimePoint) : Octets :=
  let t := gmtime (toTimeT time)
  -- the buffer of `snprintf` holds 14 characters
  let date := (decimal 4 (t.year + 1900).toNat ++ decimal 2 (t.mon + 1).toNat ++
    decimal 2 t.mday.toNat ++ decimal 2 t.hour.toNat ++ decimal 2 t.min.toNat ++
    decimal 2 t.sec.toNat).take 14
  let ms := fractionMillis time
  if ms ≠ 0 then
    date ++ 0x2e :: (decimal 3 ms ++ [0x5a])
  else
    date ++ [0x5a]

/-- The part of a string that C functions see. -/
def cString (l : Octets) : Octets := l.takeWhile (· ≠ 0)

/-- The date and time of `decode(time_point)`, without the fractions. -/
def scanDate (content : Octets) : Option Tm :=
  match scanDecimals [4, 2, 2, 2, 2, 2] (cString content) with
  | some [year, mon, mday, hour, min, sec] =>
      some { year := year - 1900, mon := mon - 1, mday := mday, hour := hour, min := min,
             sec := sec }
  | _ => none

/-- The fractions of `decode(time_point)`, from the mark behind the seconds on. -/
def scanFractions (content : Octets) : Except Error Int :=
  if content.headD 0 = 0x2e then
    match scanDecimal 3 ((cString content).drop 1) with
    | some (ms, _) => .ok ms
    | none => .error Error.illegalTimeFractions
  else if content.headD 0 ≠ 0x5a then .error Error.illegalTime
  else .ok 0

/-- `decode(time_point)` of a string. -/
def decodeTime (content : Octets) : Except Error TimePoint :=
  if content.length < 15 then .error Error.illegalTime
  else
    match scanDate content with
    | none => .error Error.illegalTime
    | some t => do
        let millis ← scanFractions (content.drop 14)
        if timegm t = -1 then throw Error.illegalTimeRange
        else return FixedInt.cast nanoseconds (timegm t * 1000000000 + millis * 1000000)

/-! ## `timegm` undoes `gmtime` -/

theorem daysBeforeYear_succ (y : Int) :
    daysBeforeYear (y + 1) = daysBeforeYear y + daysInYear y := by
  simp only [daysBeforeYear, daysInYear, isLeap, decide_eq_true_eq]
  split <;> omega

theorem sum_monthLengths (y : Int) : (monthLengths y).sum = daysInYear y := by
  simp only [monthLengths, daysInYear]
  split <;> rfl

theorem yearOfDays_spec {fuel : Nat} {y days : Int} (hpos : 0 ≤ days)
    (hfuel : days < 365 * fuel) :
    0 ≤ (yearOfDays fuel y days).2 ∧
      (yearOfDays fuel y days).2 < daysInYear (yearOfDays fuel y days).1 ∧
      y ≤ (yearOfDays fuel y days).1 ∧ (yearOfDays fuel y days).1 ≤ y + fuel ∧
      daysBeforeYear (yearOfDays fuel y days).1 + (yearOfDays fuel y days).2 =
        daysBeforeYear y + days := by
  induction fuel generalizing y days with
  | zero => omega
  | succ fuel ih =>
      rw [yearOfDays]
      have hyear : 365 ≤ daysInYear y := by
        simp only [daysInYear]
        split <;> omega
      split
      · rename_i hlt
        exact ⟨hpos, hlt, le_refl _, by simp; omega, rfl⟩
      · rename_i hge
        obtain ⟨h₁, h₂, h₃, h₄, h₅⟩ := @ih (y + 1) (days - daysInYear y)
          (by omega) (by push_cast at hfuel; omega)
        refine ⟨h₁, h₂, by omega, by push_cast; omega, ?_⟩
        rw [h₅, daysBeforeYear_succ]
        omega

theorem monthOfDay_spec {ls : List Int} {day : Int} (hpos : 0 ≤ day) (hlt : day < ls.sum) :
    (monthOfDay ls day).1 < ls.length ∧ 0 ≤ (monthOfDay ls day).2 ∧
      (∀ l, ls[(monthOfDay ls day).1]? = some l → (monthOfDay ls day).2 < l) ∧
      (ls.take (monthOfDay ls day).1).sum + (monthOfDay ls day).2 = day := by
  induction ls generalizing day with
  | nil =>
      simp at hlt
      omega
  | cons l ls ih =>
      rw [monthOfDay]
      split
      · rename_i hl
        exact ⟨by simp, hpos, by simpa using hl, by simp⟩
      · rename_i hge
        rw [List.sum_cons] at hlt
        obtain ⟨h₁, h₂, h₃, h₄⟩ := @ih (day - l) (by omega) (by omega)
        refine ⟨by simpa using h₁, h₂, by simpa using h₃, ?_⟩
        simp only [List.take_succ_cons, List.sum_cons]
        omega

/-- The seconds of a time point are within the years that `gmtime` looks at. -/
theorem toTimeT_bounds (time : TimePoint) :
    -9223372036 ≤ toTimeT time ∧ toTimeT time ≤ 9223372036 := by
  obtain ⟨z, hmin, hmax⟩ := time
  simp [nanoseconds, IntType.min, IntType.max, IntType.bytes, IntWidth.bytes] at hmin hmax
  simp only [toTimeT]
  rcases le_total 0 z with hz | hz
  · rw [Int.tdiv_eq_ediv_of_nonneg hz]
    omega
  · have hneg := Int.neg_tdiv (a := z) (b := 1000000000)
    rw [Int.tdiv_eq_ediv_of_nonneg (by omega)] at hneg
    omega

/-- What `gmtime` gives is in the ranges of a calendar date, and `timegm` of it
is the time again. -/
theorem gmtime_spec {time : Int} (hlow : -9223372036 ≤ time) (hhigh : time ≤ 9223372036) :
    1600 ≤ (gmtime time).year + 1900 ∧ (gmtime time).year + 1900 ≤ 2600 ∧
      0 ≤ (gmtime time).mon ∧ (gmtime time).mon < 12 ∧
      1 ≤ (gmtime time).mday ∧ (gmtime time).mday ≤ 31 ∧
      0 ≤ (gmtime time).hour ∧ (gmtime time).hour < 24 ∧
      0 ≤ (gmtime time).min ∧ (gmtime time).min < 60 ∧
      0 ≤ (gmtime time).sec ∧ (gmtime time).sec < 60 ∧ timegm (gmtime time) = time := by
  have hepoch : daysBeforeYear 1970 - daysBeforeYear 1600 = 135140 := by decide
  obtain ⟨hday, hdayLt, hy, hy', hdays⟩ := @yearOfDays_spec 1000 1600
    (time / 86400 + daysBeforeYear 1970 - daysBeforeYear 1600) (by omega) (by omega)
  have hgm : gmtime time = gmtime time := rfl
  conv_rhs at hgm => simp only [gmtime]
  generalize yearOfDays 1000 1600
    (time / 86400 + daysBeforeYear 1970 - daysBeforeYear 1600) = yd at *
  obtain ⟨y, day⟩ := yd
  simp only at hday hdayLt hy hy' hdays hgm
  obtain ⟨hm, hmday, hmlt, hsum⟩ := @monthOfDay_spec (monthLengths y) day hday
    (by rwa [sum_monthLengths])
  generalize monthOfDay (monthLengths y) day = md at *
  obtain ⟨m, mday⟩ := md
  simp only at hm hmday hmlt hsum hgm
  have hm12 : m < 12 := by simpa [monthLengths] using hm
  have hmday31 : mday < 31 := by
    obtain ⟨l, hl⟩ : ∃ l, (monthLengths y)[m]? = some l := ⟨_, List.getElem?_eq_getElem hm⟩
    have hlmem := List.mem_of_getElem? hl
    have hle : l ≤ 31 := by
      simp only [monthLengths, List.mem_cons, List.not_mem_nil, or_false] at hlmem
      rcases hlmem with rfl | rfl | rfl | rfl | rfl | rfl | rfl | rfl | rfl | rfl | rfl | rfl
      all_goals omega
    have := hmlt l hl
    omega
  rw [hgm]
  simp only
  refine ⟨by omega, by omega, by omega, by omega, by omega, by omega, by omega, by omega,
    by omega, by omega, by omega, by omega, ?_⟩
  have hdiv : (m : Int) / 12 = 0 := by omega
  have hmod : ((m : Int) % 12).toNat = m := by omega
  simp only [timegm, sub_add_cancel, hdiv, hmod, add_zero, add_sub_cancel_right]
  omega

/-! ## The text is read back -/

theorem decimal_eq {width n : Nat} (h : n < 10 ^ width) :
    decimal width n = (digits 10 width n).map fun d => UInt8.ofNat (0x30 + d) := by
  have hlen := (Nat.digits_length_le_iff (by omega : 1 < 10) (k := width) n).mpr h
  rw [decimal, max_eq_left hlen]

theorem decimal_length {width n : Nat} (h : n < 10 ^ width) :
    (decimal width n).length = width := by
  simp [decimal_eq h]

theorem isDigit_decimal {width n : Nat} (h : n < 10 ^ width) :
    ∀ o ∈ decimal width n, isDigit o = true ∧ isSpace o = false ∧ o ≠ 0x2d ∧ o ≠ 0x2b ∧ o ≠ 0 := by
  intro o ho
  rw [decimal_eq h] at ho
  obtain ⟨d, hd, rfl⟩ := List.mem_map.mp ho
  have hlt := digits_lt (by omega) width n d hd
  interval_cases d <;> decide

theorem scanDecimal_decimal {width n : Nat} (hwidth : 0 < width) (h : n < 10 ^ width)
    (rest : Octets) : scanDecimal width (decimal width n ++ rest) = some ((n : Int), rest) := by
  have hlen := decimal_length h
  have hdigit := isDigit_decimal h
  have hvalue : value 10 ((decimal width n).map fun o => o.toNat - 0x30) = n := by
    rw [decimal_eq h, List.map_map]
    have hid : (digits 10 width n).map ((fun o => o.toNat - 0x30) ∘ fun d => UInt8.ofNat (0x30 + d)) =
        digits 10 width n := by
      conv_rhs => rw [← List.map_id (digits 10 width n)]
      apply List.map_congr_left
      intro d hd
      have hlt := digits_lt (by omega : 0 < 10) width n d hd
      simp only [Function.comp_apply, UInt8.toNat_ofNat', id]
      omega
    rw [hid, value_digits h]
  generalize decimal width n = ds at *
  have htake : (ds ++ rest).take width = ds := by
    rw [← hlen, List.take_left]
  have hwhile : ds.takeWhile isDigit = ds :=
    List.takeWhile_eq_self_iff.mpr fun o ho => (hdigit o ho).1
  cases ds with
  | nil => simp at hlen; omega
  | cons o ds =>
      obtain ⟨-, hspace, hminus, hplus, -⟩ := hdigit o (List.mem_cons_self ..)
      have hskip : ((o :: ds) ++ rest).dropWhile isSpace = o :: (ds ++ rest) := by
        rw [List.cons_append, List.dropWhile_cons, if_neg (by simp [hspace])]
      simp only [scanDecimal, hskip, List.headD_cons, hminus, hplus, or_self, if_false,
        List.drop_zero, Nat.sub_zero]
      rw [← List.cons_append, htake, hwhile, if_neg (by simp), hvalue, List.drop_left]

theorem fractionMillis_lt (time : TimePoint) : fractionMillis time < 10 ^ 3 := by
  have := Int.natAbs_tmod (time.val.tdiv 1000000) 1000
  rw [fractionMillis, this]
  exact Nat.mod_lt _ (by norm_num)

theorem cString_of_ne_zero {l : Octets} (h : ∀ o ∈ l, o ≠ 0) : cString l = l :=
  List.takeWhile_eq_self_iff.mpr fun o ho => by simpa using h o ho

/-- The text of a time: six numbers of fixed width, and the rest. -/
theorem encodeTime_eq (time : TimePoint) :
    ∃ tail, encodeTime time =
        decimal 4 ((gmtime (toTimeT time)).year + 1900).toNat ++
          (decimal 2 ((gmtime (toTimeT time)).mon + 1).toNat ++
          (decimal 2 (gmtime (toTimeT time)).mday.toNat ++
          (decimal 2 (gmtime (toTimeT time)).hour.toNat ++
          (decimal 2 (gmtime (toTimeT time)).min.toNat ++
          (decimal 2 (gmtime (toTimeT time)).sec.toNat ++ tail))))) ∧
      ((tail = [0x5a] ∧ fractionMillis time = 0) ∨
        tail = 0x2e :: (decimal 3 (fractionMillis time) ++ [0x5a])) := by
  obtain ⟨hlow, hhigh⟩ := toTimeT_bounds time
  obtain ⟨h₁, h₂, h₃, h₄, h₅, h₆, h₇, h₈, h₉, h₁₀, h₁₁, h₁₂, -⟩ := gmtime_spec hlow hhigh
  simp only [encodeTime]
  rw [List.take_of_length_le]
  · split
    · exact ⟨_, by simp only [List.append_assoc], Or.inr rfl⟩
    · next hzero =>
      exact ⟨_, by simp only [List.append_assoc], Or.inl ⟨rfl, not_not.mp hzero⟩⟩
  · simp only [List.length_append]
    rw [decimal_length (by omega), decimal_length (by omega), decimal_length (by omega),
      decimal_length (by omega), decimal_length (by omega), decimal_length (by omega)]

/-- What the decoder makes of the text of a time: the seconds, and the milliseconds
that were written without their sign. -/
theorem decodeTime_encodeTime_eq (time : TimePoint) :
    decodeTime (encodeTime time) =
      if toTimeT time = -1 then .error Error.illegalTimeRange
      else .ok (FixedInt.cast nanoseconds
        (toTimeT time * 1000000000 + fractionMillis time * 1000000)) := by
  obtain ⟨hlow, hhigh⟩ := toTimeT_bounds time
  obtain ⟨h₁, h₂, h₃, h₄, h₅, h₆, h₇, h₈, h₉, h₁₀, h₁₁, h₁₂, hback⟩ := gmtime_spec hlow hhigh
  obtain ⟨tail, htext, htail⟩ := encodeTime_eq time
  generalize gmtime (toTimeT time) = t at *
  have hyear : (t.year + 1900).toNat < 10 ^ 4 := by omega
  have hmon : (t.mon + 1).toNat < 10 ^ 2 := by omega
  have hmday : t.mday.toNat < 10 ^ 2 := by omega
  have hhour : t.hour.toNat < 10 ^ 2 := by omega
  have hmin : t.min.toNat < 10 ^ 2 := by omega
  have hsec : t.sec.toNat < 10 ^ 2 := by omega
  have hms := fractionMillis_lt time
  have hmsDigits := isDigit_decimal hms
  have hnonzero : ∀ o ∈ tail, o ≠ 0 := by
    intro o ho
    rcases htail with ⟨rfl, -⟩ | rfl
    · simp at ho
      rw [ho]
      decide
    · simp only [List.mem_cons, List.mem_append, List.not_mem_nil, or_false] at ho
      rcases ho with rfl | ho | rfl
      · decide
      · exact (hmsDigits o ho).2.2.2.2
      · decide
  have hc : cString (encodeTime time) = encodeTime time := by
    refine cString_of_ne_zero fun o ho => ?_
    rw [htext] at ho
    simp only [List.mem_append] at ho
    rcases ho with ho | ho | ho | ho | ho | ho | ho
    · exact (isDigit_decimal hyear o ho).2.2.2.2
    · exact (isDigit_decimal hmon o ho).2.2.2.2
    · exact (isDigit_decimal hmday o ho).2.2.2.2
    · exact (isDigit_decimal hhour o ho).2.2.2.2
    · exact (isDigit_decimal hmin o ho).2.2.2.2
    · exact (isDigit_decimal hsec o ho).2.2.2.2
    · exact hnonzero o ho
  have hdate : scanDate (encodeTime time) = some t := by
    rw [scanDate, hc, htext]
    simp only [scanDecimals, scanDecimal_decimal (by omega : 0 < 4) hyear,
      scanDecimal_decimal (by omega : 0 < 2) hmon, scanDecimal_decimal (by omega : 0 < 2) hmday,
      scanDecimal_decimal (by omega : 0 < 2) hhour, scanDecimal_decimal (by omega : 0 < 2) hmin,
      scanDecimal_decimal (by omega : 0 < 2) hsec, Option.bind_eq_bind, Option.bind_some,
      Option.pure_def]
    obtain ⟨year, mon, mday, hour, min, sec⟩ := t
    simp only at *
    simp only [Option.some.injEq, Tm.mk.injEq]
    omega
  have hsplit : ∃ front, encodeTime time = front ++ tail ∧ front.length = 14 := by
    simp only [← List.append_assoc] at htext
    refine ⟨_, htext, ?_⟩
    simp only [List.length_append, decimal_length hyear, decimal_length hmon,
      decimal_length hmday, decimal_length hhour, decimal_length hmin, decimal_length hsec]
  obtain ⟨front, hfront, hlen⟩ := hsplit
  have hdrop : (encodeTime time).drop 14 = tail := by
    rw [hfront, ← hlen, List.drop_left]
  have hlong : ¬ (encodeTime time).length < 15 := by
    rw [hfront, List.length_append, hlen]
    have : 0 < tail.length := by rcases htail with ⟨rfl, -⟩ | rfl <;> simp
    omega
  have hmillis : scanFractions tail = .ok (fractionMillis time : Int) := by
    rcases htail with ⟨rfl, hzero⟩ | rfl
    · rw [hzero]
      rfl
    · rw [scanFractions, List.headD_cons, if_pos rfl, cString_of_ne_zero hnonzero, List.drop_succ_cons,
        List.drop_zero, scanDecimal_decimal (by omega) hms]
  simp only [decodeTime, if_neg hlong, hdate, hdrop, hmillis, hback]
  rfl

/-- The decoder takes the text of every time but those within the second that
`timegm` reports errors with. -/
theorem decodeTime_encodeTime (time : TimePoint) :
    (∃ t, decodeTime (encodeTime time) = .ok t) ↔ toTimeT time ≠ -1 := by
  rw [decodeTime_encodeTime_eq]
  by_cases hminus : toTimeT time = -1
  · simp [hminus]
  · simp [hminus]

end Securepath.Serialisation
