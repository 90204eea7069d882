import Securepath.Util.StringUtil

/-!
# The sanitiser

A code point that is written as UTF-8, or as one or two wide characters, is read
back whole and alone, and everything that is read is a code point. So there and
back is to write the code points that were read, and what is written is read as
the code points it was written from.
-/

namespace Securepath.Util

open Serialisation (Octets)

/-! ## Bits -/

section Bits

variable {x : Nat}

theorem or_lead_two (h : x < 64) : 0xc0 ||| x = 0xc0 + x :=
  (Nat.two_pow_add_eq_or_of_lt (i := 6) h 3).symm

theorem or_lead_three (h : x < 32) : 0xe0 ||| x = 0xe0 + x :=
  (Nat.two_pow_add_eq_or_of_lt (i := 5) h 7).symm

theorem or_lead_four (h : x < 16) : 0xf0 ||| x = 0xf0 + x :=
  (Nat.two_pow_add_eq_or_of_lt (i := 4) h 15).symm

theorem or_continuation (h : x < 64) : 0x80 ||| x = 0x80 + x :=
  (Nat.two_pow_add_eq_or_of_lt (i := 6) h 2).symm

theorem or_high_surrogate (h : x < 1024) : 0xd800 ||| x = 0xd800 + x :=
  (Nat.two_pow_add_eq_or_of_lt (i := 10) h 54).symm

theorem or_low_surrogate (h : x < 1024) : 0xdc00 ||| x = 0xdc00 + x :=
  (Nat.two_pow_add_eq_or_of_lt (i := 10) h 55).symm

theorem and_low_six (x : Nat) : x &&& 0x3f = x % 64 := Nat.and_two_pow_sub_one_eq_mod x 6

theorem and_low_ten (x : Nat) : x &&& 0x3ff = x % 1024 := Nat.and_two_pow_sub_one_eq_mod x 10

/-- Six more bits. -/
theorem shiftLeft_six_or {cp : Nat} (h : x < 64) : cp <<< 6 ||| x = cp * 64 + x := by
  rw [← Nat.shiftLeft_add_eq_or_of_lt h, Nat.shiftLeft_eq]

theorem continuation_marker (h : x < 64) : 0x80 + x &&& 0xc0 = 0x80 := by
  revert x
  decide

theorem continuation_payload (h : x < 64) : 0x80 + x &&& 0x3f = x := by
  rw [and_low_six]
  omega

end Bits

/-! ## Code points -/

theorem validCodePoint_iff {cp : Nat} : validCodePoint cp = true ↔
    cp ≤ 0x10ffff ∧ (cp < 0xd800 ∨ 0xdfff < cp) := by
  simp [validCodePoint]

theorem validCodePoint_replacementChar : validCodePoint replacementChar = true := by decide

theorem orReplacement_of_valid {cp : Nat} (h : validCodePoint cp = true) :
    orReplacement cp = cp := if_pos h

/-- The code points are the scalar values of Unicode. -/
theorem validCodePoint_iff_isValidChar {cp : Nat} :
    validCodePoint cp = true ↔ cp.isValidChar := by
  rw [validCodePoint_iff]
  unfold Nat.isValidChar
  omega

/-- The octets of a code point. -/
def utf8 (cp : Nat) : Octets := appendUtf8 [] cp

/-- The wide characters of a code point. -/
def wide (w : WcharWidth) (cp : Nat) : WString w := appendWide [] cp

theorem appendUtf8_eq (out : Octets) (cp : Nat) : appendUtf8 out cp = out ++ utf8 cp := by
  unfold utf8 appendUtf8
  dsimp only
  split
  · rfl
  · split
    · rfl
    · split
      · rfl
      · rfl

theorem appendWide_eq {w : WcharWidth} (out : WString w) (cp : Nat) :
    appendWide out cp = out ++ wide w cp := by
  unfold wide appendWide
  split
  · split
    · rfl
    · rfl
  · rfl

/-- `append_utf8` in arithmetic. -/
theorem utf8_eq {cp : Nat} (h : validCodePoint cp = true) : utf8 cp =
    if cp < 0x80 then [UInt8.ofNat cp]
    else if cp < 0x800 then [UInt8.ofNat (0xc0 + cp / 64), UInt8.ofNat (0x80 + cp % 64)]
    else if cp < 0x10000 then
      [UInt8.ofNat (0xe0 + cp / 4096), UInt8.ofNat (0x80 + cp / 64 % 64),
        UInt8.ofNat (0x80 + cp % 64)]
    else
      [UInt8.ofNat (0xf0 + cp / 262144), UInt8.ofNat (0x80 + cp / 4096 % 64),
        UInt8.ofNat (0x80 + cp / 64 % 64), UInt8.ofNat (0x80 + cp % 64)] := by
  have hmax := (validCodePoint_iff.mp h).1
  have hmod : ∀ n : Nat, n % 64 < 64 := fun n => Nat.mod_lt n (by decide)
  unfold utf8 appendUtf8
  rw [orReplacement_of_valid h]
  simp only [List.nil_append, and_low_six, Nat.shiftRight_eq_div_pow, or_continuation (hmod _)]
  split
  · rfl
  · split
    · rw [or_lead_two (by omega)]
    · split
      · rw [or_lead_three (by omega)]
      · rw [or_lead_four (by omega)]

/-- The octets of a code point are those of the character. -/
theorem utf8_eq_utf8EncodeChar (c : Char) : utf8 c.toNat = String.utf8EncodeChar c := by
  have hvalid : validCodePoint c.toNat = true :=
    validCodePoint_iff_isValidChar.mpr c.valid
  have hmax := (validCodePoint_iff.mp hvalid).1
  rw [utf8_eq hvalid]
  unfold String.utf8EncodeChar
  have hval : c.val.toNat = c.toNat := rfl
  simp only [hval]
  generalize c.toNat = cp at *
  by_cases h1 : cp < 0x80
  · rw [if_pos h1, if_pos (show cp ≤ 0x7f by omega)]
  · rw [if_neg h1, if_neg (show ¬ cp ≤ 0x7f by omega)]
    by_cases h2 : cp < 0x800
    · rw [if_pos h2, if_pos (show cp ≤ 0x7ff by omega), Nat.mod_eq_of_lt (show cp / 64 < 32 by omega),
        Nat.add_comm, Nat.add_comm (cp % 64)]
    · rw [if_neg h2, if_neg (show ¬ cp ≤ 0x7ff by omega)]
      by_cases h3 : cp < 0x10000
      · rw [if_pos h3, if_pos (show cp ≤ 0xffff by omega),
          Nat.mod_eq_of_lt (show cp / 4096 < 16 by omega), Nat.add_comm, Nat.add_comm (cp % 64),
          Nat.add_comm (cp / 64 % 64)]
      · rw [if_neg h3, if_neg (show ¬ cp ≤ 0xffff by omega),
          Nat.mod_eq_of_lt (show cp / 262144 < 8 by omega), Nat.add_comm, Nat.add_comm (cp % 64),
          Nat.add_comm (cp / 64 % 64), Nat.add_comm (cp / 4096 % 64)]

/-! ## What is written is read back -/

section

variable {cp : Nat} {rest : Octets}

theorem decodeContinuation_cons {x : Nat} (h : x < 64) (ccs : Octets) :
    decodeContinuation cp (UInt8.ofNat (0x80 + x) :: ccs) =
      decodeContinuation (cp * 64 + x) ccs := by
  have hoctet : (UInt8.ofNat (0x80 + x)).toNat = 0x80 + x :=
    UInt8.toNat_ofNat_of_lt' (by show _ < 256; omega)
  rw [decodeContinuation, hoctet, continuation_marker h, continuation_payload h, shiftLeft_six_or h, if_neg (by simp)]

theorem decodeUtf8_single {c : UInt8} (h : c.toNat < 0x80) : decodeUtf8 c rest = (c.toNat, rest) := by
  have hlen : sequenceLength c.toNat = 1 := if_pos h
  have hvalid : validCodePoint c.toNat = true := validCodePoint_iff.mpr (by omega)
  unfold decodeUtf8
  simp [hlen, decodeContinuation, hvalid, minForLen]

/-- A sequence of more octets, once its octets are joined. -/
theorem decodeUtf8_sequence (len : Nat) {c : UInt8} {ccs : Octets}
    (hlen : sequenceLength c.toNat = len) (hccs : ccs.length + 1 = len) (hlong : 1 < len)
    (hcp : decodeContinuation (c.toNat &&& 0x7f >>> len) ccs = some cp)
    (hvalid : validCodePoint cp = true) (hmin : minForLen len ≤ cp) :
    decodeUtf8 c (ccs ++ rest) = (cp, rest) := by
  have hlength : len - 1 = ccs.length := by omega
  unfold decodeUtf8
  dsimp only
  rw [hlen, if_neg (by rw [List.length_append]; omega), if_neg (by omega), hlength,
    List.take_left, List.drop_left, hcp]
  show (if _ then _ else _, rest) = _
  rw [if_pos ⟨hvalid, hmin⟩]

theorem and_lead_two {x : Nat} (h : x < 32) : 0xc0 + x &&& 0x7f >>> 2 = x := by
  show 0xc0 + x &&& 2 ^ 5 - 1 = x
  rw [Nat.and_two_pow_sub_one_eq_mod]
  omega

theorem and_lead_three {x : Nat} (h : x < 16) : 0xe0 + x &&& 0x7f >>> 3 = x := by
  show 0xe0 + x &&& 2 ^ 4 - 1 = x
  rw [Nat.and_two_pow_sub_one_eq_mod]
  omega

theorem and_lead_four {x : Nat} (h : x < 8) : 0xf0 + x &&& 0x7f >>> 4 = x := by
  show 0xf0 + x &&& 2 ^ 3 - 1 = x
  rw [Nat.and_two_pow_sub_one_eq_mod]
  omega

theorem sequenceLength_eq {c : Nat} (h : 0xc2 ≤ c) (hc : c < 0xf5) :
    sequenceLength c = if c < 0xe0 then 2 else if c < 0xf0 then 3 else 4 := by
  unfold sequenceLength
  rw [if_neg (by omega), if_neg (by omega), if_pos hc]

/-- The octets of a code point begin with one that tells how many there are, and
are read as the code point. -/
theorem decodeUtf8_utf8 (h : validCodePoint cp = true) (rest : Octets) :
    ∃ c ccs, utf8 cp = c :: ccs ∧ decodeUtf8 c (ccs ++ rest) = (cp, rest) := by
  have hmax := (validCodePoint_iff.mp h).1
  have hoctet : ∀ n, n < 256 → (UInt8.ofNat n).toNat = n := fun n hn =>
    UInt8.toNat_ofNat_of_lt' hn
  have hmod : ∀ n : Nat, n % 64 < 64 := fun n => Nat.mod_lt n (by decide)
  rw [utf8_eq h]
  -- the four lengths of a sequence
  split
  · next h1 =>
    refine ⟨_, [], rfl, ?_⟩
    have hc := hoctet cp (by omega)
    rw [List.nil_append, decodeUtf8_single (by rw [hc]; exact h1), hc]
  split
  · next h1 h2 =>
    refine ⟨_, _, rfl, ?_⟩
    have hc := hoctet (0xc0 + cp / 64) (by omega)
    apply decodeUtf8_sequence 2
    · rw [hc, sequenceLength_eq (by omega) (by omega), if_pos (by omega)]
    · rfl
    · decide
    · rw [hc, and_lead_two (by omega), decodeContinuation_cons (hmod _)]
      show some _ = some _
      congr 1
      omega
    · exact h
    · show 0x80 ≤ cp
      omega
  split
  · next h1 h2 h3 =>
    refine ⟨_, _, rfl, ?_⟩
    have hc := hoctet (0xe0 + cp / 4096) (by omega)
    apply decodeUtf8_sequence 3
    · rw [hc, sequenceLength_eq (by omega) (by omega), if_neg (by omega), if_pos (by omega)]
    · rfl
    · decide
    · rw [hc, and_lead_three (by omega), decodeContinuation_cons (hmod _),
        decodeContinuation_cons (hmod _)]
      show some _ = some _
      congr 1
      omega
    · exact h
    · show 0x800 ≤ cp
      omega
  · next h1 h2 h3 =>
    refine ⟨_, _, rfl, ?_⟩
    have hc := hoctet (0xf0 + cp / 262144) (by omega)
    apply decodeUtf8_sequence 4
    · rw [hc, sequenceLength_eq (by omega) (by omega), if_neg (by omega), if_neg (by omega)]
    · rfl
    · decide
    · rw [hc, and_lead_four (by omega), decodeContinuation_cons (hmod _),
        decodeContinuation_cons (hmod _), decodeContinuation_cons (hmod _)]
      show some _ = some _
      congr 1
      omega
    · exact h
    · show 0x10000 ≤ cp
      omega

end

theorem validCodePoint_decodeUtf8 (c : UInt8) (rest : Octets) :
    validCodePoint (decodeUtf8 c rest).1 = true := by
  unfold decodeUtf8
  dsimp only
  split
  · exact validCodePoint_replacementChar
  · split
    · exact validCodePoint_replacementChar
    · show validCodePoint (if _ then _ else _) = true
      split
      · next h => exact h.1
      · exact validCodePoint_replacementChar

theorem toNat_utf16 {n : Nat} (h : n < 65536) :
    (BitVec.ofNat (WcharWidth.bits .utf16) n).toNat = n := by
  rw [BitVec.toNat_ofNat]
  exact Nat.mod_eq_of_lt h

theorem toNat_utf32 {n : Nat} (h : n < 4294967296) :
    (BitVec.ofNat (WcharWidth.bits .utf32) n).toNat = n := by
  rw [BitVec.toNat_ofNat]
  exact Nat.mod_eq_of_lt h

/-- The wide characters of a code point are read as the code point. A code point
is no surrogate, so that what is behind the first character does not matter. -/
theorem decodeWide_wide {w : WcharWidth} {cp : Nat} (h : validCodePoint cp = true)
    (rest : WString w) :
    ∃ c cs, wide w cp = c :: cs ∧ decodeWide c (cs ++ rest) = (cp, rest) := by
  obtain ⟨hmax, hsurrogate⟩ := validCodePoint_iff.mp h
  cases w with
  | utf32 =>
    have hc : (BitVec.ofNat (WcharWidth.bits .utf32) cp).toNat = cp := toNat_utf32 (by omega)
    refine ⟨_, [], rfl, ?_⟩
    unfold decodeWide
    rw [hc]
    dsimp only
    rw [if_neg (by rintro ⟨h, -⟩; cases h), orReplacement_of_valid h]
    rfl
  | utf16 =>
    by_cases hpair : 0x10000 ≤ cp
    · -- a surrogate pair
      have hhi : (cp - 0x10000) / 1024 < 1024 := by omega
      have hlo : (cp - 0x10000) % 1024 < 1024 := Nat.mod_lt _ (by decide)
      have hwide : wide .utf16 cp = [BitVec.ofNat _ (0xd800 + (cp - 0x10000) / 1024),
          BitVec.ofNat _ (0xdc00 + (cp - 0x10000) % 1024)] := by
        unfold wide appendWide
        rw [if_pos rfl, if_pos hpair]
        dsimp only
        rw [Nat.shiftRight_eq_div_pow, or_high_surrogate hhi, and_low_ten, or_low_surrogate hlo]
        rfl
      have hc := toNat_utf16 (show 0xd800 + (cp - 0x10000) / 1024 < 65536 by omega)
      have hd := toNat_utf16 (show 0xdc00 + (cp - 0x10000) % 1024 < 65536 by omega)
      have hvalue : 0x10000 + (0xd800 + (cp - 0x10000) / 1024 - 0xd800) * 2 ^ 10 +
          (0xdc00 + (cp - 0x10000) % 1024 - 0xdc00) = cp := by omega
      refine ⟨_, _, hwide, ?_⟩
      unfold decodeWide
      rw [hc, List.singleton_append]
      dsimp only
      rw [if_pos ⟨rfl, by omega, by omega⟩, hd, if_pos ⟨by omega, by omega⟩, Nat.shiftLeft_eq,
        hvalue]
    · have hwide : wide .utf16 cp = [BitVec.ofNat _ cp] := by
        unfold wide appendWide
        rw [if_pos rfl, if_neg hpair]
        rfl
      have hc := toNat_utf16 (show cp < 65536 by omega)
      refine ⟨_, [], hwide, ?_⟩
      unfold decodeWide
      rw [hc]
      dsimp only
      rw [if_neg (by omega), orReplacement_of_valid h]
      rfl

/-! ## Strings -/

/-- The code points that `to_wstring` reads. -/
def codePoints : Octets → List Nat
  | [] => []
  | c :: rest => (decodeUtf8 c rest).1 :: codePoints (decodeUtf8 c rest).2
termination_by str => str.length
decreasing_by
  have := decodeUtf8_length_le c rest
  simp only [List.length_cons]
  omega

/-- Every one of them is a code point. -/
def AllValid (cps : List Nat) : Prop := ∀ cp ∈ cps, validCodePoint cp = true

theorem codePoints_allValid (str : Octets) : AllValid (codePoints str) := by
  fun_induction codePoints str with
  | case1 => exact fun cp h => absurd h List.not_mem_nil
  | case2 c rest ih =>
    intro cp h
    rcases List.mem_cons.mp h with rfl | h
    · exact validCodePoint_decodeUtf8 c rest
    · exact ih cp h

/-- The code points that were written are the ones that are read. -/
theorem codePoints_flatMap {cps : List Nat} (h : AllValid cps) :
    codePoints (cps.flatMap utf8) = cps := by
  induction cps with
  | nil => simp [codePoints]
  | cons cp cps ih =>
    obtain ⟨hcp, hcps⟩ := List.forall_mem_cons.mp h
    -- the first code point is read back, and what is left are the others
    obtain ⟨c, ccs, hutf8, hread⟩ := decodeUtf8_utf8 hcp (cps.flatMap utf8)
    rw [List.flatMap_cons, hutf8, List.cons_append, codePoints, hread, ih hcps]

theorem toWstringLoop_eq {w : WcharWidth} (ret : WString w) (str : Octets) :
    toWstringLoop ret str = ret ++ (codePoints str).flatMap (wide w) := by
  fun_induction toWstringLoop ret str with
  | case1 ret => simp [codePoints]
  | case2 ret c rest ih =>
    rw [ih, codePoints, List.flatMap_cons, appendWide_eq, List.append_assoc]

theorem toStringLoop_flatMap {w : WcharWidth} {cps : List Nat} (h : AllValid cps)
    (ret : Octets) : toStringLoop ret (cps.flatMap (wide w)) = ret ++ cps.flatMap utf8 := by
  induction cps generalizing ret with
  | nil => simp [toStringLoop]
  | cons cp cps ih =>
    obtain ⟨hcp, hcps⟩ := List.forall_mem_cons.mp h
    obtain ⟨c, cs, hwide, hread⟩ := decodeWide_wide hcp (cps.flatMap (wide w))
    rw [List.flatMap_cons, hwide, List.cons_append, toStringLoop, hread, ih hcps,
      List.flatMap_cons, appendUtf8_eq, List.append_assoc]

/-- There and back writes the code points that are read, whatever the width. -/
theorem sanitise_eq (w : WcharWidth) (str : Octets) :
    sanitise w str = (codePoints str).flatMap utf8 := by
  unfold sanitise toString toWstring
  rw [toWstringLoop_eq, List.nil_append, toStringLoop_flatMap (codePoints_allValid str),
    List.nil_append]

/-- The well-formed strings are what code points are written as. -/
theorem wellFormed_iff {str : Octets} :
    WellFormed str ↔ ∃ cps, AllValid cps ∧ str = cps.flatMap utf8 := by
  constructor
  · rintro ⟨cs, rfl⟩
    refine ⟨cs.map Char.toNat, ?_, ?_⟩
    · intro cp h
      obtain ⟨c, -, rfl⟩ := List.mem_map.mp h
      exact validCodePoint_iff_isValidChar.mpr c.valid
    · rw [List.flatMap_map]
      exact List.flatMap_congr fun c _ => (utf8_eq_utf8EncodeChar c).symm
  · rintro ⟨cps, hcps, rfl⟩
    refine ⟨cps.map Char.ofNat, ?_⟩
    rw [List.flatMap_map]
    apply List.flatMap_congr
    intro cp h
    have hvalid := validCodePoint_iff_isValidChar.mp (hcps cp h)
    rw [← utf8_eq_utf8EncodeChar, Char.toNat_ofNat, if_pos hvalid]

/-- `to_string` behind `to_wstring` is a sanitiser. -/
theorem sanitise_spec (w : WcharWidth) (str : Octets) :
    WellFormed (sanitise w str) ∧ (sanitise w str = str ↔ WellFormed str) ∧
      sanitise w (sanitise w str) = sanitise w str := by
  have hwritten : WellFormed (sanitise w str) :=
    wellFormed_iff.mpr ⟨_, codePoints_allValid str, sanitise_eq w str⟩
  have hfixed : ∀ s, WellFormed s → sanitise w s = s := by
    intro s hs
    -- well-formed octets are what their own code points are written as
    obtain ⟨cps, hcps, rfl⟩ := wellFormed_iff.mp hs
    rw [sanitise_eq, codePoints_flatMap hcps]
  refine ⟨hwritten, ⟨fun h => ?_, hfixed str⟩, hfixed _ hwritten⟩
  rw [← h]
  exact hwritten

end Securepath.Util
