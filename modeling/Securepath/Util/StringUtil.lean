import Securepath.Serialisation.Types
import Mathlib.Data.Nat.Bitwise

/-!
# Octet strings and wide strings

`to_wstring` and `to_string` (`util/string_util.cpp`) take UTF-8 to UTF-16 or
UTF-32, as wide as `wchar_t` is, and back. Neither refuses anything: what is
malformed becomes the replacement character. The way there and back is therefore
a sanitiser: its results are the well-formed strings, and it leaves these alone.

Both loops decode one code point after another; they are followed on the lists of
the code points (`codePoints`, `wideCodePoints`), where the way back is the
inverse of the way there.
-/

namespace Securepath.Util

open Serialisation (Octets)

/-- `replacement_char`; a `char32_t` is a `Nat` here, as none leaves its range. -/
def replacementChar : Nat := 0xfffd

/-- `valid_code_point`. -/
def validCodePoint (cp : Nat) : Bool := cp ≤ 0x10ffff && (cp < 0xd800 || 0xdfff < cp)

/-- A code point, or the replacement character for what is none. -/
def orReplacement (cp : Nat) : Nat := if validCodePoint cp then cp else replacementChar

/-! ## UTF-8 -/

/-- `append_utf8`. -/
def appendUtf8 (out : Octets) (cp : Nat) : Octets :=
  let cp := orReplacement cp
  if cp < 0x80 then
    out ++ [UInt8.ofNat cp]
  else if cp < 0x800 then
    out ++ [UInt8.ofNat (0xc0 ||| cp >>> 6), UInt8.ofNat (0x80 ||| (cp &&& 0x3f))]
  else if cp < 0x10000 then
    out ++ [UInt8.ofNat (0xe0 ||| cp >>> 12), UInt8.ofNat (0x80 ||| (cp >>> 6 &&& 0x3f)),
      UInt8.ofNat (0x80 ||| (cp &&& 0x3f))]
  else
    out ++ [UInt8.ofNat (0xf0 ||| cp >>> 18), UInt8.ofNat (0x80 ||| (cp >>> 12 &&& 0x3f)),
      UInt8.ofNat (0x80 ||| (cp >>> 6 &&& 0x3f)), UInt8.ofNat (0x80 ||| (cp &&& 0x3f))]

/-- `len` of `decode_utf8`: how many octets the lead octet announces, 0 for a bad
one. -/
def sequenceLength (c : Nat) : Nat :=
  if c < 0x80 then 1
  else if c < 0xc2 then 0
  else if c < 0xe0 then 2
  else if c < 0xf0 then 3
  else if c < 0xf5 then 4
  else 0

/-- `min_for_len`. -/
def minForLen : Nat → Nat
  | 2 => 0x80
  | 3 => 0x800
  | 4 => 0x10000
  | _ => 0

/-- The loop of `decode_utf8` over the octets behind the lead octet. -/
def decodeContinuation (cp : Nat) : Octets → Option Nat
  | [] => some cp
  | cc :: ccs =>
      if cc.toNat &&& 0xc0 ≠ 0x80 then none
      else decodeContinuation (cp <<< 6 ||| (cc.toNat &&& 0x3f)) ccs

/-- `decode_utf8` at the octet `c` with `rest` behind it: the code point, and the
octets from the advanced position on. -/
def decodeUtf8 (c : UInt8) (rest : Octets) : Nat × Octets :=
  let len := sequenceLength c.toNat
  if len = 0 ∨ rest.length + 1 < len then (replacementChar, rest)
  else
    let cp := if len = 1 then c.toNat else c.toNat &&& 0x7f >>> len
    match decodeContinuation cp (rest.take (len - 1)) with
    | none => (replacementChar, rest)
    | some cp =>
        -- an overlong or impossible sequence is consumed as a whole
        (if validCodePoint cp ∧ minForLen len ≤ cp then cp else replacementChar,
          rest.drop (len - 1))

theorem decodeUtf8_length_le (c : UInt8) (rest : Octets) :
    (decodeUtf8 c rest).2.length ≤ rest.length := by
  unfold decodeUtf8
  dsimp only
  split
  · exact Nat.le_refl _
  · split
    · exact Nat.le_refl _
    · show (rest.drop _).length ≤ rest.length
      rw [List.length_drop]
      exact Nat.sub_le _ _

/-! ## Wide characters -/

/-- What `wchar_t` is. -/
inductive WcharWidth where
  | utf16
  | utf32
deriving DecidableEq

/-- The bits of a `wchar_t`. -/
def WcharWidth.bits : WcharWidth → Nat
  | .utf16 => 16
  | .utf32 => 32

/-- `std::wstring`. -/
abbrev WString (w : WcharWidth) := List (BitVec w.bits)

variable {w : WcharWidth}

/-- `append_wide`. -/
def appendWide (out : WString w) (cp : Nat) : WString w :=
  if w = .utf16 then
    if 0x10000 ≤ cp then
      let cp := cp - 0x10000
      out ++ [BitVec.ofNat _ (0xd800 ||| cp >>> 10), BitVec.ofNat _ (0xdc00 ||| (cp &&& 0x3ff))]
    else
      out ++ [BitVec.ofNat _ cp]
  else
    out ++ [BitVec.ofNat _ cp]

/-- `decode_wide` at the character `c` with `rest` behind it. -/
def decodeWide (c : BitVec w.bits) (rest : WString w) : Nat × WString w :=
  let cp := c.toNat
  if w = .utf16 ∧ 0xd800 ≤ cp ∧ cp ≤ 0xdbff then
    match rest with
    | [] => (orReplacement cp, [])
    | lo :: rest' =>
        if 0xdc00 ≤ lo.toNat ∧ lo.toNat ≤ 0xdfff then
          (0x10000 + (cp - 0xd800) <<< 10 + (lo.toNat - 0xdc00), rest')
        else
          (orReplacement cp, lo :: rest')
  else
    (orReplacement cp, rest)

theorem decodeWide_length_le (c : BitVec w.bits) (rest : WString w) :
    (decodeWide c rest).2.length ≤ rest.length := by
  unfold decodeWide
  dsimp only
  split
  · split
    · exact Nat.le_refl _
    · split
      · exact Nat.le_succ _
      · exact Nat.le_refl _
  · exact Nat.le_refl _

/-! ## Conversions -/

/-- The loop of `to_wstring` from a position on. -/
def toWstringLoop (ret : WString w) : Octets → WString w
  | [] => ret
  | c :: rest => toWstringLoop (appendWide ret (decodeUtf8 c rest).1) (decodeUtf8 c rest).2
termination_by str => str.length
decreasing_by
  have := decodeUtf8_length_le c rest
  simp only [List.length_cons]
  omega

/-- `to_wstring`. -/
def toWstring (w : WcharWidth) (str : Octets) : WString w := toWstringLoop [] str

/-- The loop of `to_string` from a position on. -/
def toStringLoop (ret : Octets) : WString w → Octets
  | [] => ret
  | c :: rest => toStringLoop (appendUtf8 ret (decodeWide c rest).1) (decodeWide c rest).2
termination_by str => str.length
decreasing_by
  have := decodeWide_length_le c rest
  simp only [List.length_cons]
  omega

/-- `to_string`. -/
def toString (str : WString w) : Octets := toStringLoop [] str

/-- There and back. -/
def sanitise (w : WcharWidth) (str : Octets) : Octets := toString (toWstring w str)

/-- The octets are the UTF-8 encoding of Unicode scalar values. -/
def WellFormed (str : Octets) : Prop := ∃ cs : List Char, str = cs.flatMap String.utf8EncodeChar

end Securepath.Util
