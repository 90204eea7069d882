import Securepath.Serialisation.Decoder
import Securepath.Serialisation.Schema

/-!
# The DER encoder

`asn_der_encoder` (`serialisation/codec/asn_der/asn_der_encoder.hpp`), over the
state of the `serialiser` that drives it. The length of a constructed element is
known only behind its content, so the content of every open element is kept in
a layer of its own.

`headerOctets` is what a header looks like; `parseHeader_headerOctets` says that
the decoder reads it back.
-/

namespace Securepath.Serialisation

open Positional StateExcept

/-! ## State -/

/-- `asn_der_encoder` and the `serialiser` on top of it. -/
structure Serialiser where
  /-- what the stream has received -/
  out : Octets
  /-- `seq_struct`: header and data of the open elements, the innermost first -/
  layers : List (AsnHeader × Octets)
  currentTag : Option TagInfo

abbrev Ser := EStateM Error Serialiser

/-- `b` behind the data of the innermost open element. -/
def Serialiser.append (s : Serialiser) (b : Octets) : Serialiser :=
  match s.layers with
  | [] => { s with out := s.out ++ b }
  | (header, data) :: layers => { s with layers := (header, data ++ b) :: layers }

/-- `write`. -/
def write (b : Octets) : Ser Unit := fun s => .ok () (s.append b)

/-- Throw the error of a computation. -/
def liftEncode {α : Type} : Except Error α → Ser α
  | .ok a => pure a
  | .error e => throw e

/-- `size()`: a 64-bit number. -/
def sizeOf64 (b : Octets) : Nat := b.length % 2 ^ 64

theorem sizeOf64_lt (b : Octets) : sizeOf64 b < 2 ^ 64 := Nat.mod_lt _ (by norm_num)

theorem sizeOf64_eq {b : Octets} (h : b.length < 2 ^ 64) : sizeOf64 b = b.length :=
  Nat.mod_eq_of_lt h

/-! ## Headers -/

/-- The octet that `encode_tag_first_byte` writes. -/
def tagFirstByte (c : AsnClass) (tag : UInt8) (isConstructed : Bool) : UInt8 :=
  (UInt8.ofNat c.bits <<< 6 ||| tag) ||| if isConstructed then 0x20 else 0

/-- `encode_long_tag`. -/
def encodeLongTag (header : AsnHeader) : Ser Unit := do
  write [tagFirstByte header.asnClass 0x1f header.isConstructed]
  let buffer ← liftEncode (encodeToOctets header.tag.toNat 64 10 8 false 7 0x80)
  write (buffer.dropLast ++ [buffer.getLastD 0 &&& ~~~0x80])

/-- `encode_tag`. -/
def encodeTag (header : AsnHeader) : Ser Unit :=
  if header.tag > 30 then
    encodeLongTag header
  else
    write [tagFirstByte header.asnClass (header.tag &&& 0x1f).toUInt8 header.isConstructed]

/-- `encode_long_length`. -/
def encodeLongLength (header : AsnHeader) : Ser Unit := do
  let buffer ← liftEncode (encodeToOctets header.length 64 8 8 false 8 0)
  write [0x80 ||| UInt8.ofNat buffer.length]
  write buffer

/-- `encode_length`. -/
def encodeLength (header : AsnHeader) : Ser Unit :=
  if header.length > 127 then
    encodeLongLength header
  else
    write [UInt8.ofNat header.length &&& ~~~0x80]

/-- `encode_header`. -/
def encodeHeader (header : AsnHeader) : Ser Unit := do
  encodeTag header
  encodeLength header

/-! ## Elements -/

/-- `push`. -/
def pushLayer (header : AsnHeader) : Ser Unit := fun s =>
  .ok () { s with layers := (header, []) :: s.layers }

/-- `pop`. -/
def popLayer : Ser (AsnHeader × Octets) := fun s =>
  match s.layers with
  | [] => .ok ({ asnClass := .universal, tag := 0, length := 0, isConstructed := false }, []) s
  | layer :: layers => .ok layer { s with layers := layers }

/-- The header of an open element; its length is not known yet. -/
def openHeader (ident : Ident) : AsnHeader :=
  { asnClass := ident.1, tag := ident.2, length := 0, isConstructed := true }

/-- `start_sequence` and `start_explicit_tag`: a layer for the content. -/
def openLayer (ident : Ident) : Ser Unit := pushLayer (openHeader ident)

/-- `end_sequence`. -/
def closeLayer : Ser Unit := do
  let (header, data) ← popLayer
  encodeHeader { header with length := sizeOf64 data }
  if data ≠ [] then
    write data

/-- The content octets of a primitive value, with the check of `encode_string`. -/
def Prim.content : (p : Prim) → p.Val → Except Error Octets
  | .bool, v => encodeInteger (if v then 1 else 0) 32 5 1
  | .int t, v => encodeInteger v.val 64 9 t.bytes
  | .integer, v => .ok v
  | .string, v => text v
  | .octets, v => text v
  | .real _, v => encodeReal (v.cast .double)
  | .time, v => text (encodeTime v)
where
  text (s : Octets) : Except Error Octets :=
    if maxStructureSize < s.length then .error Error.stringTooLarge else .ok s

/-- `encode(v, tag)` for a primitive type: `encode_integer`, `encode_string`
and `encode_real`. -/
def Prim.encode (p : Prim) (v : p.Val) (tag : Option TagInfo) : Ser Unit := do
  let content ← liftEncode (p.content v)
  encodeHeader { asnClass := getAsnClass tag, tag := getTag tag p.defaultTag,
                 length := sizeOf64 content, isConstructed := false }
  write content

/-! ## What a header looks like -/

/-- The octets of a tag number from 31 on: base 128, with the high bit on all
but the last. -/
def longTagOctets (tag : UInt64) : Octets :=
  let ds := digits 128 (highestBitBlock tag.toNat false 8 7 + 1) tag.toNat
  (ds.dropLast.map fun d => UInt8.ofNat (d ||| 0x80)) ++ [UInt8.ofNat (ds.getLastD 0)]

def tagOctets (h : AsnHeader) : Octets :=
  if h.tag > 30 then
    tagFirstByte h.asnClass 0x1f h.isConstructed :: longTagOctets h.tag
  else
    [tagFirstByte h.asnClass (h.tag &&& 0x1f).toUInt8 h.isConstructed]

/-- The octets of a length: one octet, or a count and the length in base 256. -/
def lengthOctets (length : Nat) : Octets :=
  if length > 127 then
    let n := highestBitBlock length false 8 8 + 1
    (0x80 ||| UInt8.ofNat n) :: ofDigits (digits 256 n length)
  else
    [UInt8.ofNat length &&& ~~~0x80]

def headerOctets (h : AsnHeader) : Octets := tagOctets h ++ lengthOctets h.length

@[simp] theorem Serialiser.append_currentTag (s : Serialiser) (b : Octets) :
    (s.append b).currentTag = s.currentTag := by
  cases h : s.layers <;> simp [append, h]

theorem Serialiser.append_append (s : Serialiser) (a b : Octets) :
    (s.append a).append b = s.append (a ++ b) := by
  cases h : s.layers <;> simp [append, h]

@[simp] theorem Serialiser.append_nil (s : Serialiser) : s.append [] = s := by
  obtain ⟨out, layers, tag⟩ := s
  cases layers <;> simp [append]

@[simp] theorem Serialiser.append_withTag (s : Serialiser) (b : Octets) (t : Option TagInfo) :
    { s with currentTag := t }.append b = { s.append b with currentTag := t } := by
  cases h : s.layers <;> simp [append, h]

theorem write_write (a b : Octets) : (do write a; write b) = write (a ++ b) := by
  funext s
  exact congrArg (EStateM.Result.ok ()) (s.append_append a b)

theorem highestBitBlock_le (v block : Nat) {sizeHint : Nat} (hsize : 0 < sizeHint) :
    highestBitBlock v false sizeHint block ≤ (sizeHint * 8 - 1) / block := by
  rw [highestBitBlock_unsigned]
  exact Nat.div_le_div_right (by have := scan_le v (sizeHint * 8); omega)

theorem clear_0x80 {d : Nat} (h : d < 128) :
    UInt8.ofNat (d ||| 0x80) &&& ~~~0x80 = UInt8.ofNat d := by
  have hall : ∀ d : Fin 128, UInt8.ofNat (d.val ||| 0x80) &&& ~~~0x80 = UInt8.ofNat d.val := by
    decide +kernel
  exact hall ⟨d, h⟩

/-- Clearing the high bit of the last octet only. -/
theorem clear_last {ds : List Nat} (hne : ds ≠ []) (h : ∀ d ∈ ds, d < 128) :
    (ds.map fun d => UInt8.ofNat (d ||| 0x80)).dropLast ++
        [(ds.map fun d => UInt8.ofNat (d ||| 0x80)).getLastD 0 &&& ~~~0x80] =
      (ds.dropLast.map fun d => UInt8.ofNat (d ||| 0x80)) ++ [UInt8.ofNat (ds.getLastD 0)] := by
  obtain ⟨init, last, rfl⟩ := List.eq_nil_or_concat ds |>.resolve_left hne
  have hlast := clear_0x80 (h last (by simp))
  simp only [List.concat_eq_append, List.map_append, List.map_cons, List.map_nil,
    List.dropLast_concat, List.getLastD_concat, hlast]

theorem encodeTag_eq (h : AsnHeader) : encodeTag h = write (tagOctets h) := by
  rw [encodeTag, tagOctets]
  split
  · have hle := highestBitBlock_le h.tag.toNat 7 (by omega : 0 < 8)
    have henc : encodeToOctets h.tag.toNat 64 10 8 false 7 0x80 = _ :=
      encodeToOctets_eq h.tag.toNat_lt (by omega)
    have hdigits := digits_lt (by omega : 0 < 2 ^ 7)
      (highestBitBlock h.tag.toNat false 8 7 + 1) h.tag.toNat
    rw [encodeLongTag, henc]
    simp only [liftEncode, pure_bind, write_write, clear_last (by simp [digits]) hdigits]
    rfl
  · rfl

theorem encodeLength_eq {h : AsnHeader} (hlen : h.length < 2 ^ 64) :
    encodeLength h = write (lengthOctets h.length) := by
  rw [encodeLength, lengthOctets]
  split
  · have hle := highestBitBlock_le h.length 8 (by omega : 0 < 8)
    have henc : encodeToOctets h.length 64 8 8 false 8 0 = _ :=
      encodeToOctets_eq hlen (by omega)
    rw [encodeLongLength, henc]
    simp only [liftEncode, pure_bind, write_write, List.length_map, digits_length,
      Nat.or_zero, List.singleton_append]
    rfl
  · rfl

/-- A header is written at once. -/
theorem encodeHeader_eq {h : AsnHeader} (hlen : h.length < 2 ^ 64) :
    encodeHeader h = write (headerOctets h) := by
  rw [encodeHeader, encodeTag_eq, encodeLength_eq hlen, write_write, headerOctets]

/-! ## The decoder reads a header back -/

theorem readOctet_bind_cons {α : Type} (f : UInt8 → HeaderParser α) (o : UInt8) (l : Octets) :
    (readOctet >>= f : HeaderParser α) (o :: l) = f o l :=
  PrefixParser.bind_of_ok rfl

/-- One round of the loop over a long tag. -/
theorem shift_7 (acc : Nat) {d : Nat} (h : d < 128) (o : UInt8) (ho : o.toNat = d) :
    (UInt64.ofNat acc <<< 7) ||| o.toUInt64 = UInt64.ofNat (acc * 128 + d) := by
  apply UInt64.toNat_inj.mp
  have hlow : acc % 2 ^ 64 * 128 % 2 ^ 64 = (acc % 2 ^ 57) <<< 7 := by
    rw [Nat.shiftLeft_eq]
    omega
  rw [UInt64.toNat_or, UInt64.toNat_shiftLeft, UInt8.toNat_toUInt64, ho, UInt64.toNat_ofNat',
    UInt64.toNat_ofNat', show (7 : UInt64).toNat % 64 = 7 from rfl, Nat.shiftLeft_eq,
    show 2 ^ 7 = 128 from rfl, hlow, ← Nat.shiftLeft_add_eq_or_of_lt h, Nat.shiftLeft_eq]
  omega

theorem longTag_octet {d : Nat} (h : d < 128) :
    (UInt8.ofNat d &&& 0x80 = 0 ∧ (UInt8.ofNat d).toNat = d) ∧
      (UInt8.ofNat (d ||| 0x80) &&& 0x80 ≠ 0 ∧ (UInt8.ofNat (d ||| 0x80) &&& 0x7f).toNat = d) := by
  have hall : ∀ d : Fin 128, (UInt8.ofNat d.val &&& 0x80 = 0 ∧ (UInt8.ofNat d.val).toNat = d.val) ∧
      (UInt8.ofNat (d.val ||| 0x80) &&& 0x80 ≠ 0 ∧
        (UInt8.ofNat (d.val ||| 0x80) &&& 0x7f).toNat = d.val) := by
    decide +kernel
  exact hall ⟨d, h⟩

theorem decodeLongTagFrom_digits {ds : List Nat} (hne : ds ≠ []) (h : ∀ d ∈ ds, d < 128)
    {left : Nat} (hleft : ds.length ≤ left + 1) (acc : Nat) (rest : Octets) :
    (do let b ← readOctet; decodeLongTagFrom left (UInt64.ofNat acc) b : HeaderParser UInt64)
        ((ds.dropLast.map fun d => UInt8.ofNat (d ||| 0x80)) ++
          [UInt8.ofNat (ds.getLastD 0)] ++ rest) =
      .ok (UInt64.ofNat (valueFrom 128 acc ds), rest) := by
  induction ds generalizing left acc with
  | nil => exact absurd rfl hne
  | cons d ds ih =>
      obtain ⟨⟨hlast, hlastNat⟩, hmore, hmoreNat⟩ := longTag_octet (h d (List.mem_cons_self ..))
      have hd := h d (List.mem_cons_self ..)
      cases ds with
      | nil =>
          refine (readOctet_bind_cons _ (UInt8.ofNat d) rest).trans ?_
          unfold decodeLongTagFrom
          rw [if_pos hlast, shift_7 acc hd _ hlastNat]
          rfl
      | cons d' ds =>
          have hds : ∀ x ∈ d' :: ds, x < 128 := fun x hx => h x (List.mem_cons_of_mem _ hx)
          obtain ⟨left, rfl⟩ : ∃ n, left = n + 1 := ⟨left - 1, by simp at hleft; omega⟩
          refine (readOctet_bind_cons _ (UInt8.ofNat (d ||| 0x80))
            (((d' :: ds).dropLast.map fun d => UInt8.ofNat (d ||| 0x80)) ++
              [UInt8.ofNat ((d' :: ds).getLastD 0)] ++ rest)).trans ?_
          rw [decodeLongTagFrom, if_neg hmore, shift_7 acc hd _ hmoreNat]
          exact ih (by simp) hds (by simpa using hleft) (acc * 128 + d)

theorem parse_longTag (tag : UInt64) (rest : Octets) :
    (decodeLongTag : HeaderParser UInt64) (longTagOctets tag ++ rest) = .ok (tag, rest) := by
  have hle := highestBitBlock_le tag.toNat 7 (by omega : 0 < 8)
  have hlt : tag.toNat < (2 ^ 7) ^ (highestBitBlock tag.toNat false 8 7 + 1) :=
    lt_of_highestBitBlock_unsigned (by omega) tag.toNat_lt
  have hrun := @decodeLongTagFrom_digits
    (digits 128 (highestBitBlock tag.toNat false 8 7 + 1) tag.toNat) (by simp [digits])
    (digits_lt (by omega) _ _) 9 (by simp; omega) 0 rest
  have hvalue : valueFrom 128 0 (digits 128 (highestBitBlock tag.toNat false 8 7 + 1) tag.toNat) =
      tag.toNat := value_digits hlt
  rw [hvalue, UInt64.ofNat_toNat] at hrun
  exact hrun

theorem tagFirstByte_spec (c : AsnClass) (tag : UInt8) (h : tag.toNat < 32) (k : Bool) :
    AsnClass.ofBits (tagFirstByte c tag k >>> 6).toNat = c ∧
      tagFirstByte c tag k &&& 0x1f = tag ∧ decide (tagFirstByte c tag k &&& 0x20 ≠ 0) = k := by
  have hall : ∀ (tag : Fin 32) (k : Bool) (c : Fin 4),
      let b := (UInt8.ofNat c.val <<< 6 ||| UInt8.ofNat tag.val) ||| if k then 0x20 else 0
      (b >>> 6).toNat = c.val ∧ b &&& 0x1f = UInt8.ofNat tag.val ∧
        decide (b &&& 0x20 ≠ 0) = k := by
    decide +kernel
  have htag : UInt8.ofNat tag.toNat = tag := UInt8.ofNat_toNat
  obtain ⟨h₁, h₂, h₃⟩ := hall ⟨tag.toNat, h⟩ k ⟨c.bits, c.bits_lt⟩
  simp only [htag] at h₁ h₂ h₃
  exact ⟨by rw [tagFirstByte, h₁, AsnClass.ofBits_bits], h₂, h₃⟩

theorem parse_tag (h : AsnHeader) (rest : Octets) :
    (decodeTag : HeaderParser AsnHeader) (tagOctets h ++ rest) =
      .ok ({ h with length := 0 }, rest) := by
  rw [tagOctets]
  split
  · obtain ⟨hclass, hnumber, hconstructed⟩ :=
      tagFirstByte_spec h.asnClass 0x1f (by decide) h.isConstructed
    refine (readOctet_bind_cons _ _ (longTagOctets h.tag ++ rest)).trans ?_
    rw [decodeTagNumber, if_pos hnumber, PrefixParser.bind_of_ok (parse_longTag h.tag rest),
      hclass, hconstructed]
    rfl
  · rename_i hshort
    have hle : h.tag.toNat ≤ 30 := by
      have := mt UInt64.lt_iff_toNat_lt.mpr hshort
      rw [show (30 : UInt64).toNat = 30 from rfl] at this
      omega
    have hlow : (h.tag &&& 0x1f).toUInt8.toNat = h.tag.toNat := by
      simp only [UInt64.toNat_toUInt8, UInt64.toNat_and]
      rw [show (0x1f : UInt64).toNat = 2 ^ 5 - 1 from rfl, Nat.and_two_pow_sub_one_eq_mod]
      omega
    obtain ⟨hclass, hnumber, hconstructed⟩ :=
      tagFirstByte_spec h.asnClass (h.tag &&& 0x1f).toUInt8 (by omega) h.isConstructed
    have hne : (h.tag &&& 0x1f).toUInt8 ≠ 0x1f := by
      intro heq
      rw [heq] at hlow
      have : (0x1f : UInt8).toNat = 31 := rfl
      omega
    have hback : ((h.tag &&& 0x1f).toUInt8).toUInt64 = h.tag := by
      apply UInt64.toNat_inj.mp
      rw [UInt8.toNat_toUInt64, hlow]
    refine (readOctet_bind_cons _ _ rest).trans ?_
    rw [decodeTagNumber, hnumber, if_neg hne, hback, hclass, hconstructed]
    rfl

theorem lengthCount_octet {n : Nat} (hpos : 0 < n) (hle : n ≤ 8) :
    (0x80 ||| UInt8.ofNat n) &&& 0x80 ≠ 0 ∧ ((0x80 ||| UInt8.ofNat n) &&& 0x7f).toNat = n := by
  interval_cases n <;> decide

theorem parse_length {length : Nat} (hlen : length < 2 ^ 64) (rest : Octets) :
    (decodeLength : HeaderParser Nat) (lengthOctets length ++ rest) = .ok (length, rest) := by
  rw [lengthOctets]
  split
  · have hle := highestBitBlock_le length 8 (by omega : 0 < 8)
    have hlt : length < (2 ^ 8) ^ (highestBitBlock length false 8 8 + 1) :=
      lt_of_highestBitBlock_unsigned (by omega) hlen
    generalize hn : highestBitBlock length false 8 8 + 1 = n at *
    obtain ⟨hlong, hcount⟩ := lengthCount_octet (n := n) (by omega) (by omega)
    have hread : (OctetReader.read n : HeaderParser Octets)
        (ofDigits (digits 256 n length) ++ rest) = .ok (ofDigits (digits 256 n length), rest) :=
      PrefixParser.take_eq_ok.mpr ⟨rfl, by simp⟩
    refine (readOctet_bind_cons _ _ (ofDigits (digits 256 n length) ++ rest)).trans ?_
    rw [if_pos hlong, decodeLongLength, hcount, if_neg (by omega),
      PrefixParser.bind_of_ok hread, decodeFromOctets_digits hlt hlen]
    rfl
  · rename_i hshort
    have hall : ∀ n : Fin 128, (UInt8.ofNat n.val &&& ~~~0x80) &&& 0x80 = 0 ∧
        ((UInt8.ofNat n.val &&& ~~~0x80) &&& 0x7f).toNat = n.val := by decide +kernel
    obtain ⟨hclear, hback⟩ := hall ⟨length, by omega⟩
    simp only at hclear hback
    refine (readOctet_bind_cons _ _ rest).trans ?_
    rw [if_neg (not_not.mpr hclear), hback]
    rfl

/-- The decoder reads back the header that the encoder writes, unless it is
beyond the decoder's limits. -/
theorem parseHeader_headerOctets {h : AsnHeader} (hlen : h.length < 2 ^ 64) (rest : Octets) :
    parseHeader (headerOctets h ++ rest) =
      if h.length ≤ h.maxSize then .ok (h, rest) else .error Error.structureTooBig := by
  rw [headerOctets, List.append_assoc, parseHeader, decodeHeader,
    PrefixParser.bind_of_ok (parse_tag h _), PrefixParser.bind_of_ok (parse_length hlen rest)]
  by_cases hmax : h.length ≤ h.maxSize
  · rw [if_pos hmax, if_neg (by simpa [AsnHeader.maxSize] using hmax)]
    rfl
  · rw [if_neg hmax, if_pos (by simpa [AsnHeader.maxSize] using hmax)]
    rfl

end Securepath.Serialisation
