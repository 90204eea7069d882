import Securepath.Library.PrefixParser
import Securepath.Library.StateExcept
import Securepath.Serialisation.BufferedStream
import Securepath.Serialisation.Integers

/-!
# The DER decoder

`asn_der_decoder` (`serialisation/codec/asn_der/asn_der_decoder.hpp`), over the
state of the `deserialiser` that drives it.

The functions that read a header are templates over the stream. Run on the
decoder's own stream they are the code (`Dec`); run on a plain list of octets
they are a parser, `parseHeader`. `Mirrors` says that the two agree wherever the
decoder stands, so that everything about headers can be said of lists.
-/

namespace Securepath.Serialisation

open StateExcept BufferedStream

/-! ## State -/

/-- `asn_der_decoder` and the `deserialiser` on top of it. -/
structure Deserialiser where
  s : BufferedStream
  /-- ends of the entered constructed elements, the innermost first -/
  seqPos : List Nat
  currentTag : Option TagInfo
  /-- the exception that `end_sequence` keeps for `operator&` -/
  ex : Option Error

abbrev Dec := EStateM Error Deserialiser

namespace Deserialiser

/-- `position()`. -/
def pos (d : Deserialiser) : Nat := d.s.pos

/-- `is_end_of_sequence()`. -/
def isEndOfSequence (d : Deserialiser) : Bool :=
  match d.seqPos with
  | [] => false
  | e :: _ => e ≤ d.pos

/-- A deserialiser at the start of the octets `d`. -/
def ofOctets (d : Octets) : Deserialiser where
  s := BufferedStream.ofStream (OctetSpanIstream.ofOctets d)
  seqPos := []
  currentTag := none
  ex := none

end Deserialiser

/-! ## Headers -/

/-- `read(buf, n)` of a stream. -/
class OctetReader (m : Type → Type) where
  read : Nat → m Octets

instance : OctetReader Dec where
  read n := fun d =>
    match BufferedStream.read n d.s with
    | .ok b s => .ok b { d with s := s }
    | .error e s => .error e { d with s := s }

abbrev HeaderParser := PrefixParser.Parser UInt8 Error

instance : OctetReader HeaderParser where
  read := PrefixParser.take Error.endOfStream

section Header

variable {m : Type → Type} [Monad m] [MonadExceptOf Error m] [OctetReader m]

/-- `read()`. -/
def readOctet : m UInt8 := do
  let b ← OctetReader.read 1
  return b.headD 0

/-- The loop of `decode_long_tag` at the octet `b`, when `left` more octets may
be read. -/
def decodeLongTagFrom (left : Nat) (ret : UInt64) (b : UInt8) : m UInt64 :=
  if b &&& 0x80 = 0 then
    pure ((ret <<< 7) ||| b.toUInt64)
  else
    match left with
    | 0 => throw Error.tagTooLong
    | left + 1 => do
        let b' ← readOctet
        decodeLongTagFrom left ((ret <<< 7) ||| (b &&& 0x7f).toUInt64) b'

/-- `decode_long_tag`: at most `sizeof(uint64_t)*8/7+1` octets. -/
def decodeLongTag : m UInt64 := do
  let b ← readOctet
  decodeLongTagFrom 9 0 b

/-- `decode_tag(b)`. -/
def decodeTagNumber (b : UInt8) : m UInt64 :=
  if b &&& 0x1f = 0x1f then decodeLongTag else pure (b &&& 0x1f).toUInt64

/-- `decode_long_length`. -/
def decodeLongLength (b : UInt8) : m Nat :=
  if (b &&& 0x7f).toNat > 8 ∨ (b &&& 0x7f).toNat = 0 then
    throw Error.illegalLength
  else do
    let buf ← OctetReader.read (b &&& 0x7f).toNat
    return decodeFromOctets 64 buf

/-- `decode_length`. -/
def decodeLength : m Nat := do
  let b ← readOctet
  if b &&& 0x80 ≠ 0 then decodeLongLength b else pure (b &&& 0x7f).toNat

/-- `decode_tag()`: a header without its length. -/
def decodeTag : m AsnHeader := do
  let b ← readOctet
  let tag ← decodeTagNumber b
  return { isConstructed := b &&& 0x20 ≠ 0,
           asnClass := AsnClass.ofBits (b >>> 6).toNat,
           tag := tag,
           length := 0 }

/-- The largest length a header may declare. -/
def AsnHeader.maxSize (h : AsnHeader) : Nat :=
  if h.isConstructed then maxConstructedSize else maxStructureSize

/-- `decode_header()`. -/
def decodeHeader : m AsnHeader := do
  let header ← decodeTag
  let length ← decodeLength
  if length > header.maxSize then
    throw Error.structureTooBig
  else
    return { header with length := length }

end Header

/-- `decode_header()` of a list of octets. -/
def parseHeader : HeaderParser AsnHeader := decodeHeader

/-! ## Reading elements -/

/-- `readable_bytes(n)`. -/
def readableBytes (n : Nat) : Dec Bool := fun d =>
  let (b, s) := d.s.readableBytes n
  .ok b { d with s := s }

/-- The first test of `decode_header(asn_class, tag)`. -/
def noElementHere : Dec Bool := do
  let d ← get
  if d.isEndOfSequence then
    return true
  else if d.seqPos.isEmpty then
    let readable ← readableBytes 1
    return !readable
  else
    return false

/-- `decode_header(asn_class, tag)`. -/
def decodeHeaderOf (ident : Ident) : Dec AsnHeader := do
  let absent ← noElementHere
  if absent then
    throw Error.endOfSequence
  else
    let header ← decodeHeader
    if header.ident ≠ ident then
      throw Error.identMismatch
    else
      return header

/-- `push(length)`. -/
def push (length : Nat) : Dec Unit := fun d =>
  if maxStructureDepth ≤ d.seqPos.length then
    .error Error.nestingTooDeep d
  else
    .ok () { d with seqPos := (d.pos + length) :: d.seqPos }

/-- Read and drop `n` octets, one at a time. -/
def skipOctets : Nat → Dec Unit
  | 0 => pure ()
  | n + 1 => do
      let _ ← (readOctet : Dec UInt8)
      skipOctets n

/-- `pop()`: each `read()` of the loop moves one octet on. -/
def pop : Dec Unit := do
  let d ← get
  match d.seqPos with
  | [] => pure ()
  | e :: rest =>
      set { d with seqPos := rest }
      skipOctets (e - d.pos)

/-- A `peek_guard` around `m`; its destructor commits on a return. -/
def peekGuard {α : Type} (m : Dec α) : Dec α := fun d =>
  let (token, s) := d.s.startPeek
  scopeExit m
    (fun d => { d with s := d.s.endPeek token true })
    (fun d => { d with s := d.s.endPeek token false })
    { d with s := s }

/-- A `stream_peek_guard` around `m`; its destructor never commits. -/
def streamPeekGuard {α : Type} (m : Dec α) : Dec α := fun d =>
  let (token, s) := d.s.startPeek
  withDestructor m (fun d => { d with s := d.s.endPeek token false }) { d with s := s }

/-- `next_header`. -/
def nextHeader : Dec AsnHeader := streamPeekGuard decodeHeader

/-- `next_tag`. -/
def nextTag : Dec TagInfo := do
  let header ← nextHeader
  return { tagType := some header.asnClass, tag := header.tag }

/-- `next_length`: 0 when there is no whole header. -/
def nextLength : Dec Nat :=
  catching (fun _ => true)
    (do
      let d ← get
      streamPeekGuard (do
        let h ← decodeHeader
        let d' ← get
        return d'.pos - d.pos + h.length))
    (pure 0)

/-- `has_next`: the length of the next element when all of it is there. -/
def hasNext : Dec Nat :=
  catching (fun _ => true)
    (do
      let length ← nextLength
      if length ≠ 0 then
        let readable ← readableBytes length
        return if readable then length else 0
      else
        return 0)
    (pure 0)

/-! ## Headers of lists -/

theorem frontRead_readOctet :
    PrefixParser.FrontRead Error.endOfStream (readOctet : HeaderParser UInt8) :=
  (PrefixParser.FrontRead.take 1).bind fun _ => .pure _

theorem frontRead_decodeLongTagFrom (left : Nat) (ret : UInt64) (b : UInt8) :
    PrefixParser.FrontRead Error.endOfStream (decodeLongTagFrom left ret b : HeaderParser UInt64) := by
  induction left generalizing ret b with
  | zero =>
      unfold decodeLongTagFrom
      split
      · exact .pure _
      · exact .throw _
  | succ left ih =>
      unfold decodeLongTagFrom
      split
      · exact .pure _
      · exact frontRead_readOctet.bind fun b' => ih _ b'

theorem frontRead_decodeTag :
    PrefixParser.FrontRead Error.endOfStream (decodeTag : HeaderParser AsnHeader) := by
  refine frontRead_readOctet.bind fun b => .bind ?_ fun _ => .pure _
  unfold decodeTagNumber
  split
  · exact frontRead_readOctet.bind fun b => frontRead_decodeLongTagFrom 9 0 b
  · exact .pure _

theorem frontRead_decodeLength :
    PrefixParser.FrontRead Error.endOfStream (decodeLength : HeaderParser Nat) := by
  refine frontRead_readOctet.bind fun b => ?_
  split
  · unfold decodeLongLength
    split
    · exact .throw _
    · exact (PrefixParser.FrontRead.take _).bind fun _ => .pure _
  · exact .pure _

theorem frontRead_parseHeader : PrefixParser.FrontRead Error.endOfStream parseHeader := by
  refine frontRead_decodeTag.bind fun h => frontRead_decodeLength.bind fun l => ?_
  split
  · exact .throw _
  · exact .pure _

/-! ## The decoder mirrors the parser -/

/-- Wherever it stands, `m` does what `p` does to the octets ahead. -/
def Mirrors {α : Type} (m : Dec α) (p : HeaderParser α) : Prop :=
  ∀ saved data d, Represents saved data d.s →
    (∀ a r, p (data.drop d.pos) = .ok (a, r) →
      ∃ s, m d = .ok a { d with s := s } ∧ Represents saved data s ∧ data.drop s.pos = r) ∧
    (∀ e, p (data.drop d.pos) = .error e → ∃ s, m d = .error e { d with s := s })

namespace Mirrors

variable {α β : Type}

theorem pure (a : α) : Mirrors (pure a) (pure a) := by
  intro saved data d h
  refine ⟨fun a' r hp => ?_, fun e hp => by simp at hp⟩
  simp only [PrefixParser.pure_apply, Except.ok.injEq, Prod.mk.injEq] at hp
  obtain ⟨rfl, rfl⟩ := hp
  exact ⟨d.s, rfl, h, rfl⟩

theorem throw (e : Error) : Mirrors (throw e : Dec α) (throw e) := by
  intro saved data d h
  refine ⟨fun a r hp => by simp at hp, fun e' hp => ?_⟩
  simp only [PrefixParser.throw_apply, Except.error.injEq] at hp
  exact ⟨d.s, by rw [hp]; rfl⟩

theorem bind {m : Dec α} {p : HeaderParser α} {f : α → Dec β} {g : α → HeaderParser β}
    (hm : Mirrors m p) (hf : ∀ a, Mirrors (f a) (g a)) : Mirrors (m >>= f) (p >>= g) := by
  intro saved data d h
  obtain ⟨hok, herr⟩ := hm saved data d h
  refine ⟨fun b r hp => ?_, fun e hp => ?_⟩
  · obtain ⟨a, r', h₁, h₂⟩ := PrefixParser.bind_eq_ok.mp hp
    obtain ⟨s, hrun, hrep, rfl⟩ := hok a r' h₁
    obtain ⟨s', hrun', hrep', hr⟩ := (hf a saved data { d with s := s } hrep).1 b r h₂
    exact ⟨s', by rw [bind_of_ok hrun, hrun'], hrep', hr⟩
  · rcases PrefixParser.bind_eq_error.mp hp with h₁ | ⟨a, r', h₁, h₂⟩
    · obtain ⟨s, hrun⟩ := herr e h₁
      exact ⟨s, bind_of_error hrun⟩
    · obtain ⟨s, hrun, hrep, rfl⟩ := hok a r' h₁
      obtain ⟨s', hrun'⟩ := (hf a saved data { d with s := s } hrep).2 e h₂
      exact ⟨s', by rw [bind_of_ok hrun, hrun']⟩

theorem read (n : Nat) :
    Mirrors (OctetReader.read n) (OctetReader.read n : HeaderParser Octets) := by
  intro saved data d h
  have hle := h.pos_le
  refine ⟨fun a r hp => ?_, fun e hp => ?_⟩
  · obtain ⟨hsplit, hlen⟩ := PrefixParser.take_eq_ok.mp hp
    have hfit : d.s.pos + n ≤ data.length := by
      have := congrArg List.length hsplit
      simp only [List.length_drop, List.length_append, Deserialiser.pos] at this
      omega
    obtain ⟨s, hrun, hrep, hpos⟩ := read_of_le h hfit
    have htake : (data.drop d.s.pos).take n = a := by
      rw [← hlen]
      exact (congrArg (List.take a.length) hsplit).trans (List.take_left ..)
    have hdrop : (data.drop d.s.pos).drop n = r := by
      rw [← hlen]
      exact (congrArg (List.drop a.length) hsplit).trans (List.drop_left ..)
    refine ⟨s, ?_, hrep, ?_⟩
    · simp only [OctetReader.read, hrun, htake]
    · rw [hpos, ← List.drop_drop, hdrop]
  · simp only [OctetReader.read, PrefixParser.take] at hp
    split at hp
    · cases hp
    · rename_i hshort
      simp only [List.length_drop, Deserialiser.pos] at hshort
      obtain ⟨s, hrun⟩ := read_of_lt h (n := n) (by omega)
      exact ⟨s, by simp only [OctetReader.read, hrun]; cases hp; rfl⟩

theorem readOctet : Mirrors readOctet (readOctet : HeaderParser UInt8) :=
  (read 1).bind fun _ => .pure _

theorem decodeLongTagFrom (left : Nat) (ret : UInt64) (b : UInt8) :
    Mirrors (decodeLongTagFrom left ret b) (decodeLongTagFrom left ret b) := by
  induction left generalizing ret b with
  | zero =>
      unfold Serialisation.decodeLongTagFrom
      split
      · exact .pure _
      · exact .throw _
  | succ left ih =>
      unfold Serialisation.decodeLongTagFrom
      split
      · exact .pure _
      · exact readOctet.bind fun b' => ih _ b'

theorem decodeTag : Mirrors decodeTag decodeTag := by
  refine readOctet.bind fun b => .bind ?_ fun _ => .pure _
  unfold decodeTagNumber
  split
  · exact readOctet.bind fun b => decodeLongTagFrom 9 0 b
  · exact .pure _

theorem decodeLength : Mirrors decodeLength decodeLength := by
  refine readOctet.bind fun b => ?_
  split
  · unfold decodeLongLength
    split
    · exact .throw _
    · exact (read _).bind fun _ => .pure _
  · exact .pure _

/-- `decode_header()` is `parseHeader` at the read position. -/
theorem decodeHeader : Mirrors decodeHeader parseHeader := by
  refine decodeTag.bind fun h => decodeLength.bind fun l => ?_
  split
  · exact .throw _
  · exact .pure _

end Mirrors

/-! ## What each operation does -/

section Spec

variable {saved : List Peek} {data : Octets} {d : Deserialiser}

/-- No element can start where `d` stands: the entered element ends here, or
outside all of them the octets do. -/
def Deserialiser.Absent (data : Octets) (d : Deserialiser) : Prop :=
  d.isEndOfSequence = true ∨ (d.seqPos = [] ∧ d.pos = data.length)

theorem noElementHere_spec (h : Represents saved data d.s) :
    ∃ b s, noElementHere d = .ok b { d with s := s } ∧ Represents saved data s ∧
      s.pos = d.pos ∧ (b = true ↔ d.Absent data) := by
  have hget : (get : Dec Deserialiser) d = .ok d d := rfl
  have hle := h.pos_le
  rw [noElementHere, bind_of_ok hget]
  by_cases hend : d.isEndOfSequence = true
  · rw [if_pos hend]
    exact ⟨true, d.s, rfl, h, rfl, iff_of_true rfl (Or.inl hend)⟩
  · rw [if_neg hend]
    by_cases hempty : d.seqPos = []
    · rw [if_pos (by rw [hempty]; rfl)]
      by_cases hat : d.s.pos + 1 ≤ data.length
      · obtain ⟨s, hrun, hrep, hpos⟩ := readableBytes_of_le h hat
        have hread : Serialisation.readableBytes 1 d = .ok true { d with s := s } := by
          simp only [Serialisation.readableBytes, hrun]
        refine ⟨false, s, by rw [bind_of_ok hread]; rfl, hrep, hpos,
          iff_of_false (by simp) ?_⟩
        rintro (h | ⟨-, h⟩)
        · exact hend h
        · simp only [Deserialiser.pos] at h
          omega
      · obtain ⟨s, hrun, hend'⟩ := readableBytes_of_lt h (n := 1) (by omega)
        obtain ⟨hrep, hpos⟩ := hend' (by omega)
        have hread : Serialisation.readableBytes 1 d = .ok false { d with s := s } := by
          simp only [Serialisation.readableBytes, hrun]
        refine ⟨true, s, by rw [bind_of_ok hread]; rfl, hrep, hpos,
          iff_of_true rfl (Or.inr ⟨hempty, ?_⟩)⟩
        simp only [Deserialiser.pos]
        omega
    · rw [if_neg (by simpa using hempty)]
      exact ⟨false, d.s, rfl, h, rfl,
        iff_of_false (by simp) fun ha => ha.elim hend fun ha => hempty ha.1⟩

/-- Everything that reading the header of an expected element can do. -/
theorem decodeHeaderOf_spec (h : Represents saved data d.s) (ident : Ident) :
    (d.Absent data ∧ ∃ s, decodeHeaderOf ident d = .error Error.endOfSequence { d with s := s } ∧
      Represents saved data s ∧ s.pos = d.pos) ∨
    (¬ d.Absent data ∧ ∃ e s, parseHeader (data.drop d.pos) = .error e ∧
      decodeHeaderOf ident d = .error e { d with s := s }) ∨
    (¬ d.Absent data ∧ ∃ hd r s, parseHeader (data.drop d.pos) = .ok (hd, r) ∧
      Represents saved data s ∧ data.drop s.pos = r ∧
      decodeHeaderOf ident d = if hd.ident = ident then .ok hd { d with s := s }
        else .error Error.identMismatch { d with s := s }) := by
  obtain ⟨b, s, hrun, hrep, hpos, hb⟩ := noElementHere_spec h
  rw [decodeHeaderOf, bind_of_ok hrun]
  cases b with
  | true => exact Or.inl ⟨hb.mp rfl, s, rfl, hrep, hpos⟩
  | false =>
      have hpresent : ¬ d.Absent data := fun ha => by simpa using hb.mpr ha
      have hpos' : ({ d with s := s } : Deserialiser).pos = d.pos := hpos
      obtain ⟨hok, herr⟩ := Mirrors.decodeHeader saved data { d with s := s } hrep
      rw [hpos'] at hok herr
      simp only [if_neg Bool.false_ne_true]
      cases hp : parseHeader (data.drop d.pos) with
      | error e =>
          obtain ⟨s', hrun'⟩ := herr e hp
          exact Or.inr (Or.inl ⟨hpresent, e, s', rfl, bind_of_error hrun'⟩)
      | ok x =>
          obtain ⟨hd, r⟩ := x
          obtain ⟨s', hrun', hrep', hr⟩ := hok hd r hp
          refine Or.inr (Or.inr ⟨hpresent, hd, r, s', rfl, hrep', hr, ?_⟩)
          rw [bind_of_ok hrun']
          by_cases hid : hd.ident = ident <;> simp [hid]

theorem decodeHeaderOf_of_absent (h : Represents saved data d.s) (habsent : d.Absent data)
    (ident : Ident) :
    ∃ s, decodeHeaderOf ident d = .error Error.endOfSequence { d with s := s } ∧
      Represents saved data s ∧ s.pos = d.pos := by
  rcases decodeHeaderOf_spec h ident with ⟨-, hrun⟩ | ⟨hpresent, -⟩ | ⟨hpresent, -⟩
  · exact hrun
  · exact absurd habsent hpresent
  · exact absurd habsent hpresent

theorem decodeHeaderOf_of_error (h : Represents saved data d.s) (hpresent : ¬ d.Absent data)
    {e : Error} (hparse : parseHeader (data.drop d.pos) = .error e) (ident : Ident) :
    ∃ s, decodeHeaderOf ident d = .error e { d with s := s } := by
  rcases decodeHeaderOf_spec h ident with
    ⟨habsent, -⟩ | ⟨-, e', s, hparse', hrun⟩ | ⟨-, hd, r, s, hparse', -⟩
  · exact absurd habsent hpresent
  · cases hparse.symm.trans hparse'
    exact ⟨s, hrun⟩
  · cases hparse.symm.trans hparse'

theorem decodeHeaderOf_of_ok (h : Represents saved data d.s) (hpresent : ¬ d.Absent data)
    {hd : AsnHeader} {r : Octets} (hparse : parseHeader (data.drop d.pos) = .ok (hd, r))
    (ident : Ident) :
    ∃ s, Represents saved data s ∧ data.drop s.pos = r ∧
      decodeHeaderOf ident d = if hd.ident = ident then .ok hd { d with s := s }
        else .error Error.identMismatch { d with s := s } := by
  rcases decodeHeaderOf_spec h ident with
    ⟨habsent, -⟩ | ⟨-, e, s, hparse', -⟩ | ⟨-, hd', r', s, hparse', hrun⟩
  · exact absurd habsent hpresent
  · cases hparse.symm.trans hparse'
  · cases hparse.symm.trans hparse'
    exact ⟨s, hrun⟩

/-- A header that was returned was parsed at the read position. -/
theorem decodeHeaderOf_eq_ok (h : Represents saved data d.s) {ident : Ident} {hd : AsnHeader}
    {d' : Deserialiser} (hrun : decodeHeaderOf ident d = .ok hd d') :
    ∃ r s, parseHeader (data.drop d.pos) = .ok (hd, r) ∧ d' = { d with s := s } ∧
      Represents saved data s ∧ data.drop s.pos = r := by
  rcases decodeHeaderOf_spec h ident with
    ⟨-, s, hrun', -⟩ | ⟨-, e, s, -, hrun'⟩ | ⟨-, hd', r, s, hparse, hrep, hr, hrun'⟩
  · cases hrun.symm.trans hrun'
  · cases hrun.symm.trans hrun'
  · rw [hrun] at hrun'
    split at hrun'
    · cases hrun'
      exact ⟨r, s, hparse, rfl, hrep, hr⟩
    · cases hrun'

theorem readOctets_of_le (h : Represents saved data d.s) {n : Nat}
    (hn : d.pos + n ≤ data.length) :
    ∃ s, (OctetReader.read n : Dec Octets) d = .ok ((data.drop d.pos).take n) { d with s := s } ∧
      Represents saved data s ∧ s.pos = d.pos + n := by
  obtain ⟨s, hrun, hrep, hpos⟩ := read_of_le h hn
  exact ⟨s, by simp only [OctetReader.read, hrun, Deserialiser.pos], hrep, hpos⟩

theorem readOctets_of_lt (h : Represents saved data d.s) {n : Nat}
    (hn : data.length < d.pos + n) :
    ∃ s, (OctetReader.read n : Dec Octets) d = .error Error.endOfStream { d with s := s } := by
  obtain ⟨s, hrun⟩ := read_of_lt h hn
  exact ⟨s, by simp only [OctetReader.read, hrun]⟩

theorem readOctet_of_le (h : Represents saved data d.s) (hn : d.pos + 1 ≤ data.length) :
    ∃ b s, (readOctet : Dec UInt8) d = .ok b { d with s := s } ∧ Represents saved data s ∧
      s.pos = d.pos + 1 := by
  obtain ⟨s, hrun, hrep, hpos⟩ := readOctets_of_le h hn
  exact ⟨_, s, bind_of_ok hrun, hrep, hpos⟩

theorem readOctet_of_lt (h : Represents saved data d.s) (hn : data.length < d.pos + 1) :
    ∃ s, (readOctet : Dec UInt8) d = .error Error.endOfStream { d with s := s } := by
  obtain ⟨s, hrun⟩ := readOctets_of_lt h hn
  exact ⟨s, bind_of_error hrun⟩

theorem skipOctets_of_le (h : Represents saved data d.s) {n : Nat}
    (hn : d.pos + n ≤ data.length) :
    ∃ s, skipOctets n d = .ok () { d with s := s } ∧ Represents saved data s ∧
      s.pos = d.pos + n := by
  induction n generalizing d with
  | zero => exact ⟨d.s, rfl, h, rfl⟩
  | succ n ih =>
      obtain ⟨b, s, hrun, hrep, hpos⟩ := readOctet_of_le h (by omega)
      have hpos' : ({ d with s := s } : Deserialiser).pos = d.pos + 1 := hpos
      obtain ⟨s', hrun', hrep', hpos''⟩ := ih (d := { d with s := s }) hrep (by omega)
      refine ⟨s', ?_, hrep', by omega⟩
      rw [skipOctets, bind_of_ok hrun, hrun']

theorem skipOctets_of_lt (h : Represents saved data d.s) {n : Nat}
    (hn : data.length < d.pos + n) :
    ∃ s, skipOctets n d = .error Error.endOfStream { d with s := s } := by
  induction n generalizing d with
  | zero =>
      have := h.pos_le
      simp only [Deserialiser.pos] at hn
      omega
  | succ n ih =>
      by_cases hone : d.pos + 1 ≤ data.length
      · obtain ⟨b, s, hrun, hrep, hpos⟩ := readOctet_of_le h hone
        have hpos' : ({ d with s := s } : Deserialiser).pos = d.pos + 1 := hpos
        obtain ⟨s', hrun'⟩ := ih (d := { d with s := s }) hrep (by omega)
        exact ⟨s', by rw [skipOctets, bind_of_ok hrun, hrun']⟩
      · obtain ⟨s, hrun⟩ := readOctet_of_lt h (by omega)
        exact ⟨s, by rw [skipOctets, bind_of_error hrun]⟩

/-- Leaving an element goes on to its end, unless the position is past it. -/
theorem pop_of_le (h : Represents saved data d.s) {e : Nat} {rest : List Nat}
    (hseq : d.seqPos = e :: rest) (he : e ≤ data.length) :
    ∃ s, pop d = .ok () { d with s := s, seqPos := rest } ∧ Represents saved data s ∧
      s.pos = max d.pos e := by
  have hle := h.pos_le
  have hget : (get : Dec Deserialiser) d = .ok d d := rfl
  have hset : (set { d with seqPos := rest } : Dec PUnit) d = .ok () { d with seqPos := rest } := rfl
  obtain ⟨s, hrun, hrep, hpos⟩ := skipOctets_of_le (d := { d with seqPos := rest }) h
    (n := e - d.pos) (by simp only [Deserialiser.pos]; omega)
  refine ⟨s, ?_, hrep, ?_⟩
  · rw [pop, bind_of_ok hget]
    simp only [hseq]
    rw [bind_of_ok hset, hrun]
  · simp only [Deserialiser.pos] at hpos ⊢
    omega

/-- An element that ends past the octets cannot be left. -/
theorem pop_of_lt (h : Represents saved data d.s) {e : Nat} {rest : List Nat}
    (hseq : d.seqPos = e :: rest) (he : data.length < e) :
    ∃ s, pop d = .error Error.endOfStream { d with s := s, seqPos := rest } := by
  have hle := h.pos_le
  have hget : (get : Dec Deserialiser) d = .ok d d := rfl
  have hset : (set { d with seqPos := rest } : Dec PUnit) d = .ok () { d with seqPos := rest } := rfl
  obtain ⟨s, hrun⟩ := skipOctets_of_lt (d := { d with seqPos := rest }) h
    (n := e - d.pos) (by simp only [Deserialiser.pos]; omega)
  refine ⟨s, ?_⟩
  rw [pop, bind_of_ok hget]
  simp only [hseq]
  rw [bind_of_ok hset, hrun]

/-! ## The next element -/

/-- The octets that the element at the front of `l` takes by its own header, or
0 when the header is not all there. -/
def declaredLength (l : Octets) : Nat :=
  match parseHeader l with
  | .ok (h, r) => l.length - r.length + h.length
  | .error _ => 0

theorem nextLength_spec (h : Represents saved data d.s) :
    ∃ s, nextLength d = .ok (declaredLength (data.drop d.pos)) { d with s := s } ∧
      (declaredLength (data.drop d.pos) ≠ 0 → Represents saved data s ∧ s.pos = d.pos) := by
  have hget : (get : Dec Deserialiser) d = .ok d d := rfl
  obtain ⟨hpeek, hpos⟩ := startPeek_spec h
  have hpos' : ({ d with s := d.s.startPeek.2 } : Deserialiser).pos = d.pos := hpos
  obtain ⟨hok, herr⟩ :=
    Mirrors.decodeHeader _ data { d with s := d.s.startPeek.2 } hpeek
  rw [hpos'] at hok herr
  simp only [nextLength, declaredLength]
  cases hp : parseHeader (data.drop d.pos) with
  | error e =>
      obtain ⟨s, hrun⟩ := herr e hp
      refine ⟨s.endPeek d.s.startPeek.1 false, ?_, fun hne => absurd rfl hne⟩
      refine (catching_of_caught (?_ : _ = EStateM.Result.error e
        { d with s := s.endPeek d.s.startPeek.1 false }) rfl).trans ?_
      · rw [bind_of_ok hget]
        exact scopeExit_of_error (bind_of_error hrun)
      · rfl
  | ok x =>
      obtain ⟨hd, r⟩ := x
      obtain ⟨s, hrun, hrep, hr⟩ := hok hd r hp
      obtain ⟨hrep', hpos''⟩ := endPeek_restore hrep
      have hlen : (data.drop d.pos).length - r.length + hd.length = s.pos - d.pos + hd.length := by
        have := hrep.pos_le
        rw [← hr, List.length_drop, List.length_drop]
        have := h.pos_le
        simp only [Deserialiser.pos] at *
        omega
      have hbody : (decodeHeader >>= fun h => get >>= fun d' =>
          pure (d'.pos - d.pos + h.length) : Dec Nat) { d with s := d.s.startPeek.2 } =
          .ok (s.pos - d.pos + hd.length) { d with s := s } := by
        rw [bind_of_ok hrun]
        rfl
      refine ⟨s.endPeek d.s.startPeek.1 false, ?_, fun _ => ⟨hrep', hpos''⟩⟩
      simp only [hlen]
      refine catching_of_ok ?_
      rw [bind_of_ok hget]
      exact scopeExit_of_ok hbody

/-- The length of the element at the front of `l`, or 0 when it is not all there. -/
def elementLength (l : Octets) : Nat :=
  if declaredLength l ≤ l.length then declaredLength l else 0

/-- `has_next` finds the element at the read position and does not move. -/
theorem hasNext_spec (h : Represents saved data d.s) :
    ∃ s, hasNext d = .ok (elementLength (data.drop d.pos)) { d with s := s } ∧
      (elementLength (data.drop d.pos) ≠ 0 → Represents saved data s ∧ s.pos = d.pos) := by
  obtain ⟨s, hrun, hs⟩ := nextLength_spec h
  have hle := h.pos_le
  have hlen : (data.drop d.pos).length = data.length - d.pos := List.length_drop ..
  simp only [hasNext, elementLength]
  by_cases hzero : declaredLength (data.drop d.pos) = 0
  · refine ⟨s, ?_, by simp [hzero]⟩
    refine catching_of_ok ?_
    rw [bind_of_ok hrun, if_neg (not_not.mpr hzero), hzero]
    simp
  · obtain ⟨hrep, hpos⟩ := hs hzero
    have hposd : s.pos = d.s.pos := hpos
    by_cases hfit : declaredLength (data.drop d.pos) ≤ (data.drop d.pos).length
    · obtain ⟨s', hread, hrep', hpos'⟩ := readableBytes_of_le hrep
        (n := declaredLength (data.drop d.pos)) (by simp only [Deserialiser.pos] at *; omega)
      have hread' : Serialisation.readableBytes (declaredLength (data.drop d.pos))
          { d with s := s } = .ok true { d with s := s' } := by
        simp only [Serialisation.readableBytes, hread]
      refine ⟨s', ?_, fun _ => ⟨hrep', hpos'.trans hpos⟩⟩
      refine catching_of_ok ?_
      rw [bind_of_ok hrun, if_pos hzero, bind_of_ok hread', if_pos hfit]
      rfl
    · obtain ⟨s', hread, -⟩ := readableBytes_of_lt hrep
        (n := declaredLength (data.drop d.pos)) (by simp only [Deserialiser.pos] at *; omega)
      have hread' : Serialisation.readableBytes (declaredLength (data.drop d.pos))
          { d with s := s } = .ok false { d with s := s' } := by
        simp only [Serialisation.readableBytes, hread]
      refine ⟨s', ?_, fun hne => absurd (if_neg hfit) hne⟩
      refine catching_of_ok ?_
      rw [bind_of_ok hrun, if_pos hzero, bind_of_ok hread', if_neg hfit]
      rfl

end Spec

/-! ## The element at the front of some octets -/

theorem declaredLength_append {l : Octets} (h : declaredLength l ≠ 0) (x : Octets) :
    declaredLength (l ++ x) = declaredLength l := by
  unfold declaredLength at h ⊢
  cases hp : parseHeader l with
  | error e => simp [hp] at h
  | ok a =>
      obtain ⟨hd, r⟩ := a
      rw [frontRead_parseHeader.ok_append hp x]
      have := frontRead_parseHeader.length_le hp
      simp only [List.length_append]
      omega

/-- An element that is all there stays the same whatever follows it. -/
theorem elementLength_append {l : Octets} (h : elementLength l ≠ 0) (x : Octets) :
    elementLength (l ++ x) = elementLength l := by
  unfold elementLength at h ⊢
  split at h
  · rename_i hle
    rw [declaredLength_append h x, if_pos (by rw [List.length_append]; omega), if_pos hle]
  · exact absurd rfl h

theorem elementLength_le (l : Octets) : elementLength l ≤ l.length := by
  unfold elementLength
  split <;> omega

end Securepath.Serialisation
