import Securepath.Serialisation.MissingElements
import Securepath.Serialisation.PacketDeserialiser

/-!
# Buffers of the decoder

The sizes of the buffers that the decoder makes while it decodes: strings and integers of any size
are given the declared length of their element, trailing data what its sequence still declares,
and the look-ahead buffer grows in `readable_bytes`. `Visits` follows a decoding to the places
where this happens.
-/

namespace Securepath.Serialisation

open StateExcept BufferedStream

variable {α : Type} {saved : List Peek} {data : Octets} {d d' : Deserialiser}

/-! ## Where buffers are made -/

/-- The size that `readable_bytes(n)` gives the look-ahead buffer, if it grows. -/
def BufferedStream.request (s : BufferedStream) (n : Nat) : Option Nat :=
  let buffered := if s.lookAheadPos < s.buffer.length
    then s.buffer.length - s.lookAheadPos else 0
  if n ≤ buffered then none else some (s.buffer.length + (n - buffered))

/-- What the first test of `decode_header(asn_class, tag)` asks for. -/
def headerRequest (d : Deserialiser) : Option Nat :=
  if d.isEndOfSequence = false ∧ d.seqPos = [] then d.s.request 1 else none

/-- What `has_next` asks for. -/
def hasNextRequest (d : Deserialiser) : Option Nat :=
  match nextLength d with
  | .ok length d' => if length ≠ 0 then d'.s.request length else none
  | .error _ _ => none

/-- The types whose content goes into a buffer of the declared length. -/
def Prim.isBuffered : Prim → Bool
  | .bool => false
  | .int _ => false
  | .integer => true
  | .string => true
  | .octets => true
  | .real _ => false
  | .time => true

/-- The places where a decoding makes buffers. -/
inductive Place where
  /-- in front of the header of a constructed element -/
  | header
  | prim (p : Prim) (tag : Option TagInfo)
  | trailing

/-- The sizes of the buffers that are made in a place. -/
def Place.Requests : Place → Deserialiser → Nat → Prop
  | .header, d, size => headerRequest d = some size
  | .prim p tag, d, size => headerRequest d = some size ∨
      (p.isBuffered = true ∧ ∃ header d',
        decodeHeaderOf (getIdent tag p.defaultTag) d = .ok header d' ∧
        p.checkLength header.length = .ok () ∧ size = header.length)
  | .trailing, d, size => ∃ e ∈ d.seqPos.head?, d.pos < e ∧ size = e - d.pos

/-- A round of a container comes to a place. -/
def VisitsElement (elem : Dec α) (visits : Deserialiser → Prop) : Nat → Deserialiser → Prop
  | 0, _ => False
  | rounds + 1, d => d.isEndOfSequence = false ∧ (visits d ∨
      ∃ v d', elem d = .ok v d' ∧ d'.pos ≠ d.pos ∧ VisitsElement elem visits rounds d')

/-- The element is tried, or entered and `inside` is come to. -/
def VisitsIn (at_ : Place → Deserialiser → Prop) (ident : Ident) (notConstructed : Error)
    (inside : Deserialiser → Prop) (d : Deserialiser) : Prop :=
  at_ .header d ∨ ∃ d', startConstructed ident notConstructed d = .ok () d' ∧ inside d'

/-- A decoding comes to a place in a state where `at_` holds. -/
def Schema.Visits [KeyOrder] (at_ : Place → Deserialiser → Prop) : {k : Kind} → (T : Schema k) →
    k.Arg → Deserialiser → Prop
  | _, .prim p, _, d => at_ (.prim p d.currentTag) { d with currentTag := none }
  | _, .trailing, _, d => at_ .trailing d
  | _, .nothing, _, _ => False
  | _, .fields a b, _, d => a.Visits at_ () d ∨
      ∃ x d', amp (a.deserialise ()) d = .ok x d' ∧ b.Visits at_ () d'
  | _, .sequence body, _, d =>
      VisitsIn at_ (getIdent d.currentTag AsnTag.sequence) Error.invalidSequence
        (body.Visits at_ ()) { d with currentTag := none }
  | _, .container _ elem, _, d =>
      VisitsIn at_ (getIdent d.currentTag AsnTag.sequence) Error.invalidSequence
        (fun d => VisitsElement (amp (elem.deserialise ())) (elem.Visits at_ ())
          (d.s.unread.length + 1) d) { d with currentTag := none }
  | _, .optional T, _, d => T.Visits at_ () { d with s := d.s.startPeek.2 }
  | _, .tagged .explicitTag tag (.optional T), _, d =>
      VisitsIn at_ tag.ident Error.invalidExplicitTag (T.Visits at_ ())
        { d with s := d.s.startPeek.2 }
  | _, .tagged .implicitTag tag T, _, d => T.Visits at_ () { d with currentTag := some tag }
  | _, .tagged .explicitTag tag T, _, d =>
      VisitsIn at_ tag.ident Error.invalidExplicitTag (T.Visits at_ ()) d
  | _, .choice alts, _, d => ∃ tag d', nextTag d = .ok tag d' ∧ alts.Visits at_ tag d'
  | _, .noAlternative, _, _ => False
  | _, .alternative tag T rest, peeked, d =>
      if tag = peeked.tag then T.Visits at_ () { d with currentTag := some ⟨none, tag⟩ }
      else rest.Visits at_ peeked d

/-- Decoding makes a buffer of this size. -/
def Schema.Requests [KeyOrder] (T : Schema .type) (d : Deserialiser) (size : Nat) : Prop :=
  T.Visits (fun place d => place.Requests d size) () d

/-! ## Declared lengths -/

/-- More than `bound` octets are declared, which the caps on headers do not rule out: for a string
or an integer whose element has the bit of a constructed one, or up to the end of the sequence
where trailing data is decoded. -/
def Place.Overdeclares (bound : Nat) : Place → Deserialiser → Prop
  | .header, _ => False
  | .prim p tag, d => p.isBuffered = true ∧ ∃ header d',
      decodeHeaderOf (getIdent tag p.defaultTag) d = .ok header d' ∧
        header.isConstructed = true ∧ bound < header.length
  | .trailing, d => ∃ e ∈ d.seqPos.head?, d.pos + bound < e

/-! ## The places of a decoding -/

section Visits

variable {ι : Type} {P : ι → Place → Deserialiser → Prop}

theorem visitsElement_exists {elem : Dec α} {someVisits : Deserialiser → Prop}
    {visits : ι → Deserialiser → Prop} (hvisits : ∀ d, someVisits d ↔ ∃ i, visits i d)
    {rounds : Nat} :
    VisitsElement elem someVisits rounds d ↔ ∃ i, VisitsElement elem (visits i) rounds d := by
  induction rounds generalizing d with
  | zero => exact iff_of_false id fun ⟨_, h⟩ => h
  | succ rounds ih =>
      simp only [VisitsElement, ih, hvisits]
      constructor
      · rintro ⟨hend, ⟨i, h⟩ | ⟨v, d', hrun, hpos, i, h⟩⟩
        · exact ⟨i, hend, .inl h⟩
        · exact ⟨i, hend, .inr ⟨v, d', hrun, hpos, h⟩⟩
      · rintro ⟨i, hend, h | ⟨v, d', hrun, hpos, h⟩⟩
        · exact ⟨hend, .inl ⟨i, h⟩⟩
        · exact ⟨hend, .inr ⟨v, d', hrun, hpos, i, h⟩⟩

theorem visitsIn_exists {ident : Ident} {e : Error} {someInside : Deserialiser → Prop}
    {inside : ι → Deserialiser → Prop} (hinside : ∀ d, someInside d ↔ ∃ i, inside i d) :
    VisitsIn (fun place d => ∃ i, P i place d) ident e someInside d ↔
      ∃ i, VisitsIn (P i) ident e (inside i) d := by
  simp only [VisitsIn, hinside]
  constructor
  · rintro (⟨i, h⟩ | ⟨d', hrun, i, h⟩)
    · exact ⟨i, .inl h⟩
    · exact ⟨i, .inr ⟨d', hrun, h⟩⟩
  · rintro ⟨i, h | ⟨d', hrun, h⟩⟩
    · exact .inl ⟨i, h⟩
    · exact .inr ⟨d', hrun, i, h⟩

theorem visitsIn_congr {at₁ at₂ : Place → Deserialiser → Prop} {ident : Ident} {e : Error}
    {inside₁ inside₂ : Deserialiser → Prop} (hd : d.Reads saved data)
    (hheader : at₁ .header d ↔ at₂ .header d)
    (hinside : ∀ d', d'.Reads saved data → (inside₁ d' ↔ inside₂ d')) :
    VisitsIn at₁ ident e inside₁ d ↔ VisitsIn at₂ ident e inside₂ d := by
  refine or_congr hheader (exists_congr fun d' => and_congr_right fun hrun => ?_)
  exact hinside d' (startConstructed_reads hd hrun)

theorem visitsElement_congr {elem : Dec α} {visits₁ visits₂ : Deserialiser → Prop}
    (hreads : ∀ {d d' : Deserialiser} {v : α}, d.Reads saved data → elem d = .ok v d' →
      d'.Reads saved data)
    (hvisits : ∀ d, d.Reads saved data → (visits₁ d ↔ visits₂ d)) {rounds : Nat}
    (hd : d.Reads saved data) :
    VisitsElement elem visits₁ rounds d ↔ VisitsElement elem visits₂ rounds d := by
  induction rounds generalizing d with
  | zero => exact Iff.rfl
  | succ rounds ih =>
      simp only [VisitsElement]
      refine and_congr_right fun _ => or_congr (hvisits d hd) ?_
      refine exists_congr fun v => exists_congr fun d' => and_congr_right fun hrun => ?_
      exact and_congr_right fun _ => ih (hreads hd hrun)

variable [KeyOrder]

theorem Schema.visits_explicit {at_ : Place → Deserialiser → Prop} (tag : TagInfo)
    {T : Schema .type} (hT : T.isOptional = false) :
    (tagged .explicitTag tag T).Visits at_ () d ↔
      VisitsIn at_ tag.ident Error.invalidExplicitTag (T.Visits at_ ()) d := by
  cases T <;> first | exact Iff.rfl | cases hT

/-- A decoding comes to a place for some index, for some index it comes to a place. -/
theorem Schema.visits_exists {k : Kind} (T : Schema k) (arg : k.Arg) :
    T.Visits (fun place d => ∃ i, P i place d) arg d ↔ ∃ i, T.Visits (P i) arg d := by
  induction k, T using Schema.tagInduction generalizing d with
  | prim p => exact Iff.rfl
  | trailing => exact Iff.rfl
  | nothing => exact iff_of_false id fun ⟨_, h⟩ => h
  | fields a b iha ihb =>
      simp only [Visits, iha, ihb]
      constructor
      · rintro (⟨i, h⟩ | ⟨x, d', hrun, i, h⟩)
        · exact ⟨i, .inl h⟩
        · exact ⟨i, .inr ⟨x, d', hrun, h⟩⟩
      · rintro ⟨i, h | ⟨x, d', hrun, h⟩⟩
        · exact .inl ⟨i, h⟩
        · exact .inr ⟨x, d', hrun, i, h⟩
  | sequence body ih =>
      refine visitsIn_exists fun d' => ?_
      exact ih ()
  | container c elem ih =>
      refine visitsIn_exists fun d' => ?_
      exact visitsElement_exists fun d => ih ()
  | optional T ih => exact ih ()
  | implicit tag T ih =>
      simp only [Visits]
      exact ih ()
  | explicitOptional tag T ih => exact visitsIn_exists fun d' => ih ()
  | explicit tag T hT ih =>
      simp only [visits_explicit tag hT]
      exact visitsIn_exists fun d' => ih ()
  | choice alts ih =>
      simp only [Visits, ih]
      constructor
      · rintro ⟨tag, d', hrun, i, h⟩
        exact ⟨i, tag, d', hrun, h⟩
      · rintro ⟨i, tag, d', hrun, h⟩
        exact ⟨tag, d', hrun, i, h⟩
  | noAlternative => exact iff_of_false id fun ⟨_, h⟩ => h
  | alternative tag T rest ih ihrest =>
      unfold Visits
      split
      · exact ih ()
      · exact ihrest arg

/-- Places that are alike wherever the decoder stands in `data`. -/
theorem Schema.visits_congr {at₁ at₂ : Place → Deserialiser → Prop}
    (hat : ∀ place saved d, d.Reads saved data → (at₁ place d ↔ at₂ place d)) {k : Kind}
    (T : Schema k) (arg : k.Arg) (hd : d.Reads saved data) :
    T.Visits at₁ arg d ↔ T.Visits at₂ arg d := by
  have hreads : ∀ (T : Schema .type) {saved} {d d' : Deserialiser} {v : T.Val},
      d.Reads saved data → amp (T.deserialise ()) d = .ok v d' → d'.Reads saved data :=
    fun T _ _ _ _ hd hrun => amp_reads (KeepsReads.compositional.deserialise T ()) hd hrun
  induction k, T using Schema.tagInduction generalizing saved d with
  | prim p => exact hat _ saved _ ⟨hd.represents, hd.ex⟩
  | trailing => exact hat _ saved d hd
  | nothing => exact Iff.rfl
  | fields a b iha ihb =>
      refine or_congr (iha () hd) ?_
      refine exists_congr fun x => exists_congr fun d' => and_congr_right fun hrun => ?_
      exact ihb () (hreads a hd hrun)
  | sequence body ih =>
      have hd' : Deserialiser.Reads saved data { d with currentTag := none } :=
        ⟨hd.represents, hd.ex⟩
      exact visitsIn_congr hd' (hat _ saved _ hd') fun d' hd' => ih () hd'
  | container c elem ih =>
      have hd' : Deserialiser.Reads saved data { d with currentTag := none } :=
        ⟨hd.represents, hd.ex⟩
      refine visitsIn_congr hd' (hat _ saved _ hd') fun d' hd' => ?_
      exact visitsElement_congr (hreads elem) (fun d hd => ih () hd) hd'
  | optional T ih => exact ih () hd.startPeek
  | implicit tag T ih =>
      simp only [Visits]
      exact ih () ⟨hd.represents, hd.ex⟩
  | explicitOptional tag T ih =>
      exact visitsIn_congr hd.startPeek (hat _ _ _ hd.startPeek) fun d' hd' => ih () hd'
  | explicit tag T hT ih =>
      rw [visits_explicit tag hT, visits_explicit tag hT]
      exact visitsIn_congr hd (hat _ saved d hd) fun d' hd' => ih () hd'
  | choice alts ih =>
      refine exists_congr fun tag => exists_congr fun d' => and_congr_right fun hrun => ?_
      exact ih tag (nextTag_ok_reads hd hrun)
  | noAlternative => exact Iff.rfl
  | alternative tag T rest ih ihrest =>
      unfold Visits
      split
      · exact ih () ⟨hd.represents, hd.ex⟩
      · exact ihrest arg hd

end Visits

/-! ## Bounds on the buffers -/

/-- The look-ahead buffer grows to what it holds and what it is asked for. -/
theorem BufferedStream.request_le {s : BufferedStream} (h : Represents saved data s) {n size : Nat}
    (hsize : s.request n = some size) : size ≤ data.length + n := by
  have hunread := h.length_unread
  have hpos := h.pos_le
  have hahead := h.lookAhead_le
  simp only [BufferedStream.unread, List.length_append, List.length_drop, BufferedStream.pos]
    at hunread hpos
  simp only [BufferedStream.request] at hsize
  split at hsize
  · split at hsize <;> cases hsize
    omega
  · split at hsize <;> cases hsize
    omega

theorem headerRequest_le (hd : d.Reads saved data) {size : Nat}
    (hsize : headerRequest d = some size) : size ≤ data.length + 1 := by
  unfold headerRequest at hsize
  split at hsize
  · exact BufferedStream.request_le hd.represents hsize
  · cases hsize

theorem parseHeader_length_le {l r : Octets} {h : AsnHeader} (hparse : parseHeader l = .ok (h, r)) :
    h.length ≤ h.maxSize := by
  obtain ⟨header, l₁, -, hlength⟩ := PrefixParser.bind_eq_ok.mp hparse
  obtain ⟨length, l₂, -, hrun⟩ := PrefixParser.bind_eq_ok.mp hlength
  split at hrun
  · cases hrun
  next hfit =>
    cases hrun
    exact Nat.le_of_not_lt hfit

theorem decodeHeaderOf_parses (hd : d.Reads saved data) {ident : Ident} {h : AsnHeader}
    (hrun : decodeHeaderOf ident d = .ok h d') :
    ∃ r, parseHeader (data.drop d.pos) = .ok (h, r) := by
  obtain ⟨r, s, hparse, -⟩ := decodeHeaderOf_eq_ok hd.represents hrun
  exact ⟨r, hparse⟩

theorem Prim.checkLength_buffered {p : Prim} (hp : p.isBuffered = true) {n : Nat} (hn : 0 < n) :
    p.checkLength n = .ok () := by
  cases p <;> first | rfl | cases hp
  exact if_neg (Nat.ne_of_gt hn)

/-- A buffer larger than what is there and than a primitive may be is one for a length that the
caps on headers let through. -/
theorem Place.requests_iff {bound : Nat} (hthere : data.length + 1 ≤ bound)
    (hcap : maxStructureSize ≤ bound) (place : Place) (hd : d.Reads saved data) :
    (∃ size, bound < size ∧ place.Requests d size) ↔ place.Overdeclares bound d := by
  have hheader : ∀ {size}, bound < size → headerRequest d ≠ some size := by
    intro size hsize hrequest
    have hle := headerRequest_le hd hrequest
    omega
  cases place with
  | header => exact iff_of_false (fun ⟨_, hsize, h⟩ => hheader hsize h) id
  | prim p tag =>
      constructor
      · rintro ⟨size, hsize, h | ⟨hp, header, d', hrun, hcheck, rfl⟩⟩
        · exact absurd h (hheader hsize)
        refine ⟨hp, header, d', hrun, ?_, hsize⟩
        obtain ⟨r, hparse⟩ := decodeHeaderOf_parses hd hrun
        have hle := parseHeader_length_le hparse
        by_contra hprim
        rw [AsnHeader.maxSize, if_neg hprim] at hle
        omega
      · rintro ⟨hp, header, d', hrun, -, hsize⟩
        refine ⟨header.length, hsize, .inr ⟨hp, header, d', hrun, ?_, rfl⟩⟩
        exact Prim.checkLength_buffered hp (by omega)
  | trailing =>
      constructor
      · rintro ⟨size, hsize, e, he, hlt, rfl⟩
        exact ⟨e, he, by omega⟩
      · rintro ⟨e, he, hlt⟩
        exact ⟨e - d.pos, by omega, e, he, by omega, rfl⟩

/-- The buffers of a decoding are bounded exactly if it comes to no place where more is declared. -/
theorem Schema.requests_bounded_iff [KeyOrder] (T : Schema .type) {bound : Nat}
    (hthere : data.length + 1 ≤ bound) (hcap : maxStructureSize ≤ bound)
    (hd : d.Reads saved data) :
    (∀ size, T.Requests d size → size ≤ bound) ↔
      ¬ T.Visits (Place.Overdeclares bound) () d := by
  have hplaces : ∀ (place : Place) saved (d : Deserialiser), d.Reads saved data →
      (place.Overdeclares bound d ↔ ∃ size : {size // bound < size}, place.Requests d size) := by
    intro place saved d hd
    rw [← place.requests_iff hthere hcap hd]
    simp only [Subtype.exists, exists_prop]
  have hvisits : T.Visits (Place.Overdeclares bound) () d ↔
      ∃ size : {size // bound < size}, T.Requests d size :=
    (T.visits_congr hplaces () hd).trans (T.visits_exists ())
  rw [hvisits, not_exists]
  constructor
  · exact fun h size hrequests => Nat.not_le.mpr size.2 (h size hrequests)
  · exact fun h size hrequests => Nat.le_of_not_lt fun hlt => h ⟨size, hlt⟩ hrequests

/-! ## Looking for a packet -/

/-- The header in front of `l` is that of a constructed element that ends behind `bound`. -/
def OverdeclaresPacket (bound : Nat) (l : Octets) : Prop :=
  ∃ header r, parseHeader l = .ok (header, r) ∧ header.isConstructed = true ∧
    bound < l.length - r.length + header.length

/-- In front of the first packet the look-ahead buffer grows to what it is asked for. -/
theorem BufferedStream.request_of_pos_eq_zero {s : BufferedStream} (hpos : s.pos = 0) (n : Nat) :
    s.request n = if n ≤ s.buffer.length then none else some n := by
  obtain ⟨-, hzero⟩ := Nat.add_eq_zero_iff.mp hpos
  have hbuffered : (if s.lookAheadPos < s.buffer.length
      then s.buffer.length - s.lookAheadPos else 0) = s.buffer.length := by
    split <;> omega
  simp only [BufferedStream.request, hbuffered]
  split
  · rfl
  next hle => exact congrArg some (Nat.add_sub_of_le (Nat.le_of_not_le hle))

theorem hasNextRequest_ofOctets (l : Octets) :
    (∀ size ∈ hasNextRequest (.ofOctets l), size = declaredLength l) ∧
      (l.length < declaredLength l → declaredLength l ∈ hasNextRequest (.ofOctets l)) := by
  obtain ⟨s, hrun, hs⟩ := nextLength_spec (d := .ofOctets l) (represents_ofOctets l)
  have hpos : (Deserialiser.ofOctets l).pos = 0 := rfl
  rw [hpos, List.drop_zero] at hrun hs
  simp only [hasNextRequest, hrun]
  by_cases hzero : declaredLength l = 0
  · rw [if_neg (not_not.mpr hzero), hzero]
    exact ⟨nofun, fun h => absurd h (Nat.not_lt_zero _)⟩
  obtain ⟨hrep, hstart⟩ := hs hzero
  rw [if_pos hzero, BufferedStream.request_of_pos_eq_zero hstart]
  have hunread := hrep.length_unread
  simp only [BufferedStream.unread, List.length_append, List.length_drop, hstart] at hunread
  obtain ⟨-, hahead⟩ := Nat.add_eq_zero_iff.mp hstart
  constructor
  · intro size hsize
    split at hsize <;> cases hsize
    rfl
  · intro hlt
    rw [if_neg (by omega)]
    rfl

/-- The buffer that a packet is looked for in is bounded exactly if the packet declares no more. -/
theorem hasNextRequest_bounded_iff (l : Octets) {bound : Nat}
    (hbound : l.length + maxStructureSize ≤ bound) :
    (∀ size ∈ hasNextRequest (.ofOctets l), size ≤ bound) ↔ ¬ OverdeclaresPacket bound l := by
  obtain ⟨hdeclared, hrequested⟩ := hasNextRequest_ofOctets l
  constructor
  · rintro h ⟨header, r, hparse, -, hlt⟩
    have hlength : declaredLength l = l.length - r.length + header.length := by
      rw [declaredLength, hparse]
    have hle := h _ (hrequested (by omega))
    omega
  · intro h size hsize
    rw [hdeclared size hsize]
    by_contra hlt
    refine h ?_
    rw [declaredLength] at hlt
    split at hlt
    next header r hparse =>
      refine ⟨header, r, hparse, ?_, Nat.lt_of_not_le hlt⟩
      have hle := parseHeader_length_le hparse
      by_contra hprim
      rw [AsnHeader.maxSize, if_neg hprim] at hle
      omega
    next => exact absurd (Nat.zero_le _) hlt

theorem reads_firstCall {l : Octets} (h : elementLength l ≠ 0) :
    (firstCall l).deser.Reads [] l := by
  obtain ⟨s, hrun, hs⟩ := hasNext_ofOctets l
  simp only [firstCall, hrun]
  exact ⟨(hs h).1, rfl⟩

/-- The buffers for what arrived, `l` behind earlier packets: those of a decoding of `l`, the one
that the next packet is looked for in, and those of a decoding of the packet found. They are within
what arrived and the cap on primitives exactly if nothing larger is declared by a constructed
string or integer, by a sequence that ends with trailing data, or by the packet. -/
theorem buffers_bounded_iff [KeyOrder] (earlier l : Octets) :
    let bound := (earlier ++ l).length + maxStructureSize
    (∀ T : Schema .type, (∀ size, T.Requests (.ofOctets l) size → size ≤ bound) ↔
      ¬ T.Visits (Place.Overdeclares bound) () (.ofOctets l)) ∧
    ((∀ size ∈ hasNextRequest (.ofOctets l), size ≤ bound) ↔ ¬ OverdeclaresPacket bound l) ∧
    (elementLength l ≠ 0 → ∀ T : Schema .type,
      (∀ size, T.Requests (firstCall l).deser size → size ≤ bound) ↔
        ¬ T.Visits (Place.Overdeclares bound) () (firstCall l).deser) := by
  intro bound
  have hbound : bound = earlier.length + l.length + maxStructureSize := by
    simp only [bound, List.length_append]
  have hmax : 1 ≤ maxStructureSize := by decide
  have hcap : maxStructureSize ≤ bound := by omega
  refine ⟨fun T => ?_, hasNextRequest_bounded_iff l (by omega), fun h T => ?_⟩
  · exact T.requests_bounded_iff (by omega) hcap (reads_ofOctets l)
  · exact T.requests_bounded_iff (by omega) hcap (reads_firstCall h)

/-- A packet of one octet string. -/
theorem buffers_bounded_octets :
    let _ := KeyOrder.unordered
    let bound := ([0x04, 0x01, 0x2a] : Octets).length + maxStructureSize
    elementLength [0x04, 0x01, 0x2a] ≠ 0 ∧ ∀ T : Schema .type,
      (∀ size, T.Requests (firstCall [0x04, 0x01, 0x2a]).deser size → size ≤ bound) ↔
        ¬ T.Visits (Place.Overdeclares bound) () (firstCall [0x04, 0x01, 0x2a]).deser :=
  ⟨by decide +kernel, (@buffers_bounded_iff .unordered [] [0x04, 0x01, 0x2a]).2.2 (by decide +kernel)⟩

/-- A sequence of 256 MiB is declared in six octets, and its trailing data is decoded. -/
theorem buffers_bounded_fails :
    ¬ ∀ (_ : KeyOrder) (T : Schema .type) (b : Octets) (size : Nat),
      T.Requests (.ofOctets b) size → size ≤ b.length + maxStructureSize := by
  intro h
  have hrun := eq_ok_of_returns
    (r := startConstructed (getIdent none AsnTag.sequence) Error.invalidSequence
      (.ofOctets [0x30, 0x84, 0x10, 0x00, 0x00, 0x00])) (by decide +kernel)
  have hseq : (finalState (startConstructed (getIdent none AsnTag.sequence) Error.invalidSequence
      (.ofOctets [0x30, 0x84, 0x10, 0x00, 0x00, 0x00]))).seqPos = [6 + 2 ^ 28] := by
    decide +kernel
  have hpos : (finalState (startConstructed (getIdent none AsnTag.sequence) Error.invalidSequence
      (.ofOctets [0x30, 0x84, 0x10, 0x00, 0x00, 0x00]))).pos = 6 := by
    decide +kernel
  have hle := h .unordered (.sequence .trailing) [0x30, 0x84, 0x10, 0x00, 0x00, 0x00] (2 ^ 28)
    (.inr ⟨_, hrun, 6 + 2 ^ 28, by rw [hseq]; rfl, by omega, by omega⟩)
  exact absurd hle (by decide)

end Securepath.Serialisation
