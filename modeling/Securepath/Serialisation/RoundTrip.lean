import Securepath.Serialisation.Acceptance

/-!
# Round trips over schemas

Which values the decoder takes back. `Schema.Within` is about limits: sizes,
nesting and the values that have no accepted form. `Schema.Unambiguous` is about
the type: what is behind an absent optional is not taken for its value, and a
choice finds its alternative. `Schema.Exact` says that a value is determined by
its octets.

`Decides` is what is proved of every construct: the decoder takes the encoding
within the limits and refuses it outside of them.
-/

namespace Securepath.Serialisation

open StateExcept BufferedStream

variable {α β : Type}

/-! ## The parts of an encoding -/

/-- An order for types without sets and maps. -/
@[reducible] def KeyOrder.unordered : KeyOrder := ⟨fun _ _ _ _ => false⟩

namespace Encoding

/-- The octets written when `t` is pending. -/
def octets (e : Encoding) (t : Option TagInfo) : Octets :=
  match e t with
  | .ok (b, _) => b
  | .error _ => []

/-- The tag pending behind them. -/
def pending (e : Encoding) (t : Option TagInfo) : Option TagInfo :=
  match e t with
  | .ok (_, t') => t'
  | .error _ => t

variable {e : Encoding} {t t' : Option TagInfo} {b : Octets}

theorem octets_of_ok (h : e t = .ok (b, t')) : e.octets t = b := by
  simp only [octets, h]

theorem pending_of_ok (h : e t = .ok (b, t')) : e.pending t = t' := by
  simp only [pending, h]

/-- `P` holds of every element of a container, for the tag pending before it and
what stands behind it. -/
def Each (enc : α → Encoding) (P : α → Option TagInfo → After → Prop) :
    List α → Option TagInfo → Prop
  | [], _ => True
  | v :: vs, t =>
      P v t ⟨(elements enc vs).octets ((enc v).pending t), .endOfSequence⟩ ∧
        Each enc P vs ((enc v).pending t)

end Encoding

/-! ## Conditions on values -/

namespace Schema

/-- The header that tells whether a value is there, and the tag pending behind
an attempt to read it. -/
def head : {k : Kind} → Schema k → Option TagInfo → Option (Ident × Option TagInfo)
  | _, prim p, t => some (getIdent t p.defaultTag, none)
  | _, fields a _, t => a.head t
  | _, sequence _, t => some (getIdent t AsnTag.sequence, none)
  | _, container _ _, t => some (getIdent t AsnTag.sequence, none)
  | _, tagged .implicitTag tag T, _ => T.head (some tag)
  | _, tagged .explicitTag tag T, t => if T.isOptional then none else some (tag.ident, t)
  | _, _, _ => none

/-- What stands behind an absent optional is not its value, and finding that out
leaves the tag `t'` pending. -/
def Recognised : {k : Kind} → Schema k → (t t' : Option TagInfo) → After → Prop
  | _, optional T, t, t', after => ∃ ident, T.head t = some (ident, t') ∧ after.Differs ident
  | _, _, _, _, _ => True

/-- The alternative of the value is the one that the peeked tag selects. -/
def Selects : {k : Kind} → (T : Schema k) → k.Arg → T.Val → Prop
  | _, alternative tag _ rest, peeked, v => match v with
      | .inl _ => tag = peeked.tag
      | .inr v => tag ≠ peeked.tag ∧ rest.Selects peeked v
  | _, _, _, _ => True

/-- The limits: `n` more levels may be entered. Trailing data is inside of an
element. -/
def Within : {k : Kind} → (T : Schema k) → Nat → T.Val → Option TagInfo → After → Prop
  | _, prim p, _, v, _, _ => p.Loadable v
  | _, trailing, n, _, _, _ => n < maxStructureDepth
  | _, nothing, _, _, _, _ => True
  | _, fields a b, n, v, t, after =>
      a.Within n v.1 t ⟨(b.encoding v.2).octets ((a.encoding v.1).pending t) ++ after.octets,
        after.behind⟩ ∧ b.Within n v.2 ((a.encoding v.1).pending t) after
  | _, sequence body, n, v, _, _ =>
      0 < n ∧ ((body.encoding v).octets none).length ≤ maxConstructedSize ∧
        body.Within (n - 1) v none .endOfSequence
  | _, container _ elem, n, v, _, _ =>
      0 < n ∧ ((Encoding.elements elem.encoding v).octets none).length ≤ maxConstructedSize ∧
        Encoding.Each elem.encoding (fun v t after =>
          (elem.encoding v).octets t ≠ [] → elem.Within (n - 1) v t after) v none
  | _, optional T, n, v, t, after => match v with
      | none => HeaderFits after.octets
      | some v => T.Within n v t after
  | _, tagged tt tag T, n, v, t, after =>
      if T.isAbsent v then HeaderFits after.octets
      else match tt with
        | .implicitTag => T.Within n v (some tag) after
        | .explicitTag =>
            0 < n ∧ ((T.encoding v).octets t).length ≤ maxConstructedSize ∧
              T.Within (n - 1) v t .endOfSequence
  | _, choice alts, n, v, t, after =>
      HeaderFits ((alts.encoding v).octets t) ∧ alts.Within n v t after
  | _, noAlternative, _, v, _, _ => nomatch v
  | _, alternative tag T rest, n, v, t, after => match v with
      | .inl v => T.Within n v (some ⟨none, tag⟩) after
      | .inr v => rest.Within n v t after

/-- The type can tell where the value ends and which parts of it are absent. -/
def Unambiguous : {k : Kind} → (T : Schema k) → T.Val → Option TagInfo → After → Prop
  | _, prim _, _, _, _ => True
  | _, trailing, _, _, after => after.behind = .endOfSequence → after.octets = []
  | _, nothing, _, _, _ => True
  | _, fields a b, v, t, after =>
      a.Unambiguous v.1 t ⟨(b.encoding v.2).octets ((a.encoding v.1).pending t) ++ after.octets,
        after.behind⟩ ∧ b.Unambiguous v.2 ((a.encoding v.1).pending t) after
  | _, sequence body, v, _, _ => body.Unambiguous v none .endOfSequence
  | _, container _ elem, v, _, _ =>
      Encoding.Each elem.encoding (fun v t after =>
        if (elem.encoding v).octets t = [] then (elem.encoding v).pending t = t
        else elem.Unambiguous v t after) v none
  | _, optional T, v, t, after => match v with
      | none => (optional T).Recognised t t after
      | some v => T.Unambiguous v t after
  | _, tagged tt tag T, v, t, after =>
      if T.isAbsent v then
        match tt with
        | .implicitTag => T.Recognised (some tag) t after
        | .explicitTag => after.Differs tag.ident
      else
        match tt with
        | .implicitTag => T.Unambiguous v (some tag) after
        | .explicitTag => T.Unambiguous v t .endOfSequence
  | _, choice alts, v, t, after =>
      (∃ h c, (alts.encoding v).octets t = headerOctets h ++ c ∧ h.length < 2 ^ 64 ∧
        alts.Selects ⟨some h.asnClass, h.tag⟩ v) ∧ alts.Unambiguous v t after
  | _, noAlternative, v, _, _ => nomatch v
  | _, alternative tag T rest, v, t, after => match v with
      | .inl v => T.isAbsent v = false ∧ T.Unambiguous v (some ⟨none, tag⟩) after
      | .inr v => rest.Unambiguous v t after

/-- The elements of a set or map are in its order. -/
def Ordered [KeyOrder] (c : ContainerKind) (elem : Schema .type) (vs : List elem.Val) : Prop :=
  match c with
  | .vector => True
  | .deque => True
  | .set => vs.Pairwise fun x y =>
      KeyOrder.less .set elem x y = true ∧ KeyOrder.less .set elem y x = false
  | .map => vs.Pairwise fun x y =>
      KeyOrder.less .map elem x y = true ∧ KeyOrder.less .map elem y x = false

/-- The octets of the value say all about it: no real and no time, and each
element of a container is written. -/
def Exact [KeyOrder] : {k : Kind} → (T : Schema k) → T.Val → Option TagInfo → Prop
  | _, prim p, _, _ => p.IsExact
  | _, trailing, _, _ => True
  | _, nothing, _, _ => True
  | _, fields a b, v, t => a.Exact v.1 t ∧ b.Exact v.2 ((a.encoding v.1).pending t)
  | _, sequence body, v, _ => body.Exact v none
  | _, container c elem, v, _ =>
      Ordered c elem v ∧ Encoding.Each elem.encoding (fun v t _ =>
        (elem.encoding v).octets t ≠ [] ∧ elem.Exact v t) v none
  | _, optional T, v, t => match v with
      | none => True
      | some v => T.Exact v t
  | _, tagged tt tag T, v, t => match tt with
      | .implicitTag => T.Exact v (some tag)
      | .explicitTag => T.Exact v t
  | _, choice alts, v, t => alts.Exact v t
  | _, noAlternative, v, _ => nomatch v
  | _, alternative tag T rest, v, t => match v with
      | .inl v => T.Exact v (some ⟨none, tag⟩)
      | .inr v => rest.Exact v t

end Schema

/-! ## What the decoder decides -/

/-- Where `Ok` holds `m` decodes `b`, elsewhere it refuses it. -/
structure Decides (m : Dec α) (Ok : Prop) (P : α → Prop) (n : Nat) (b : Octets) (after : After)
    (t t' : Option TagInfo) : Prop where
  accepts : Ok → Accepts m P n b after t t'
  rejects : ¬ Ok → b.length < 2 ^ 64 → Rejects m n b after t

theorem element_length (ident : Ident) (k : Bool) (c : Octets) :
    c.length ≤ (element ident k c).length := by
  simp [element]

namespace Decides

variable {m : Dec α} {Ok Ok' : Prop} {P : α → Prop} {Q : β → Prop} {n : Nat} {b b₁ b₂ c : Octets}
  {after : After} {t t' t₁ : Option TagInfo}

theorem mono (h : Decides m Ok P n b after t t') {P' : α → Prop} (hP : ∀ v, P v → P' v) :
    Decides m Ok P' n b after t t' :=
  ⟨fun hok => (h.accepts hok).mono hP, h.rejects⟩

theorem congr (h : Decides m Ok P n b after t t') (hok : Ok ↔ Ok') :
    Decides m Ok' P n b after t t' :=
  ⟨fun h' => h.accepts (hok.mpr h'), fun h' => h.rejects (mt hok.mp h')⟩

theorem amp (h : Decides m Ok P n b after t t') : Decides (amp m) Ok P n b after t t' :=
  ⟨fun hok => (h.accepts hok).amp, fun hok hlen => (h.rejects hok hlen).amp⟩

/-- What is made of the value. -/
theorem map (h : Decides m Ok P n b after t t') (f : α → β) (hf : ∀ v, P v → Q (f v)) :
    Decides (do let v ← m; return f v) Ok Q n b after t t' := by
  constructor
  · intro hok
    rw [← b.append_nil]
    refine .bind (P := P) ?_ fun v hv => .pure (hf v hv)
    simpa using h.accepts hok
  · intro hok hlen
    rw [← b.append_nil]
    refine .bind_left ?_ _
    simpa using h.rejects hok hlen

/-- One member after the other. -/
theorem fields {ma : Dec α} {mb : Dec β} (ha : Decides ma Ok P n b₁
      ⟨b₂ ++ after.octets, after.behind⟩ t t₁) (hb : Decides mb Ok' Q n b₂ after t₁ t') :
    Decides (do let x ← Serialisation.amp ma; let y ← Serialisation.amp mb; return (x, y))
      (Ok ∧ Ok') (fun v => P v.1 ∧ Q v.2) n (b₁ ++ b₂) after t t' := by
  constructor
  · rintro ⟨hok, hok'⟩
    refine .bind (ha.amp.accepts hok) fun x hx => ?_
    exact (hb.amp.map (Prod.mk x) fun y hy => ⟨hx, hy⟩).accepts hok'
  · intro hok hlen
    rw [List.length_append] at hlen
    by_cases h : Ok
    · refine .bind_right (ha.amp.accepts h) fun x hx => ?_
      exact (hb.amp.map (Q := fun _ => True) (Prod.mk x) fun y hy => trivial).rejects
        (fun h' => hok ⟨h, h'⟩) (by omega)
    · exact .bind_left (ha.amp.rejects h (by omega)) _

theorem prim {p : Prim} {v : p.Val} (hc : p.content v = .ok c) :
    Decides (do let tag ← useCurrentTag; p.decode tag) (p.Loadable v) (fun v' => p.IsExact → v' = v)
      n (element (getIdent t p.defaultTag) false c) after t none :=
  ⟨fun hv => .prim hc hv, fun hv hlen =>
    .prim hc hv (Nat.lt_of_le_of_lt (element_length ..) hlen)⟩

/-- The limits of a constructed element, refused for one of the three reasons. -/
theorem limits {body : Dec α} (h : Decides body Ok P (n - 1) c .endOfSequence t t')
    (hlen : c.length < 2 ^ 64) (hok : ¬ (0 < n ∧ c.length ≤ maxConstructedSize ∧ Ok)) :
    maxConstructedSize < c.length ∨ n = 0 ∨ ∃ m, n = m + 1 ∧
      Rejects body m c .endOfSequence t := by
  rcases n with _ | m
  · exact Or.inr (Or.inl rfl)
  · by_cases hsize : c.length ≤ maxConstructedSize
    · exact Or.inr (Or.inr ⟨m, rfl, h.rejects (fun h' => hok ⟨by omega, hsize, h'⟩) hlen⟩)
    · exact Or.inl (by omega)

theorem inSequence {body : Dec α} (h : Decides body Ok P (n - 1) c .endOfSequence none t') :
    Decides (inSequence body) (0 < n ∧ c.length ≤ maxConstructedSize ∧ Ok) P n
      (element (getIdent t AsnTag.sequence) true c) after t t' := by
  constructor
  · rintro ⟨hn, hc, hok⟩
    obtain ⟨m, rfl⟩ : ∃ m, n = m + 1 := ⟨n - 1, by omega⟩
    exact .inSequence (h.accepts hok) hc
  · intro hok hlen
    have hlen' := Nat.lt_of_le_of_lt (element_length _ _ c) hlen
    exact .inSequence hlen' (h.limits hlen' hok)

theorem explicitTag {body : Dec α} {tag : TagInfo}
    (h : Decides body Ok P (n - 1) c .endOfSequence t t') {f : α → β} (hf : ∀ v, P v → Q (f v)) :
    Decides (do startExplicitTag tag; let v ← body; endExplicitTag; return f v)
      (0 < n ∧ c.length ≤ maxConstructedSize ∧ Ok) Q n (element tag.ident true c) after t t' := by
  constructor
  · rintro ⟨hn, hc, hok⟩
    obtain ⟨m, rfl⟩ : ∃ m, n = m + 1 := ⟨n - 1, by omega⟩
    exact .explicitTag (h.accepts hok) hc hf
  · intro hok hlen
    have hlen' := Nat.lt_of_le_of_lt (element_length _ _ c) hlen
    exact .explicitTag hlen' (h.limits hlen' hok)

theorem implicitTag {obj : Dec α} {tag : TagInfo} (h : Decides obj Ok P n b after (some tag) t') :
    Decides (handleTag .implicitTag tag obj) Ok P n b after t t' := by
  have hset : ∀ d : Deserialiser, (modify fun d : Deserialiser =>
      { d with currentTag := some tag } : Dec PUnit) d = .ok () { d with currentTag := some tag } :=
    fun _ => rfl
  constructor
  · intro hok saved data d hready htag hdepth
    rw [handleTag, bind_of_ok (hset d)]
    exact h.accepts hok saved data _ (hready.withTag (some tag)) rfl hdepth
  · intro hok hlen saved data d hready htag hdepth
    rw [handleTag, bind_of_ok (hset d)]
    exact h.rejects hok hlen saved data _ (hready.withTag (some tag)) rfl hdepth

/-- A value that is there. -/
theorem present {m : Dec (Option α)} {P : Option α → Prop} (h : Decides m Ok P n b after t t') :
    Decides (catching Error.isElementNotPresent (peekGuard m) (return none)) Ok P n b after
      t t' :=
  ⟨fun hok => .catching (.peekGuard (h.accepts hok)),
    fun hok hlen => .catching (.peekGuard (h.rejects hok hlen))⟩

/-- A value that is not there. -/
theorem absent {m : Dec (Option α)} {ident : Ident} (h : StartsWith m ident t t')
    (hdiffers : after.Differs ident) :
    Decides (catching Error.isElementNotPresent (peekGuard m) (return none))
      (HeaderFits after.octets) (· = none) n [] after t t' := by
  rcases h.absent (n := n) hdiffers with ⟨hfits, hacc⟩ | ⟨hnot, hrej⟩
  · exact ⟨fun _ => hacc, fun hnot => absurd hfits hnot⟩
  · exact ⟨fun hfits => absurd hfits hnot, fun _ _ => hrej⟩

theorem trailing (hlast : after.behind = .endOfSequence → after.octets = []) :
    Decides decodeTrailing (n < maxStructureDepth) (· = b) n b after t t :=
  ⟨fun hn => .trailing hn hlast, fun hn _ => .trailing hn⟩

theorem choice {h : AsnHeader} {f : TagInfo → Dec α} (hlen : h.length < 2 ^ 64)
    (hb : b = headerOctets h ++ c)
    (hf : Decides (f ⟨some h.asnClass, h.tag⟩) Ok P n b after t t') :
    Decides (do let tag ← nextTag; f tag) (HeaderFits b ∧ Ok) P n b after t t' := by
  subst hb
  constructor
  · rintro ⟨hfits, hok⟩
    exact .choice hlen (hfits h c rfl hlen) (hf.accepts hok)
  · intro hok hsize
    refine .choice hlen fun hfit => hf.rejects (fun hok' => hok ⟨?_, hok'⟩) hsize
    exact headerFits_of_ok ((parseHeader_headerOctets hlen c).trans (if_pos hfit))

theorem enoughRounds {f : Nat → Dec α} (h : ∀ rounds, c.length < rounds →
    Decides (f rounds) Ok P n c after t t') :
    Decides (do let d ← get; f (d.s.unread.length + 1)) Ok P n c after t t' :=
  ⟨fun hok => .enoughRounds fun rounds hr => (h rounds hr).accepts hok,
    fun hok hlen => .enoughRounds fun rounds hr => (h rounds hr).rejects hok hlen⟩

end Decides

/-! ## Containers -/

section Container

variable {elem : Dec α} {insert : List α → α → List α} {enc : α → Encoding}
  {Ok Clear : α → Option TagInfo → After → Prop} {Same : α → Option TagInfo → Prop} {n : Nat}

/-- The loop decides every element that is written, one after the other. -/
theorem Decides.containerLoop
    (helem : ∀ v t t' b after, enc v t = .ok (b, t') → Clear v t after →
      Decides elem (Ok v t after) (fun v' => Same v t → v' = v) n b after t t')
    {vs acc : List α} {t t' : Option TagInfo} {b : Octets} {rounds : Nat}
    (henc : Encoding.elements enc vs t = .ok (b, t')) (hrounds : b.length < rounds)
    (hclear : Encoding.Each enc (fun v t after =>
      if (enc v).octets t = [] then (enc v).pending t = t else Clear v t after) vs t) :
    Decides (containerLoop elem insert rounds acc)
      (Encoding.Each enc (fun v t after => (enc v).octets t ≠ [] → Ok v t after) vs t)
      (fun r => Encoding.Each enc (fun v t _ => (enc v).octets t ≠ [] ∧ Same v t) vs t →
        (∀ l e r, acc ++ vs = l ++ e :: r → insert l e = l ++ [e]) → r = acc ++ vs)
      n b .endOfSequence t t' := by
  induction vs generalizing t b rounds acc with
  | nil =>
      cases henc
      obtain ⟨rounds, rfl⟩ : ∃ r, rounds = r + 1 := ⟨rounds - 1, by omega⟩
      exact ⟨fun _ => .loop_nil fun _ _ => (List.append_nil acc).symm, fun h => absurd trivial h⟩
  | cons v vs ih =>
      obtain ⟨b₁, t₁, b₂, henc₁, henc₂, rfl⟩ := Encoding.seq_eq_ok.mp henc
      have hoctets := Encoding.octets_of_ok henc₁
      have hpending := Encoding.pending_of_ok henc₁
      have hbehind := Encoding.octets_of_ok henc₂
      simp only [Encoding.Each, hoctets, hpending, hbehind] at hclear ⊢
      obtain ⟨hv, hvs⟩ := hclear
      rw [List.length_append] at hrounds
      by_cases hb : b₁ = []
      · -- an element that is not written is not met by the loop
        subst hb
        rw [if_pos rfl] at hv
        subst hv
        refine ((ih henc₂ (by simpa using hrounds) hvs).congr ?_).mono ?_
        · simp
        · intro r _ hsame _
          exact absurd rfl hsame.1.1
      · rw [if_neg hb] at hv
        obtain ⟨rounds, rfl⟩ : ∃ r, rounds = r + 1 := ⟨rounds - 1, by omega⟩
        have hlen : b₂.length < rounds := by
          have := List.length_pos_iff.mpr hb
          omega
        have hone := helem v t t₁ b₁ ⟨b₂, .endOfSequence⟩ henc₁ hv
        constructor
        · rintro ⟨hok, hoks⟩
          refine .loop_cons hb (hone.accepts (hok hb)) fun v' hv' => ?_
          refine ((ih henc₂ hlen hvs).accepts hoks).mono fun r hr ⟨⟨_, hsame⟩, hsames⟩ hins => ?_
          obtain rfl := hv' hsame
          have hput : insert acc v' = acc ++ [v'] := hins acc v' vs rfl
          rw [hput] at hr
          simpa using hr hsames (by simpa using hins)
        · intro hok hsize
          rw [List.length_append] at hsize
          by_cases h : Ok v t ⟨b₂, .endOfSequence⟩
          · refine .loop_tail hb (hone.accepts h) fun v' _ => ?_
            exact (ih henc₂ hlen hvs).rejects (fun hoks => hok ⟨fun _ => h, hoks⟩) (by omega)
          · exact .loop_head hb (hone.rejects h (by omega))

theorem insertElement_of_ordered [KeyOrder] {c : ContainerKind} {elem : Schema .type}
    {vs : List elem.Val} (h : Schema.Ordered c elem vs) (l : List elem.Val) (e : elem.Val)
    (r : List elem.Val) (hvs : [] ++ vs = l ++ e :: r) :
    insertElement c elem l e = l ++ [e] := by
  rw [List.nil_append] at hvs
  subst hvs
  cases c with
  | vector => rfl
  | deque => rfl
  | set =>
      refine insertOrdered_of_forall fun x hx => ?_
      exact (List.pairwise_append.mp h).2.2 x hx e (List.mem_cons_self ..)
  | map =>
      refine insertOrdered_of_forall fun x hx => ?_
      exact (List.pairwise_append.mp h).2.2 x hx e (List.mem_cons_self ..)

end Container

/-! ## Every type -/

theorem StartsWith.implicitTag {obj : Dec α} {ident : Ident} {tag : TagInfo}
    {t t' : Option TagInfo} (h : StartsWith obj ident (some tag) t') :
    StartsWith (handleTag .implicitTag tag obj) ident t t' := by
  intro d e d' _ hrun
  have hset : (modify fun d : Deserialiser => { d with currentTag := some tag } : Dec PUnit) d =
      .ok () { d with currentTag := some tag } := rfl
  rw [handleTag, bind_of_ok hset]
  exact h { d with currentTag := some tag } e d' rfl hrun

namespace Schema

theorem selects_type (T : Schema .type) (v : T.Val) : T.Selects () v := by
  cases T <;> trivial

variable [KeyOrder]

/-- Decoding starts with the header that `head` names. -/
theorem startsWith_head {k : Kind} (T : Schema k) {arg : k.Arg} {t t' : Option TagInfo}
    {ident : Ident} (h : T.head t = some (ident, t')) :
    StartsWith (T.deserialise arg) ident t t' := by
  induction k, T using tagInduction generalizing t with
  | prim p =>
      cases h
      exact .prim p t
  | fields a b iha ihb => exact (iha h).amp.bind _
  | sequence body ih =>
      cases h
      exact .inSequence _ t
  | container c elem ih =>
      cases h
      exact .inSequence _ t
  | implicit tag T ih =>
      rw [deserialise_implicit]
      exact (ih h).amp.implicitTag
  | explicit tag T hT ih =>
      rw [deserialise_explicit tag hT]
      rw [head, hT] at h
      cases h
      exact (StartsWith.startConstructed _ _ _).bind _
  | trailing => cases h
  | nothing => cases h
  | optional T ih => cases h
  | explicitOptional tag T ih => cases h
  | choice alts ih => cases h
  | noAlternative => cases h
  | alternative tag T rest ih ihrest => cases h

/-- An absent optional. -/
theorem decides_none (T : Schema .type) {n : Nat} {t t' : Option TagInfo} {after : After}
    (h : (optional T).Recognised t t' after) :
    Decides ((optional T).deserialise ()) (HeaderFits after.octets) (· = none) n [] after t t' := by
  obtain ⟨ident, hhead, hdiffers⟩ := h
  exact .absent ((startsWith_head T hhead).amp.bind _) hdiffers

/-- What the decoder does with the encoding of a value. -/
theorem decides {k : Kind} (T : Schema k) {arg : k.Arg} {v : T.Val} {n : Nat}
    {t t' : Option TagInfo} {b : Octets} {after : After} (hselects : T.Selects arg v)
    (henc : T.encoding v t = .ok (b, t')) (hclear : T.Unambiguous v t after) :
    Decides (T.deserialise arg) (T.Within n v t after) (fun v' => T.Exact v t → v' = v) n b after
      t t' := by
  induction k, T using tagInduction generalizing n t t' b after with
  | prim p =>
      simp only [encoding, Prim.encoding] at henc
      split at henc
      · cases henc
      · rename_i content hc
        cases henc
        exact .prim hc
  | trailing =>
      cases henc
      exact (Decides.trailing hclear).mono fun v' hv' _ => hv'
  | nothing =>
      cases henc
      exact ⟨fun _ => .pure fun _ => rfl, fun h => absurd trivial h⟩
  | fields a b iha ihb =>
      obtain ⟨b₁, t₁, b₂, henc₁, henc₂, rfl⟩ := Encoding.seq_eq_ok.mp henc
      simp only [Unambiguous, Within, Exact, Encoding.octets_of_ok henc₂,
        Encoding.pending_of_ok henc₁] at hclear ⊢
      obtain ⟨ha, hb⟩ := hclear
      refine ((iha (a.selects_type _) henc₁ ha).fields (ihb (b.selects_type _) henc₂ hb)).mono ?_
      rintro ⟨x, y⟩ ⟨hx, hy⟩ ⟨hxe, hye⟩
      exact Prod.ext (hx hxe) (hy hye)
  | sequence body ih =>
      obtain ⟨c, hc, rfl⟩ := Encoding.sequence_eq_ok.mp henc
      simp only [Within, Encoding.octets_of_ok hc]
      exact .inSequence (ih (body.selects_type v) hc hclear).amp
  | container c elem ih =>
      obtain ⟨content, hc, rfl⟩ := Encoding.sequence_eq_ok.mp henc
      simp only [Within, Encoding.octets_of_ok hc]
      refine .inSequence (.enoughRounds (f := fun rounds =>
        containerLoop (Serialisation.amp (elem.deserialise ())) (insertElement c elem) rounds [])
        fun rounds hrounds => ?_)
      have hloop : Decides (containerLoop (Serialisation.amp (elem.deserialise ()))
          (insertElement c elem) rounds []) _ _ _ _ _ _ _ :=
        Decides.containerLoop
          (fun v t t' b after h₁ h₂ => (ih (n := n - 1) (elem.selects_type v) h₁ h₂).amp)
          hc hrounds hclear
      refine hloop.mono fun r hr hexact => ?_
      obtain ⟨hordered, hsame⟩ := hexact
      exact hr hsame (insertElement_of_ordered hordered)
  | optional T ih =>
      cases v with
      | none =>
          cases henc
          exact (decides_none T hclear).mono fun v' hv' _ => hv'
      | some v =>
          refine .present ?_
          refine (ih (T.selects_type v) henc hclear).amp.map _ fun v' hv' hexact => ?_
          rw [hv' hexact]
  | implicit tag T ih =>
      rw [deserialise_implicit]
      simp only [encoding, Unambiguous, Within, Exact] at henc hclear ⊢
      cases habsent : T.isAbsent v with
      | true =>
          rw [habsent] at henc hclear
          simp only [if_true] at henc hclear ⊢
          cases henc
          cases T with
          | optional U =>
              cases v with
              | none =>
                  exact ((decides_none U hclear).amp.implicitTag).mono fun v' hv' _ => hv'
              | some v => cases habsent
          | _ => cases habsent
      | false =>
          rw [habsent] at henc hclear
          exact (ih (T.selects_type v) henc hclear).amp.implicitTag
  | explicitOptional tag T ih =>
      rw [deserialise_explicit_optional]
      cases v with
      | none =>
          cases henc
          exact (Decides.absent ((StartsWith.startConstructed _ _ _).bind _) hclear).mono
            fun v' hv' _ => hv'
      | some v =>
          obtain ⟨c, hc, rfl⟩ := Encoding.explicitTag_eq_ok.mp henc
          have hok : (tagged .explicitTag tag (optional T)).Within n (some v) t after ↔
              0 < n ∧ c.length ≤ maxConstructedSize ∧ T.Within (n - 1) v t .endOfSequence := by
            rw [← Encoding.octets_of_ok hc]
            rfl
          refine (Decides.present (.explicitTag (ih (T.selects_type v) hc hclear).amp ?_)).congr
            hok.symm
          intro v' hv' hexact
          rw [hv' hexact]
  | explicit tag T hT ih =>
      have habsent : T.isAbsent v = false := by
        cases T <;> first | rfl | cases hT
      rw [deserialise_explicit tag hT]
      simp only [encoding, Unambiguous, Within, Exact, habsent] at henc hclear ⊢
      obtain ⟨c, hc, rfl⟩ := Encoding.explicitTag_eq_ok.mp henc
      rw [Encoding.octets_of_ok (e := T.encoding v) (t := t) hc, if_neg Bool.false_ne_true]
      exact .explicitTag (f := id) (ih (T.selects_type v) hc hclear).amp fun v' hv' => hv'
  | choice alts ih =>
      obtain ⟨⟨h, c, hb, hlen, hsel⟩, hclear⟩ := hclear
      have hoctets := Encoding.octets_of_ok (e := alts.encoding v) henc
      have hdec := (ih hsel henc hclear (n := n)).choice (f := alts.deserialise) hlen
        (hoctets.symm.trans hb)
      refine hdec.congr ?_
      rw [← hoctets]
      rfl
  | noAlternative => exact v.elim
  | alternative tag T rest ih ihrest =>
      cases v with
      | inl v =>
          obtain ⟨habsent, hclear⟩ := hclear
          simp only [encoding, habsent] at henc
          have hrun : (alternative tag T rest).deserialise arg =
              (do
                let v ← amp (handleTag .implicitTag ⟨none, tag⟩ (amp (T.deserialise ())))
                return .inl v) := if_pos hselects
          rw [hrun]
          refine (ih (T.selects_type v) henc hclear).amp.implicitTag.amp.map _ fun v' hv' hexact => ?_
          rw [hv' hexact]
      | inr v =>
          have hrun : (alternative tag T rest).deserialise arg =
              (do
                let v ← rest.deserialise arg
                return .inr v) := if_neg hselects.1
          rw [hrun]
          refine (ihrest hselects.2 henc hclear).map _ fun v' hv' hexact => ?_
          rw [hv' hexact]

/-! ## Everything within the limits can be encoded -/

omit [KeyOrder] in
theorem content_of_loadable {p : Prim} {v : p.Val} (hp : p.IsExact) (hv : p.Loadable v) :
    ∃ c, p.content v = .ok c := by
  cases p with
  | bool => exact ⟨_, Prim.content_bool v⟩
  | int t =>
      obtain ⟨b, hb, -⟩ := encodeInteger_spec v
      exact ⟨b, hb⟩
  | integer => exact ⟨v, rfl⟩
  | string => exact ⟨v, Prim.text_eq_ok.mpr ⟨hv, rfl⟩⟩
  | octets => exact ⟨v, Prim.text_eq_ok.mpr ⟨hv, rfl⟩⟩
  | real f => exact hp.elim
  | time => exact hp.elim

omit [KeyOrder] in
theorem elements_ok {enc : α → Encoding} {Ok : α → Option TagInfo → After → Prop}
    {Same : α → Option TagInfo → Prop}
    (helem : ∀ v t after, Ok v t after → Same v t → ∃ b t', enc v t = .ok (b, t')) {vs : List α}
    {t : Option TagInfo}
    (hok : Encoding.Each enc (fun v t after => (enc v).octets t ≠ [] → Ok v t after) vs t)
    (hsame : Encoding.Each enc (fun v t _ => (enc v).octets t ≠ [] ∧ Same v t) vs t) :
    ∃ b t', Encoding.elements enc vs t = .ok (b, t') := by
  induction vs generalizing t with
  | nil => exact ⟨[], t, rfl⟩
  | cons v vs ih =>
      obtain ⟨hv, hvs⟩ := hok
      obtain ⟨⟨hne, hv'⟩, hvs'⟩ := hsame
      obtain ⟨b₁, t₁, h₁⟩ := helem v t _ (hv hne) hv'
      rw [Encoding.pending_of_ok h₁] at hvs hvs'
      obtain ⟨b₂, t₂, h₂⟩ := ih hvs hvs'
      exact ⟨b₁ ++ b₂, t₂, Encoding.seq_eq_ok.mpr ⟨b₁, t₁, b₂, h₁, h₂, rfl⟩⟩

theorem encoding_ok {k : Kind} (T : Schema k) {v : T.Val} {n : Nat} {t : Option TagInfo}
    {after : After} (hwithin : T.Within n v t after) (hexact : T.Exact v t) :
    ∃ b t', T.encoding v t = .ok (b, t') := by
  induction T generalizing n t after with
  | prim p =>
      obtain ⟨c, hc⟩ := content_of_loadable hexact hwithin
      exact ⟨_, none, by simp only [encoding, Prim.encoding, hc]; rfl⟩
  | trailing => exact ⟨v, t, rfl⟩
  | nothing => exact ⟨[], t, rfl⟩
  | fields a b iha ihb =>
      obtain ⟨b₁, t₁, h₁⟩ := iha hwithin.1 hexact.1
      have hpending := Encoding.pending_of_ok h₁
      obtain ⟨b₂, t₂, h₂⟩ := ihb hwithin.2 hexact.2
      rw [hpending] at h₂
      exact ⟨b₁ ++ b₂, t₂, Encoding.seq_eq_ok.mpr ⟨b₁, t₁, b₂, h₁, h₂, rfl⟩⟩
  | sequence body ih =>
      obtain ⟨c, t', hc⟩ := ih hwithin.2.2 hexact
      exact ⟨_, t', Encoding.sequence_eq_ok.mpr ⟨c, hc, rfl⟩⟩
  | container c elem ih =>
      obtain ⟨content, t', hc⟩ := @elements_ok _ elem.encoding _ _ (fun v t after => ih) v none
        hwithin.2.2 hexact.2
      exact ⟨_, t', Encoding.sequence_eq_ok.mpr ⟨content, hc, rfl⟩⟩
  | optional T ih =>
      cases v with
      | none => exact ⟨[], t, rfl⟩
      | some v => exact ih hwithin hexact
  | tagged tt tag T ih =>
      simp only [Within, encoding] at hwithin ⊢
      split
      · exact ⟨[], t, rfl⟩
      · rename_i habsent
        rw [if_neg habsent] at hwithin
        cases tt with
        | implicitTag => exact ih hwithin hexact
        | explicitTag =>
            obtain ⟨c, t', hc⟩ := ih hwithin.2.2 hexact
            exact ⟨_, t', Encoding.explicitTag_eq_ok.mpr ⟨c, hc, rfl⟩⟩
  | choice alts ih => exact ih hwithin.2 hexact
  | noAlternative => exact v.elim
  | alternative tag T rest ih ihrest =>
      cases v with
      | inl v =>
          simp only [encoding]
          split
          · exact ⟨[], t, rfl⟩
          · exact ih hwithin hexact
      | inr v => exact ihrest hwithin hexact

/-! ## Whole values -/

omit [KeyOrder] in
/-- A fresh decoder before the octets of a value. -/
theorem ready_ofOctets (b rest : Octets) (behind : Behind) (hbehind : behind ≠ .endOfSequence)
    (hrest : behind = .endOfOctets → rest = []) :
    Ready [] (b ++ rest) (Deserialiser.ofOctets (b ++ rest)) b ⟨[], behind⟩ := by
  refine ⟨represents_ofOctets _, rfl, rest, rfl, ?_⟩
  cases behind with
  | endOfSequence => exact absurd rfl hbehind
  | endOfOctets => exact ⟨rfl, hrest rfl⟩
  | anything => rfl

end Schema

section Whole

variable {m : Dec α} {P : α → Prop} {b : Octets} {t' : Option TagInfo}

/-- Octets that are accepted. -/
theorem Accepts.ofOctets (h : Accepts m P maxStructureDepth b ⟨[], .endOfOctets⟩ none t') :
    ∃ v d, m (.ofOctets b) = .ok v d ∧ P v := by
  have hready := Schema.ready_ofOctets b [] .endOfOctets (by decide) (by simp)
  rw [List.append_nil] at hready
  obtain ⟨v, s, hrun, -, -, hP⟩ := h _ _ _ hready rfl rfl
  exact ⟨v, _, hrun, hP⟩

/-- Octets that are refused. -/
theorem Rejects.ofOctets (h : Rejects m maxStructureDepth b ⟨[], .endOfOctets⟩ none) :
    ∃ e d, m (.ofOctets b) = .error e d := by
  have hready := Schema.ready_ofOctets b [] .endOfOctets (by decide) (by simp)
  rw [List.append_nil] at hready
  obtain ⟨e, d, hrun, -⟩ := h _ _ _ hready rfl rfl
  exact ⟨e, d, hrun⟩

end Whole

namespace Schema

variable [KeyOrder]

/-- Whatever follows it, the encoding of a value is decoded to the value and
nothing else is read. -/
theorem decode_asnDerSerialise (T : Schema .type) (v : T.Val)
    (hwithin : T.Within maxStructureDepth v none ⟨[], .anything⟩)
    (hclear : T.Unambiguous v none ⟨[], .anything⟩) (hexact : T.Exact v none) :
    ∃ b, asnDerSerialise T v = .ok b ∧ ∀ rest, ∃ d,
      T.decode (Deserialiser.ofOctets (b ++ rest)) = .ok v d ∧ d.pos = b.length ∧
        d.s.unread = rest := by
  obtain ⟨b, t', henc⟩ := encoding_ok T hwithin hexact
  refine ⟨b, by rw [asnDerSerialise_eq, henc]; rfl, fun rest => ?_⟩
  have hready := ready_ofOctets b rest .anything (by decide) (by simp)
  obtain ⟨v', s, hrun, hrep, hpos, hsame⟩ :=
    ((decides T (T.selects_type v) henc hclear).amp.accepts hwithin) _ _ _ hready rfl rfl
  obtain rfl := hsame hexact
  have hend : s.pos = b.length := hpos.trans (Nat.zero_add _)
  exact ⟨_, hrun, hend, by rw [hrep.ahead, hend, List.drop_left]⟩

omit [KeyOrder] in
/-- An absent optional before octets of another type. -/
theorem decode_asnDerSerialise_absent :
    let _ := KeyOrder.unordered
    let T := sequence (fields (optional (prim .bool)) (prim .octets))
    ∃ b, asnDerSerialise T (none, [0x07]) = .ok b ∧ ∀ rest, ∃ d,
      T.decode (Deserialiser.ofOctets (b ++ rest)) = .ok (none, [0x07]) d ∧ d.pos = b.length ∧
        d.s.unread = rest := by
  have hloadable : [(0x07 : UInt8)].length ≤ maxStructureSize := by decide
  refine @decode_asnDerSerialise .unordered _ _ ⟨by decide, by decide +kernel, ?_, hloadable⟩
    ⟨⟨_, rfl, Or.inr ⟨⟨.universal, AsnTag.octetString, 1, false⟩, [0x07], by decide +kernel,
      by decide, by decide⟩⟩, trivial⟩ ⟨trivial, trivial⟩
  refine headerFits_of_ok (r := (⟨.universal, AsnTag.octetString, 1, false⟩, [0x07])) ?_
  decide +kernel

omit [KeyOrder] in
/-- Values that are not decoded to themselves: an absent element of a container,
an absent optional of an optional or of a choice, an alternative with a tag of
its own, two implicit tags on an absent optional, and an absent optional before
octets of its type. -/
theorem decode_asnDerSerialise_fails :
    let _ := KeyOrder.unordered
    let bool := prim .bool
    let alternatives := choice (alternative 0 bool noAlternative)
    let retagged := choice (alternative 0 (tagged .implicitTag ⟨none, 5⟩ bool) noAlternative)
    let tags := fields (tagged .implicitTag ⟨none, 1⟩ (tagged .implicitTag ⟨none, 2⟩
      (optional bool))) bool
    (asnDerSerialise (container .vector (optional bool)) [none] = .ok [0x30, 0x00] ∧
      asnDerDeserialise (container .vector (optional bool)) [0x30, 0x00] = .ok []) ∧
    (asnDerSerialise (sequence (optional (optional bool))) none = .ok [0x30, 0x00] ∧
      asnDerDeserialise (sequence (optional (optional bool))) [0x30, 0x00] = .ok (some none)) ∧
    (asnDerSerialise (sequence (optional alternatives)) none = .ok [0x30, 0x00] ∧
      asnDerDeserialise (sequence (optional alternatives)) [0x30, 0x00] =
        .error Error.endOfStream) ∧
    (asnDerSerialise retagged (.inl true) = .ok [0x85, 0x01, 0x01] ∧
      asnDerDeserialise retagged [0x85, 0x01, 0x01] = .error Error.noSuchChoiceTag) ∧
    (asnDerSerialise (sequence tags) (none, true) = .ok [0x30, 0x03, 0x81, 0x01, 0x01] ∧
      asnDerDeserialise (sequence tags) [0x30, 0x03, 0x81, 0x01, 0x01] =
        .error Error.identMismatch) ∧
    (asnDerSerialise (optional bool) none = .ok [] ∧
      asnDerDeserialise (optional bool) ([] ++ [0x01, 0x01, 0x01]) = .ok (some true)) := by
  decide +kernel

/-- What is loaded of a saved value is the value. -/
theorem eq_of_asnDerDeserialise (T : Schema .type) {v v' : T.Val} {b : Octets}
    (hsaved : asnDerSerialise T v = .ok b) (hlen : b.length < 2 ^ 64)
    (hclear : T.Unambiguous v none ⟨[], .endOfOctets⟩) (hexact : T.Exact v none)
    (hload : asnDerDeserialise T b = .ok v') : v' = v := by
  rw [asnDerSerialise_eq] at hsaved
  rcases henc : T.encoding v none with e | ⟨b', t'⟩
  · simp [henc, Except.map] at hsaved
  · rw [henc] at hsaved
    obtain rfl : b' = b := Except.ok.inj hsaved
    have hdecides := (decides T (n := maxStructureDepth) (T.selects_type v) henc hclear).amp
    by_cases hwithin : T.Within maxStructureDepth v none ⟨[], .endOfOctets⟩
    · obtain ⟨w, d, hrun, hsame⟩ := (hdecides.accepts hwithin).ofOctets
      have hrun' : T.decode (Deserialiser.ofOctets b') = .ok w _ := hrun
      simp only [asnDerDeserialise, hrun', Except.ok.injEq] at hload
      exact hload.symm.trans (hsame hexact)
    · obtain ⟨e, d', hrun⟩ := (hdecides.rejects hwithin hlen).ofOctets
      have hrun' : T.decode (Deserialiser.ofOctets b') = .error e d' := hrun
      simp only [asnDerDeserialise, hrun', reduceCtorEq] at hload

/-- What was saved can be loaded exactly within the limits of the decoder. -/
theorem asnDerDeserialise_asnDerSerialise (T : Schema .type) (v : T.Val) (b : Octets)
    (hsaved : asnDerSerialise T v = .ok b) (hlen : b.length < 2 ^ 64)
    (hclear : T.Unambiguous v none ⟨[], .endOfOctets⟩) :
    (∃ v', asnDerDeserialise T b = .ok v') ↔
      T.Within maxStructureDepth v none ⟨[], .endOfOctets⟩ := by
  rw [asnDerSerialise_eq] at hsaved
  obtain ⟨t', henc⟩ : ∃ t', T.encoding v none = .ok (b, t') := by
    cases henc : T.encoding v none with
    | error e => simp [henc, Except.map] at hsaved
    | ok r =>
        rw [henc] at hsaved
        cases hsaved
        exact ⟨r.2, rfl⟩
  have hdecides := (decides T (n := maxStructureDepth) (T.selects_type v) henc hclear).amp
  constructor
  · rintro ⟨v', hload⟩
    by_contra hnot
    obtain ⟨e, d', hrun⟩ := (hdecides.rejects hnot hlen).ofOctets
    have hrun' : T.decode (Deserialiser.ofOctets b) = .error e d' := hrun
    simp only [asnDerDeserialise, hrun', reduceCtorEq] at hload
  · intro hwithin
    obtain ⟨v', d, hrun, -⟩ := (hdecides.accepts hwithin).ofOctets
    have hrun' : T.decode (Deserialiser.ofOctets b) = .ok v' _ := hrun
    exact ⟨v', by simp only [asnDerDeserialise, hrun']⟩

omit [KeyOrder] in
/-- An absent optional before octets of another type can be loaded. -/
theorem asnDerDeserialise_asnDerSerialise_absent :
    let _ := KeyOrder.unordered
    let T := sequence (fields (optional (prim .bool)) (prim .octets))
    (∃ v', asnDerDeserialise T [0x30, 0x03, 0x04, 0x01, 0x07] = .ok v') ↔
      T.Within maxStructureDepth (none, [0x07]) none ⟨[], .endOfOctets⟩ :=
  @asnDerDeserialise_asnDerSerialise .unordered _ _ _ (by decide +kernel) (by decide)
    ⟨⟨_, rfl, Or.inr ⟨⟨.universal, AsnTag.octetString, 1, false⟩, [0x07], by decide +kernel,
      by decide, by decide⟩⟩, trivial⟩

omit [KeyOrder] in
/-- Values that are saved and cannot be loaded: an empty integer, and the time in
the last second before 1970. -/
theorem asnDerDeserialise_throws :
    let _ := KeyOrder.unordered
    let time := FixedInt.cast nanoseconds (-1000000000)
    (asnDerSerialise (prim .integer) [] = .ok [0x02, 0x00] ∧
      asnDerDeserialise (prim .integer) [0x02, 0x00] = .error Error.integerEmpty) ∧
    let text := [0x31, 0x39, 0x36, 0x39, 0x31, 0x32, 0x33, 0x31, 0x32, 0x33, 0x35, 0x39, 0x35,
      0x39, 0x5a]
    asnDerSerialise (prim .time) time = .ok (0x18 :: 0x0f :: text) ∧
      asnDerDeserialise (prim .time) (0x18 :: 0x0f :: text) = .error Error.illegalTimeRange := by
  decide +kernel

end Schema

end Securepath.Serialisation
