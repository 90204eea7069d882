import Securepath.Serialisation.Injectivity

/-!
# Optionals before an element of their own kind

An absent optional may stand before an element with its own class and tag. The
decoder then enters that element, and takes the optional for absent if a member
is not there. `Misses m n b after t t'` says that `m` gives up on `b` in this
way; each construct on the way to the member has a rule.
-/

namespace Securepath.Serialisation

open StateExcept BufferedStream

variable {α β : Type} {saved : List Peek} {data : Octets} {d : Deserialiser}
  {n : Nat} {b b₁ b₂ c : Octets} {after : After} {t t' t₁ : Option TagInfo}

/-- `m` throws the error that an optional catches. -/
def Misses (m : Dec α) (n : Nat) (b : Octets) (after : After) (t t' : Option TagInfo) : Prop :=
  ∀ saved data d, Ready saved data d b after → d.currentTag = t →
    d.seqPos.length + n = maxStructureDepth →
    ∃ e s, m d = .error e { d with s := s, currentTag := t' } ∧ Represents saved data s ∧
      e.isElementNotPresent = true

/-- What is behind nothing is ahead. -/
theorem Ready.ahead_of_behind (h : Ready saved data d [] ⟨b ++ after.octets, after.behind⟩) :
    Ready saved data d b after := by
  obtain ⟨rest, hrest, hbehind⟩ := h.ahead
  refine ⟨h.represents, h.ex, rest, by simpa using hrest, ?_⟩
  cases hb : after.behind <;> simp only [hb] at hbehind ⊢
  · simpa [Nat.add_assoc] using hbehind
  · exact hbehind
  · exact hbehind

namespace Misses

variable {m : Dec α} {P : α → Prop}

theorem amp (h : Misses m n b after t t') : Misses (amp m) n b after t t' := by
  intro saved data d hready htag hdepth
  obtain ⟨e, s, hrun, hrep, he⟩ := h saved data d hready htag hdepth
  exact ⟨e, s, amp_of_error hrun, hrep, he⟩

theorem bind_left (h : Misses m n b after t t') (f : α → Dec β) :
    Misses (m >>= f) n b after t t' := by
  intro saved data d hready htag hdepth
  obtain ⟨e, s, hrun, hrep, he⟩ := h saved data d hready htag hdepth
  exact ⟨e, s, bind_of_error hrun, hrep, he⟩

theorem bind_right (h₁ : Accepts m P n b₁ ⟨b₂ ++ after.octets, after.behind⟩ t t₁)
    {f : α → Dec β} (h₂ : ∀ v, P v → Misses (f v) n b₂ after t₁ t') :
    Misses (m >>= f) n (b₁ ++ b₂) after t t' := by
  intro saved data d hready htag hdepth
  obtain ⟨v, s, hrun, hrep, hpos, hP⟩ := h₁ saved data d hready.first htag hdepth
  obtain ⟨e, s', hrun', hrep', he⟩ := h₂ v hP saved data _ (hready.second hrep hpos t₁) rfl hdepth
  exact ⟨e, s', by rw [bind_of_ok hrun, hrun'], hrep', he⟩

/-- Another element is ahead. -/
theorem of_startsWith {ident : Ident} (h : StartsWith m ident t t')
    (hdiffers : After.Differs ⟨b ++ after.octets, after.behind⟩ ident)
    (hfits : HeaderFits (b ++ after.octets)) : Misses m n b after t t' := by
  intro saved data d hready htag _
  have hready' : Ready saved data d ([] ++ b) after := hready
  rcases decodeHeaderOf_differs (hready'.first.withTag t') hdiffers with
    ⟨-, e, s, hrun, hrep, he⟩ | ⟨hnot, -⟩
  · exact ⟨e, s, h d e _ htag hrun, hrep, he⟩
  · exact absurd hfits hnot

/-- The destructor of the sequence goes to its end. -/
theorem inSequence {body : Dec α} (hbody : Misses body n c .endOfSequence none t')
    (hc : c.length ≤ maxConstructedSize) :
    Misses (inSequence body) (n + 1) (element (getIdent t AsnTag.sequence) true c) after t t' := by
  intro saved data d hready htag hdepth
  have hlen : c.length < 2 ^ 64 := by
    simp only [maxConstructedSize] at hc
    omega
  obtain ⟨rest, -, hdata⟩ := hready.length_eq
  rcases startConstructed_ready Error.invalidSequence (hready.withTag none) hlen with
    ⟨hbad, -⟩ | ⟨-, -, s, hstart, hready₁⟩
  · simp only at hbad
    omega
  -- the body misses, `end_sequence` goes to the end, and the error goes on
  · obtain ⟨e, s₂, hrun, hrep₂, he⟩ := hbody saved data _ hready₁ rfl
      (by simp only [List.length_cons]; omega)
    obtain ⟨s₃, hpop, hrep₃, -⟩ := pop_of_le
      (d := { d with s := s₂, currentTag := t', seqPos :=
        (d.pos + (element (getIdent t AsnTag.sequence) true c).length) :: d.seqPos }) hrep₂ rfl
      (by omega)
    refine ⟨e, s₃, ?_, hrep₃, he⟩
    rw [Serialisation.inSequence, bind_of_ok (useCurrentTag_apply d), htag, startSequence,
      bind_of_ok hstart, withDestructor, scopeExit_of_error hrun, endSequence]
    have hpop' : pop { d with s := s₂, currentTag := t', seqPos :=
        (({ d with currentTag := none } : Deserialiser).pos +
          (element (getIdent t AsnTag.sequence) true c).length) :: d.seqPos } = _ := hpop
    rw [hpop']

/-- The optional goes back to where it started. -/
theorem optional (h : Misses m n b after t t') :
    Accepts (handleOptional none m) (· = none) n [] ⟨b ++ after.octets, after.behind⟩ t t' := by
  intro saved data d hready htag hdepth
  obtain ⟨hrep, hpos⟩ := startPeek_spec hready.represents
  have hready' : Ready _ data { d with s := d.s.startPeek.2 } b after :=
    Ready.ahead_of_behind ⟨hrep, hready.ex, hready.ahead⟩
  obtain ⟨e, s, hrun, hrep', he⟩ :=
    (h.bind_left fun v => pure (some v)) _ data _ hready' htag hdepth
  obtain ⟨hrep'', hpos'⟩ := endPeek_restore hrep'
  exact ⟨none, s.endPeek d.s.startPeek.1 false, catching_of_caught (scopeExit_of_error hrun) he,
    hrep'', hpos', rfl⟩

end Misses

/-- What is refused ahead is refused behind nothing. -/
theorem Rejects.behind {m : Dec α} (h : Rejects m n b after t) :
    Rejects m n [] ⟨b ++ after.octets, after.behind⟩ t :=
  fun saved data d hready htag hdepth => h saved data d hready.ahead_of_behind htag hdepth

/-- An absent optional in front of `b`. -/
theorem Decides.missing {m : Dec α} {Ok : Prop} (hmiss : Ok → Misses m n b after t t')
    (hrejects : ¬ Ok → Rejects m n b after t) :
    Decides (handleOptional none m) Ok (· = none) n [] ⟨b ++ after.octets, after.behind⟩ t t' :=
  ⟨fun hok => (hmiss hok).optional, fun hok _ => ((hrejects hok).optional).behind⟩

/-! ## Limits of whole elements -/

namespace Schema

/-- No optional, no choice and no tag, and only numbers and strings inside. -/
def IsPlain : {k : Kind} → Schema k → Bool
  | _, prim .bool => true
  | _, prim (.int _) => true
  | _, prim .string => true
  | _, prim .octets => true
  | _, trailing => true
  | _, nothing => true
  | _, fields a b => a.IsPlain && b.IsPlain
  | _, sequence body => body.IsPlain
  | _, container _ elem => elem.IsPlain
  | _, _ => false

/-- How many elements inside one another a plain value has. -/
def depth : {k : Kind} → Schema k → Nat
  | _, fields a b => max a.depth b.depth
  | _, sequence body => body.depth + 1
  | _, container _ elem => elem.depth + 1
  | _, _ => 0

theorem each_of_forall {enc : α → Encoding} {P : α → Option TagInfo → After → Prop}
    {vs : List α} (h : ∀ v ∈ vs, ∀ t after, P v t after) (t : Option TagInfo) :
    Encoding.Each enc P vs t := by
  induction vs generalizing t with
  | nil => trivial
  | cons v vs ih =>
      exact ⟨h v (List.mem_cons_self ..) _ _, ih (fun w hw => h w (List.mem_cons_of_mem _ hw)) _⟩

/-- What holds of every element that fits holds of those of a container that does. -/
theorem each_of_elements {enc : α → Encoding} {Ok : α → Option TagInfo → After → Prop} {size : Nat}
    (helem : ∀ v t t' b after, enc v t = .ok (b, t') → b.length ≤ size → Ok v t after)
    {vs : List α} (henc : Encoding.elements enc vs t = .ok (b, t')) (hlen : b.length ≤ size) :
    Encoding.Each enc Ok vs t := by
  induction vs generalizing t b with
  | nil => trivial
  | cons v vs ih =>
      obtain ⟨b₁, t₁, b₂, h₁, h₂, rfl⟩ := Encoding.seq_eq_ok.mp henc
      rw [List.length_append] at hlen
      refine ⟨helem v t t₁ b₁ _ h₁ (by omega), ?_⟩
      rw [Encoding.pending_of_ok h₁]
      exact ih h₂ (by omega)

/-- A plain value whose octets fit into an element is within the limits. -/
theorem within_of_isPlain {k : Kind} (T : Schema k) (hplain : T.IsPlain = true) {v : T.Val}
    (henc : T.encoding v t = .ok (b, t')) (hlen : b.length ≤ maxConstructedSize)
    (hdepth : T.depth ≤ n) (hn : n < maxStructureDepth) : T.Within n v t after := by
  induction T generalizing n t t' b after with
  | prim p =>
      simp only [encoding, Prim.encoding] at henc
      split at henc
      · cases henc
      · rename_i content hc
        cases p with
        | string => exact (Prim.text_eq_ok.mp hc).1
        | octets => exact (Prim.text_eq_ok.mp hc).1
        | bool => trivial
        | int t => trivial
        | integer => cases hplain
        | real f => cases hplain
        | time => cases hplain
  | trailing => exact hn
  | nothing => trivial
  | fields a b iha ihb =>
      simp only [IsPlain, Bool.and_eq_true] at hplain
      simp only [depth] at hdepth
      obtain ⟨b₁, t₁, b₂, h₁, h₂, rfl⟩ := Encoding.seq_eq_ok.mp henc
      rw [List.length_append] at hlen
      refine ⟨iha hplain.1 h₁ (by omega) (by omega) hn, ?_⟩
      rw [Encoding.pending_of_ok h₁]
      exact ihb hplain.2 h₂ (by omega) (by omega) hn
  | sequence body ih =>
      simp only [depth] at hdepth
      obtain ⟨content, hc, rfl⟩ := Encoding.sequence_eq_ok.mp henc
      have hle := (element_length _ true content).trans hlen
      refine ⟨by omega, ?_, ih hplain hc hle (by omega) (by omega)⟩
      rw [Encoding.octets_of_ok hc]
      exact hle
  | container c elem ih =>
      simp only [depth] at hdepth
      obtain ⟨content, hc, rfl⟩ := Encoding.sequence_eq_ok.mp henc
      have hle := (element_length _ true content).trans hlen
      refine ⟨by omega, ?_, ?_⟩
      · rw [Encoding.octets_of_ok hc]
        exact hle
      -- an element is no longer than its container
      · have helem : ∀ v t t' b after, elem.encoding v t = .ok (b, t') →
            b.length ≤ maxConstructedSize →
              (elem.encoding v).octets t ≠ [] → elem.Within (n - 1) v t after :=
          fun v t t' b after h₁ h₂ _ => ih hplain h₁ h₂ (by omega) (by omega)
        exact each_of_elements helem hc hle
  | optional T ih => cases hplain
  | tagged tt tag T ih => cases hplain
  | choice alts ih => cases hplain
  | noAlternative => cases hplain
  | alternative tag T rest ih ihrest => cases hplain

/-- No tag is left pending. -/
theorem pending_of_isPlain {k : Kind} (T : Schema k) (hplain : T.IsPlain = true) {v : T.Val}
    (henc : T.encoding v none = .ok (b, t')) : t' = none := by
  induction T generalizing t' b with
  | prim p =>
      simp only [encoding, Prim.encoding] at henc
      split at henc <;> cases henc
      rfl
  | trailing =>
      cases henc
      rfl
  | nothing =>
      cases henc
      rfl
  | fields a b iha ihb =>
      simp only [IsPlain, Bool.and_eq_true] at hplain
      obtain ⟨b₁, t₁, b₂, h₁, h₂, rfl⟩ := Encoding.seq_eq_ok.mp henc
      obtain rfl := iha hplain.1 h₁
      exact ihb hplain.2 h₂
  | sequence body ih =>
      obtain ⟨content, hc, rfl⟩ := Encoding.sequence_eq_ok.mp henc
      exact ih hplain hc
  | container c elem ih =>
      obtain ⟨content, hc, rfl⟩ := Encoding.sequence_eq_ok.mp henc
      clear henc
      induction v generalizing content with
      | nil =>
          cases hc
          rfl
      | cons e es ihes =>
          obtain ⟨b₁, t₁, b₂, h₁, h₂, rfl⟩ := Encoding.seq_eq_ok.mp hc
          obtain rfl := ih hplain h₁
          exact ihes _ h₂
  | optional T ih => cases hplain
  | tagged tt tag T ih => cases hplain
  | choice alts ih => cases hplain
  | noAlternative => cases hplain
  | alternative tag T rest ih ihrest => cases hplain

/-- The octets of a plain value that fit into an element are decoded. -/
theorem accepts_of_isPlain [KeyOrder] {T : Schema .type} (hplain : T.IsPlain = true) {v : T.Val}
    (henc : T.encoding v none = .ok (b, t')) (hlen : b.length ≤ maxConstructedSize)
    (hdepth : T.depth ≤ n) (hn : n < maxStructureDepth) (hclear : T.Unambiguous v none after)
    (hexact : T.Exact v none) : Accepts (T.deserialise ()) (· = v) n b after none none := by
  obtain rfl := pending_of_isPlain T hplain henc
  refine ((decides T (T.selects_type v) henc hclear).accepts ?_).mono fun v' hv' => hv' hexact
  exact within_of_isPlain T hplain henc hlen hdepth hn

end Schema

/-! ## One member after the other -/

/-- `s & a & b`. -/
def both (a : Dec α) (b : Dec β) : Dec (α × β) := do
  let x ← amp a
  let y ← amp b
  return (x, y)

section Both

variable {ma : Dec α} {mb : Dec β} {P : α → Prop} {Q : β → Prop}

theorem Accepts.both (ha : Accepts ma P n b₁ ⟨b₂ ++ after.octets, after.behind⟩ t t₁)
    (hb : Accepts mb Q n b₂ after t₁ t') :
    Accepts (both ma mb) (fun v => P v.1 ∧ Q v.2) n (b₁ ++ b₂) after t t' := by
  refine .bind ha.amp fun x hx => ?_
  rw [← b₂.append_nil]
  refine .bind (P := Q) ?_ fun y hy => .pure ⟨hx, hy⟩
  simpa using hb.amp

theorem Rejects.both_left (ha : Rejects ma n b₁ ⟨b₂ ++ after.octets, after.behind⟩ t) (mb : Dec β) :
    Rejects (both ma mb) n (b₁ ++ b₂) after t :=
  ha.amp.bind_left _

theorem Rejects.both_right (ha : Accepts ma P n b₁ ⟨b₂ ++ after.octets, after.behind⟩ t t₁)
    (hb : Rejects mb n b₂ after t₁) : Rejects (both ma mb) n (b₁ ++ b₂) after t := by
  refine .bind_right ha.amp fun x _ => ?_
  rw [← b₂.append_nil]
  refine .bind_left ?_ _
  simpa using hb.amp

theorem Misses.both_right (ha : Accepts ma P n b₁ ⟨b₂ ++ after.octets, after.behind⟩ t t₁)
    (hb : Misses mb n b₂ after t₁ t') : Misses (both ma mb) n (b₁ ++ b₂) after t t' :=
  .bind_right ha.amp fun _ _ => hb.amp.bind_left _

theorem StartsWith.both {ident : Ident} (h : StartsWith ma ident t t') (mb : Dec β) :
    StartsWith (both ma mb) ident t t' :=
  h.amp.bind _

end Both

namespace Schema

variable {T U : Schema .type} {ma : Dec T.Val} {mb : Dec U.Val} {v : (fields T U).Val}

/-- The first member, given what is behind it, and then the others. -/
theorem accepts_fields (henc : (fields T U).encoding v none = .ok (b, t'))
    (hlen : b.length ≤ maxConstructedSize)
    (hhead : ∀ b₁ t₁ b₂, T.encoding v.1 none = .ok (b₁, t₁) → U.encoding v.2 t₁ = .ok (b₂, t') →
      b₁.length ≤ maxConstructedSize → b₂.length ≤ maxConstructedSize →
      t₁ = none ∧ Accepts ma (· = v.1) n b₁ ⟨b₂ ++ after.octets, after.behind⟩ none none)
    (hrest : ∀ b₂, U.encoding v.2 none = .ok (b₂, t') → b₂.length ≤ maxConstructedSize →
      Accepts mb (· = v.2) n b₂ after none none) :
    Accepts (both ma mb) (· = v) n b after none none := by
  obtain ⟨b₁, t₁, b₂, h₁, h₂, rfl⟩ := Encoding.seq_eq_ok.mp henc
  rw [List.length_append] at hlen
  obtain ⟨rfl, hma⟩ := hhead b₁ t₁ b₂ h₁ h₂ (by omega) (by omega)
  exact (hma.both (hrest b₂ h₂ (by omega))).mono fun w hw => Prod.ext hw.1 hw.2

/-- A first member that is plain. -/
theorem accepts_plain_fields [KeyOrder] (hplain : T.IsPlain = true)
    (henc : (fields T U).encoding v none = .ok (b, t')) (hlen : b.length ≤ maxConstructedSize)
    (hdepth : T.depth ≤ n) (hn : n < maxStructureDepth)
    (hclear : ∀ after, T.Unambiguous v.1 none after) (hexact : T.Exact v.1 none)
    (hrest : ∀ b₂, U.encoding v.2 none = .ok (b₂, t') → b₂.length ≤ maxConstructedSize →
      Accepts mb (· = v.2) n b₂ after none none) :
    Accepts (both (T.deserialise ()) mb) (· = v) n b after none none :=
  accepts_fields henc hlen (fun _ _ _ h₁ _ hle _ => ⟨pending_of_isPlain T hplain h₁,
    accepts_of_isPlain hplain h₁ hle hdepth hn (hclear _) hexact⟩) hrest

end Schema

end Securepath.Serialisation
