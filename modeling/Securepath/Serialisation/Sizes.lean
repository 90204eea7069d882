import Securepath.Serialisation.AbsentOptional
import Securepath.Serialisation.PacketDeserialiser

/-!
# Sizes of encodings

How many octets an encoding has, as arithmetic over the lengths of the values in
it, and what a `packet_deserialiser` does with a packet that arrives alone.
-/

namespace Securepath.Serialisation

open StateExcept Positional

variable {b c : Octets} {t' : Option TagInfo} {ident : Ident} {k : Bool}

/-- The octets of an element with a content of `n` octets and a tag of one octet. -/
def elementSize (n : Nat) : Nat := 1 + (lengthOctets n).length + n

theorem length_lengthOctets (n : Nat) :
    (lengthOctets n).length = if n > 127 then 2 + (scan n 64 - 1) / 8 else 1 := by
  rw [lengthOctets]
  split
  · simp only [highestBitBlock_unsigned, List.length_cons, ofDigits_length, digits_length,
      Nat.reduceMul]
    omega
  · rfl

theorem scan_mono {n m : Nat} (h : n ≤ m) (hm : m < 2 ^ 64) : scan n 64 ≤ scan m 64 := by
  by_cases hzero : scan n 64 = 0
  · omega
  · have hlow := two_pow_le_of_scan (v := n) (n := 64) (by omega)
    have hhigh := lt_two_pow_scan hm
    have hlt : scan n 64 - 1 < scan m 64 :=
      (Nat.pow_lt_pow_iff_right (by omega : 1 < 2)).mp (lt_of_le_of_lt (hlow.trans h) hhigh)
    omega

/-- A longer content makes a longer element. -/
theorem elementSize_mono {n m : Nat} (h : n ≤ m) (hm : m < 2 ^ 64) :
    elementSize n ≤ elementSize m := by
  have hscan := scan_mono h hm
  simp only [elementSize, length_lengthOctets]
  split <;> split <;> omega

theorem le_elementSize (n : Nat) : n ≤ elementSize n := by
  rw [elementSize]
  omega

theorem elementSize_le (n : Nat) : elementSize n ≤ 10 + n := by
  have := scan_le n 64
  simp only [elementSize, length_lengthOctets]
  split <;> omega

theorem length_element (htag : ident.2 ≤ 30) (hlen : c.length < 2 ^ 64) :
    (element ident k c).length = elementSize c.length := by
  rw [element, sizeOf64_eq hlen, headerOctets, tagOctets, if_neg (by simpa using htag)]
  simp only [elementSize, List.length_append, List.length_cons, List.length_nil]

/-! ## Plain values -/

/-- The octets of the content. -/
def Prim.size : (p : Prim) → p.Val → Nat
  | .string, v => List.length v
  | .octets, v => List.length v
  | .bool, _ => 1
  | p, v => match p.content v with
      | .ok c => c.length
      | .error _ => 0

theorem Prim.size_eq {p : Prim} {v : p.Val} (h : p.content v = .ok c) : p.size v = c.length := by
  cases p with
  | string =>
      obtain ⟨-, rfl⟩ := Prim.text_eq_ok.mp h
      rfl
  | octets =>
      obtain ⟨-, rfl⟩ := Prim.text_eq_ok.mp h
      rfl
  | bool =>
      rw [Prim.content_bool] at h
      cases h
      rfl
  | _ => simp only [size, h]

theorem Prim.defaultTag_le (p : Prim) : p.defaultTag ≤ 30 := by
  cases p <;> rw [defaultTag] <;> decide

namespace Schema

/-- The octets of a plain value. -/
def size : {k : Kind} → (T : Schema k) → T.Val → Nat
  | _, prim p, v => elementSize (p.size v)
  | _, trailing, v => List.length v
  | _, fields a b, v => a.size v.1 + b.size v.2
  | _, sequence body, v => elementSize (body.size v)
  | _, container _ elem, v => elementSize ((List.map elem.size v).sum)
  | _, _, _ => 0

theorem length_elements {α : Type} {enc : α → Encoding} {size : α → Nat}
    (helem : ∀ v t' b, enc v none = .ok (b, t') → size v < 2 ^ 64 → t' = none ∧ b.length = size v)
    {vs : List α} (henc : Encoding.elements enc vs none = .ok (b, t'))
    (hsize : (vs.map size).sum < 2 ^ 64) : b.length = (vs.map size).sum := by
  induction vs generalizing b with
  | nil =>
      cases henc
      rfl
  | cons v vs ih =>
      obtain ⟨b₁, t₁, b₂, h₁, h₂, rfl⟩ := Encoding.seq_eq_ok.mp henc
      rw [List.map_cons, List.sum_cons] at hsize
      obtain ⟨rfl, hv⟩ := helem v t₁ b₁ h₁ (by omega)
      rw [List.length_append, hv, ih h₂ (by omega), List.map_cons, List.sum_cons]

theorem length_encoding {k : Kind} (T : Schema k) (hplain : T.IsPlain = true) {v : T.Val}
    (henc : T.encoding v none = .ok (b, t')) (hsize : T.size v < 2 ^ 64) :
    b.length = T.size v := by
  induction T generalizing t' b with
  | prim p =>
      simp only [encoding, Prim.encoding] at henc
      split at henc
      · cases henc
      · rename_i content hc
        cases henc
        rw [size, Prim.size_eq hc] at hsize ⊢
        exact length_element p.defaultTag_le (lt_of_le_of_lt (le_elementSize _) hsize)
  | trailing =>
      cases henc
      rfl
  | nothing =>
      cases henc
      rfl
  | fields a b iha ihb =>
      simp only [IsPlain, Bool.and_eq_true] at hplain
      rw [size] at hsize ⊢
      obtain ⟨b₁, t₁, b₂, h₁, h₂, rfl⟩ := Encoding.seq_eq_ok.mp henc
      obtain rfl := pending_of_isPlain a hplain.1 h₁
      rw [List.length_append, iha hplain.1 h₁ (by omega), ihb hplain.2 h₂ (by omega)]
  | sequence body ih =>
      rw [size] at hsize ⊢
      obtain ⟨content, hc, rfl⟩ := Encoding.sequence_eq_ok.mp henc
      have hlen := ih hplain hc (lt_of_le_of_lt (le_elementSize _) hsize)
      rw [← hlen] at hsize ⊢
      exact length_element (by decide) (lt_of_le_of_lt (le_elementSize _) hsize)
  | container c elem ih =>
      rw [size] at hsize ⊢
      obtain ⟨content, hc, rfl⟩ := Encoding.sequence_eq_ok.mp henc
      have helem : ∀ v t' b, elem.encoding v none = .ok (b, t') → elem.size v < 2 ^ 64 →
          t' = none ∧ b.length = elem.size v :=
        fun v t' b h₁ h₂ => ⟨pending_of_isPlain elem hplain h₁, ih hplain h₁ h₂⟩
      have hlen := length_elements helem hc (lt_of_le_of_lt (le_elementSize _) hsize)
      rw [← hlen] at hsize ⊢
      exact length_element (by decide) (lt_of_le_of_lt (le_elementSize _) hsize)
  | optional T ih => cases hplain
  | tagged tt tag T ih => cases hplain
  | choice alts ih => cases hplain
  | noAlternative => cases hplain
  | alternative tag T rest ih ihrest => cases hplain

end Schema

/-! ## A packet that arrives alone -/

/-- An element that the decoder accepts is as long as it says. -/
theorem elementLength_element (hlen : c.length < 2 ^ 64)
    (hfit : c.length ≤ AsnHeader.maxSize ⟨ident.1, ident.2, c.length, k⟩) :
    elementLength (element ident k c) = (element ident k c).length := by
  have hparse := (parseHeader_headerOctets (h := ⟨ident.1, ident.2, c.length, k⟩) hlen c).trans
    (if_pos hfit)
  have hdeclared : declaredLength (element ident k c) = (element ident k c).length := by
    rw [element, sizeOf64_eq hlen, declaredLength, hparse]
    simp only [List.length_append]
    omega
  rw [elementLength, hdeclared, if_pos le_rfl]

/-- `do_check` of one packet on an empty buffer. -/
theorem doCheck_alone {ε σ : Type} (callback : Callback ε σ) {max : Nat} {t : σ} (hne : b ≠ [])
    (hall : elementLength b = b.length) :
    doCheck callback b (.ofMax max, t) =
      if b.length > max then .error .maxBufferSize (.ofMax max, t)
      else match callback (firstCall b).deser b t with
        | .ok () t' => .ok () (.ofMax max, t')
        | .error e t' => .error (.callback e) (.ofMax max, t') := by
  by_cases hbig : b.length > max
  · rw [if_pos hbig, doCheck]
    simp only [PacketDeserialiserBase.ofMax, List.length_nil, Nat.zero_add, if_pos hbig]
  · have hzero : elementLength [] = 0 := Nat.le_zero.mp (elementLength_le [])
    have hne' : elementLength b ≠ 0 := by
      rw [hall]
      exact (List.length_pos_iff.mpr hne).ne'
    have hrest : b.drop (elementLength b) = [] := by rw [hall, List.drop_length]
    have hpacket : (firstCall b).packet = b := by
      simp only [firstCall, hall, List.take_length]
    have hremainder : derFraming.remainder b = [] := by
      rw [derFraming.remainder_of_first_ne_zero hne']
      change derFraming.remainder (b.drop (elementLength b)) = []
      rw [hrest, derFraming.remainder_of_first_eq_zero (l := []) hzero]
    rw [if_neg hbig, doCheck_spec callback b (.ofMax max) t
      (by simp only [PacketDeserialiserBase.ofMax, List.length_nil]; omega)]
    simp only [PacketDeserialiserBase.ofMax, List.nil_append, hremainder]
    rw [callsOf_of_ne_zero hne', hrest, callsOf_of_eq_zero hzero, runCalls, hpacket]
    cases hcall : callback (firstCall b).deser b t with
    | ok u t' => rw [bind_of_ok hcall]; rfl
    | error e t' => rw [bind_of_error hcall]; rfl

end Securepath.Serialisation
