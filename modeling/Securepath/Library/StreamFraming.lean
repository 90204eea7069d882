import Mathlib

/-!
# Cutting a stream into frames

A `Framing` tells how long the frame at the front of a list is, or 0 when it
is not all there. Cutting a stream piece by piece, keeping what is left over
for the next piece, gives the frames of the whole stream: `frames_append` and
`remainder_append`.
-/

/-- The length of the frame at the front of a list; more input does not change
the answer once there is one. -/
structure Framing (τ : Type) where
  first : List τ → Nat
  first_le : ∀ l, first l ≤ l.length
  first_append : ∀ l x, first l ≠ 0 → first (l ++ x) = first l

namespace Framing

variable {τ : Type} (F : Framing τ)

theorem length_drop_first {l : List τ} (h : F.first l ≠ 0) :
    (l.drop (F.first l)).length < l.length := by
  have := F.first_le l
  rw [List.length_drop]
  omega

/-- The whole frames of a list. -/
def frames (l : List τ) : List (List τ) :=
  if F.first l = 0 then []
  else l.take (F.first l) :: frames (l.drop (F.first l))
termination_by l.length
decreasing_by exact F.length_drop_first ‹_›

/-- What is left behind the whole frames. -/
def remainder (l : List τ) : List τ :=
  if F.first l = 0 then l else remainder (l.drop (F.first l))
termination_by l.length
decreasing_by exact F.length_drop_first ‹_›

theorem frames_of_first_eq_zero {l : List τ} (h : F.first l = 0) : F.frames l = [] := by
  rw [frames, if_pos h]

theorem remainder_of_first_eq_zero {l : List τ} (h : F.first l = 0) : F.remainder l = l := by
  rw [remainder, if_pos h]

theorem frames_of_first_ne_zero {l : List τ} (h : F.first l ≠ 0) :
    F.frames l = l.take (F.first l) :: F.frames (l.drop (F.first l)) := by
  rw [frames, if_neg h]

theorem remainder_of_first_ne_zero {l : List τ} (h : F.first l ≠ 0) :
    F.remainder l = F.remainder (l.drop (F.first l)) := by
  rw [remainder, if_neg h]

/-- Nothing is lost or added. -/
theorem flatten_frames_append_remainder (l : List τ) :
    (F.frames l).flatten ++ F.remainder l = l := by
  induction l using frames.induct F with
  | case1 l h => simp [F.frames_of_first_eq_zero h, F.remainder_of_first_eq_zero h]
  | case2 l h ih =>
      rw [F.frames_of_first_ne_zero h, F.remainder_of_first_ne_zero h, List.flatten_cons,
        List.append_assoc, ih, List.take_append_drop]

/-- The remainder holds no whole frame. -/
theorem first_remainder (l : List τ) : F.first (F.remainder l) = 0 := by
  induction l using remainder.induct F with
  | case1 l h => rwa [F.remainder_of_first_eq_zero h]
  | case2 l h ih => rwa [F.remainder_of_first_ne_zero h]

/-- Cutting the frames of `l` first and going on with what was left over is
cutting the frames of the whole. -/
theorem frames_append (l x : List τ) :
    F.frames (l ++ x) = F.frames l ++ F.frames (F.remainder l ++ x) := by
  induction l using frames.induct F with
  | case1 l h => rw [F.frames_of_first_eq_zero h, F.remainder_of_first_eq_zero h, List.nil_append]
  | case2 l h ih =>
      have hle := F.first_le l
      have happ := F.first_append l x h
      rw [F.frames_of_first_ne_zero h, F.remainder_of_first_ne_zero h,
        F.frames_of_first_ne_zero (happ ▸ h), happ, List.take_append_of_le_length hle,
        List.drop_append_of_le_length hle, ih, List.cons_append]

theorem remainder_append (l x : List τ) :
    F.remainder (l ++ x) = F.remainder (F.remainder l ++ x) := by
  induction l using remainder.induct F with
  | case1 l h => rw [F.remainder_of_first_eq_zero h]
  | case2 l h ih =>
      have hle := F.first_le l
      have happ := F.first_append l x h
      rw [F.remainder_of_first_ne_zero h, F.remainder_of_first_ne_zero (happ ▸ h), happ,
        List.drop_append_of_le_length hle, ih]

/-- The remainder is what is behind the frames. -/
theorem drop_frames (l : List τ) :
    l.drop (l.length - (F.remainder l).length) = F.remainder l := by
  have hall := F.flatten_frames_append_remainder l
  have hlen := congrArg List.length hall
  rw [List.length_append] at hlen
  have hcut : l.length - (F.remainder l).length = (F.frames l).flatten.length := by omega
  have hdrop := congrArg (List.drop (F.frames l).flatten.length) hall
  rw [List.drop_left] at hdrop
  rw [hcut, ← hdrop]

/-- Frames that fill the list leave nothing. -/
theorem remainder_eq_nil {l : List τ} (h : (F.frames l).flatten = l) : F.remainder l = [] := by
  have hall := F.flatten_frames_append_remainder l
  rw [h] at hall
  exact List.append_right_eq_self.mp hall

end Framing
