import Securepath.Library.Bounds
import Securepath.Library.Observation
import Mathlib.Data.List.Basic
import Mathlib.Tactic.Common

/-!
# The input line

`input_handler` (`console/input_handler.cpp`): a line of text of which a window of
`max_size_` columns is shown. The window starts at `str_pos_`, the cursor stands
`cursor_pos_` columns into it, and the lines committed before can be browsed with
the arrows.

Every operation is followed with the places it touches, so that "in bounds" is a
statement about the list of these. `Inv` is what every operation keeps, and what
the constructor does not establish for a text shorter than the window.
-/

namespace Securepath.Console

open Bounds (Access)

/-- `input_key`, as far as the input line tells the keys apart. -/
inductive InputKey where
  | none
  | backspace
  | leftArrow
  | rightArrow
  | upArrow
  | downArrow
  | del
  | home
  | end
  | insert
  | other
  deriving DecidableEq, Repr

/-- `input`: the character if there was one, and the special key. -/
structure Input (α : Type) where
  ch : Option α := Option.none
  key : InputKey := .none

/-- `visible_change`. -/
structure VisibleChange (α : Type) where
  pos : Nat := 0
  str : List α := []
  cursorPos : Nat := 0

structure InputHandler (α : Type) where
  maxSize : Nat
  str : List α
  strPos : Nat
  cursorPos : Nat
  insertMode : Bool := true
  history : List (List α) := []
  historyPos : Option Nat := Option.none
  tempStr : List α := []

/-- What an operation leaves, what it returns and what it touched. -/
structure Outcome (α : Type) where
  handler : InputHandler α
  change : VisibleChange α := {}
  accesses : List Access := []

namespace InputHandler

variable {α : Type}

/-- The constructor. A text that fills the window is shown by its end; for a
shorter one the window starts behind the text, where `set_string` has 0. -/
def ofText (maxSize : Nat) (text : List α) : InputHandler α where
  maxSize := maxSize
  str := text
  strPos := if maxSize ≤ text.length then text.length - maxSize + 1 else text.length
  cursorPos := if maxSize ≤ text.length then maxSize - 1 else text.length

/-- `visible_string()`, with the view it takes of the string. -/
def visibleString (h : InputHandler α) : List α × Access :=
  let len := if h.str.length - h.strPos < h.maxSize then h.str.length - h.strPos else h.maxSize
  ((h.str.drop h.strPos).take len, ⟨h.strPos, len, h.str.length⟩)

/-- `visible_change{0, visible_string(), cursor_pos_}`. -/
def showAll (h : InputHandler α) (accesses : List Access) : Outcome α :=
  let (view, access) := h.visibleString
  ⟨h, ⟨0, view, h.cursorPos⟩, accesses ++ [access]⟩

/-- `set_string`. -/
def setString (h : InputHandler α) (s : List α) : Outcome α :=
  let h := { h with
    str := s
    strPos := if h.maxSize ≤ s.length then s.length - h.maxSize + 1 else 0
    cursorPos := if h.maxSize ≤ s.length then h.maxSize - 1 else s.length }
  h.showAll []

/-- `set_string(history_[i])`. -/
def recallLine (h : InputHandler α) (i : Nat) : Outcome α :=
  let o := h.setString (h.history.getD i [])
  { o with accesses := ⟨i, 1, h.history.length⟩ :: o.accesses }

/-- The string of `process` with the character added or changed under the cursor. -/
def put (h : InputHandler α) (c : α) : List α × List Access :=
  let at' := h.strPos + h.cursorPos
  if h.str.length ≤ at' then (h.str ++ [c], [])
  else if h.insertMode then (h.str.insertIdx at' c, [⟨at', 0, h.str.length⟩])
  else (h.str.set at' c, [⟨at', 1, h.str.length⟩])

/-- `process` on a printable character. -/
def typed (h : InputHandler α) (c : α) : Outcome α :=
  let access := (h.put c).2
  let h := { h with str := (h.put c).1, cursorPos := h.cursorPos + 1 }
  if h.maxSize ≤ h.cursorPos then
    { h with strPos := h.strPos + 1, cursorPos := h.maxSize - 1 }.showAll access
  else
    -- only the new character is shown
    let first := h.strPos + h.cursorPos - 1
    ⟨h, ⟨h.cursorPos - 1, (h.str.drop first).take 1, h.cursorPos⟩,
      access ++ [⟨first, 1, h.str.length⟩]⟩

/-- `process` on `backspace`. -/
def backspace (h : InputHandler α) : Outcome α :=
  if 0 < h.cursorPos then
    let h := { h with cursorPos := h.cursorPos - 1 }
    let at' := h.strPos + h.cursorPos
    let erased : Access := ⟨at', 1, h.str.length⟩
    let h := { h with str := h.str.eraseIdx at' }
    let (view, access) := h.visibleString
    ⟨h, ⟨h.cursorPos, view.drop h.cursorPos, h.cursorPos⟩,
      [erased, access, ⟨h.cursorPos, 0, view.length⟩]⟩
  else if 0 < h.strPos then
    let h := { h with strPos := h.strPos - 1 }
    let erased : Access := ⟨h.strPos, 1, h.str.length⟩
    { h with str := h.str.eraseIdx h.strPos }.showAll [erased]
  else
    { handler := h }

/-- `process` on `left_arrow`. -/
def leftArrow (h : InputHandler α) : Outcome α :=
  if 0 < h.cursorPos then
    { handler := { h with cursorPos := h.cursorPos - 1 },
      change := { cursorPos := h.cursorPos - 1 } }
  else if 0 < h.strPos then
    { h with strPos := h.strPos - 1 }.showAll []
  else
    { handler := h }

/-- `process` on `right_arrow`. -/
def rightArrow (h : InputHandler α) : Outcome α :=
  if h.strPos + h.cursorPos < h.str.length then
    if h.cursorPos + 1 < h.maxSize then
      { handler := { h with cursorPos := h.cursorPos + 1 },
        change := { cursorPos := h.cursorPos + 1 } }
    -- asked again
    else if h.strPos + h.cursorPos < h.str.length then
      { h with strPos := h.strPos + 1 }.showAll []
    else
      { handler := h }
  else
    { handler := h }

/-- `process` on `up_arrow`. -/
def upArrow (h : InputHandler α) : Outcome α :=
  match h.historyPos with
  | some i =>
      if 0 < i then { h with historyPos := some (i - 1) }.recallLine (i - 1)
      else { handler := h }
  | none =>
      if h.history ≠ [] then
        { h with tempStr := h.str, historyPos := some (h.history.length - 1) }.recallLine
          (h.history.length - 1)
      else
        { handler := h }

/-- `process` on `down_arrow`. -/
def downArrow (h : InputHandler α) : Outcome α :=
  match h.historyPos with
  | some i =>
      -- past the newest line, back to what was being edited
      if h.history.length ≤ i + 1 then
        let o := { h with historyPos := none }.setString h.tempStr
        { o with handler := { o.handler with tempStr := [] } }
      else
        { h with historyPos := some (i + 1) }.recallLine (i + 1)
  | none => { handler := h }

/-- `process` on `del`. -/
def del (h : InputHandler α) : Outcome α :=
  if h.strPos + h.cursorPos < h.str.length then
    { handler := { h with str := h.str.eraseIdx (h.strPos + h.cursorPos) }
      accesses := [⟨h.strPos + h.cursorPos, 1, h.str.length⟩] }
  else
    { handler := h }

/-- `process` on `end`. -/
def toEnd (h : InputHandler α) : Outcome α where
  handler := { h with
    strPos := if h.maxSize ≤ h.str.length then h.str.length - h.maxSize + 1 else 0
    cursorPos := if h.maxSize ≤ h.str.length then h.maxSize - 1 else h.str.length }

/-- `process` on a special key. -/
def pressed (h : InputHandler α) (key : InputKey) : Outcome α :=
  match key with
  | .backspace => h.backspace
  | .leftArrow => h.leftArrow
  | .rightArrow => h.rightArrow
  | .upArrow => h.upArrow
  | .downArrow => h.downArrow
  | .del => h.del
  | .home => { handler := { h with strPos := 0, cursorPos := 0 } }
  | .end => h.toEnd
  | .insert => { handler := { h with insertMode := !h.insertMode } }
  | .none | .other => { handler := h }

/-- `process`; a character that does not print leaves the key to decide. -/
def process (iswprint : α → Bool) (h : InputHandler α) (input : Input α) : Outcome α :=
  match input.ch with
  | some c => if iswprint c then h.typed c else h.pressed input.key
  | none => h.pressed input.key

/-- `clear()`. -/
def clear (h : InputHandler α) : InputHandler α :=
  { h with str := [], tempStr := [], strPos := 0, cursorPos := 0 }

/-- `commit()`. -/
def commit (h : InputHandler α) : InputHandler α :=
  { h with history := h.history ++ [h.str] }.clear

end InputHandler

/-! ## Calls -/

inductive Call (α : Type) where
  | process (input : Input α)
  | setString (s : List α)
  | commit
  | clear

open InputHandler

variable {α : Type}

/-- One call: what it touched and the handler behind it. -/
def Call.step (iswprint : α → Bool) (c : Call α) (h : InputHandler α) :
    List Access × InputHandler α :=
  match c with
  | .process input => ((h.process iswprint input).accesses, (h.process iswprint input).handler)
  | .setString s => ((h.setString s).accesses, (h.setString s).handler)
  | .commit => ([], h.commit)
  | .clear => ([], h.clear)

/-! ## The invariant -/

/-- The cursor stands in the window and in the string or right behind it, and the
place in the history is one. -/
structure Inv (h : InputHandler α) : Prop where
  within : h.strPos + h.cursorPos ≤ h.str.length
  cursor_lt : h.cursorPos < h.maxSize
  history_lt : ∀ i, h.historyPos = some i → i < h.history.length

/-- An operation ended well: `Inv` holds and nothing out of bounds was touched. -/
structure Outcome.Safe (o : Outcome α) : Prop where
  inv : Inv o.handler
  inBounds : ∀ a ∈ o.accesses, a.InBounds

variable {h : InputHandler α}

theorem Inv.safe (hinv : Inv h) {change : VisibleChange α} :
    (⟨h, change, []⟩ : Outcome α).Safe :=
  ⟨hinv, by simp⟩

/-- The view of the window lies in the string. -/
theorem visibleString_inBounds (hstr : h.strPos ≤ h.str.length) :
    h.visibleString.2.InBounds := by
  simp only [visibleString, Access.InBounds]
  split <;> omega

theorem showAll_safe (hinv : Inv h) {accesses : List Access}
    (hbounds : ∀ a ∈ accesses, a.InBounds) : (h.showAll accesses).Safe := by
  constructor
  · exact hinv
  · intro a ha
    rcases List.mem_append.mp ha with ha | ha
    · exact hbounds a ha
    · rw [List.mem_singleton] at ha
      subst ha
      have := hinv.within
      exact visibleString_inBounds (by omega)

/-- `set_string` sets the window anew. -/
theorem setString_safe (hmax : 0 < h.maxSize)
    (hhistory : ∀ i, h.historyPos = some i → i < h.history.length) (s : List α) :
    (h.setString s).Safe := by
  apply showAll_safe
  · constructor
    · dsimp only
      split <;> omega
    · dsimp only
      split <;> omega
    · exact hhistory
  · simp

theorem recallLine_safe (hmax : 0 < h.maxSize)
    (hhistory : ∀ i, h.historyPos = some i → i < h.history.length) {i : Nat}
    (hi : i < h.history.length) : (h.recallLine i).Safe := by
  have hset := setString_safe hmax hhistory (h.history.getD i [])
  constructor
  · exact hset.inv
  · intro a ha
    rcases List.mem_cons.mp ha with rfl | ha
    · exact hi
    · exact hset.inBounds a ha

/-- The string has grown by one or had a character under the cursor. -/
theorem put_spec (hwithin : h.strPos + h.cursorPos ≤ h.str.length) (c : α) :
    h.strPos + h.cursorPos + 1 ≤ (h.put c).1.length ∧ ∀ a ∈ (h.put c).2, a.InBounds := by
  simp only [put]
  split
  · simp only [List.length_append, List.length_singleton]
    exact ⟨by omega, by simp⟩
  · split
    · rw [List.length_insertIdx_of_le_length hwithin]
      exact ⟨by omega, by simpa [Access.InBounds] using hwithin⟩
    · rw [List.length_set]
      refine ⟨by omega, ?_⟩
      intro a ha
      rw [List.mem_singleton] at ha
      subst ha
      simp only [Access.InBounds]
      omega

theorem typed_safe (hinv : Inv h) (c : α) : (h.typed c).Safe := by
  obtain ⟨hwithin, hcursor, hhistory⟩ := hinv
  obtain ⟨hgrown, hbounds⟩ := put_spec hwithin c
  simp only [typed]
  split
  · -- the cursor leaves the window, which moves on
    apply showAll_safe _ hbounds
    constructor
    · dsimp only at *
      omega
    · dsimp only at *
      omega
    · exact hhistory
  · constructor
    · constructor
      · dsimp only at *
        omega
      · dsimp only at *
        omega
      · exact hhistory
    · intro a ha
      rcases List.mem_append.mp ha with ha | ha
      · exact hbounds a ha
      · rw [List.mem_singleton] at ha
        subst ha
        simp only [Access.InBounds]
        omega

theorem backspace_safe (hinv : Inv h) : h.backspace.Safe := by
  obtain ⟨hwithin, hcursor, hhistory⟩ := hinv
  simp only [backspace]
  split
  -- inside the window: what is shown goes on from the cursor
  · rename_i hpos
    have hlen : (h.str.eraseIdx (h.strPos + (h.cursorPos - 1))).length = h.str.length - 1 := by
      apply List.length_eraseIdx_of_lt
      omega
    have hview : ∀ n, h.cursorPos - 1 ≤ n → n ≤ h.str.length - 1 - h.strPos →
        h.cursorPos - 1 ≤ (((h.str.eraseIdx (h.strPos + (h.cursorPos - 1))).drop
          h.strPos).take n).length := by
      intro n hn hle
      rw [List.length_take, List.length_drop, hlen]
      omega
    constructor
    · constructor
      · dsimp only
        omega
      · dsimp only
        omega
      · exact hhistory
    · intro a ha
      simp only [List.mem_cons, List.not_mem_nil, or_false] at ha
      rcases ha with rfl | rfl | rfl
      · simp only [Access.InBounds]
        omega
      · apply visibleString_inBounds
        dsimp only
        omega
      · simp only [Access.InBounds, visibleString, hlen]
        apply hview
        · split <;> omega
        · split <;> omega
  -- at its left edge: the window moves
  · split
    · have hlen : (h.str.eraseIdx (h.strPos - 1)).length = h.str.length - 1 := by
        apply List.length_eraseIdx_of_lt
        omega
      apply showAll_safe
      · constructor
        · dsimp only
          omega
        · exact hcursor
        · exact hhistory
      · intro a ha
        rw [List.mem_singleton] at ha
        subst ha
        simp only [Access.InBounds]
        omega
    · exact Inv.safe ⟨hwithin, hcursor, hhistory⟩

theorem leftArrow_safe (hinv : Inv h) : h.leftArrow.Safe := by
  obtain ⟨hwithin, hcursor, hhistory⟩ := hinv
  simp only [leftArrow]
  split
  · apply Inv.safe
    constructor
    · dsimp only
      omega
    · dsimp only
      omega
    · exact hhistory
  · split
    · apply showAll_safe
      · constructor
        · dsimp only
          omega
        · exact hcursor
        · exact hhistory
      · simp
    · exact Inv.safe ⟨hwithin, hcursor, hhistory⟩

theorem rightArrow_safe (hinv : Inv h) : h.rightArrow.Safe := by
  obtain ⟨hwithin, hcursor, hhistory⟩ := hinv
  simp only [rightArrow]
  split
  · split
    · apply Inv.safe
      constructor
      · dsimp only
        omega
      · assumption
      · exact hhistory
    · -- the inner test repeats the outer one
      apply showAll_safe
      · constructor
        · dsimp only
          omega
        · exact hcursor
        · exact hhistory
      · simp
  · exact Inv.safe ⟨hwithin, hcursor, hhistory⟩

theorem upArrow_safe (hinv : Inv h) : h.upArrow.Safe := by
  obtain ⟨hwithin, hcursor, hhistory⟩ := hinv
  have hmax : 0 < h.maxSize := by omega
  simp only [upArrow]
  split
  · rename_i i hi
    have hlt := hhistory i hi
    split
    · apply recallLine_safe
      · exact hmax
      · intro j hj
        obtain rfl := Option.some.inj hj
        dsimp only
        omega
      · dsimp only
        omega
    · exact Inv.safe ⟨hwithin, hcursor, hhistory⟩
  · split
    · rename_i hne
      have hlen : 0 < h.history.length := List.length_pos_iff.mpr hne
      apply recallLine_safe
      · exact hmax
      · intro j hj
        obtain rfl := Option.some.inj hj
        dsimp only
        omega
      · dsimp only
        omega
    · exact Inv.safe ⟨hwithin, hcursor, hhistory⟩

theorem downArrow_safe (hinv : Inv h) : h.downArrow.Safe := by
  obtain ⟨hwithin, hcursor, hhistory⟩ := hinv
  have hmax : 0 < h.maxSize := by omega
  simp only [downArrow]
  split
  · split
    · have hset : ({ h with historyPos := none }.setString h.tempStr).Safe := by
        apply setString_safe
        · exact hmax
        · intro j hj
          exact absurd hj (by simp)
      constructor
      · exact ⟨hset.inv.within, hset.inv.cursor_lt, hset.inv.history_lt⟩
      · exact hset.inBounds
    · apply recallLine_safe
      · exact hmax
      · intro j hj
        obtain rfl := Option.some.inj hj
        dsimp only
        omega
      · dsimp only
        omega
  · exact Inv.safe ⟨hwithin, hcursor, hhistory⟩

theorem del_safe (hinv : Inv h) : h.del.Safe := by
  obtain ⟨hwithin, hcursor, hhistory⟩ := hinv
  simp only [del]
  split
  · rename_i hlt
    have hlen := List.length_eraseIdx_of_lt hlt
    constructor
    · constructor
      · dsimp only
        omega
      · exact hcursor
      · exact hhistory
    · intro a ha
      rw [List.mem_singleton] at ha
      subst ha
      simp only [Access.InBounds]
      omega
  · exact Inv.safe ⟨hwithin, hcursor, hhistory⟩

theorem pressed_safe (hinv : Inv h) (key : InputKey) : (h.pressed key).Safe := by
  have hwithin := hinv.within
  have hcursor := hinv.cursor_lt
  cases key with
  | backspace => exact backspace_safe hinv
  | leftArrow => exact leftArrow_safe hinv
  | rightArrow => exact rightArrow_safe hinv
  | upArrow => exact upArrow_safe hinv
  | downArrow => exact downArrow_safe hinv
  | del => exact del_safe hinv
  | home =>
      apply Inv.safe
      constructor
      · exact Nat.zero_le _
      · dsimp only
        omega
      · exact hinv.history_lt
  | «end» =>
      apply Inv.safe
      constructor
      · dsimp only
        split <;> omega
      · dsimp only
        split <;> omega
      · exact hinv.history_lt
  | insert =>
      apply Inv.safe
      exact ⟨hwithin, hcursor, hinv.history_lt⟩
  | none => exact Inv.safe hinv
  | other => exact Inv.safe hinv

theorem process_safe (iswprint : α → Bool) (hinv : Inv h) (input : Input α) :
    (h.process iswprint input).Safe := by
  simp only [process]
  split
  · split
    · exact typed_safe hinv _
    · exact pressed_safe hinv _
  · exact pressed_safe hinv _

theorem clear_inv (hinv : Inv h) : Inv h.clear := by
  have := hinv.cursor_lt
  constructor
  · exact Nat.zero_le _
  · dsimp only [clear]
    omega
  · exact hinv.history_lt

/-- A commit only lengthens the history, so that a place in it stays one. -/
theorem commit_inv (hinv : Inv h) : Inv h.commit := by
  have := hinv.cursor_lt
  constructor
  · exact Nat.zero_le _
  · dsimp only [commit, clear]
    omega
  · intro i hi
    have := hinv.history_lt i hi
    simp only [commit, clear, List.length_append]
    omega

/-- Every call keeps `Inv` and touches nothing out of bounds. -/
theorem step_safe (iswprint : α → Bool) (c : Call α) (hinv : Inv h) :
    Inv (c.step iswprint h).2 ∧ ∀ a ∈ (c.step iswprint h).1, a.InBounds := by
  cases c with
  | process input =>
      have hsafe := process_safe iswprint hinv input
      exact ⟨hsafe.inv, hsafe.inBounds⟩
  | setString s =>
      have hcursor := hinv.cursor_lt
      have hsafe := setString_safe (by omega) hinv.history_lt s
      exact ⟨hsafe.inv, hsafe.inBounds⟩
  | commit => exact ⟨commit_inv hinv, by simp [Call.step]⟩
  | clear => exact ⟨clear_inv hinv, by simp [Call.step]⟩

/-- So does every sequence of calls. -/
theorem calls_safe (iswprint : α → Bool) (calls : List (Call α)) (hinv : Inv h) :
    Inv (Observation.after (Call.step iswprint) calls h) ∧
      ∀ as ∈ Observation.observe (Call.step iswprint) calls h, ∀ a ∈ as, a.InBounds := by
  have hstep : ∀ (c : Call α) (h : InputHandler α), Inv h →
      Inv (c.step iswprint h).2 ∧ ∀ a ∈ (c.step iswprint h).1, a.InBounds :=
    fun c _ hinv => step_safe iswprint c hinv
  exact Observation.invariant (P := fun as => ∀ a ∈ as, Access.InBounds a) hstep hinv calls

/-! ## The constructor -/

/-- The constructor establishes `Inv` exactly for a text that is empty or fills the
window. -/
theorem inv_ofText_iff {maxSize : Nat} (hmax : 1 ≤ maxSize) (text : List α) :
    Inv (ofText maxSize text) ↔ text = [] ∨ maxSize ≤ text.length := by
  constructor
  · intro hinv
    have hwithin := hinv.within
    simp only [ofText] at hwithin
    split at hwithin
    · exact Or.inr ‹_›
    · left
      apply List.eq_nil_of_length_eq_zero
      omega
  · intro htext
    have hlen : text.length = 0 ∨ maxSize ≤ text.length := by
      rcases htext with rfl | hfull
      · exact Or.inl rfl
      · exact Or.inr hfull
    constructor
    · simp only [ofText]
      split <;> omega
    · simp only [ofText]
      split <;> omega
    · intro i hi
      exact absurd hi (by simp [ofText])

/-- The line of a new handler is safe under all calls exactly when its text is
empty or fills the window. -/
theorem ofText_safe_iff (iswprint : α → Bool) {maxSize : Nat} (hmax : 1 ≤ maxSize)
    (text : List α) :
    (∀ calls : List (Call α),
      Inv (Observation.after (Call.step iswprint) calls (ofText maxSize text)) ∧
      ∀ as ∈ Observation.observe (Call.step iswprint) calls (ofText maxSize text),
        ∀ a ∈ as, a.InBounds) ↔
      text = [] ∨ maxSize ≤ text.length := by
  constructor
  · intro hsafe
    exact (inv_ofText_iff hmax text).mp (hsafe []).1
  · intro htext calls
    exact calls_safe iswprint calls ((inv_ofText_iff hmax text).mpr htext)

/-- A window of one column is filled by a text of one character. -/
theorem ofText_safe_iff_single :
    1 ≤ 1 ∧ ∀ calls : List (Call Char),
      Inv (Observation.after (Call.step Char.isAlpha) calls (ofText 1 ['a'])) ∧
      ∀ as ∈ Observation.observe (Call.step Char.isAlpha) calls (ofText 1 ['a']),
        ∀ a ∈ as, a.InBounds :=
  ⟨Nat.le_refl 1,
    (ofText_safe_iff Char.isAlpha (Nat.le_refl 1) ['a']).mpr (Or.inr (Nat.le_refl 1))⟩

/-- Two characters in a window of ten: the cursor stands at four, and `backspace`
erases the character at three of a string of two. -/
theorem ofText_unsafe :
    ¬ (Inv (ofText 10 ['a', 'b']) ∧
      ∀ as ∈ Observation.observe (Call.step Char.isAlpha) [.process { key := .backspace }]
        (ofText 10 ['a', 'b']), ∀ a ∈ as, a.InBounds) := by
  rintro ⟨-, hbounds⟩
  have herased : (⟨3, 1, 2⟩ : Access).InBounds := by
    apply hbounds _ (List.mem_cons_self ..)
    decide
  exact absurd herased (by decide)

end Securepath.Console
