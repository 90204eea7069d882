import Securepath.Console.InputHandler

/-!
# Browsing the history

The arrows of the input line browse the lines committed before. What they should
show is said by `Browsing.next`: up goes from the line being edited to the newest
line and on to older ones, down comes back, and past the newest line the text is
there again that was being edited when the browsing began.

`commit` and `clear` leave `history_pos_` as it is. A line committed while an older
one was being looked at therefore does not end the browsing, and a line cleared
then loses the text to come back to.
-/

namespace Securepath.Console

open InputHandler

variable {α : Type}

/-! ## What the arrows should show -/

inductive Arrow where
  | up
  | down
  deriving DecidableEq

/-- `some (k, draft)`: the line shown is the `k`-th newest, and `draft` was being
edited when the browsing began. -/
abbrev Browsing (α : Type) := Option (Nat × List α)

/-- The browsing behind an arrow and the text it shows, from the text before. -/
def Browsing.next (lines : List (List α)) (str : List α) : Arrow → Browsing α →
    Browsing α × List α
  | .up, none =>
      if lines = [] then (none, str) else (some (0, str), lines.reverse.getD 0 [])
  | .up, some (k, draft) =>
      if k + 1 < lines.length then (some (k + 1, draft), lines.reverse.getD (k + 1) [])
      else (some (k, draft), str)
  | .down, none => (none, str)
  | .down, some (0, draft) => (none, draft)
  | .down, some (k + 1, draft) => (some (k, draft), lines.reverse.getD k [])

/-- The arrow that `process` takes the input for. -/
def Call.arrow (iswprint : α → Bool) : Call α → Option Arrow
  | .process input =>
      if input.ch.any iswprint then none
      else match input.key with
        | .upArrow => some .up
        | .downArrow => some .down
        | _ => none
  | _ => none

/-- Along the calls every arrow shows what it should. -/
def Follows (iswprint : α → Bool) (lines : List (List α)) :
    List (Call α) → InputHandler α → Browsing α → Prop
  | [], _, _ => True
  | c :: cs, h, browsing =>
      match c.arrow iswprint with
      | some arrow =>
          let (browsing', shown) := browsing.next lines h.str arrow
          (c.step iswprint h).2.str = shown ∧
            Follows iswprint lines cs (c.step iswprint h).2 browsing'
      | none => Follows iswprint lines cs (c.step iswprint h).2 browsing

/-- The lines that the calls commit, the oldest first. -/
def committed (iswprint : α → Bool) : List (Call α) → InputHandler α → List (List α)
  | [], _ => []
  | .commit :: cs, h => h.str :: committed iswprint cs h.commit
  | c :: cs, h => committed iswprint cs (c.step iswprint h).2

/-- No further line is committed, and none is cleared while browsing. -/
def Quiet (c : Call α) (h : InputHandler α) : Prop :=
  c ≠ .commit ∧ (c = .clear → h.historyPos = none)

/-! ## What the other calls leave alone -/

/-- The place in the history and the saved text are the same. -/
structure SameHistory (h h' : InputHandler α) : Prop where
  history_eq : h'.history = h.history
  historyPos_eq : h'.historyPos = h.historyPos
  tempStr_eq : h'.tempStr = h.tempStr

variable {h : InputHandler α} {iswprint : α → Bool}

theorem typed_sameHistory (c : α) : SameHistory h (h.typed c).handler := by
  simp only [typed]
  split <;> exact ⟨rfl, rfl, rfl⟩

theorem backspace_sameHistory : SameHistory h h.backspace.handler := by
  simp only [backspace]
  split
  · exact ⟨rfl, rfl, rfl⟩
  · split <;> exact ⟨rfl, rfl, rfl⟩

theorem leftArrow_sameHistory : SameHistory h h.leftArrow.handler := by
  simp only [leftArrow]
  split
  · exact ⟨rfl, rfl, rfl⟩
  · split <;> exact ⟨rfl, rfl, rfl⟩

theorem rightArrow_sameHistory : SameHistory h h.rightArrow.handler := by
  simp only [rightArrow]
  split
  · split <;> exact ⟨rfl, rfl, rfl⟩
  · exact ⟨rfl, rfl, rfl⟩

theorem del_sameHistory : SameHistory h h.del.handler := by
  simp only [del]
  split <;> exact ⟨rfl, rfl, rfl⟩

/-- A special key that is no arrow up or down. -/
theorem pressed_sameHistory {key : InputKey} (hup : key ≠ .upArrow) (hdown : key ≠ .downArrow) :
    SameHistory h (h.pressed key).handler := by
  cases key with
  | backspace => exact backspace_sameHistory
  | leftArrow => exact leftArrow_sameHistory
  | rightArrow => exact rightArrow_sameHistory
  | upArrow => exact absurd rfl hup
  | downArrow => exact absurd rfl hdown
  | del => exact del_sameHistory
  | home => exact ⟨rfl, rfl, rfl⟩
  | «end» => exact ⟨rfl, rfl, rfl⟩
  | insert => exact ⟨rfl, rfl, rfl⟩
  | none => exact ⟨rfl, rfl, rfl⟩
  | other => exact ⟨rfl, rfl, rfl⟩

/-- An input is an arrow, is a key that leaves the history alone, or prints. -/
theorem process_cases (iswprint : α → Bool) (input : Input α) :
    (∃ c, (Call.process input).arrow iswprint = none ∧
        h.process iswprint input = h.typed c) ∨
      ((Call.process input).arrow iswprint = some .up ∧
        h.process iswprint input = h.upArrow) ∨
      ((Call.process input).arrow iswprint = some .down ∧
        h.process iswprint input = h.downArrow) ∨
      ∃ key, (Call.process input).arrow iswprint = none ∧ key ≠ .upArrow ∧ key ≠ .downArrow ∧
        h.process iswprint input = h.pressed key := by
  obtain ⟨ch, key⟩ := input
  -- a character that prints hides the key
  by_cases hprint : ch.any iswprint = true
  · cases ch with
    | none => exact absurd hprint (by simp)
    | some c =>
        have hc : iswprint c = true := hprint
        exact Or.inl ⟨c, by simp [Call.arrow, hc], by simp [process, hc]⟩
  · have hpressed : h.process iswprint ⟨ch, key⟩ = h.pressed key := by
      cases ch with
      | none => rfl
      | some c => simp_all [process]
    by_cases hup : key = .upArrow
    · subst hup
      exact Or.inr (Or.inl ⟨by simp [Call.arrow, hprint], hpressed⟩)
    · by_cases hdown : key = .downArrow
      · subst hdown
        exact Or.inr (Or.inr (Or.inl ⟨by simp [Call.arrow, hprint], hpressed⟩))
      · refine Or.inr (Or.inr (Or.inr ⟨key, ?_, hup, hdown, hpressed⟩))
        cases key <;> simp_all [Call.arrow]

/-! ## Browsing as it should be -/

/-- The handler browses where it should. -/
def InSync (lines : List (List α)) (h : InputHandler α) (browsing : Browsing α) : Prop :=
  h.history = lines ∧
    match browsing with
    | none => h.historyPos = none
    | some (k, draft) =>
        k < lines.length ∧ h.historyPos = some (lines.length - 1 - k) ∧ h.tempStr = draft

variable {lines : List (List α)} {browsing : Browsing α}

/-- The `k`-th newest line is at `size - 1 - k` in `history_`. -/
theorem getD_reverse {k : Nat} (hk : k < lines.length) :
    lines.reverse.getD k [] = lines.getD (lines.length - 1 - k) [] := by
  rw [List.getD_eq_getElem?_getD, List.getD_eq_getElem?_getD, List.getElem?_reverse hk]

theorem InSync.of_sameHistory {h' : InputHandler α} (hsync : InSync lines h browsing)
    (hsame : SameHistory h h') : InSync lines h' browsing := by
  obtain ⟨hhistory, hbrowsing⟩ := hsync
  refine ⟨hsame.history_eq.trans hhistory, ?_⟩
  cases browsing with
  | none => exact hsame.historyPos_eq.trans hbrowsing
  | some p =>
      obtain ⟨hk, hpos, htemp⟩ := hbrowsing
      exact ⟨hk, hsame.historyPos_eq.trans hpos, hsame.tempStr_eq.trans htemp⟩

theorem upArrow_sync (hsync : InSync lines h browsing) :
    h.upArrow.handler.str = (browsing.next lines h.str .up).2 ∧
      InSync lines h.upArrow.handler (browsing.next lines h.str .up).1 := by
  obtain ⟨rfl, hbrowsing⟩ := hsync
  cases browsing with
  | none =>
      have hnone : h.historyPos = none := hbrowsing
      by_cases hempty : h.history = []
      · simp [upArrow, hnone, Browsing.next, hempty, InSync]
      · have hlen : 0 < h.history.length := List.length_pos_iff.mpr hempty
        have hup : h.upArrow = { h with
            tempStr := h.str, historyPos := some (h.history.length - 1) }.recallLine
              (h.history.length - 1) := by
          simp only [upArrow, hnone, ne_eq, hempty, not_false_eq_true, if_true]
        simp only [hup, Browsing.next, if_neg hempty, getD_reverse hlen]
        exact ⟨rfl, rfl, hlen, rfl, rfl⟩
  | some p =>
      obtain ⟨k, draft⟩ := p
      obtain ⟨hk, hpos, htemp⟩ := hbrowsing
      by_cases holder : k + 1 < h.history.length
      · have hpositive : 0 < h.history.length - 1 - k := by omega
        have hindex : h.history.length - 1 - k - 1 = h.history.length - 1 - (k + 1) := by omega
        have hup : h.upArrow = { h with
            historyPos := some (h.history.length - 1 - (k + 1)) }.recallLine
              (h.history.length - 1 - (k + 1)) := by
          simp only [upArrow, hpos, if_pos hpositive, hindex]
        simp only [hup, Browsing.next, if_pos holder, getD_reverse holder]
        exact ⟨rfl, rfl, holder, rfl, htemp⟩
      · -- the oldest line stays
        have hzero : ¬ 0 < h.history.length - 1 - k := by omega
        have hup : h.upArrow = { handler := h } := by
          simp only [upArrow, hpos, if_neg hzero]
        rw [hup]
        simp only [Browsing.next, if_neg holder]
        exact ⟨trivial, rfl, hk, hpos, htemp⟩

theorem downArrow_sync (hsync : InSync lines h browsing) :
    h.downArrow.handler.str = (browsing.next lines h.str .down).2 ∧
      InSync lines h.downArrow.handler (browsing.next lines h.str .down).1 := by
  obtain ⟨rfl, hbrowsing⟩ := hsync
  cases browsing with
  | none =>
      have hnone : h.historyPos = none := hbrowsing
      have hdown : h.downArrow = { handler := h } := by
        simp only [downArrow, hnone]
      rw [hdown]
      exact ⟨rfl, rfl, hnone⟩
  | some p =>
      obtain ⟨k, draft⟩ := p
      obtain ⟨hk, hpos, htemp⟩ := hbrowsing
      cases k with
      | zero =>
          have hpast : h.history.length ≤ h.history.length - 1 - 0 + 1 := by omega
          simp only [downArrow, hpos, Browsing.next, if_pos hpast]
          exact ⟨htemp, rfl, rfl⟩
      | succ k =>
          have hnewer : ¬ h.history.length ≤ h.history.length - 1 - (k + 1) + 1 := by omega
          have hindex : h.history.length - 1 - (k + 1) + 1 = h.history.length - 1 - k := by omega
          have hlt : k < h.history.length := by omega
          have hdown : h.downArrow = { h with
              historyPos := some (h.history.length - 1 - k) }.recallLine
                (h.history.length - 1 - k) := by
            simp only [downArrow, hpos, if_neg hnewer]
            rw [hindex]
          simp only [hdown, Browsing.next, getD_reverse hlt]
          exact ⟨rfl, rfl, hlt, rfl, htemp⟩

/-- From a handler in sync the arrows show what they should, along all quiet calls. -/
theorem follows_of_inSync {cs : List (Call α)}
    (hquiet : Observation.Along (Call.step iswprint) Quiet cs h)
    (hsync : InSync lines h browsing) : Follows iswprint lines cs h browsing := by
  induction cs generalizing h browsing with
  | nil => exact trivial
  | cons c cs ih =>
      obtain ⟨⟨hcommit, hclear⟩, hrest⟩ := hquiet
      cases c with
      | process input =>
          rcases process_cases (h := h) iswprint input with
            ⟨c, harrow, heq⟩ | ⟨harrow, heq⟩ | ⟨harrow, heq⟩ | ⟨key, harrow, hup, hdown, heq⟩
          · simp only [Follows, harrow]
            apply ih hrest
            simp only [Call.step, heq]
            exact hsync.of_sameHistory (typed_sameHistory c)
          · obtain ⟨hshown, hnext⟩ := upArrow_sync hsync
            simp only [Follows, harrow, Call.step, heq] at hrest ⊢
            exact ⟨hshown, ih hrest hnext⟩
          · obtain ⟨hshown, hnext⟩ := downArrow_sync hsync
            simp only [Follows, harrow, Call.step, heq] at hrest ⊢
            exact ⟨hshown, ih hrest hnext⟩
          · simp only [Follows, harrow]
            apply ih hrest
            simp only [Call.step, heq]
            exact hsync.of_sameHistory (pressed_sameHistory hup hdown)
      | setString s =>
          apply ih hrest
          exact hsync.of_sameHistory ⟨rfl, rfl, rfl⟩
      | commit => exact absurd rfl hcommit
      | clear =>
          apply ih hrest
          have hnone := hclear rfl
          obtain ⟨hhistory, hbrowsing⟩ := hsync
          refine ⟨hhistory, ?_⟩
          cases browsing with
          | none => exact hnone
          | some p =>
              have hpos := hbrowsing.2.1
              rw [hnone] at hpos
              exact absurd hpos (by simp)

/-! ## The history of a run -/

/-- `history_` holds the lines that were committed. -/
theorem history_after (calls : List (Call α)) (h : InputHandler α) :
    (Observation.after (Call.step iswprint) calls h).history =
      h.history ++ committed iswprint calls h := by
  induction calls generalizing h with
  | nil => simp [Observation.after, committed]
  | cons c calls ih =>
      rw [Observation.after, ih]
      cases c with
      | commit => simp [Call.step, committed, commit, clear]
      | clear => rfl
      | setString s => rfl
      | process input =>
          have hsame : (h.process iswprint input).handler.history = h.history := by
            rcases process_cases (h := h) iswprint input with
              ⟨c, -, heq⟩ | ⟨-, heq⟩ | ⟨-, heq⟩ | ⟨key, -, hup, hdown, heq⟩
            · rw [heq, (typed_sameHistory c).history_eq]
            · rw [heq]
              simp only [upArrow]
              split
              · split <;> rfl
              · split <;> rfl
            · rw [heq]
              simp only [downArrow]
              split
              · split <;> rfl
              · rfl
            · rw [heq, (pressed_sameHistory hup hdown).history_eq]
          simp only [Call.step, committed, hsame]

/-! ## Browsing behind a commit -/

def upCall : Call α := .process { key := .upArrow }
def downCall : Call α := .process { key := .downArrow }

variable {cs : List (Call α)}

theorem follows_setString {s : List α} :
    Follows iswprint lines (.setString s :: cs) h browsing ↔
      Follows iswprint lines cs (h.setString s).handler browsing := Iff.rfl

theorem follows_clear :
    Follows iswprint lines (.clear :: cs) h browsing ↔
      Follows iswprint lines cs h.clear browsing := Iff.rfl

theorem follows_upCall :
    Follows iswprint lines (upCall :: cs) h browsing ↔
      h.upArrow.handler.str = (browsing.next lines h.str .up).2 ∧
        Follows iswprint lines cs h.upArrow.handler (browsing.next lines h.str .up).1 := Iff.rfl

theorem follows_downCall :
    Follows iswprint lines (downCall :: cs) h browsing ↔
      h.downArrow.handler.str = (browsing.next lines h.str .down).2 ∧
        Follows iswprint lines cs h.downArrow.handler (browsing.next lines h.str .down).1 := Iff.rfl

/-- A commit while browsing goes wrong: behind it some text, an arrow up and an
arrow down do not show what they should. -/
theorem commit_browsing_not_follows [Inhabited α] (iswprint : α → Bool) {i : Nat}
    (hpos : h.historyPos = some i) :
    ∃ cs : List (Call α), Observation.Along (Call.step iswprint) Quiet cs h.commit ∧
      ¬ Follows iswprint (h.history ++ [h.str]) cs h.commit none := by
  -- longer than the line that comes down from the place after `i`, and than the last one
  let draft := (h.history ++ [h.str]).getD i [] ++ h.str ++ [default]
  refine ⟨[.setString draft, upCall, downCall], ?_, ?_⟩
  · simp [Observation.Along, Quiet, upCall, downCall]
  · intro hfollows
    rw [follows_setString, follows_upCall, follows_downCall] at hfollows
    obtain ⟨hup, hdown, -⟩ := hfollows
    have hlines : h.history ++ [h.str] ≠ [] := by simp
    by_cases hzero : 0 < i
    · have hshown :
          ((h.commit.setString draft).handler.upArrow.handler).downArrow.handler.str.length <
            draft.length := by
        have hindex : i - 1 + 1 = i := by omega
        simp only [upArrow, downArrow, setString, showAll, commit, clear, hpos, if_pos hzero,
          recallLine, hindex]
        split
        · simp only [draft, List.length_append, List.length_singleton, List.length_nil]
          omega
        · simp only [draft, List.length_append, List.length_singleton]
          omega
      have hdraft : ((h.commit.setString draft).handler.upArrow.handler).downArrow.handler.str =
          draft := by
        simp only [Browsing.next, if_neg hlines] at hdown
        exact hdown
      rw [hdraft] at hshown
      exact absurd hshown (Nat.lt_irrefl _)
    · have hstays : (h.commit.setString draft).handler.upArrow.handler.str = draft := by
        simp only [upArrow, setString, showAll, commit, clear, hpos, if_neg hzero]
      have hlast : draft = h.str := by
        rw [← hstays]
        rw [hup, Browsing.next, if_neg hlines]
        simp
      have hlen := congrArg List.length hlast
      simp only [draft, List.length_append, List.length_singleton] at hlen
      omega

/-- Past the newest line there is nothing to come back to behind a `clear()`. -/
theorem clear_downArrow_str {i : Nat} (hpos : h.historyPos = some i)
    (hpast : h.history.length ≤ i + 1) : h.clear.downArrow.handler.str = [] := by
  have hpos' : h.clear.historyPos = some i := hpos
  have hpast' : h.clear.history.length ≤ i + 1 := hpast
  simp only [downArrow, hpos', if_pos hpast']
  rfl

/-- From every state that calls lead to: behind `commit()` the arrows show the
committed lines and come back to the draft, along all quiet calls, exactly when the
line was not committed while browsing. A draft survives a `clear()` while browsing
only if there was nothing to it. -/
theorem commit_follows_iff [Inhabited α] (iswprint : α → Bool) (maxSize : Nat) (text : List α)
    (calls : List (Call α)) :
    let start := ofText maxSize text
    let h := Observation.after (Call.step iswprint) calls start
    let lines := committed iswprint calls start ++ [h.str]
    ((∀ cs, Observation.Along (Call.step iswprint) Quiet cs h.commit →
        Follows iswprint lines cs h.commit none) ↔ h.historyPos = none) ∧
      (h.historyPos = none → ∀ draft,
        (Follows iswprint lines [.setString draft, upCall, .clear, downCall] h.commit none ↔
          draft = [])) := by
  intro start h lines
  have hlines : lines = h.history ++ [h.str] := by
    have hhistory : h.history = [] ++ committed iswprint calls start := history_after calls start
    rw [hhistory, List.nil_append]
  refine ⟨⟨?_, ?_⟩, ?_⟩
  · intro hall
    by_contra hbrowsing
    obtain ⟨i, hi⟩ := Option.ne_none_iff_exists'.mp hbrowsing
    obtain ⟨cs, hquiet, hnot⟩ := commit_browsing_not_follows iswprint hi
    rw [← hlines] at hnot
    exact hnot (hall cs hquiet)
  · intro hnone cs hquiet
    apply follows_of_inSync hquiet
    rw [hlines]
    exact ⟨rfl, hnone⟩
  · intro hnone draft
    have hne : lines ≠ [] := by
      rw [hlines]
      simp
    rw [follows_setString, follows_upCall, follows_clear, follows_downCall]
    have hsync : InSync lines (h.commit.setString draft).handler none := by
      rw [hlines]
      exact ⟨rfl, hnone⟩
    obtain ⟨hshown, hnext⟩ := upArrow_sync hsync
    simp only [Browsing.next, if_neg hne] at hshown hnext ⊢
    obtain ⟨hhistory, hlt, hpos, -⟩ := hnext
    -- `clear` keeps the place, which `down` then leaves, and the saved text is gone
    have hdown : (clear (h.commit.setString draft).handler.upArrow.handler).downArrow.handler.str =
        [] := by
      apply clear_downArrow_str hpos
      rw [hhistory]
      omega
    rw [hdown]
    constructor
    · intro hfollows
      exact hfollows.2.1.symm
    · intro hdraft
      exact ⟨hshown, hdraft.symm, trivial⟩

/-- `a` and `b` committed, `b` recalled and committed again: the next arrow up shows
`a`. -/
theorem commit_recalled_shows_older :
    let start : InputHandler Char := ofText 10 []
    let calls : List (Call Char) :=
      [.setString ['a'], .commit, .setString ['b'], .commit, upCall]
    let h := Observation.after (Call.step Char.isAlpha) calls start
    h.str = ['b'] ∧ h.commit.upArrow.handler.str = ['a'] ∧
      ¬ Follows Char.isAlpha (committed Char.isAlpha calls start ++ [h.str]) [upCall] h.commit
        none := by
  refine ⟨rfl, rfl, ?_⟩
  rintro ⟨hshown, -⟩
  exact absurd hshown (by decide)

end Securepath.Console
