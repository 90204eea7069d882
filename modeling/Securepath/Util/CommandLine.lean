import Securepath.Util.CommandParser

/-!
# From the arguments to the text and back

Joining the arguments loses where an argument ends when it has a space other than
the blank in it, a quote at its start, both a blank and a quote, or nothing at all.
Arguments that are `Plain` are read back as they are.

For the other direction two kinds of characters are counted. Reading loses spaces
and quotes only, so that the first name is found at its place or something is
missing; and it may not lose a space that belongs to an argument.
-/

namespace Securepath.Util

/-! ## Steps of the readers -/

section Steps

variable {text cs a rest : Text} {c : UInt8}

theorem readArgs_of_nil (h : skipWs text = []) : readArgs text = .ok ([], []) := by
  rw [readArgs]
  split
  · rfl
  · next hskip => exact absurd (h.symm.trans hskip) (by simp)

theorem readArgs_of_dash (h : skipWs text = dash :: cs) :
    readArgs text = .ok ([], dash :: cs) := by
  rw [readArgs]
  split
  · next hskip => exact absurd (hskip.symm.trans h) (by simp)
  · next c' cs' hskip =>
    obtain ⟨rfl, rfl⟩ := List.cons.inj (hskip.symm.trans h)
    rw [if_pos rfl]

theorem readArgs_of_arg (h : skipWs text = c :: cs) (hc : c ≠ dash)
    (harg : parseArg (c :: cs) = some (a, rest)) :
    readArgs text =
      match readArgs rest with
      | .error e => .error e
      | .ok (as, rest) => .ok (if a ≠ [] then a :: as else as, rest) := by
  rw [readArgs]
  split
  · next hskip => exact absurd (hskip.symm.trans h) (by simp)
  · next c' cs' hskip =>
    obtain ⟨rfl, rfl⟩ := List.cons.inj (hskip.symm.trans h)
    rw [if_neg hc]
    split
    · next hnone => exact absurd (hnone.symm.trans harg) (by simp)
    · next a' rest' hsome =>
      obtain ⟨rfl, rfl⟩ := Prod.mk.inj (Option.some.inj (hsome.symm.trans harg))
      rfl

/-- What a reading of values has done first. -/
theorem readArgs_eq_ok {as : List Text} (h : readArgs text = .ok (as, rest)) :
    (skipWs text = [] ∧ as = [] ∧ rest = []) ∨
      (∃ cs, skipWs text = dash :: cs ∧ as = [] ∧ rest = dash :: cs) ∨
      ∃ c cs a as' rest', skipWs text = c :: cs ∧ c ≠ dash ∧
        parseArg (c :: cs) = some (a, rest') ∧ readArgs rest' = .ok (as', rest) ∧
        as = if a ≠ [] then a :: as' else as' := by
  rw [readArgs] at h
  split at h
  · next hskip =>
    obtain ⟨rfl, rfl⟩ := Prod.mk.inj (Except.ok.inj h)
    exact Or.inl ⟨hskip, rfl, rfl⟩
  · next c cs hskip =>
    right
    split at h
    · next hdash =>
      subst hdash
      obtain ⟨rfl, rfl⟩ := Prod.mk.inj (Except.ok.inj h)
      exact Or.inl ⟨cs, hskip, rfl, rfl⟩
    · next hdash =>
      right
      split at h
      · exact absurd h (by simp)
      · next a rest' harg =>
        split at h
        · exact absurd h (by simp)
        · next as' rest'' hrest =>
          obtain ⟨rfl, rfl⟩ := Prod.mk.inj (Except.ok.inj h)
          exact ⟨c, cs, a, as', rest', hskip, hdash, harg, hrest, rfl⟩

/-- What holds where the reading of values ends, and of a text when it holds behind its
first value, holds of every reading. -/
theorem readArgs_induction {motive : Text → List Text → Text → Prop}
    (nil : ∀ {text : Text}, skipWs text = [] → motive text [] [])
    (name : ∀ {text cs : Text}, skipWs text = dash :: cs → motive text [] (dash :: cs))
    (value : ∀ {text cs a rest' rest : Text} {c : UInt8} {as : List Text},
      skipWs text = c :: cs → parseArg (c :: cs) = some (a, rest') → motive rest' as rest →
        motive text (if a ≠ [] then a :: as else as) rest)
    {as : List Text} (h : readArgs text = .ok (as, rest)) : motive text as rest := by
  induction hn : text.length using Nat.strong_induction_on generalizing text as rest with
  | _ n ih =>
    have hle := skipWs_length_le text
    rcases readArgs_eq_ok h with ⟨hskip, rfl, rfl⟩ | ⟨cs, hskip, rfl, rfl⟩ |
      ⟨c, cs, a, as', rest', hskip, -, harg, hrest, rfl⟩
    · exact nil hskip
    · exact name hskip
    · rw [hskip] at hle
      have hlt := parseArg_length_lt (skipWs_of_cons hskip) harg
      exact value hskip harg (ih rest'.length (by omega) hrest rfl)

theorem Parsed.handing_inj {name name' : Text} {args args' : List Text} {p q : Parsed}
    (h : p.handing name args = q.handing name' args') : name = name' ∧ args = args' ∧ p = q := by
  cases p with
  | mk calls outcome =>
      cases q with
      | mk calls' outcome' =>
          simp only [Parsed.handing, Parsed.mk.injEq, List.cons.injEq, Prod.mk.injEq] at h
          obtain ⟨⟨⟨hname, hargs⟩, hcalls⟩, houtcome⟩ := h
          exact ⟨hname, hargs, by rw [hcalls, houtcome]⟩

variable {commands : Commands}

theorem parse_of_nil (h : skipWs text = []) : parse commands text = {} := by
  rw [parse]
  split
  · rfl
  · next hskip => exact absurd (h.symm.trans hskip) (by simp)

theorem parse_of_name (h : skipWs text = dash :: cs) :
    parse commands text =
      match readArgs (extract (dash :: cs)).2 with
      | .error e => { outcome := .error e }
      | .ok (args, rest) =>
          match commands (extract (dash :: cs)).1 with
          | none => { outcome := .error (noParameter (extract (dash :: cs)).1) }
          | some command =>
              match command args with
              | .error e => { calls := [((extract (dash :: cs)).1, args)], outcome := .error e }
              | .ok () => (parse commands rest).handing (extract (dash :: cs)).1 args := by
  rw [parse]
  split
  · next hskip => exact absurd (hskip.symm.trans h) (by simp)
  · next c' cs' hskip =>
    obtain ⟨rfl, rfl⟩ := List.cons.inj (hskip.symm.trans h)
    rw [if_pos rfl]
    split
    · next hargs =>
      generalize readArgs (extract (dash :: cs')).2 = read at hargs ⊢
      subst hargs
      rfl
    · next hargs =>
      generalize readArgs (extract (dash :: cs')).2 = read at hargs ⊢
      subst hargs
      rfl

theorem parse_of_arg (h : skipWs text = c :: cs) (hc : c ≠ dash) :
    parse commands text =
      match parseArg (c :: cs) with
      | none => { outcome := .error unterminatedQuote }
      | some (_, rest) => parse commands rest := by
  rw [parse]
  split
  · next hskip => exact absurd (hskip.symm.trans h) (by simp)
  · next c' cs' hskip =>
    obtain ⟨rfl, rfl⟩ := List.cons.inj (hskip.symm.trans h)
    rw [if_neg hc]
    split
    · next hnone => rw [hnone]
    · next hsome => rw [hsome]

theorem skipPositionals_of_nil (h : skipWs text = []) : skipPositionals text = .ok [] := by
  rw [skipPositionals]
  split
  · rfl
  · next hskip => exact absurd (h.symm.trans hskip) (by simp)

theorem skipPositionals_of_dash (h : skipWs text = dash :: cs) :
    skipPositionals text = .ok (dash :: cs) := by
  rw [skipPositionals]
  split
  · next hskip => exact absurd (hskip.symm.trans h) (by simp)
  · next c' cs' hskip =>
    obtain ⟨rfl, rfl⟩ := List.cons.inj (hskip.symm.trans h)
    rw [if_pos rfl]

theorem skipPositionals_of_arg (h : skipWs text = c :: cs) (hc : c ≠ dash) :
    skipPositionals text =
      match parseArg (c :: cs) with
      | none => .error unterminatedQuote
      | some (_, rest) => skipPositionals rest := by
  rw [skipPositionals]
  split
  · next hskip => exact absurd (hskip.symm.trans h) (by simp)
  · next c' cs' hskip =>
    obtain ⟨rfl, rfl⟩ := List.cons.inj (hskip.symm.trans h)
    rw [if_neg hc]
    split
    · next hnone => rw [hnone]
    · next hsome => rw [hsome]

/-- Before the first name nothing is handed over. -/
theorem parse_eq_skipPositionals (commands : Commands) (text : Text) :
    parse commands text =
      match skipPositionals text with
      | .error e => { outcome := .error e }
      | .ok rest => parse commands rest := by
  induction hn : text.length using Nat.strong_induction_on generalizing text with
  | _ n ih =>
    have hle := skipWs_length_le text
    cases hskip : skipWs text with
    | nil =>
        rw [parse_of_nil hskip, skipPositionals_of_nil hskip]
        exact (parse_of_nil rfl).symm
    | cons c cs =>
        have hc := skipWs_of_cons hskip
        rw [hskip] at hle
        by_cases hdash : c = dash
        · subst hdash
          rw [parse_of_name hskip, skipPositionals_of_dash hskip]
          exact (parse_of_name (skipWs_cons_of_not hc)).symm
        · rw [parse_of_arg hskip hdash, skipPositionals_of_arg hskip hdash]
          cases harg : parseArg (c :: cs) with
          | none => rfl
          | some read =>
              have hlt := parseArg_length_lt hc harg
              exact ih read.2.length (by omega) read.2 rfl

end Steps

/-! ## What is read -/

/-- A word is free of spaces. -/
def Word (a : Text) : Prop := ∀ c ∈ a, isSpace c = false

/-- The texts that can be values: no reader makes another one. -/
def Value (a : Text) : Prop := a ≠ [] ∧ (quote ∉ a ∨ (Word a ∧ a.head? ≠ some quote))

/-- Where a word ends in the text. -/
def Boundary (text : Text) : Prop := ∀ c ∈ text.head?, isSpace c = true

theorem word_takeWhile (text : Text) : Word (text.takeWhile fun c => !isSpace c) := by
  intro c hc
  have := List.mem_takeWhile_imp hc
  simpa using this

theorem boundary_dropWhile (text : Text) : Boundary (text.dropWhile fun c => !isSpace c) := by
  intro c hc
  have := List.head?_dropWhile_not (fun c => !isSpace c) text
  rw [Option.mem_def.mp hc] at this
  simpa using this

section Reading

variable {text rest a : Text} {c : UInt8} {cs : Text}

/-- The two ways to read a value at a character that is no space. -/
theorem parseArg_cases (hc : isSpace c = false) (h : parseArg (c :: cs) = some (a, rest)) :
    (c = quote ∧ cs = a ++ quote :: rest ∧ quote ∉ a) ∨
      (c ≠ quote ∧ c :: cs = a ++ rest ∧ Word a ∧ a.head? = some c ∧ Boundary rest) := by
  unfold parseArg at h
  split at h
  -- up to the quote that ends the value
  · next hquote =>
    left
    have hcq : c = quote := by simpa using hquote
    unfold parseQuoted at h
    split at h
    · exact absurd h (by simp)
    · next d ds hd =>
      obtain ⟨rfl, rfl⟩ := Prod.mk.inj (Option.some.inj h)
      rw [List.drop_succ_cons, List.drop_zero] at hd ⊢
      have hsplit := List.takeWhile_append_dropWhile (p := (· ≠ quote)) (l := cs)
      have hdq : d = quote := by
        have hhead := List.head?_dropWhile_not (· ≠ quote) cs
        rw [hd] at hhead
        simpa using hhead
      rw [hd, hdq] at hsplit
      refine ⟨hcq, hsplit.symm, ?_⟩
      intro hmem
      have := List.mem_takeWhile_imp hmem
      simp at this
  -- up to the space that ends the word
  · next hquote =>
    right
    have hcq : c ≠ quote := by simpa using hquote
    obtain ⟨rfl, rfl⟩ := Prod.mk.inj (Option.some.inj h)
    simp only [skipWs_cons_of_not hc]
    refine ⟨hcq, List.takeWhile_append_dropWhile.symm, word_takeWhile _, ?_,
      boundary_dropWhile _⟩
    simp [hc]

theorem readArgs_values {as : List Text} (h : readArgs text = .ok (as, rest)) :
    (∀ a ∈ as, Value a) ∧ (rest = [] ∨ ∃ cs, rest = dash :: cs) := by
  refine readArgs_induction (motive := fun _ as rest =>
    (∀ a ∈ as, Value a) ∧ (rest = [] ∨ ∃ cs, rest = dash :: cs)) ?nil ?name ?value h
  case nil =>
    intro text _
    exact ⟨by simp, Or.inl rfl⟩
  case name =>
    intro text cs _
    exact ⟨by simp, Or.inr ⟨cs, rfl⟩⟩
  case value =>
    intro text cs a rest' rest c as hskip harg ⟨hvalues, hends⟩
    refine ⟨?_, hends⟩
    split
    · next hne =>
      intro b hb
      rcases List.mem_cons.mp hb with rfl | hb
      · rcases parseArg_cases (skipWs_of_cons hskip) harg with
          ⟨-, -, hquote⟩ | ⟨hcq, -, hword, hhead, -⟩
        · exact ⟨hne, Or.inl hquote⟩
        · refine ⟨hne, Or.inr ⟨hword, ?_⟩⟩
          rw [hhead]
          simpa using hcq
      · exact hvalues b hb
    · exact hvalues

/-! ## Counting -/

variable {p : UInt8 → Bool}

theorem countP_skipWs_le : (skipWs text).countP p ≤ text.countP p :=
  (List.dropWhile_suffix isSpace).sublist.countP_le

/-- Skipping spaces loses only these. -/
theorem countP_skipWs (hspace : ∀ c, isSpace c = true → p c = false) :
    (skipWs text).countP p = text.countP p := by
  induction text with
  | nil => rfl
  | cons c cs ih =>
      by_cases hc : isSpace c = true
      · have : skipWs (c :: cs) = skipWs cs := by
          rw [skipWs, List.dropWhile_cons, if_pos hc]
          rfl
        rw [this, ih, List.countP_cons_of_neg (by simp [hspace c hc])]
      · rw [skipWs_cons_of_not (Bool.eq_false_iff.mpr hc)]

/-- Reading a value loses only quotes. -/
theorem countP_parseArg (hquote : p quote = false) (hc : isSpace c = false)
    (h : parseArg (c :: cs) = some (a, rest)) :
    (c :: cs).countP p = a.countP p + rest.countP p := by
  rcases parseArg_cases hc h with ⟨rfl, rfl, -⟩ | ⟨-, heq, -⟩
  · rw [List.countP_cons_of_neg (by simp [hquote]), List.countP_append,
      List.countP_cons_of_neg (by simp [hquote])]
  · rw [heq, List.countP_append]

/-- Reading values loses only quotes and spaces. -/
theorem countP_readArgs {as : List Text} (hquote : p quote = false)
    (h : readArgs text = .ok (as, rest)) :
    as.flatten.countP p + rest.countP p ≤ text.countP p ∧
      ((∀ c, isSpace c = true → p c = false) →
        text.countP p ≤ as.flatten.countP p + rest.countP p) := by
  refine readArgs_induction (motive := fun text as rest =>
    as.flatten.countP p + rest.countP p ≤ text.countP p ∧
      ((∀ c, isSpace c = true → p c = false) →
        text.countP p ≤ as.flatten.countP p + rest.countP p)) ?nil ?name ?value h
  case nil =>
    intro text hskip
    refine ⟨by simp, fun hspace => ?_⟩
    rw [← countP_skipWs hspace, hskip]
    simp
  case name =>
    intro text cs hskip
    rw [← hskip]
    refine ⟨by simpa using countP_skipWs_le, fun hspace => ?_⟩
    rw [← countP_skipWs hspace]
    simp
  case value =>
    -- skipping may lose, taking a value off does not
    intro text cs a rest' rest c as hskip harg ⟨hlost, hall⟩
    have hskipped : (skipWs text).countP p ≤ text.countP p := countP_skipWs_le
    have hcount := countP_parseArg hquote (skipWs_of_cons hskip) harg
    rw [hskip] at hskipped
    have hflatten : (if a ≠ [] then a :: as else as).flatten = a ++ as.flatten := by
      split
      · rfl
      · next ha => rw [not_not.mp ha, List.nil_append]
    rw [hflatten, List.countP_append]
    refine ⟨by omega, fun hspace => ?_⟩
    have hrest := hall hspace
    have hkept : (skipWs text).countP p = text.countP p := countP_skipWs hspace
    rw [hskip] at hkept
    omega

end Reading

/-! ## Plain arguments -/

/-- The arguments that the text keeps: names and words without a space, of these the
values that do not start with a quote, and values with a blank and without a quote. -/
def Plain (arg : Text) : Prop :=
  if isName arg then Word arg
  else arg ≠ [] ∧ ((blank ∈ arg ∧ quote ∉ arg) ∨ (Word arg ∧ arg.head? ≠ some quote))

instance (a : Text) : Decidable (Word a) :=
  inferInstanceAs (Decidable (∀ c ∈ a, isSpace c = false))

instance (arg : Text) : Decidable (Plain arg) :=
  inferInstanceAs (Decidable (if isName arg then Word arg
    else arg ≠ [] ∧ ((blank ∈ arg ∧ quote ∉ arg) ∨ (Word arg ∧ arg.head? ≠ some quote))))

/-- Arguments from a name on. -/
def StartsNamed (args : List Text) : Prop := ∀ arg ∈ args.head?, isName arg = true

/-- The arguments as they follow on another one. -/
def flattenTail (args : List Text) : Text := args.flatMap fun arg => blank :: flattenArg arg

theorem flatten_cons (arg : Text) (args : List Text) :
    flatten (arg :: args) = flattenArg arg ++ flattenTail args := rfl

theorem flattenTail_cons (arg : Text) (args : List Text) :
    flattenTail (arg :: args) = blank :: flatten (arg :: args) := rfl

theorem startsNamed_dropWhile (args : List Text) :
    StartsNamed (args.dropWhile fun arg => !isName arg) := by
  intro arg harg
  have := List.head?_dropWhile_not (fun arg => !isName arg) args
  rw [Option.mem_def.mp harg] at this
  simpa using this

theorem startsNamed_cons {arg : Text} {args : List Text} :
    StartsNamed (arg :: args) ↔ isName arg = true := by
  simp [StartsNamed]

theorem Word.blank_notMem {a : Text} (h : Word a) : blank ∉ a := by
  intro hmem
  exact absurd (h blank hmem) (by decide)

theorem Word.flattenArg {a : Text} (h : Word a) : flattenArg a = a := if_neg h.blank_notMem

theorem isName_iff {arg : Text} : isName arg = true ↔ ∃ cs, arg = dash :: cs := by
  cases arg with
  | nil => simp [isName]
  | cons c cs => simp [isName]

theorem boundary_flattenTail (args : List Text) : Boundary (flattenTail args) := by
  cases args with
  | nil => simp [Boundary, flattenTail]
  | cons arg args => simp [Boundary, flattenTail, isSpace]

theorem Word.takeWhile_append {a text : Text} (h : Word a) (ht : Boundary text) :
    (a ++ text).takeWhile (fun c => !isSpace c) = a := by
  rw [List.takeWhile_append_of_pos fun c hc => by simp [h c hc]]
  cases text with
  | nil => simp
  | cons c cs => simp [ht c rfl]

theorem Word.dropWhile_append {a text : Text} (h : Word a) (ht : Boundary text) :
    (a ++ text).dropWhile (fun c => !isSpace c) = text := by
  rw [List.dropWhile_append_of_pos fun c hc => by simp [h c hc]]
  cases text with
  | nil => simp
  | cons c cs => simp [ht c rfl]

/-- A word is extracted from a text that starts with it. -/
theorem extract_word {c : UInt8} {cs text : Text} (h : Word (c :: cs)) (ht : Boundary text) :
    extract (c :: cs ++ text) = (c :: cs, text) := by
  have hc : isSpace c = false := h c List.mem_cons_self
  have hskip : skipWs (c :: cs ++ text) = c :: cs ++ text := skipWs_cons_of_not hc
  rw [extract, hskip, h.takeWhile_append ht, h.dropWhile_append ht]

theorem parseArg_quoted {a rest : Text} (h : quote ∉ a) :
    parseArg (quote :: (a ++ quote :: rest)) = some (a, rest) := by
  have hkept : ∀ c ∈ a, decide (c ≠ quote) = true := by
    intro c hc
    have : c ≠ quote := fun hq => h (hq ▸ hc)
    simpa using this
  have hdrop : (a ++ quote :: rest).dropWhile (· ≠ quote) = quote :: rest := by
    rw [List.dropWhile_append_of_pos hkept]
    simp
  have htake : (a ++ quote :: rest).takeWhile (· ≠ quote) = a := by
    rw [List.takeWhile_append_of_pos hkept]
    simp
  rw [parseArg, List.head?_cons, if_pos rfl, parseQuoted, List.drop_succ_cons, List.drop_zero,
    hdrop, htake]

theorem parseArg_word {c : UInt8} {cs rest : Text} (h : Word (c :: cs)) (hc : c ≠ quote)
    (ht : Boundary rest) : parseArg (c :: cs ++ rest) = some (c :: cs, rest) := by
  rw [parseArg, if_neg (by simpa using hc)]
  exact congrArg some (extract_word h ht)

/-- A plain value is read back. -/
theorem parseArg_plain {v text : Text} (hv : Plain v) (hname : isName v = false)
    (ht : Boundary text) :
    ∃ c cs, flattenArg v ++ text = c :: cs ∧ isSpace c = false ∧ c ≠ dash ∧
      parseArg (c :: cs) = some (v, text) := by
  rw [Plain, if_neg (by simp [hname])] at hv
  obtain ⟨hne, ⟨hblank, hquote⟩ | ⟨hword, hhead⟩⟩ := hv
  · refine ⟨quote, v ++ quote :: text, by simp [flattenArg, hblank], by decide, by decide, ?_⟩
    exact parseArg_quoted hquote
  · cases v with
    | nil => exact absurd rfl hne
    | cons c cs =>
        have hcq : c ≠ quote := by simpa using hhead
        have hcd : c ≠ dash := by simpa [isName] using hname
        refine ⟨c, cs ++ text, by rw [hword.flattenArg]; rfl, hword c List.mem_cons_self, hcd, ?_⟩
        exact parseArg_word hword hcq ht

/-- The text of plain arguments from a name on starts with the name. -/
theorem flatten_startsNamed {name : Text} (hname : isName name = true) (hword : Word name)
    (args : List Text) :
    ∃ cs, flatten (name :: args) = dash :: cs ∧
      extract (dash :: cs) = (name, flattenTail args) := by
  obtain ⟨cs, rfl⟩ := isName_iff.mp hname
  refine ⟨cs ++ flattenTail args, by rw [flatten_cons, hword.flattenArg]; rfl, ?_⟩
  exact extract_word hword (boundary_flattenTail args)

theorem Plain.word {arg : Text} (h : Plain arg) (hname : isName arg = true) : Word arg := by
  rwa [Plain, if_pos hname] at h

theorem skipWs_flattenTail (args : List Text) :
    skipWs (flattenTail args) = skipWs (flatten args) := by
  cases args with
  | nil => rfl
  | cons arg args => rfl

/-- Plain values are read back, up to the next name. -/
theorem readArgs_flattenTail {values args : List Text}
    (hvalues : ∀ v ∈ values, Plain v ∧ isName v = false) (hargs : StartsNamed args)
    (hplain : ∀ arg ∈ args, Plain arg) :
    readArgs (flattenTail (values ++ args)) = .ok (values, flatten args) := by
  induction values with
  | nil =>
      cases args with
      | nil => exact readArgs_of_nil rfl
      | cons name args =>
          have hname := startsNamed_cons.mp hargs
          have hword := (hplain name List.mem_cons_self).word hname
          obtain ⟨cs, hflatten, -⟩ := flatten_startsNamed hname hword args
          rw [hflatten]
          refine readArgs_of_dash ?_
          rw [List.nil_append, skipWs_flattenTail, hflatten]
          exact skipWs_cons_of_not (by decide)
  | cons v values ih =>
      obtain ⟨hv, hname⟩ := hvalues v List.mem_cons_self
      obtain ⟨c, cs, htext, hc, hdash, harg⟩ :=
        parseArg_plain hv hname (boundary_flattenTail (values ++ args))
      have hskip : skipWs (flattenTail (v :: values ++ args)) = c :: cs := by
        rw [List.cons_append, skipWs_flattenTail, flatten_cons, htext]
        exact skipWs_cons_of_not hc
      rw [readArgs_of_arg hskip hdash harg,
        ih fun v hv => hvalues v (List.mem_cons_of_mem _ hv)]
      have hne : v ≠ [] := by
        rintro rfl
        simp [Plain, isName] at hv
      simp [hne]

/-- Plain arguments from a name on are handed over as they are. -/
theorem parse_flatten (commands : Commands) {args : List Text} (hargs : StartsNamed args)
    (hplain : ∀ arg ∈ args, Plain arg) :
    parse commands (flatten args) = handed commands args := by
  -- from name to name
  induction hn : args.length using Nat.strong_induction_on generalizing args with
  | _ n ih =>
    cases args with
    | nil =>
        rw [handed]
        exact parse_of_nil rfl
    | cons name args =>
        have hname := startsNamed_cons.mp hargs
        have hword := (hplain name List.mem_cons_self).word hname
        obtain ⟨cs, hflatten, hextract⟩ := flatten_startsNamed hname hword args
        have hskip : skipWs (flatten (name :: args)) = dash :: cs := by
          rw [hflatten]
          exact skipWs_cons_of_not (by decide)
        have hrest : ∀ arg ∈ args, Plain arg := fun arg harg =>
          hplain arg (List.mem_cons_of_mem _ harg)
        have hsuffix := List.dropWhile_suffix (l := args) (fun arg => !isName arg)
        have hread : readArgs (flattenTail args) =
            .ok (args.takeWhile fun arg => !isName arg,
              flatten (args.dropWhile fun arg => !isName arg)) := by
          conv_lhs => rw [← List.takeWhile_append_dropWhile (p := fun arg => !isName arg)
            (l := args)]
          refine readArgs_flattenTail (fun v hv => ⟨?_, ?_⟩) (startsNamed_dropWhile args)
            fun arg harg => hrest arg (hsuffix.subset harg)
          · exact hrest v ((List.takeWhile_prefix _).subset hv)
          · simpa using List.mem_takeWhile_imp hv
        have hsmaller := hsuffix.length_le
        have hparse := ih (args.dropWhile fun arg => !isName arg).length
          (by simp only [List.length_cons] at hn; omega) (startsNamed_dropWhile args)
          (fun arg harg => hrest arg (hsuffix.subset harg)) rfl
        rw [parse_of_name hskip, hextract, handed, if_pos hname, hread]
        dsimp only
        generalize parse commands (flatten (args.dropWhile fun arg => !isName arg)) = parsed
          at hparse ⊢
        subst hparse
        rfl

end Securepath.Util
