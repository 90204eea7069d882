import Securepath.Util.CommandLine

/-!
# Only plain arguments survive

When every command accepts and each argument is handed over as it was given, nothing
but blanks and quotes may have been lost in between. Counting the other characters
shows that the first name was found at its place; counting the other spaces shows that
no value was split.
-/

namespace Securepath.Util

/-- A parser that knows every name, with commands that accept everything. -/
def acceptAll : Commands := fun _ => some fun _ => .ok ()

/-- What the readers leave over: nothing, or a text from a name on. -/
def Unread (text : Text) : Prop := text = [] ∨ ∃ cs, text = dash :: cs

/-- The characters that reading never loses. -/
def ink (c : UInt8) : Bool := !isSpace c && c ≠ quote

/-- The spaces other than the blank. -/
def tab (c : UInt8) : Bool := isSpace c && c ≠ blank

theorem ink_of_space {c : UInt8} (h : isSpace c = true) : ink c = false := by
  simp [ink, h]

/-! ## What is left over is the end of the text -/

section Suffix

variable {text rest a : Text} {c : UInt8} {cs : Text}

theorem parseArg_suffix (hc : isSpace c = false) (h : parseArg (c :: cs) = some (a, rest)) :
    rest <:+ c :: cs := by
  rcases parseArg_cases hc h with ⟨-, rfl, -⟩ | ⟨-, heq, -⟩
  · exact ⟨c :: a ++ [quote], by simp⟩
  · rw [heq]
    exact List.suffix_append a rest

theorem readArgs_suffix {as : List Text} (h : readArgs text = .ok (as, rest)) :
    rest <:+ text := by
  have hsuffix : ∀ text, skipWs text <:+ text := fun text => List.dropWhile_suffix isSpace
  refine readArgs_induction (motive := fun text _ rest => rest <:+ text) ?nil ?name ?value h
  case nil =>
    intro text _
    exact List.nil_suffix
  case name =>
    intro text cs hskip
    exact hskip ▸ hsuffix text
  case value =>
    intro text cs a rest' rest c as hskip harg hrest
    have hvalue := parseArg_suffix (skipWs_of_cons hskip) harg
    exact (hrest.trans hvalue).trans (hskip ▸ hsuffix text)

theorem skipPositionals_suffix (h : skipPositionals text = .ok rest) :
    rest <:+ text ∧ Unread rest := by
  induction hn : text.length using Nat.strong_induction_on generalizing text with
  | _ n ih =>
    have hle := skipWs_length_le text
    have hsuffix : skipWs text <:+ text := List.dropWhile_suffix isSpace
    cases hskip : skipWs text with
    | nil =>
        rw [skipPositionals_of_nil hskip] at h
        obtain rfl := Except.ok.inj h
        exact ⟨List.nil_suffix, Or.inl rfl⟩
    | cons c cs =>
        have hc := skipWs_of_cons hskip
        rw [hskip] at hle hsuffix
        by_cases hdash : c = dash
        · subst hdash
          rw [skipPositionals_of_dash hskip] at h
          obtain rfl := Except.ok.inj h
          exact ⟨hsuffix, Or.inr ⟨cs, rfl⟩⟩
        · rw [skipPositionals_of_arg hskip hdash] at h
          cases harg : parseArg (c :: cs) with
          | none => simp [harg] at h
          | some read =>
              obtain ⟨a, rest'⟩ := read
              rw [harg] at h
              have hlt := parseArg_length_lt hc harg
              obtain ⟨hrest, hunread⟩ := ih rest'.length (by omega) h rfl
              exact ⟨(hrest.trans (parseArg_suffix hc harg)).trans hsuffix, hunread⟩

/-- Two ends of a text that start with a name are one when they have the same ink. -/
theorem eq_of_suffix_of_ink {first second : Text} (hfirst : first <:+ text)
    (hsecond : second <:+ text) (hunread : Unread first) (hunread' : Unread second)
    (hink : first.countP ink = second.countP ink) : first = second := by
  have hstep : ∀ {a b : Text}, a <:+ b → Unread b → a.countP ink = b.countP ink → a = b := by
    rintro a b ⟨lost, rfl⟩ hb hcount
    -- what the longer end has more would start with the dash, which is ink
    rcases hb with hnil | ⟨cs, hcs⟩
    · exact (List.append_eq_nil_iff.mp hnil).2.trans hnil.symm
    · cases lost with
      | nil => rfl
      | cons d lost =>
          obtain ⟨rfl, -⟩ := List.cons.inj hcs
          rw [List.cons_append, List.countP_cons_of_pos (by decide), List.countP_append] at hcount
          omega
  rcases List.suffix_or_suffix_of_suffix hfirst hsecond with h | h
  · exact hstep h hunread' hink
  · exact (hstep h hunread hink.symm).symm

end Suffix

/-! ## The characters of the arguments -/

section Characters

variable {p : UInt8 → Bool}

theorem countP_flattenArg (hquote : p quote = false) (arg : Text) :
    (flattenArg arg).countP p = arg.countP p := by
  unfold flattenArg
  split
  · simp [List.countP_append, hquote]
  · rfl

/-- Joining adds blanks and quotes only. -/
theorem countP_flattenTail (hquote : p quote = false) (hblank : p blank = false)
    (args : List Text) : (flattenTail args).countP p = args.flatten.countP p := by
  induction args with
  | nil => rfl
  | cons arg args ih =>
      rw [flattenTail_cons, flatten_cons, List.countP_cons_of_neg (by simp [hblank]),
        List.countP_append, ih, countP_flattenArg hquote, List.flatten_cons, List.countP_append]

theorem countP_flatten (hquote : p quote = false) (hblank : p blank = false)
    (args : List Text) : (flatten args).countP p = args.flatten.countP p := by
  rw [← countP_flattenTail hquote hblank]
  cases args with
  | nil => rfl
  | cons arg args =>
      rw [flattenTail_cons, List.countP_cons_of_neg (by simp [hblank])]

theorem flatten_suffix {args argv : List Text} (h : args <:+ argv) :
    flatten args <:+ flatten argv := by
  induction argv with
  | nil => rw [List.suffix_nil.mp h]
  | cons arg argv ih =>
      rcases List.suffix_cons_iff.mp h with rfl | h
      · exact List.suffix_rfl
      · refine (ih h).trans ?_
        rw [flatten_cons]
        refine List.IsSuffix.trans ?_ (List.suffix_append _ _)
        cases argv with
        | nil => exact List.nil_suffix
        | cons arg' argv =>
            rw [flattenTail_cons]
            exact List.suffix_cons _ _

theorem flatten_suffix_tail (values args : List Text) :
    flatten args <:+ flattenTail (values ++ args) := by
  have hflatten : flatten (values ++ args) <:+ flattenTail (values ++ args) := by
    cases values ++ args with
    | nil => exact List.suffix_rfl
    | cons arg args =>
        rw [flattenTail_cons]
        exact List.suffix_cons _ _
  exact (flatten_suffix (List.suffix_append values args)).trans hflatten

theorem unread_flatten {args : List Text} (hargs : StartsNamed args)
    (hwords : ∀ arg ∈ args, isName arg = true → Word arg) : Unread (flatten args) := by
  cases args with
  | nil => exact Or.inl rfl
  | cons name args =>
      have hname := startsNamed_cons.mp hargs
      obtain ⟨cs, hflatten, -⟩ :=
        flatten_startsNamed hname (hwords name List.mem_cons_self hname) args
      exact Or.inr ⟨cs, hflatten⟩

end Characters

/-! ## Commands that accept everything -/

section AcceptAll

/-- The names and values of the calls, one behind the other. -/
def spelled (calls : List (Text × List Text)) : Text :=
  calls.flatMap fun call => call.1 ++ call.2.flatten

theorem handed_dropWhile (commands : Commands) (argv : List Text) :
    handed commands argv = handed commands (argv.dropWhile fun arg => !isName arg) := by
  induction argv with
  | nil => rfl
  | cons arg argv ih =>
      rw [List.dropWhile_cons]
      split
      · next hname =>
        rw [handed, if_neg (by simpa using hname)]
        exact ih
      · rfl

theorem handed_acceptAll {name : Text} {args : List Text} (h : isName name = true) :
    handed acceptAll (name :: args) =
      (handed acceptAll (args.dropWhile fun arg => !isName arg)).handing name
        (args.takeWhile fun arg => !isName arg) := by
  rw [handed, if_pos h]
  rfl

/-- All arguments from the first name on are handed over. -/
theorem handed_accepted {args : List Text} (hargs : StartsNamed args) :
    (handed acceptAll args).outcome = .ok () ∧
      spelled (handed acceptAll args).calls = args.flatten ∧
      (handed acceptAll args).calls.map Prod.fst = args.filter isName := by
  induction hn : args.length using Nat.strong_induction_on generalizing args with
  | _ n ih =>
    cases args with
    | nil =>
        rw [handed]
        exact ⟨rfl, rfl, rfl⟩
    | cons name args =>
        have hname := startsNamed_cons.mp hargs
        have hsplit := List.takeWhile_append_dropWhile (p := fun arg => !isName arg) (l := args)
        have hvalues : (args.takeWhile fun arg => !isName arg).filter isName = [] := by
          refine List.filter_eq_nil_iff.mpr fun v hv => ?_
          simpa using List.mem_takeWhile_imp hv
        have hsmaller := (List.dropWhile_suffix (l := args) (fun arg => !isName arg)).length_le
        obtain ⟨houtcome, hspelled, hnames⟩ := ih (args.dropWhile fun arg => !isName arg).length
          (by simp only [List.length_cons] at hn; omega) (startsNamed_dropWhile args) rfl
        rw [handed_acceptAll hname]
        refine ⟨houtcome, ?_, ?_⟩
        · calc spelled (((handed acceptAll (args.dropWhile fun arg => !isName arg)).handing name
                (args.takeWhile fun arg => !isName arg)).calls)
              = name ++ (args.takeWhile fun arg => !isName arg).flatten ++
                  (args.dropWhile fun arg => !isName arg).flatten := by
                rw [← hspelled]
                rfl
            _ = (name :: args).flatten := by
                rw [List.append_assoc, ← List.flatten_append, hsplit, List.flatten_cons]
        · calc ((handed acceptAll (args.dropWhile fun arg => !isName arg)).handing name
                (args.takeWhile fun arg => !isName arg)).calls.map Prod.fst
              = name :: (args.dropWhile fun arg => !isName arg).filter isName := by
                rw [← hnames]
                rfl
            _ = name :: ((args.takeWhile fun arg => !isName arg) ++
                  args.dropWhile fun arg => !isName arg).filter isName := by
                rw [List.filter_append, hvalues, List.nil_append]
            _ = (name :: args).filter isName := by
                rw [hsplit, List.filter_cons_of_pos hname]

/-- A call takes its name as a word, and the values behind it. -/
theorem parse_acceptAll (cs : Text) :
    parse acceptAll (dash :: cs) =
      match readArgs (extract (dash :: cs)).2 with
      | .error e => { outcome := .error e }
      | .ok (args, rest) => (parse acceptAll rest).handing (extract (dash :: cs)).1 args := by
  rw [parse_of_name (skipWs_cons_of_not (by decide))]
  rfl

theorem extract_dash (cs : Text) :
    Word (extract (dash :: cs)).1 ∧ (extract (dash :: cs)).2.length ≤ cs.length ∧
      dash :: cs = (extract (dash :: cs)).1 ++ (extract (dash :: cs)).2 := by
  have hskip : skipWs (dash :: cs) = dash :: cs := skipWs_cons_of_not (by decide)
  rw [extract, hskip]
  have hsplit := List.takeWhile_append_dropWhile (p := fun c => !isSpace c) (l := dash :: cs)
  refine ⟨word_takeWhile _, ?_, hsplit.symm⟩
  rw [List.dropWhile_cons, if_pos (by decide)]
  exact (List.dropWhile_suffix _).length_le

/-- The names of the calls are words, and a parse that ends well has lost no ink. -/
theorem parse_accepted {text : Text} (htext : Unread text) :
    (∀ call ∈ (parse acceptAll text).calls, Word call.1) ∧
      ((parse acceptAll text).outcome = .ok () →
        text.countP ink = (spelled (parse acceptAll text).calls).countP ink) := by
  induction hn : text.length using Nat.strong_induction_on generalizing text with
  | _ n ih =>
    rcases htext with rfl | ⟨cs, rfl⟩
    · rw [parse_of_nil rfl]
      exact ⟨by simp, fun _ => rfl⟩
    · obtain ⟨hword, hshorter, hsplit⟩ := extract_dash cs
      rw [parse_acceptAll]
      cases hread : readArgs (extract (dash :: cs)).2 with
      | error e => exact ⟨by simp, fun hok => absurd hok (by simp)⟩
      | ok read =>
          obtain ⟨args, rest⟩ := read
          have hle := readArgs_length_le hread
          obtain ⟨hwords, hink⟩ := ih rest.length
            (by simp only [List.length_cons] at hn; omega) (readArgs_values hread).2 rfl
          obtain ⟨hlost, hkept⟩ := countP_readArgs (p := ink) (by decide) hread
          refine ⟨?_, fun hok => ?_⟩
          · intro call hcall
            rcases List.mem_cons.mp hcall with rfl | hcall
            · exact hword
            · exact hwords call hcall
          · have hspelled : spelled ((parse acceptAll rest).handing (extract (dash :: cs)).1
                args).calls = (extract (dash :: cs)).1 ++ args.flatten ++
                  spelled (parse acceptAll rest).calls := rfl
            -- the name, its values and what is left make up the text
            have hrest := hink hok
            have hall := hkept fun c => ink_of_space
            rw [hspelled, List.countP_append, List.countP_append, ← hrest]
            conv_lhs => rw [hsplit]
            rw [List.countP_append]
            omega

end AcceptAll

/-! ## No value is split -/

section Split

variable {text text' rest w t v : Text} {s : UInt8} {as : List Text}

theorem readArgs_of_skipWs (h : readArgs text = .ok (as, rest))
    (hskip : skipWs text = skipWs text') :
    readArgs text' = .ok (as, rest) := by
  rcases readArgs_eq_ok h with ⟨hnil, rfl, rfl⟩ | ⟨cs, hname, rfl, rfl⟩ |
    ⟨c, cs, a, as', rest', harg', hdash, harg, hrest, rfl⟩
  · exact readArgs_of_nil (hskip.symm.trans hnil)
  · exact readArgs_of_dash (hskip.symm.trans hname)
  · rw [readArgs_of_arg (hskip.symm.trans harg') hdash harg, hrest]

/-- A space that ends a word is lost. -/
theorem tab_lost (hword : Word w) (hs : isSpace s = true) (hblank : s ≠ blank)
    (hhead : ∀ c ∈ w.head?, c ≠ dash ∧ c ≠ quote)
    (h : readArgs (w ++ s :: t) = .ok (as, rest)) :
    as.flatten.countP tab + rest.countP tab < (w ++ s :: t).countP tab := by
  have htab : tab s = true := by simp [tab, hs, hblank]
  have hskip : skipWs (s :: t) = skipWs t := by
    rw [skipWs, List.dropWhile_cons, if_pos hs]
    rfl
  have hboundary : Boundary (s :: t) := by simpa [Boundary] using hs
  -- the space is skipped before anything else is read
  have hlost : ∀ {as' : List Text}, readArgs (s :: t) = .ok (as', rest) →
      as'.flatten.countP tab + rest.countP tab < (s :: t).countP tab := by
    intro as' h'
    have := (countP_readArgs (p := tab) (by decide) (readArgs_of_skipWs h' hskip)).1
    rw [List.countP_cons_of_pos htab]
    omega
  cases w with
  | nil => exact hlost h
  | cons c cs =>
      obtain ⟨hdash, hquote⟩ := hhead c rfl
      have hc : isSpace c = false := hword c List.mem_cons_self
      have hkeep : skipWs (c :: cs ++ s :: t) = c :: (cs ++ s :: t) := skipWs_cons_of_not hc
      have harg : parseArg (c :: (cs ++ s :: t)) = some (c :: cs, s :: t) :=
        parseArg_word hword hquote hboundary
      rw [readArgs_of_arg hkeep hdash harg] at h
      cases hread : readArgs (s :: t) with
      | error e => simp [hread] at h
      | ok read =>
          obtain ⟨as', rest'⟩ := read
          rw [hread] at h
          obtain ⟨rfl, rfl⟩ := Prod.mk.inj (Except.ok.inj h)
          have := hlost hread
          rw [if_pos (by simp), List.flatten_cons, List.countP_append, List.countP_append]
          omega

/-- A value that is not plain has a space that is no blank, or cannot be read. -/
theorem Value.split (hvalue : Value v) (hname : isName v = false) (hplain : ¬ Plain v) :
    quote ∉ v ∧ blank ∉ v ∧ ∃ w s t, v = w ++ s :: t ∧ Word w ∧ isSpace s = true := by
  rw [Plain, if_neg (by simp [hname])] at hplain
  obtain ⟨hne, hquote | hword⟩ := hvalue
  · have hhead : v.head? ≠ some quote := fun h => hquote (List.mem_of_head? h)
    have hblank : blank ∉ v := fun h => hplain ⟨hne, Or.inl ⟨h, hquote⟩⟩
    refine ⟨hquote, hblank, ?_⟩
    have hsplit := List.takeWhile_append_dropWhile (p := fun c => !isSpace c) (l := v)
    cases hdrop : v.dropWhile fun c => !isSpace c with
    | nil =>
        rw [hdrop, List.append_nil] at hsplit
        have hword : Word v := hsplit ▸ word_takeWhile v
        exact absurd ⟨hne, Or.inr ⟨hword, hhead⟩⟩ hplain
    | cons s t =>
        have hs := List.head?_dropWhile_not (fun c => !isSpace c) v
        rw [hdrop] at hs hsplit
        exact ⟨_, s, t, hsplit.symm, word_takeWhile v, by simpa using hs⟩
  · exact absurd ⟨hne, Or.inr hword⟩ hplain

/-- Values that are read back as they are given are plain. -/
theorem plain_of_readArgs {values args : List Text} (hnames : ∀ v ∈ values, isName v = false)
    (h : readArgs (flattenTail (values ++ args)) = .ok (values, flatten args)) :
    ∀ v ∈ values, Plain v := by
  have hvalues := (readArgs_values h).1
  induction values with
  | nil => exact fun v hv => absurd hv List.not_mem_nil
  | cons v values ih =>
      have hname := hnames v List.mem_cons_self
      have hplain : Plain v := by
        -- joining keeps the space of the value, reading it loses one
        by_contra hplain
        obtain ⟨hquote, hblank, w, s, t, rfl, hword, hs⟩ :=
          (hvalues v List.mem_cons_self).split hname hplain
        have hjoined : flattenTail ((w ++ s :: t) :: values ++ args) =
            blank :: (w ++ s :: (t ++ flattenTail (values ++ args))) := by
          rw [List.cons_append, flattenTail_cons, flatten_cons, flattenArg, if_neg hblank]
          simp
        have hhead : ∀ c ∈ w.head?, c ≠ dash ∧ c ≠ quote := by
          intro c hc
          obtain ⟨w', rfl⟩ := List.head?_eq_some_iff.mp (Option.mem_def.mp hc)
          refine ⟨?_, fun h => hquote (by simp [h])⟩
          simpa [isName] using hname
        have hcount := countP_flattenTail (p := tab) (by decide) (by decide)
          ((w ++ s :: t) :: values ++ args)
        have hargs := countP_flatten (p := tab) (by decide) (by decide) args
        rw [hjoined] at h hcount
        have hlost := tab_lost hword hs (fun h => hblank (by simp [h])) hhead
          (readArgs_of_skipWs h rfl)
        have hsum : ((w ++ s :: t) :: values ++ args).flatten.countP tab =
            ((w ++ s :: t) :: values).flatten.countP tab + args.flatten.countP tab := by
          rw [List.flatten_append, List.countP_append]
        rw [List.countP_cons_of_neg (by decide)] at hcount
        omega
      have hread : readArgs (flattenTail (values ++ args)) = .ok (values, flatten args) := by
        obtain ⟨c, cs, htext, hc, hdash, harg⟩ :=
          parseArg_plain hplain hname (boundary_flattenTail (values ++ args))
        have hskip : skipWs (flattenTail (v :: values ++ args)) = c :: cs := by
          rw [List.cons_append, skipWs_flattenTail, flatten_cons, htext]
          exact skipWs_cons_of_not hc
        rw [readArgs_of_arg hskip hdash harg] at h
        cases hread : readArgs (flattenTail (values ++ args)) with
        | error e => simp [hread] at h
        | ok read =>
            obtain ⟨as, rest⟩ := read
            rw [hread] at h
            obtain ⟨has, rfl⟩ := Prod.mk.inj (Except.ok.inj h)
            rw [if_pos (hvalues v List.mem_cons_self).1] at has
            rw [(List.cons.inj has).2]
      intro u hu
      rcases List.mem_cons.mp hu with rfl | hu
      · exact hplain
      · exact ih (fun v hv => hnames v (List.mem_cons_of_mem _ hv)) hread
          (fun a ha => hvalues a (List.mem_cons_of_mem _ ha)) u hu

end Split

/-! ## The arguments before the first name -/

section Positionals

variable {text rest a : Text} {c : UInt8} {cs : Text} {args : List Text}

/-- The arguments, joined, are read to their end, and no name is among what is read. -/
def Ignored (args : List Text) : Prop := skipPositionals (flatten args) = .ok []

/-- What is behind a value does not matter when it is set off by a space. -/
theorem parseArg_append (hc : isSpace c = false) (h : parseArg (c :: cs) = some (a, rest))
    (ht : Boundary text) : parseArg (c :: (cs ++ text)) = some (a, rest ++ text) := by
  rcases parseArg_cases hc h with ⟨rfl, rfl, hquote⟩ | ⟨hquote, heq, hword, hhead, hrest⟩
  · rw [List.append_assoc, List.cons_append]
    exact parseArg_quoted hquote
  · obtain ⟨a', rfl⟩ := List.head?_eq_some_iff.mp hhead
    have hboundary : Boundary (rest ++ text) := by
      cases rest with
      | nil => exact ht
      | cons d rest => exact hrest
    rw [← List.cons_append, heq, List.append_assoc]
    exact parseArg_word hword hquote hboundary

/-- Only a quote that is not ended is not read. -/
theorem parseArg_eq_none (h : parseArg (c :: cs) = none) : c = quote ∧ quote ∉ cs := by
  unfold parseArg at h
  split at h
  · next hquote =>
    refine ⟨by simpa using hquote, ?_⟩
    unfold parseQuoted at h
    split at h
    · next hdrop =>
      intro hmem
      rw [List.drop_succ_cons, List.drop_zero] at hdrop
      have := List.dropWhile_eq_nil_iff.mp hdrop quote hmem
      simp at this
    · exact absurd h (by simp)
  · exact absurd h (by simp)

theorem skipWs_append_of_nil (h : skipWs text = []) (text' : Text) :
    skipWs (text ++ text') = skipWs text' := by
  rw [skipWs] at h
  rw [skipWs, List.dropWhile_append, h]
  rfl

theorem skipWs_append_of_cons (h : skipWs text = c :: cs) (text' : Text) :
    skipWs (text ++ text') = c :: (cs ++ text') := by
  rw [skipWs] at h
  rw [skipWs, List.dropWhile_append, h]
  rfl

theorem Unread.skipWs (h : Unread text) : skipWs text = text := by
  rcases h with rfl | ⟨cs, rfl⟩
  · rfl
  · exact skipWs_cons_of_not (by decide)

theorem skipPositionals_of_unread (h : Unread (skipWs text)) :
    skipPositionals text = .ok (skipWs text) := by
  rcases h with hnil | ⟨cs, hcs⟩
  · rw [skipPositionals_of_nil hnil, hnil]
  · rw [skipPositionals_of_dash hcs, hcs]

/-- A quote that is not ended takes something of what follows. -/
theorem length_lt_of_unterminated (hquote : quote ∉ cs)
    (h : cs ++ flattenTail args = a ++ quote :: rest) : rest.length < (flatten args).length := by
  cases args with
  | nil =>
      rw [flattenTail, List.flatMap_nil, List.append_nil] at h
      exact absurd (by simp [h]) hquote
  | cons arg args =>
      rw [flattenTail_cons] at h
      generalize flatten (arg :: args) = joined at h ⊢
      rcases List.append_eq_append_iff.mp h with ⟨taken, -, htaken⟩ | ⟨left, hleft, hjoined⟩
      · cases taken with
        | nil => exact absurd (List.cons.inj htaken).1 (by decide)
        | cons d taken =>
            have htaken' : joined = taken ++ quote :: rest := (List.cons.inj htaken).2
            rw [htaken', List.length_append, List.length_cons]
            omega
      · cases left with
        | nil => exact absurd (List.cons.inj hjoined).1 (by decide)
        | cons d left =>
            rw [← (List.cons.inj hjoined).1] at hleft
            exact absurd (by simp [hleft]) hquote

/-- Whether the first name is found does not depend on what is behind it. -/
theorem skipPositionals_append (hunread : Unread (flatten args)) (text : Text) :
    skipPositionals (text ++ flattenTail args) = .ok (flatten args) ↔
      skipPositionals text = .ok [] := by
  induction hn : text.length using Nat.strong_induction_on generalizing text with
  | _ n ih =>
    have hle := skipWs_length_le text
    have htail : skipWs (flattenTail args) = flatten args := by
      rw [skipWs_flattenTail, hunread.skipWs]
    have hlength : (flatten args).length ≤ (flattenTail args).length := by
      rw [← htail]
      exact skipWs_length_le _
    cases hskip : skipWs text with
    | nil =>
        have happend := (skipWs_append_of_nil hskip (flattenTail args)).trans htail
        rw [skipPositionals_of_nil hskip, skipPositionals_of_unread (by rwa [happend]), happend]
        exact iff_of_true rfl rfl
    | cons c cs =>
        have hc := skipWs_of_cons hskip
        have happend := skipWs_append_of_cons hskip (flattenTail args)
        rw [hskip] at hle
        by_cases hdash : c = dash
        · subst hdash
          rw [skipPositionals_of_dash hskip, skipPositionals_of_dash happend]
          refine iff_of_false (fun h => ?_) (by simp)
          have := congrArg List.length (Except.ok.inj h)
          simp only [List.length_cons, List.length_append] at this
          omega
        · rw [skipPositionals_of_arg hskip hdash, skipPositionals_of_arg happend hdash]
          cases harg : parseArg (c :: cs) with
          | none =>
              -- the open quote is ended behind the first name, if at all
              obtain ⟨rfl, hquote⟩ := parseArg_eq_none harg
              refine iff_of_false (fun h => ?_) (by simp)
              cases hread : parseArg (quote :: (cs ++ flattenTail args)) with
              | none => simp [hread] at h
              | some read =>
                  obtain ⟨a, rest⟩ := read
                  rw [hread] at h
                  have htaken : cs ++ flattenTail args = a ++ quote :: rest := by
                    rcases parseArg_cases hc hread with ⟨-, htaken, -⟩ | ⟨hne, -⟩
                    · exact htaken
                    · exact absurd rfl hne
                  have hlt := length_lt_of_unterminated hquote htaken
                  have := (skipPositionals_suffix h).1.length_le
                  omega
          | some read =>
              obtain ⟨a, rest⟩ := read
              have hlt := parseArg_length_lt hc harg
              rw [parseArg_append hc harg (boundary_flattenTail args)]
              exact ih rest.length (by omega) rest rfl

theorem flatten_append {positionals : List Text} (h : positionals ≠ []) (args : List Text) :
    flatten (positionals ++ args) = flatten positionals ++ flattenTail args := by
  cases positionals with
  | nil => exact absurd rfl h
  | cons arg positionals =>
      rw [List.cons_append, flatten_cons, flatten_cons, flattenTail, flattenTail, flattenTail,
        List.flatMap_append, List.append_assoc]

/-- The first name is found at its place when the arguments before it are ignored. -/
theorem skipPositionals_flatten (hunread : Unread (flatten args)) (positionals : List Text) :
    skipPositionals (flatten (positionals ++ args)) = .ok (flatten args) ↔
      Ignored positionals := by
  by_cases hnil : positionals = []
  · subst hnil
    have hskip := hunread.skipWs
    refine iff_of_true ?_ (skipPositionals_of_nil rfl)
    rw [List.nil_append, skipPositionals_of_unread (by rwa [hskip]), hskip]
  · rw [flatten_append hnil]
    exact skipPositionals_append hunread _

end Positionals

/-! ## When the arguments are handed over unchanged -/

section Fidelity

variable {args argv : List Text}

/-- From the first name on, only plain arguments are handed over unchanged. -/
theorem plain_of_parse (hargs : StartsNamed args)
    (hwords : ∀ arg ∈ args, isName arg = true → Word arg)
    (h : parse acceptAll (flatten args) = handed acceptAll args) : ∀ arg ∈ args, Plain arg := by
  -- from name to name: the values of the first call tell where the next one begins
  induction hn : args.length using Nat.strong_induction_on generalizing args with
  | _ n ih =>
    cases args with
    | nil => exact fun arg harg => absurd harg List.not_mem_nil
    | cons name args =>
        have hname := startsNamed_cons.mp hargs
        have hword := hwords name List.mem_cons_self hname
        obtain ⟨cs, hflatten, hextract⟩ := flatten_startsNamed hname hword args
        rw [hflatten, parse_acceptAll, hextract, handed_acceptAll hname] at h
        generalize hvalues : (args.takeWhile fun arg => !isName arg) = values at h
        generalize htail : (args.dropWhile fun arg => !isName arg) = tail at h
        have hsplit : values ++ tail = args := by
          rw [← hvalues, ← htail, List.takeWhile_append_dropWhile]
        cases hread : readArgs (flattenTail args) with
        | error e =>
            rw [hread] at h
            exact absurd (congrArg Parsed.calls h) (by simp [Parsed.handing])
        | ok read =>
            obtain ⟨as, rest⟩ := read
            rw [hread] at h
            obtain ⟨-, rfl, hparse⟩ := Parsed.handing_inj h
            have hstarts : StartsNamed tail := htail ▸ startsNamed_dropWhile args
            have hwords' : ∀ arg ∈ tail, isName arg = true → Word arg := fun arg harg =>
              hwords arg (List.mem_cons_of_mem _ (hsplit ▸ List.mem_append_right as harg))
            have hrest : rest = flatten tail := by
              refine eq_of_suffix_of_ink (readArgs_suffix hread)
                (hsplit ▸ flatten_suffix_tail as tail) (readArgs_values hread).2
                (unread_flatten hstarts hwords') ?_
              obtain ⟨hlost, hkept⟩ := countP_readArgs (p := ink) (by decide) hread
              have hall := hkept fun c => ink_of_space
              have hjoined := countP_flattenTail (p := ink) (by decide) (by decide) args
              have htailed := countP_flatten (p := ink) (by decide) (by decide) tail
              have hsum : args.flatten.countP ink =
                  as.flatten.countP ink + tail.flatten.countP ink := by
                rw [← hsplit, List.flatten_append, List.countP_append]
              omega
            subst hrest
            have hvalue : ∀ v ∈ as, isName v = false := by
              intro v hv
              rw [← hvalues] at hv
              simpa using List.mem_takeWhile_imp hv
            rw [← hsplit] at hread
            have hplain := plain_of_readArgs hvalue hread
            have hsmaller : tail.length ≤ args.length := by
              rw [← hsplit, List.length_append]
              omega
            have hplain' := ih tail.length (by simp only [List.length_cons] at hn; omega)
              hstarts hwords' hparse rfl
            intro arg harg
            rcases List.mem_cons.mp harg with rfl | harg
            · rwa [Plain, if_pos hname]
            · rw [← hsplit] at harg
              exact (List.mem_append.mp harg).elim (hplain arg) (hplain' arg)

/-- Only plain arguments behind ignored ones are handed over unchanged. -/
theorem of_parseArgv (h : parseArgv acceptAll argv = handed acceptAll argv) :
    Ignored (argv.takeWhile fun arg => !isName arg) ∧
      ∀ arg ∈ argv.dropWhile fun arg => !isName arg, Plain arg := by
  have hargv := List.takeWhile_append_dropWhile (p := fun arg => !isName arg) (l := argv)
  generalize hargs : (argv.dropWhile fun arg => !isName arg) = args at hargv ⊢
  have hstarts : StartsNamed args := hargs ▸ startsNamed_dropWhile argv
  obtain ⟨houtcome, hspelled, hnames⟩ := handed_accepted hstarts
  rw [parseArgv, handed_dropWhile, hargs, parse_eq_skipPositionals] at h
  cases hskip : skipPositionals (flatten argv) with
  | error e =>
      rw [hskip] at h
      rw [← h] at houtcome
      exact absurd houtcome (by simp)
  | ok rest =>
      rw [hskip] at h
      -- the names are words, so the arguments from the first one on start in the text
      -- where they should, and what was read has just as much ink
      obtain ⟨hsuffix, hunread⟩ := skipPositionals_suffix hskip
      obtain ⟨hwords, hink⟩ := parse_accepted hunread
      replace h : parse acceptAll rest = handed acceptAll args := h
      rw [h] at hwords hink
      have hwords' : ∀ arg ∈ args, isName arg = true → Word arg := by
        intro arg harg hname
        have hmem : arg ∈ (handed acceptAll args).calls.map Prod.fst :=
          hnames ▸ List.mem_filter.mpr ⟨harg, hname⟩
        obtain ⟨call, hcall, rfl⟩ := List.mem_map.mp hmem
        exact hwords call hcall
      have hrest : rest = flatten args := by
        refine eq_of_suffix_of_ink hsuffix
          (flatten_suffix (hargs ▸ List.dropWhile_suffix _)) hunread
          (unread_flatten hstarts hwords') ?_
        rw [hink houtcome, hspelled, countP_flatten (by decide) (by decide)]
      subst hrest
      rw [← hargv] at hskip
      exact ⟨(skipPositionals_flatten hunread _).mp hskip, plain_of_parse hstarts hwords' h⟩

/-- Ignored arguments do not get in the way of plain ones. -/
theorem parseArgv_plain (commands : Commands)
    (hignored : Ignored (argv.takeWhile fun arg => !isName arg))
    (hplain : ∀ arg ∈ argv.dropWhile fun arg => !isName arg, Plain arg) :
    parseArgv commands argv = handed commands argv := by
  have hargv := List.takeWhile_append_dropWhile (p := fun arg => !isName arg) (l := argv)
  have hstarts := startsNamed_dropWhile argv
  have hunread := unread_flatten hstarts fun arg harg => (hplain arg harg).word
  have hskip := (skipPositionals_flatten hunread _).mpr hignored
  rw [hargv] at hskip
  rw [parseArgv, parse_eq_skipPositionals, hskip, handed_dropWhile]
  exact parse_flatten commands hstarts hplain

/-- Exactly the plain arguments are handed over as they are, when what is before the
first name is ignored. -/
theorem parseArgv_eq_handed_iff (argv : List Text) :
    (∀ commands, parseArgv commands argv = handed commands argv) ↔
      Ignored (argv.takeWhile fun arg => !isName arg) ∧
        ∀ arg ∈ argv.dropWhile fun arg => !isName arg, Plain arg :=
  ⟨fun h => of_parseArgv (h acceptAll), fun h commands => parseArgv_plain commands h.1 h.2⟩

/-- An empty value is lost. -/
theorem parseArgv_loses_empty :
    ¬ ∀ commands, parseArgv commands [ascii "-a", []] = handed commands [ascii "-a", []] := by
  intro h
  have hplain := (of_parseArgv (h acceptAll)).2 [] (by decide)
  exact absurd hplain (by decide)

end Fidelity

end Securepath.Util
