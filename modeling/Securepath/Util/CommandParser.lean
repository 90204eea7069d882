import Securepath.Serialisation.Types

/-!
# The command line

`command_parser` (`util/command_parser.cpp`). The arguments are joined to one text,
those with a blank in them between quotes, and the text is read again word by word:
a word that starts with a dash names a command, and the words up to the next such
word are handed to it.

Texts are lists of `char`s. A command is known by what it does with its arguments,
which is to accept or to refuse them; `parse` is followed with the arguments it
hands over, in their order.
-/

namespace Securepath.Util

/-- `std::string`. -/
abbrev Text := List UInt8

/-- The characters of a string literal. -/
def ascii (s : String) : Text := s.toList.map fun c => UInt8.ofNat c.toNat

def blank : UInt8 := 0x20
def quote : UInt8 := 0x22
def dash : UInt8 := 0x2d

/-- `std::isspace` in the classic locale. -/
def isSpace (c : UInt8) : Bool := c = blank || (0x09 ≤ c && c ≤ 0x0d)

/-- `invalid_argument`. -/
structure InvalidArgument where
  what : Text

def unterminatedQuote : InvalidArgument := ⟨ascii "unterminated quote in arguments"⟩

def noParameter (name : Text) : InvalidArgument :=
  ⟨ascii "no parameter named '" ++ name ++ ascii "'"⟩

/-! ## Reading words -/

/-- `in >> std::ws`. -/
def skipWs (text : Text) : Text := text.dropWhile isSpace

/-- `in >> s`: the word, and what is behind it. -/
def extract (text : Text) : Text × Text :=
  ((skipWs text).takeWhile fun c => !isSpace c, (skipWs text).dropWhile fun c => !isSpace c)

/-- `parse_quoted`; `none` when the quote is not ended. -/
def parseQuoted (text : Text) : Option (Text × Text) :=
  match (text.drop 1).dropWhile (· ≠ quote) with
  | [] => none
  | _ :: rest => some ((text.drop 1).takeWhile (· ≠ quote), rest)

/-- `parse_arg`. -/
def parseArg (text : Text) : Option (Text × Text) :=
  if text.head? = some quote then parseQuoted text else some (extract text)

theorem skipWs_length_le (text : Text) : (skipWs text).length ≤ text.length :=
  (List.dropWhile_suffix isSpace).length_le

theorem skipWs_of_cons {text : Text} {c : UInt8} {cs : Text} (h : skipWs text = c :: cs) :
    isSpace c = false := by
  induction text with
  | nil => exact absurd h (by simp [skipWs])
  | cons a as ih =>
      rw [skipWs, List.dropWhile_cons] at h
      split at h
      · exact ih h
      · next ha =>
        obtain ⟨rfl, -⟩ := List.cons.inj h
        exact Bool.eq_false_iff.mpr ha

theorem skipWs_cons_of_not {c : UInt8} {cs : Text} (h : isSpace c = false) :
    skipWs (c :: cs) = c :: cs := by
  rw [skipWs, List.dropWhile_cons, if_neg (by simp [h])]

/-- `parse_arg` takes something off a text that does not start with a space. -/
theorem parseArg_length_lt {c : UInt8} {cs a rest : Text} (hc : isSpace c = false)
    (h : parseArg (c :: cs) = some (a, rest)) : rest.length < (c :: cs).length := by
  unfold parseArg at h
  split at h
  · unfold parseQuoted at h
    split at h
    · exact absurd h (by simp)
    · next d ds hd =>
      obtain ⟨-, rfl⟩ := Prod.mk.inj (Option.some.inj h)
      have hsuffix := (List.dropWhile_suffix (l := (c :: cs).drop 1) (· ≠ quote)).length_le
      rw [hd] at hsuffix
      simp only [List.drop_succ_cons, List.drop_zero, List.length_cons] at hsuffix ⊢
      omega
  · obtain ⟨-, rfl⟩ := Prod.mk.inj (Option.some.inj h)
    simp only [skipWs_cons_of_not hc, List.dropWhile_cons, hc, Bool.not_false, if_true,
      List.length_cons]
    have hsuffix := (List.dropWhile_suffix (l := cs) (fun c => !isSpace c)).length_le
    omega

/-- The loop of `parse_args`: the values, and the text from the next name on. Empty
values are left out. -/
def readArgs (text : Text) : Except InvalidArgument (List Text × Text) :=
  match _hskip : skipWs text with
  | [] => .ok ([], [])
  | c :: cs =>
      if c = dash then .ok ([], c :: cs)
      else
        match _harg : parseArg (c :: cs) with
        | none => .error unterminatedQuote
        | some (a, rest) =>
            match readArgs rest with
            | .error e => .error e
            | .ok (as, rest) => .ok (if a ≠ [] then a :: as else as, rest)
termination_by text.length
decreasing_by
  have hlt := parseArg_length_lt (skipWs_of_cons _hskip) _harg
  have hle := skipWs_length_le text
  rw [_hskip] at hle
  omega

theorem readArgs_length_le {text rest : Text} {as : List Text}
    (h : readArgs text = .ok (as, rest)) : rest.length ≤ text.length := by
  induction hn : text.length using Nat.strong_induction_on generalizing text as rest with
  | _ n ih =>
    have hle := skipWs_length_le text
    rw [readArgs] at h
    split at h
    · obtain ⟨-, rfl⟩ := Prod.mk.inj (Except.ok.inj h)
      exact Nat.zero_le _
    · next c cs hskip =>
      rw [hskip] at hle
      split at h
      · obtain ⟨-, rfl⟩ := Prod.mk.inj (Except.ok.inj h)
        omega
      · split at h
        · exact absurd h (by simp)
        · next a rest' harg =>
          have hlt := parseArg_length_lt (skipWs_of_cons hskip) harg
          split at h
          · exact absurd h (by simp)
          · next as' rest'' hrest =>
            obtain ⟨-, rfl⟩ := Prod.mk.inj (Except.ok.inj h)
            have := ih rest'.length (by omega) hrest rfl
            omega

/-! ## Parsing -/

/-- `extract->parse` of a command. -/
abbrev Command := List Text → Except InvalidArgument Unit

/-- `commands_`. -/
abbrev Commands := Text → Option Command

/-- What was handed to which name, and how it ended. -/
structure Parsed where
  calls : List (Text × List Text) := []
  outcome : Except InvalidArgument Unit := .ok ()

/-- A call is made in front of the others. -/
def Parsed.handing (name : Text) (args : List Text) (p : Parsed) : Parsed :=
  { p with calls := (name, args) :: p.calls }

/-- `parse(std::istream&)`, with `parse_args` for each name. -/
def parse (commands : Commands) (text : Text) : Parsed :=
  match _hskip : skipWs text with
  | [] => {}
  | c :: cs =>
      if c = dash then
        -- the values are read before the name is looked up
        match _hargs : readArgs (extract (c :: cs)).2 with
        | .error e => { outcome := .error e }
        | .ok (args, rest) =>
            match commands (extract (c :: cs)).1 with
            | none => { outcome := .error (noParameter (extract (c :: cs)).1) }
            | some command =>
                match command args with
                | .error e => { calls := [((extract (c :: cs)).1, args)], outcome := .error e }
                | .ok () => (parse commands rest).handing (extract (c :: cs)).1 args
      else
        -- positionals are ignored
        match _harg : parseArg (c :: cs) with
        | none => { outcome := .error unterminatedQuote }
        | some (_, rest) => parse commands rest
termination_by text.length
decreasing_by
  · have hle := skipWs_length_le text
    have hspace := skipWs_of_cons _hskip
    have hrest := readArgs_length_le _hargs
    have hsuffix := (List.dropWhile_suffix (l := cs) (fun c => !isSpace c)).length_le
    rw [_hskip] at hle
    simp only [extract, skipWs_cons_of_not hspace, List.dropWhile_cons, hspace, Bool.not_false,
      if_true, List.length_cons] at hrest hle
    omega
  · have hlt := parseArg_length_lt (skipWs_of_cons _hskip) _harg
    have hle := skipWs_length_le text
    rw [_hskip] at hle
    omega

/-- `parse` up to the first name: the text from it on. -/
def skipPositionals (text : Text) : Except InvalidArgument Text :=
  match _hskip : skipWs text with
  | [] => .ok []
  | c :: cs =>
      if c = dash then .ok (c :: cs)
      else
        match _harg : parseArg (c :: cs) with
        | none => .error unterminatedQuote
        | some (_, rest) => skipPositionals rest
termination_by text.length
decreasing_by
  have hlt := parseArg_length_lt (skipWs_of_cons _hskip) _harg
  have hle := skipWs_length_le text
  rw [_hskip] at hle
  omega

/-- An argument as it stands in the text. -/
def flattenArg (arg : Text) : Text :=
  if blank ∈ arg then quote :: arg ++ [quote] else arg

/-- The text that `parse(argc, argv)` makes of the arguments behind the program. -/
def flatten : List Text → Text
  | [] => []
  | arg :: args => flattenArg arg ++ args.flatMap fun arg => blank :: flattenArg arg

/-- `parse(argc, argv)`. -/
def parseArgv (commands : Commands) (argv : List Text) : Parsed := parse commands (flatten argv)

/-! ## What should be handed over -/

/-- An argument that names a command. -/
def isName (arg : Text) : Bool := arg.head? = some dash

/-- Each name is handed the arguments up to the next one; those before the first
are left out. -/
def handed (commands : Commands) : List Text → Parsed
  | [] => {}
  | arg :: argv =>
      if isName arg then
        match commands arg with
        | none => { outcome := .error (noParameter arg) }
        | some command =>
            let args := argv.takeWhile fun arg => !isName arg
            match command args with
            | .error e => { calls := [(arg, args)], outcome := .error e }
            | .ok () => (handed commands (argv.dropWhile fun arg => !isName arg)).handing arg args
      else
        handed commands argv
termination_by argv => argv.length
decreasing_by
  · have hsuffix := (List.dropWhile_suffix (l := argv) (fun arg => !isName arg)).length_le
    simp only [List.length_cons]
    omega
  · simp only [List.length_cons]
    omega

end Securepath.Util
