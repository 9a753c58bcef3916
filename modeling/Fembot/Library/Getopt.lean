/-
  File:      Fembot/Library/Getopt.lean
  Subject:   `getopt`: the options in the words of a command line.

  A word that starts with '-' holds options; one that takes an argument has it in the rest of its word,
  or else in the next one. The first word that holds none ends the options, and so does "--".

  * `getopt` -- the options in their order, and the operands that are left;
  * `Renders` -- the ways to write options: flags together, an argument behind its option or by itself;
  * `getopt_renders` -- whichever way they were written, they are read back.
-/
import Mathlib.Data.List.Basic

namespace Library

/-! ## 1. Options -/

/-- What a character is: no option, a flag, or an option with an argument. -/
abbrev OptSpec := Char → Option Bool

/-- An option that `getopt` returns, with `optarg`. -/
structure Opt where
  char : Char
  optarg : Option (List Char)
  deriving DecidableEq, Repr

/-- What it returns for a character that is no option, and for an option whose argument is missing. -/
def Opt.unknown : Opt := ⟨'?', none⟩

/-- A flag. -/
def Opt.flag (c : Char) : Opt := ⟨c, none⟩

section

variable (spec : OptSpec)

/-- The options in the characters of a word, and the one whose argument is the next word. -/
def wordOpts : List Char → List Opt × Option Char
  | [] => ([], none)
  | c :: cs =>
    match spec c with
    | none => (.unknown :: (wordOpts cs).1, (wordOpts cs).2)
    | some false => (.flag c :: (wordOpts cs).1, (wordOpts cs).2)
    | some true => if cs = [] then ([], some c) else ([⟨c, some cs⟩], none)

/-- The options in the words behind an option that waits for its argument, if there is one, and the
    operands. -/
def getopt : Option Char → List (List Char) → List Opt × List (List Char)
  | some _, [] => ([.unknown], [])
  | some c, optarg :: words => (⟨c, some optarg⟩ :: (getopt none words).1, (getopt none words).2)
  | none, [] => ([], [])
  | none, ['-', '-'] :: words => ([], words)
  | none, ('-' :: c :: cs) :: words =>
    let found := wordOpts spec (c :: cs)
    (found.1 ++ (getopt found.2 words).1, (getopt found.2 words).2)
  | none, words => ([], words)

end

/-! ## 2. What is written is read back -/

section

variable {spec : OptSpec}

/-- Flags stand before anything else in a word. -/
theorem wordOpts_flags {flags : List Char} (h : ∀ c ∈ flags, spec c = some false) (cs : List Char) :
    wordOpts spec (flags ++ cs) =
      (flags.map Opt.flag ++ (wordOpts spec cs).1, (wordOpts spec cs).2) := by
  induction flags with
  | nil => rfl
  | cons c flags ih =>
    rw [List.cons_append, wordOpts, h c List.mem_cons_self]
    dsimp only
    rw [ih fun c hc => h c (List.mem_cons_of_mem _ hc)]
    rfl

/-- The words are a way to write the options. -/
inductive Renders (spec : OptSpec) : List Opt → List (List Char) → Prop
  | nil : Renders spec [] []
  | flags {flags : List Char} (hne : flags ≠ []) (h : ∀ c ∈ flags, spec c = some false)
      {opts : List Opt} {words : List (List Char)} (hrest : Renders spec opts words) :
      Renders spec (flags.map Opt.flag ++ opts) (('-' :: flags) :: words)
  | behind {flags : List Char} (h : ∀ c ∈ flags, spec c = some false) {c : Char}
      (hc : spec c = some true) {optarg : List Char} (hne : optarg ≠ []) {opts : List Opt}
      {words : List (List Char)} (hrest : Renders spec opts words) :
      Renders spec (flags.map Opt.flag ++ ⟨c, some optarg⟩ :: opts)
        (('-' :: (flags ++ c :: optarg)) :: words)
  | apart {flags : List Char} (h : ∀ c ∈ flags, spec c = some false) {c : Char}
      (hc : spec c = some true) {optarg : List Char} {opts : List Opt}
      {words : List (List Char)} (hrest : Renders spec opts words) :
      Renders spec (flags.map Opt.flag ++ ⟨c, some optarg⟩ :: opts)
        (('-' :: (flags ++ [c])) :: optarg :: words)

/-- A word of options, the first of which is known. -/
theorem getopt_word (hdash : spec '-' = none) {cs : List Char} {c : Char} (hhead : cs.head? = some c)
    (hc : spec c ≠ none) (words : List (List Char)) :
    getopt spec none (('-' :: cs) :: words) =
      ((wordOpts spec cs).1 ++ (getopt spec (wordOpts spec cs).2 words).1,
        (getopt spec (wordOpts spec cs).2 words).2) := by
  cases cs with
  | nil => cases hhead
  | cons d cs =>
    cases hhead
    rw [getopt]
    exact fun h => absurd hdash (h ▸ hc)

/-- The first character behind the '-', where flags stand before an option. -/
theorem head?_flags {flags : List Char} (h : ∀ c ∈ flags, spec c = some false) {c : Char}
    (hc : spec c ≠ none) (cs : List Char) :
    ∃ d, (flags ++ c :: cs).head? = some d ∧ spec d ≠ none := by
  cases flags with
  | nil => exact ⟨c, rfl, hc⟩
  | cons d flags =>
    refine ⟨d, rfl, ?_⟩
    rw [h d List.mem_cons_self]
    exact Option.some_ne_none false

/-- Options that were written are read back, and the words behind them as if none stood before. -/
theorem getopt_renders (hdash : spec '-' = none) {opts : List Opt} {words : List (List Char)}
    (h : Renders spec opts words) (rest : List (List Char)) :
    getopt spec none (words ++ rest) =
      (opts ++ (getopt spec none rest).1, (getopt spec none rest).2) := by
  induction h with
  | nil => rfl
  | @flags flags hne hflags opts words hrest ih =>
    obtain ⟨c, cs, rfl⟩ := List.exists_cons_of_ne_nil hne
    have hword := wordOpts_flags hflags []
    rw [List.append_nil] at hword
    have hc : spec c ≠ none := by
      rw [hflags c List.mem_cons_self]
      exact Option.some_ne_none false
    rw [List.cons_append, getopt_word hdash rfl hc, hword]
    dsimp only [wordOpts]
    rw [ih, List.append_nil, List.append_assoc]
  | @behind flags hflags c hc optarg hne opts words hrest ih =>
    have hknown : spec c ≠ none := by
      rw [hc]
      exact Option.some_ne_none true
    obtain ⟨d, hhead, hd⟩ := head?_flags hflags hknown optarg
    have hlast : wordOpts spec (c :: optarg) = ([⟨c, some optarg⟩], none) := by
      rw [wordOpts, hc]
      exact if_neg hne
    rw [List.cons_append, getopt_word hdash hhead hd, wordOpts_flags hflags, hlast]
    dsimp only
    rw [ih]
    simp only [List.append_assoc, List.cons_append, List.nil_append]
  | @apart flags hflags c hc optarg opts words hrest ih =>
    have hknown : spec c ≠ none := by
      rw [hc]
      exact Option.some_ne_none true
    obtain ⟨d, hhead, hd⟩ := head?_flags hflags hknown []
    have hlast : wordOpts spec [c] = ([], some c) := by
      rw [wordOpts, hc]
      exact if_pos rfl
    rw [List.cons_append, getopt_word hdash hhead hd, wordOpts_flags hflags, hlast]
    dsimp only
    rw [List.cons_append, getopt, ih]
    simp only [List.append_assoc, List.nil_append, List.cons_append]

end

end Library
