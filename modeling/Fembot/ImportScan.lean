/-
  File:      Fembot/ImportScan.lean
  Subject:   WHAT A TEXT NAMES to the import: the numerals it starts with, and where the cursor
             gets no further.

  A round converts with `strtoul`, which reads over ANY white space and a sign, and then moves the
  cursor with two `strspn` calls, which move over separators and digits only.

  * `items` -- the numerals a text starts with, each behind any separators, and what is left;
    `Reads` is the same as a relation, one rule for each thing read;
  * `Converts` -- `strtoul` reads a number at what is left (behind white space or a sign that the
    cursor does not move over): there the cursor is `Stuck`, and every later round converts the
    same number again.
-/
import Fembot.Flist

namespace Fembot

open Library

/-! ## 1. The cursor -/

/-- A separator of the import. -/
def isSeparator (c : Char) : Bool := separators.contains c

theorem decimalDigits_contains (c : Char) : decimalDigits.contains c = c.isDigit := by
  rw [Bool.eq_iff_iff]
  simp only [decimalDigits, List.contains_eq_mem, List.mem_cons, List.not_mem_nil, or_false,
    decide_eq_true_eq, Char.isDigit, Bool.and_eq_true, UInt32.le_iff_toNat_le, Char.ext_iff,
    ← UInt32.toNat_inj]
  simp
  omega

/-- The cursor after the separators are skipped. -/
theorem drop_separators (s : List Char) :
    s.drop (strspn s separators) = s.dropWhile isSeparator := drop_strspn s separators

/-- The cursor after the digits are skipped. -/
theorem drop_digits (s : List Char) :
    s.drop (strspn s decimalDigits) = s.dropWhile Char.isDigit := by
  rw [drop_strspn]
  congr 1
  funext c
  exact decimalDigits_contains c

theorem isDigit_not_isSeparator {c : Char} (h : c.isDigit = true) : isSeparator c = false := by
  rw [Bool.eq_false_iff]
  intro hs
  simp only [isSeparator, separators, List.contains_eq_mem, List.mem_cons, List.not_mem_nil,
    or_false, decide_eq_true_eq] at hs
  rcases hs with rfl | rfl | rfl <;> exact absurd h (by decide)

/-! ## 2. What a text names -/

/-- A decimal numeral. -/
def IsNumeral (ds : List Char) : Prop := ds ≠ [] ∧ ∀ c ∈ ds, c.isDigit = true

/-- The value a numeral denotes. -/
def numeralValue (ds : List Char) : Nat := Nat.ofDigitChars 10 ds 0

/-- What the import stores for a numeral: `strtoul` saturates, the cell keeps 32 bits. -/
def numeralCell (ds : List Char) : UInt32 := (strtoulValue false ds).toUInt32

/-- The loop of `items`, with a bound on the numerals to come. -/
def itemsLoop : Nat → List Char → List (List Char) × List Char
  | 0, s => ([], s)
  | fuel + 1, s =>
    let curr := s.dropWhile isSeparator
    let ds := curr.takeWhile Char.isDigit
    if ds = [] then ([], curr)
    else
      let r := itemsLoop fuel (curr.dropWhile Char.isDigit)
      (ds :: r.1, r.2)

/-- The numerals a text starts with, each behind any separators, and what is left of it behind
    them, from the first character on that is no separator. -/
def items (s : List Char) : List (List Char) × List Char := itemsLoop s.length s

/-- The text is read as the numerals `nums`, and `rest` is left. -/
inductive Reads : List Char → List (List Char) → List Char → Prop
  | done {seps rest : List Char} (hseps : ∀ c ∈ seps, isSeparator c = true)
      (hrest : ∀ c ∈ rest.head?, isSeparator c = false ∧ c.isDigit = false) :
      Reads (seps ++ rest) [] rest
  | item {seps ds tail rest : List Char} {nums : List (List Char)}
      (hseps : ∀ c ∈ seps, isSeparator c = true) (hds : IsNumeral ds)
      (htail : ∀ c ∈ tail.head?, c.isDigit = false) (h : Reads tail nums rest) :
      Reads (seps ++ (ds ++ tail)) (ds :: nums) rest

theorem no_separators : ∀ c ∈ ([] : List Char), isSeparator c = true := List.forall_mem_nil _

theorem dropWhile_head {p : Char → Bool} {s : List Char} :
    ∀ c ∈ (s.dropWhile p).head?, p c = false := by
  intro c hc
  have h := List.head?_dropWhile_not p s
  rw [Option.mem_def.mp hc] at h
  simpa using h

/-- A text that starts with nothing of its first kind is skipped up to where it starts. -/
theorem dropWhile_append_head {p : Char → Bool} {front rest : List Char}
    (hfront : ∀ c ∈ front, p c = true) (hrest : ∀ c ∈ rest.head?, p c = false) :
    (front ++ rest).dropWhile p = rest := by
  rw [List.dropWhile_append_of_pos hfront]
  cases rest with
  | nil => rfl
  | cons c rest =>
    rw [List.dropWhile_cons_of_neg]
    rw [hrest c rfl]
    exact Bool.false_ne_true

theorem numeral_head {ds : List Char} (h : IsNumeral ds) (tail : List Char) :
    ∀ c ∈ (ds ++ tail).head?, isSeparator c = false := by
  obtain ⟨hne, hds⟩ := h
  cases ds with
  | nil => exact absurd rfl hne
  | cons d ds =>
    intro c hc
    cases hc
    exact isDigit_not_isSeparator (hds d List.mem_cons_self)

/-- A text has one reading. -/
theorem Reads.itemsLoop_eq {s rest : List Char} {nums : List (List Char)} (h : Reads s nums rest)
    {fuel : Nat} (hfuel : s.length ≤ fuel) : itemsLoop fuel s = (nums, rest) := by
  induction h generalizing fuel with
  | @done seps rest hseps hrest =>
    cases fuel with
    | zero =>
      have hnil := List.eq_nil_of_length_eq_zero (Nat.le_zero.mp hfuel)
      obtain ⟨rfl, rfl⟩ := List.append_eq_nil_iff.mp hnil
      rfl
    | succ fuel =>
      have hskip := dropWhile_append_head hseps fun c hc => (hrest c hc).1
      have hnone : rest.takeWhile Char.isDigit = [] := by
        cases rest with
        | nil => rfl
        | cons c rest => simp [(hrest c rfl).2]
      simp only [itemsLoop, hskip, hnone, if_true]
  | @item seps ds tail rest nums hseps hds htail _ ih =>
    obtain ⟨htake, hdrop⟩ := span_digits hds.2 htail
    have hskip := dropWhile_append_head hseps (numeral_head hds tail)
    have hpos : 0 < ds.length := List.length_pos_iff.mpr hds.1
    rw [List.length_append, List.length_append] at hfuel
    cases fuel with
    | zero => omega
    | succ fuel =>
      have htail : tail.length ≤ fuel := by omega
      simp only [itemsLoop, hskip, htake, hdrop, if_neg hds.1, ih htail]

/-- Every text has its reading. -/
theorem itemsLoop_reads (fuel : Nat) {s : List Char} (hfuel : s.length ≤ fuel) :
    Reads s (itemsLoop fuel s).1 (itemsLoop fuel s).2 := by
  induction fuel generalizing s with
  | zero =>
    have hnil := List.eq_nil_of_length_eq_zero (Nat.le_zero.mp hfuel)
    subst hnil
    have h : Reads ([] ++ []) [] [] := .done no_separators nofun
    exact h
  | succ fuel ih =>
    have hs : s.takeWhile isSeparator ++ s.dropWhile isSeparator = s :=
      List.takeWhile_append_dropWhile
    have hcurr : (s.dropWhile isSeparator).takeWhile Char.isDigit ++
        (s.dropWhile isSeparator).dropWhile Char.isDigit = s.dropWhile isSeparator :=
      List.takeWhile_append_dropWhile
    rw [itemsLoop]
    dsimp only
    by_cases hds : (s.dropWhile isSeparator).takeWhile Char.isDigit = []
    · rw [if_pos hds]
      rw [hds, List.nil_append] at hcurr
      have hleft : ∀ c ∈ (s.dropWhile isSeparator).head?,
          isSeparator c = false ∧ c.isDigit = false := by
        intro c hc
        refine ⟨dropWhile_head c hc, ?_⟩
        rw [← hcurr] at hc
        exact dropWhile_head c hc
      have h := Reads.done (fun _ => List.mem_takeWhile_imp (l := s)) hleft
      rwa [hs] at h
    · rw [if_neg hds]
      have hlen := congrArg List.length hs
      have hlen' := congrArg List.length hcurr
      have hpos := List.length_pos_iff.mpr hds
      rw [List.length_append] at hlen hlen'
      have htail := ih (s := (s.dropWhile isSeparator).dropWhile Char.isDigit) (by omega)
      have h := Reads.item (fun _ => List.mem_takeWhile_imp (l := s))
        ⟨hds, fun _ => List.mem_takeWhile_imp⟩ dropWhile_head htail
      rwa [hcurr, hs] at h

theorem items_reads (s : List Char) : Reads s (items s).1 (items s).2 :=
  itemsLoop_reads s.length (Nat.le_refl _)

theorem Reads.items_eq {s rest : List Char} {nums : List (List Char)} (h : Reads s nums rest) :
    items s = (nums, rest) := h.itemsLoop_eq (Nat.le_refl _)

/-! ## 3. Where `strtoul` converts -/

/-- The `strtoul` call converts: it leaves its pointer somewhere else. -/
def Converts (s : List Char) : Prop := (strtoul s).2 ≠ s

instance (s : List Char) : Decidable (Converts s) :=
  inferInstanceAs (Decidable ((strtoul s).2 ≠ s))

/-- The cursor is stuck at a text: nothing is skipped there, and yet `strtoul` converts. -/
structure Stuck (curr : List Char) : Prop where
  separators : curr.dropWhile isSeparator = curr
  digits : curr.dropWhile Char.isDigit = curr
  converts : (strtoul curr).2 ≠ curr

/-- What is left, where `strtoul` converts there, is a cursor that is stuck. -/
theorem stuck_of_left {rest : List Char} (hconv : Converts rest)
    (hrest : ∀ c ∈ rest.head?, isSeparator c = false ∧ c.isDigit = false) : Stuck rest := by
  have hskip : ∀ p : Char → Bool, (∀ c ∈ rest.head?, p c = false) → rest.dropWhile p = rest := by
    intro p hp
    have hnone : ∀ c ∈ ([] : List Char), p c = true := List.forall_mem_nil _
    exact dropWhile_append_head hnone hp
  exact ⟨hskip _ fun c hc => (hrest c hc).1, hskip _ fun c hc => (hrest c hc).2, hconv⟩

/-- `strtoul` at a numeral: its value, and the text behind it. -/
theorem strtoul_at_numeral {ds tail : List Char} (hds : IsNumeral ds)
    (htail : ∀ c ∈ tail.head?, c.isDigit = false) :
    strtoul (ds ++ tail) = (strtoulValue false ds, tail) := by
  have hnone : ∀ c ∈ ([] : List Char), isSpace c = true := List.forall_mem_nil _
  exact strtoul_numeral hnone hds.2 hds.1 htail

theorem converts_numeral {ds tail : List Char} (hds : IsNumeral ds)
    (htail : ∀ c ∈ tail.head?, c.isDigit = false) : Converts (ds ++ tail) := by
  rw [Converts, strtoul_at_numeral hds htail]
  intro he
  have hl : tail.length = (ds ++ tail).length := congrArg List.length he
  have hpos := List.length_pos_iff.mpr hds.1
  rw [List.length_append] at hl
  omega

end Fembot
