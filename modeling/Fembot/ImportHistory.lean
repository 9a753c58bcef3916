/-
  File:      Fembot/ImportHistory.lean
  Subject:   IMPORTS ONE AFTER ANOTHER: `number` is the length of the list and the bound of the
             next import at once, and every import, the failed ones included, writes it.

  * `import_within_iff` -- the store comes before the test: a numeral too many is stored behind
    `number`, which is inside the allocation only where an earlier import left the list shorter;
  * `import_failure_iff` -- a failed import leaves the list as it was only where the list was
    empty and the text names no number;
  * `import_again_iff` -- a list is installed exactly where it is no longer than the list that
    the calls before have left.
-/
import Fembot.ImportGrammar

namespace Fembot

open Library

/-! ## 1. Stores -/

/-- The import ends: no store of it is outside the allocation. More numerals than `number` are
    refused. -/
def StoresWithin (ps : Flist) (options : List Char) : Prop :=
  ∃ ps' rc, bstgFlistImport ps options = .ok (ps', rc) ∧
    (ps.number.toNat < (items options).1.length → rc ≠ 0)

/-- The numerals the text starts with fit within `number` and no further number is found behind
    them, or there is a cell behind `number`. -/
def NamesFit (ps : Flist) (options : List Char) : Prop :=
  ((items options).1.length ≤ ps.number.toNat ∧ ¬ Converts (items options).2) ∨
    ps.number.toNat < ps.pindex.length

instance (ps : Flist) (options : List Char) : Decidable (NamesFit ps options) :=
  inferInstanceAs (Decidable ((_ ∧ _) ∨ _))

/-- An import stores within the cells `bstg_flist_init` allocated, on every list reached, exactly
    when the text names no number too many or a cell is left for one. -/
theorem import_within_iff (old : Flist) (n : UInt32) (calls : List FlistCall) (ps : Flist)
    (hrun : run flistNext (bstgFlistInit old n true).1 calls = .ok ps) (options : List Char) :
    ps.pindex.length = n.toNat ∧ (StoresWithin ps options ↔ NamesFit ps options) := by
  have hkept := kept_of_run hrun
  refine ⟨hkept.allocated, ?_⟩
  have hout := import_outcome hkept.magic hkept.sized options
  unfold StoresWithin
  generalize bstgFlistImport ps options = r at hout
  cases hout with
  | ended hfit hend =>
    exact ⟨fun _ => .inl ⟨hfit, hend⟩,
      fun _ => ⟨_, _, rfl, fun hlt => absurd hlt (Nat.not_lt.mpr hfit)⟩⟩
  | overrun _ hroom _ => exact ⟨fun _ => .inr hroom, fun _ => ⟨_, _, rfl, fun _ => by decide⟩⟩
  | outside hmore hfull =>
    constructor
    · intro ⟨_, _, h, _⟩
      cases h
    · rintro (⟨hfit, hend⟩ | hroom)
      · exact absurd (hmore.resolve_right hend) (Nat.not_lt.mpr hfit)
      · exact absurd hroom (Nat.not_lt.mpr (Nat.le_of_eq hfull.symm))

/-- After a list of one, two numerals on two cells are one too many and still stored within. -/
theorem import_within_iff_run :
    StoresWithin ⟨BSTG_FLIST_MAGIC, [5, 1], 1, 0, 1⟩ ['1', ' ', '2'] :=
  (import_within_iff ⟨0, [], 0, 0, 0⟩ 2 [.importList ['5']] _ rfl _).2.mpr (by decide)

/-- The failing text: three numerals on the two cells of a fresh list; the third is stored behind
    them. -/
theorem import_stores_outside :
    bstgFlistImport (bstgFlistInit ⟨0, [], 0, 0, 0⟩ 2 true).1 ['1', ' ', '2', ' ', '3'] =
        .error (.outOfBounds 2) ∧
      ¬ StoresWithin (bstgFlistInit ⟨0, [], 0, 0, 0⟩ 2 true).1 ['1', ' ', '2', ' ', '3'] := by
  have h : bstgFlistImport (bstgFlistInit ⟨0, [], 0, 0, 0⟩ 2 true).1 ['1', ' ', '2', ' ', '3'] =
      .error (.outOfBounds 2) := by decide +kernel
  refine ⟨h, ?_⟩
  intro ⟨_, _, himp, _⟩
  rw [h] at himp
  cases himp

/-! ## 2. Failures -/

/-- The text names no number: behind its separators there is none that `strtoul` finds. -/
def NamesNone (options : List Char) : Prop :=
  (items options).1 = [] ∧ ¬ Converts (items options).2

instance (options : List Char) : Decidable (NamesNone options) :=
  inferInstanceAs (Decidable (_ ∧ _))

/-- A failed import leaves a list reached as it was exactly when the list was empty and the text
    names no number. -/
theorem import_failure_iff (old : Flist) (n : UInt32) (calls : List FlistCall) (ps : Flist)
    (hrun : run flistNext (bstgFlistInit old n true).1 calls = .ok ps) (options : List Char)
    (ps' : Flist) (rc : Int) (himp : bstgFlistImport ps options = .ok (ps', rc)) (hrc : rc ≠ 0) :
    ps' = ps ↔ ps.number = 0 ∧ NamesNone options := by
  have hkept := kept_of_run hrun
  rcases (items_reads options).import_inv hkept.magic hkept.sized himp with
    ⟨-, hend, rfl, rfl⟩ | ⟨hmore, hroom, ⟨cells, -, rfl⟩, -⟩
  · have hnone : (items options).1 = [] := by
      by_contra hne
      exact hrc (if_neg fun h => hne h.1)
    rw [hnone, List.map_nil, overwrite_nil]
    constructor
    · intro h
      exact ⟨(congrArg Flist.number h).symm, hnone, hend⟩
    · intro ⟨hzero, _⟩
      obtain ⟨hlow, hup⟩ := hkept.empty hzero
      cases ps
      cases hzero
      cases hlow
      cases hup
      rfl
  · constructor
    · intro h
      -- the length left is one more than it was
      have hadd := toNat_add_one (Nat.lt_of_le_of_lt hroom hkept.sized.2)
      have hnum : ps.number + 1 = ps.number := congrArg Flist.number h
      rw [hnum] at hadd
      omega
    · intro ⟨hzero, hnone, hend⟩
      have hlt := hmore.resolve_right hend
      rw [hnone] at hlt
      exact absurd hlt (Nat.not_lt_zero _)

/-- Behind an import that has failed on it, a text without a number fails and changes nothing. -/
theorem import_failure_iff_run :
    bstgFlistImport ⟨BSTG_FLIST_MAGIC, [0, 1], 0, 0, 0⟩ ['a', 'b', 'c'] =
        .ok (⟨BSTG_FLIST_MAGIC, [0, 1], 0, 0, 0⟩, 1) ∧
      (⟨BSTG_FLIST_MAGIC, [0, 1], 0, 0, 0⟩ : Flist) = ⟨BSTG_FLIST_MAGIC, [0, 1], 0, 0, 0⟩ :=
  ⟨rfl, (import_failure_iff ⟨0, [], 0, 0, 0⟩ 2 [.importList ['a', 'b', 'c']] _ rfl
    ['a', 'b', 'c'] _ 1 rfl (by decide)).mpr (by decide)⟩

/-- The failing call, the one the test leaves out: it fails on the list as it is initialised, and
    the list is empty afterwards. -/
theorem import_failure_changes :
    bstgFlistImport (bstgFlistInit ⟨0, [], 0, 0, 0⟩ 10 true).1 ['a', 'b', 'c'] =
        .ok ({ (bstgFlistInit ⟨0, [], 0, 0, 0⟩ 10 true).1 with number := 0, upper := 0 }, 1) ∧
      { (bstgFlistInit ⟨0, [], 0, 0, 0⟩ 10 true).1 with number := 0, upper := 0 } ≠
        (bstgFlistInit ⟨0, [], 0, 0, 0⟩ 10 true).1 := by
  refine ⟨rfl, fun h => ?_⟩
  have hnum : (0 : UInt32) = 10 := congrArg Flist.number h
  exact absurd hnum (by decide)

/-! ## 3. Repetition -/

/-- The import of the text returns 0 and installs the values. -/
def Installs (ps : Flist) (text : List Char) (values : List UInt32) : Prop :=
  ∃ ps', bstgFlistImport ps text = .ok (ps', 0) ∧ ps'.Installed values

/-- A list that would fit in the cells allocated is installed, after any calls, exactly when it is
    no longer than the list those calls have left. -/
theorem import_again_iff (old : Flist) (n : UInt32) (calls : List FlistCall) (ps : Flist)
    (hrun : run flistNext (bstgFlistInit old n true).1 calls = .ok ps) (text : List Char)
    (nums : List (List Char)) (values : List UInt32) (htext : ListText text nums)
    (hnums : Denote nums values) :
    Installs ps text values ↔ values.length ≤ ps.number.toNat := by
  have hkept := kept_of_run hrun
  rw [← hnums.length_eq]
  constructor
  · intro ⟨ps', himp, _⟩
    rcases htext.reads.import_inv hkept.magic hkept.sized himp with ⟨hfit, -⟩ | ⟨-, -, -, hrc⟩
    · exact hfit
    · cases hrc
  · intro hfit
    exact ⟨_, htext.import_eq hkept.magic hkept.sized hfit,
      installed_of_denote hnums hkept.sized hfit⟩

/-- A list of one after a list of one. -/
theorem import_again_iff_run : Installs ⟨BSTG_FLIST_MAGIC, [5, 1], 1, 0, 1⟩ ['7'] [7] := by
  have hseven : IsNumeral ['7'] := ⟨List.cons_ne_nil _ _, List.all_eq_true.mp rfl⟩
  exact (import_again_iff ⟨0, [], 0, 0, 0⟩ 2 [.importList ['5']] _ rfl ['7'] [['7']] [7]
    hseven.listText (.cons rfl .nil)).mpr (by decide)

/-- The failing sequence: on two cells a list of one and then a list of two. -/
theorem import_again_fails :
    run flistNext (bstgFlistInit ⟨0, [], 0, 0, 0⟩ 2 true).1 [.importList ['5']] =
        .ok ⟨BSTG_FLIST_MAGIC, [5, 1], 1, 0, 1⟩ ∧
      ¬ Installs ⟨BSTG_FLIST_MAGIC, [5, 1], 1, 0, 1⟩ ['1', ' ', '2'] [1, 2] := by
  refine ⟨rfl, fun h => ?_⟩
  obtain ⟨ps', himp, -⟩ := h
  have hfail : bstgFlistImport ⟨BSTG_FLIST_MAGIC, [5, 1], 1, 0, 1⟩ ['1', ' ', '2'] =
      .ok (⟨BSTG_FLIST_MAGIC, [1, 2], 2, 0, 2⟩, 1) := rfl
  rw [hfail] at himp
  cases himp

end Fembot
