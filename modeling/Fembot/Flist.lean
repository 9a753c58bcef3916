/-
  File:      Fembot/Flist.lean
  Subject:   The list of operation numbers (`src/lib/flist.c`) and one specification lemma for
             each of its functions.

  * `Flist` -- `bstg_flist_t`; the cells `pindex` points at are a list, whose length is the
    number of elements `calloc` gave;
  * `bstgFlistInit` .. `bstgFlistImport` -- the functions, under the source's names;
  * `flistShuffle_spec` -- the cells below `number` are rearranged, if they are allocated;
  * `flistGet_spec` -- the drawn cell lies in the window, if that is neither empty nor ends
    behind the allocation.
-/
import Fembot.Libc
import Fembot.Library.Cells
import Mathlib.Data.Stream.Init

namespace Fembot

open Library

/-! ## 1. The functions -/

/-- The magic value of an initialised list. -/
def BSTG_FLIST_MAGIC : UInt32 := ~~~0xdead5555

structure Flist where
  magic : UInt32
  pindex : List UInt32
  number : UInt32
  lower : UInt32
  upper : UInt32
  deriving DecidableEq, Repr

/-- `bstg_flist_init`; `callocOk` is the outcome of `calloc`. -/
def bstgFlistInit (ps : Flist) (number : UInt32) (callocOk : Bool) : Flist × Int :=
  let ps := { ps with number := number, upper := number }
  if callocOk then
    ({ ps with
        magic := BSTG_FLIST_MAGIC
        pindex := (List.range number.toNat).map UInt32.ofNat
        lower := 0 }, 0)
  else ({ ps with pindex := [] }, 1)

/-- The loop of `bstg_flist_shuffle`, while `len > 1`; `words` is the stream `arc4random` reads. -/
def shuffleLoop : Nat → List UInt32 → Stream' UInt32 → Exec (List UInt32 × Stream' UInt32)
  | len + 2, pindex, words => do
    let swapindex := words.head.toNat % (len + 2)
    let temp ← load pindex (len + 1)
    let v ← load pindex swapindex
    let pindex ← store pindex (len + 1) v
    let pindex ← store pindex swapindex temp
    shuffleLoop (len + 1) pindex words.tail
  | _, pindex, words => pure (pindex, words)

/-- `bstg_flist_shuffle`. -/
def bstgFlistShuffle (ps : Flist) (words : Stream' UInt32) :
    Exec (Flist × Stream' UInt32 × Int) := do
  assert (ps.magic = BSTG_FLIST_MAGIC)
  let (pindex, words) ← shuffleLoop ps.number.toNat ps.pindex words
  pure ({ ps with pindex := pindex }, words, 0)

/-- `bstg_flist_set`. -/
def bstgFlistSet (ps : Flist) (lower upper : UInt32) : Flist × Int :=
  if lower ≥ upper then (ps, 1)
  else if upper > ps.number then (ps, 1)
  else ({ ps with lower := lower, upper := upper }, 0)

/-- `bstg_flist_get`; the cell is returned as an `int`. -/
def bstgFlistGet (ps : Flist) (index : UInt32) : Exec Int32 := do
  let range := ps.upper - ps.lower
  if range = 0 then .error .divisionByZero
  else do
    let v ← load ps.pindex (index % range + ps.lower).toNat
    pure v.toInt32

/-- The separators `bstg_flist_import` skips. -/
def separators : List Char := [' ', ',', ':']

/-- The digits `bstg_flist_import` skips. -/
def decimalDigits : List Char := ['0', '1', '2', '3', '4', '5', '6', '7', '8', '9']

/-- The loop of `bstg_flist_import`, while `*curr`. A round stores one cell, so that no more
    rounds than one for each cell end without a fault: the bound `bstgFlistImport` gives. -/
def importLoop : Nat → Flist → UInt32 → List Char → Exec (Flist × UInt32 × Int)
  | 0, _, _, _ => .error .outOfFuel
  | fuel + 1, ps, count, curr =>
    if curr = [] then pure (ps, count, 0)
    else
      let curr := curr.drop (strspn curr separators)
      let number := (strtoul curr).1
      let p := (strtoul curr).2
      if p = curr then pure (ps, count, if count = 0 then 1 else 0)
      else do
        let pindex ← store ps.pindex count.toNat number.toUInt32
        let ps := { ps with pindex := pindex }
        let count := count + 1
        let curr := curr.drop (strspn curr decimalDigits)
        if count > ps.number then pure (ps, count, 1)
        else importLoop fuel ps count curr

/-- `bstg_flist_import`. -/
def bstgFlistImport (ps : Flist) (options : List Char) : Exec (Flist × Int) := do
  assert (ps.magic = BSTG_FLIST_MAGIC)
  let (ps, count, rc) ←
    importLoop (ps.pindex.length + 1) { ps with lower := 0 } 0 options
  pure ({ ps with upper := count, number := count }, rc)

/-! ## 2. What each function does -/

/-- The initialised list: the identity on `number` cells, all of it in the window. -/
theorem flistInit_ok (ps : Flist) (n : UInt32) :
    bstgFlistInit ps n true =
      (⟨BSTG_FLIST_MAGIC, (List.range n.toNat).map UInt32.ofNat, n, 0, n⟩, 0) := rfl

/-- A round of the shuffle reads a word, and swaps the last cell with the one the word names. -/
theorem shuffleLoop_round {len : Nat} {pindex : List UInt32} (words : Stream' UInt32)
    (h : len + 2 ≤ pindex.length) :
    ∃ (hlast : len + 1 < pindex.length) (hswap : words.head.toNat % (len + 2) < pindex.length),
      shuffleLoop (len + 2) pindex words = shuffleLoop (len + 1)
        ((pindex.set (len + 1) pindex[words.head.toNat % (len + 2)]).set
          (words.head.toNat % (len + 2)) pindex[len + 1]) words.tail := by
  have hs : words.head.toNat % (len + 2) < len + 2 := Nat.mod_lt _ (by omega)
  have hlast : len + 1 < pindex.length := by omega
  have hswap : words.head.toNat % (len + 2) < pindex.length := by omega
  have hswap' : words.head.toNat % (len + 2) <
      (pindex.set (len + 1) pindex[words.head.toNat % (len + 2)]).length := by
    rw [List.length_set]
    exact hswap
  refine ⟨hlast, hswap, ?_⟩
  simp only [shuffleLoop, load_ok hlast, load_ok hswap, store_ok hlast, store_ok hswap',
    exec_bind_ok]

/-- The shuffle loop rearranges the first `len` cells and reads `len - 1` words. -/
theorem shuffleLoop_spec (len : Nat) (pindex : List UInt32) (words : Stream' UInt32)
    (h : len ≤ pindex.length) :
    ∃ pindex', shuffleLoop len pindex words = .ok (pindex', words.drop (len - 1)) ∧
      PermBelow len pindex' pindex := by
  induction len generalizing pindex words with
  | zero => exact ⟨pindex, rfl, PermBelow.refl _ _⟩
  | succ len ih =>
    cases len with
    | zero => exact ⟨pindex, rfl, PermBelow.refl _ _⟩
    | succ len =>
      have hs : words.head.toNat % (len + 2) < len + 2 := Nat.mod_lt _ (by omega)
      obtain ⟨hlast, hswap, hround⟩ := shuffleLoop_round words h
      rw [hround]
      obtain ⟨pindex', hrun, hperm⟩ := ih
        ((pindex.set (len + 1) pindex[words.head.toNat % (len + 2)]).set
          (words.head.toNat % (len + 2)) pindex[len + 1]) words.tail
        (by rw [List.length_set, List.length_set]; omega)
      refine ⟨pindex', hrun, ?_⟩
      exact (hperm.mono (Nat.le_succ _)).trans (permBelow_swap hlast hswap (by omega) hs)

/-- The shuffle rearranges the cells below `number` and changes nothing else. -/
theorem flistShuffle_spec {ps : Flist} (words : Stream' UInt32)
    (hm : ps.magic = BSTG_FLIST_MAGIC) (hn : ps.number.toNat ≤ ps.pindex.length) :
    ∃ pindex, bstgFlistShuffle ps words =
        .ok ({ ps with pindex := pindex }, words.drop (ps.number.toNat - 1), 0) ∧
      PermBelow ps.number.toNat pindex ps.pindex := by
  obtain ⟨pindex, hrun, hperm⟩ := shuffleLoop_spec ps.number.toNat ps.pindex words hn
  refine ⟨pindex, ?_, hperm⟩
  simp only [bstgFlistShuffle, assert_pos hm, hrun, exec_bind_ok, exec_pure]

/-- A window is set exactly when it is not empty and ends within the list. -/
theorem flistSet_spec (ps : Flist) (lower upper : UInt32) :
    bstgFlistSet ps lower upper =
      if lower < upper ∧ upper ≤ ps.number then ({ ps with lower := lower, upper := upper }, 0)
      else (ps, 1) := by
  unfold bstgFlistSet
  by_cases h1 : lower < upper
  · have h1' : ¬ lower ≥ upper := UInt32.not_le.mpr h1
    by_cases h2 : upper ≤ ps.number
    · have h2' : ¬ upper > ps.number := UInt32.not_lt.mpr h2
      rw [if_neg h1', if_neg h2', if_pos ⟨h1, h2⟩]
    · have h2' : upper > ps.number := UInt32.not_le.mp h2
      rw [if_neg h1', if_pos h2', if_neg fun h => h2 h.2]
  · have h1' : lower ≥ upper := UInt32.not_lt.mp h1
    rw [if_pos h1', if_neg fun h => h1 h.1]

/-- The index `bstg_flist_get` reads at lies in the window. -/
theorem getIndex_lt {lower upper : UInt32} (h : lower < upper) (index : UInt32) :
    (index % (upper - lower) + lower).toNat =
      lower.toNat + index.toNat % (upper.toNat - lower.toNat) ∧
    lower.toNat + index.toNat % (upper.toNat - lower.toNat) < upper.toNat := by
  have hlt : lower.toNat < upper.toNat := UInt32.lt_iff_toNat_lt.mp h
  have hsub : (upper - lower).toNat = upper.toNat - lower.toNat :=
    UInt32.toNat_sub_of_le _ _ (UInt32.le_of_lt h)
  have hmod : index.toNat % (upper.toNat - lower.toNat) < upper.toNat - lower.toNat :=
    Nat.mod_lt _ (by omega)
  have hup := upper.toNat_lt
  refine ⟨?_, by omega⟩
  rw [UInt32.toNat_add, UInt32.toNat_mod, hsub, Nat.mod_eq_of_lt (by omega)]
  omega

/-- What `bstg_flist_get` returns while the window is not empty and allocated: the cell of the
    window that the index names modulo the window's length. -/
theorem flistGet_spec {ps : Flist} (h1 : ps.lower < ps.upper)
    (h2 : ps.upper.toNat ≤ ps.pindex.length) (index : UInt32) :
    ∃ v, ps.pindex[ps.lower.toNat + index.toNat % (ps.upper.toNat - ps.lower.toNat)]? = some v ∧
      bstgFlistGet ps index = .ok v.toInt32 := by
  obtain ⟨heq, hlt⟩ := getIndex_lt h1 index
  have hr : ps.upper - ps.lower ≠ 0 := by
    intro h
    have hz := congrArg UInt32.toNat h
    rw [UInt32.toNat_sub_of_le _ _ (UInt32.le_of_lt h1)] at hz
    have := UInt32.lt_iff_toNat_lt.mp h1
    simp at hz
    omega
  have hlen : ps.lower.toNat + index.toNat % (ps.upper.toNat - ps.lower.toNat) <
      ps.pindex.length := by omega
  refine ⟨_, List.getElem?_eq_getElem hlen, ?_⟩
  simp only [bstgFlistGet, hr, if_false, heq, load_ok hlen, exec_bind_ok, exec_pure]

/-- The drawn cell is one of the window's cells. -/
theorem flistGet_mem {ps : Flist} (h1 : ps.lower < ps.upper)
    (h2 : ps.upper.toNat ≤ ps.pindex.length) (index : UInt32) :
    ∃ v ∈ slice ps.pindex ps.lower.toNat ps.upper.toNat,
      bstgFlistGet ps index = .ok v.toInt32 := by
  obtain ⟨v, hv, hget⟩ := flistGet_spec h1 h2 index
  exact ⟨v, mem_slice_of (Nat.le_add_right _ _) (getIndex_lt h1 index).2 hv, hget⟩

/-- The empty string is imported as the empty list, and the import returns 0. -/
theorem flistImport_empty {ps : Flist} (hm : ps.magic = BSTG_FLIST_MAGIC) :
    bstgFlistImport ps [] = .ok ({ ps with number := 0, lower := 0, upper := 0 }, 0) := by
  simp only [bstgFlistImport, assert_pos hm, importLoop, if_pos, exec_bind_ok, exec_pure]

end Fembot
