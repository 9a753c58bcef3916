/-
  File:      Fembot/Shuffle.lean
  Subject:   THE SHUFFLE IS EXACT: `bstg_flist_shuffle` reads the old cells through the permutation
             that its random words choose, and every ordering is made by exactly one choice vector.

  With n = number the round at `len` = k reads the word n - k of the stream and swaps the cell k-1
  with the cell `arc4random() % k`: the Fisher-Yates shuffle of the library, word for word
  (`shuffleLoop_reads`).
-/
import Fembot.Flist
import Fembot.Library.FisherYates

namespace Fembot

open Library

/-- The choice of the round at `len` = k, where the shuffle starts at `n`. -/
def shuffleChoice (n : Nat) (words : Stream' UInt32) (k : Nat) : Nat :=
  (words.get (n - k)).toNat % k

theorem shuffleChoice_inRange (n m : Nat) (words : Stream' UInt32) :
    InRange (shuffleChoice n words) m :=
  fun _ h2 _ => Nat.mod_lt _ (by omega)

/-- The choice vector of a shuffle of `n` cells. -/
def shuffleChoices (n : Nat) (words : Stream' UInt32) : Choices n :=
  fun k => ⟨shuffleChoice n words k, shuffleChoice_inRange n n words k
    (Finset.mem_Icc.mp k.property).1 (Finset.mem_Icc.mp k.property).2⟩

/-- Behind the first word the choices are those of a shuffle of one cell less. -/
theorem shuffleChoice_tail {n k : Nat} (words : Stream' UInt32) (hk : k ≤ n) :
    shuffleChoice n words.tail k = shuffleChoice (n + 1) words k := by
  rw [shuffleChoice, shuffleChoice, Stream'.get_tail, Nat.sub_add_comm hk]

/-- The loop reads the cells through the swaps of its choices. -/
theorem shuffleLoop_reads (len : Nat) (pindex : List UInt32) (words : Stream' UInt32)
    (h : len ≤ pindex.length) :
    ∃ pindex', shuffleLoop len pindex words = .ok (pindex', words.drop (len - 1)) ∧
      ∀ i : Nat, pindex'[i]? = pindex[swaps (shuffleChoice len words) len i]? := by
  induction len generalizing pindex words with
  | zero => exact ⟨pindex, rfl, fun _ => rfl⟩
  | succ len ih =>
    cases len with
    | zero => exact ⟨pindex, rfl, fun _ => rfl⟩
    | succ len =>
      obtain ⟨hlast, hswap, hround⟩ := shuffleLoop_round words h
      rw [hround]
      obtain ⟨pindex', hrun, hreads⟩ := ih
        ((pindex.set (len + 1) pindex[words.head.toNat % (len + 2)]).set
          (words.head.toNat % (len + 2)) pindex[len + 1]) words.tail
        (by rw [List.length_set, List.length_set]; omega)
      refine ⟨pindex', hrun, fun i => ?_⟩
      -- the words behind the first are read by the rounds behind the first
      have hrest : swaps (shuffleChoice (len + 1) words.tail) (len + 1) =
          swaps (shuffleChoice (len + 2) words) (len + 1) :=
        swaps_congr fun k _ hk => shuffleChoice_tail words hk
      have hfirst : shuffleChoice (len + 2) words (len + 2) = words.head.toNat % (len + 2) := by
        rw [shuffleChoice, Nat.sub_self]
      rw [hreads i, hrest, getElem?_swap hlast hswap, swaps, Equiv.Perm.mul_apply, hfirst]

/-- For every list and every stream of random words: the cells below `number` are rearranged, the
    rest of the list is as it was, and `number - 1` words are consumed; each position below `number`
    holds what stood at the position the choice vector sends it to, and the choice vectors are in
    bijection with the orderings. -/
theorem shuffle_exact (ps : Flist) (hm : ps.magic = BSTG_FLIST_MAGIC)
    (hcells : ps.number.toNat ≤ ps.pindex.length) (words : Stream' UInt32) :
    let n := ps.number.toNat
    (∃ pindex, bstgFlistShuffle ps words =
        .ok ({ ps with pindex := pindex }, words.drop (n - 1), 0) ∧
      (pindex.take n).Perm (ps.pindex.take n) ∧ pindex.drop n = ps.pindex.drop n ∧
      ∀ i : Fin n, pindex[i.val]? = ps.pindex[(fisherYates n (shuffleChoices n words) i).val]?) ∧
      Function.Bijective (fisherYates n) := by
  refine ⟨?_, fisherYates_bijective _⟩
  obtain ⟨pindex, hrun, hperm⟩ := flistShuffle_spec words hm hcells
  obtain ⟨pindex', hloop, hreads⟩ := shuffleLoop_reads ps.number.toNat ps.pindex words hcells
  have hsame : pindex' = pindex := by
    simp only [bstgFlistShuffle, assert_pos hm, hloop, exec_bind_ok, exec_pure] at hrun
    exact congrArg Flist.pindex (Prod.mk.inj (Except.ok.inj hrun)).1
  refine ⟨pindex, hrun, hperm.1, hperm.2, fun i => ?_⟩
  have hchoices : swaps (shuffleChoices ps.number.toNat words).at ps.number.toNat =
      swaps (shuffleChoice ps.number.toNat words) ps.number.toNat :=
    swaps_congr fun k h2 hk => Choices.at_of_mem _ (Finset.mem_Icc.mpr ⟨h2, hk⟩)
  rw [← hsame, hreads i, ← hchoices]
  rfl

/-- Three cells, shuffled by the words 5, 1, ..: the choices are c_3 = 2 and c_2 = 1. -/
theorem shuffle_exact_run :
    let ps := (bstgFlistInit ⟨0, [], 0, 0, 0⟩ 3 true).1
    let words : Stream' UInt32 := fun n => UInt32.ofNat (5 - 4 * n)
    (∃ pindex, bstgFlistShuffle ps words = .ok ({ ps with pindex := pindex }, words.drop 2, 0) ∧
      (pindex.take 3).Perm (ps.pindex.take 3) ∧ pindex.drop 3 = ps.pindex.drop 3 ∧
      ∀ i : Fin 3, pindex[i.val]? = ps.pindex[(fisherYates 3 (shuffleChoices 3 words) i).val]?) ∧
      Function.Bijective (fisherYates 3) :=
  shuffle_exact (bstgFlistInit ⟨0, [], 0, 0, 0⟩ 3 true).1 rfl (by decide) _

end Fembot
