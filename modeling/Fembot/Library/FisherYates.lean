/-
  File:      Fembot/Library/FisherYates.lean
  Subject:   The Fisher-Yates shuffle as a permutation of positions: for k = n, n-1, .., 2 the
             cell k-1 changes places with the cell c_k < k.

  * `swaps c n` -- the permutation the choices c_n, .., c_2 make: position i of the result holds
    what stood at `swaps c n i`;
  * `fisherYates n` -- the same on the n positions, as a function of the choice vector;
  * `fisherYates_bijective` -- every permutation of n positions comes from exactly one choice
    vector: the last position tells c_n, and what is left is a shuffle of n-1 positions.
-/
import Mathlib.Data.Fintype.Perm
import Mathlib.Data.Fintype.BigOperators
import Mathlib.Algebra.BigOperators.Intervals
import Mathlib.Tactic.Common

namespace Library

/-! ## 1. The swaps -/

/-- The swaps of the choices c_n, .., c_2, the first one outermost. -/
def swaps (c : Nat → Nat) : Nat → Equiv.Perm Nat
  | 0 => 1
  | 1 => 1
  | k + 2 => Equiv.swap (k + 1) (c (k + 2)) * swaps c (k + 1)

/-- Each choice is one of the cells not yet settled. -/
def InRange (c : Nat → Nat) (n : Nat) : Prop := ∀ k, 2 ≤ k → k ≤ n → c k < k

theorem InRange.pred {c : Nat → Nat} {n : Nat} (h : InRange c (n + 1)) : InRange c n :=
  fun k h2 hk => h k h2 (Nat.le_succ_of_le hk)

theorem swaps_congr {c d : Nat → Nat} {n : Nat} (h : ∀ k, 2 ≤ k → k ≤ n → c k = d k) :
    swaps c n = swaps d n := by
  induction n with
  | zero => rfl
  | succ n ih =>
    cases n with
    | zero => rfl
    | succ k =>
      rw [swaps, swaps, h (k + 2) (by omega) (Nat.le_refl _),
        ih fun k' h2 hk => h k' h2 (Nat.le_succ_of_le hk)]

/-- Cells from `n` on stay. -/
theorem swaps_fix {c : Nat → Nat} {n i : Nat} (hc : InRange c n) (hi : n ≤ i) :
    swaps c n i = i := by
  induction n with
  | zero => rfl
  | succ n ih =>
    cases n with
    | zero => rfl
    | succ k =>
      have hlt := hc (k + 2) (by omega) (Nat.le_refl _)
      rw [swaps, Equiv.Perm.mul_apply, ih hc.pred (by omega)]
      exact Equiv.swap_apply_of_ne_of_ne (by omega) (by omega)

theorem swaps_lt {c : Nat → Nat} {n i : Nat} (hc : InRange c n) (hi : i < n) :
    swaps c n i < n := by
  by_contra hge
  have hfix := (swaps c n).injective (swaps_fix hc (Nat.le_of_not_lt hge))
  omega

theorem swaps_symm_lt {c : Nat → Nat} {n i : Nat} (hc : InRange c n) (hi : i < n) :
    (swaps c n).symm i < n := by
  by_contra hge
  have hfix := swaps_fix hc (Nat.le_of_not_lt hge)
  rw [Equiv.apply_symm_apply] at hfix
  omega

/-- The last cell is the one chosen first. -/
theorem swaps_last {c : Nat → Nat} {k : Nat} (hc : InRange c (k + 2)) :
    swaps c (k + 2) (k + 1) = c (k + 2) := by
  rw [swaps, Equiv.Perm.mul_apply, swaps_fix hc.pred (Nat.le_refl _), Equiv.swap_apply_left]

/-- The choices are read off the permutation, the first one off its last cell. -/
theorem swaps_inj {c d : Nat → Nat} {n : Nat} (hc : InRange c n) (hd : InRange d n)
    (h : ∀ i < n, swaps c n i = swaps d n i) : ∀ k, 2 ≤ k → k ≤ n → c k = d k := by
  induction n with
  | zero =>
    intro k h2 hk
    omega
  | succ n ih =>
    cases n with
    | zero =>
      intro k h2 hk
      omega
    | succ m =>
      have hlast : c (m + 2) = d (m + 2) := by
        rw [← swaps_last hc, ← swaps_last hd]
        exact h (m + 1) (Nat.lt_succ_self _)
      have hrest : ∀ i < m + 1, swaps c (m + 1) i = swaps d (m + 1) i := by
        intro i hi
        have hi' := h i (Nat.lt_succ_of_lt hi)
        rw [swaps, swaps, Equiv.Perm.mul_apply, Equiv.Perm.mul_apply, hlast] at hi'
        exact (Equiv.swap (m + 1) (d (m + 2))).injective hi'
      intro k h2 hk
      rcases Nat.eq_or_lt_of_le hk with rfl | hk
      · exact hlast
      · exact ih hc.pred hd.pred hrest k h2 (Nat.le_of_lt_succ hk)

/-! ## 2. Choice vectors -/

/-- A choice vector: c_k < k for k = 2, .., n. -/
abbrev Choices (n : Nat) := (k : Finset.Icc 2 n) → Fin k

/-- The choices as a function of all numbers. -/
def Choices.at {n : Nat} (v : Choices n) (k : Nat) : Nat :=
  if h : k ∈ Finset.Icc 2 n then v ⟨k, h⟩ else 0

theorem Choices.at_of_mem {n k : Nat} (v : Choices n) (h : k ∈ Finset.Icc 2 n) :
    v.at k = v ⟨k, h⟩ := dif_pos h

theorem Choices.inRange {n : Nat} (v : Choices n) : InRange v.at n := by
  intro k h2 hk
  rw [v.at_of_mem (Finset.mem_Icc.mpr ⟨h2, hk⟩)]
  exact (v _).isLt

/-- The permutation of the `n` positions that a choice vector makes. -/
def fisherYates (n : Nat) (v : Choices n) : Equiv.Perm (Fin n) where
  toFun i := ⟨swaps v.at n i, swaps_lt v.inRange i.isLt⟩
  invFun i := ⟨(swaps v.at n).symm i, swaps_symm_lt v.inRange i.isLt⟩
  left_inv _ := Fin.ext (Equiv.symm_apply_apply _ _)
  right_inv _ := Fin.ext (Equiv.apply_symm_apply _ _)

theorem fisherYates_injective (n : Nat) : Function.Injective (fisherYates n) := by
  intro v w h
  have heq : ∀ i < n, swaps v.at n i = swaps w.at n i := fun i hi =>
    congrArg (fun σ : Equiv.Perm (Fin n) => (σ ⟨i, hi⟩).val) h
  funext ⟨k, hk⟩
  obtain ⟨h2, hkn⟩ := Finset.mem_Icc.mp hk
  have hval := swaps_inj v.inRange w.inRange heq k h2 hkn
  rw [v.at_of_mem hk, w.at_of_mem hk] at hval
  exact Fin.ext hval

/-- There are as many choice vectors as permutations. -/
theorem card_choices (n : Nat) : Fintype.card (Choices n) = Fintype.card (Equiv.Perm (Fin n)) := by
  have hprod : Fintype.card (Choices n) = ∏ k ∈ Finset.Icc 2 n, k := by
    rw [Fintype.card_pi]
    simp only [Fintype.card_fin]
    exact Finset.prod_coe_sort (Finset.Icc 2 n) fun k => k
  rw [hprod, Fintype.card_perm, Fintype.card_fin]
  clear hprod
  induction n with
  | zero => rfl
  | succ n ih =>
    cases n with
    | zero => rfl
    | succ m =>
      rw [Finset.prod_Icc_succ_top (by omega), ih, Nat.factorial_succ (m + 1), Nat.mul_comm]

/-- Every permutation of the positions is made by exactly one choice vector. -/
theorem fisherYates_bijective (n : Nat) : Function.Bijective (fisherYates n) :=
  (Fintype.bijective_iff_injective_and_card _).mpr ⟨fisherYates_injective n, card_choices n⟩

/-! ## 3. Arrays -/

/-- Two cells of an array change places: the array is read through the swap of their positions. -/
theorem getElem?_swap {α : Type*} {l : List α} {i j : Nat} (hi : i < l.length) (hj : j < l.length)
    (p : Nat) : ((l.set i l[j]).set j l[i])[p]? = l[Equiv.swap i j p]? := by
  by_cases hpj : p = j
  · subst hpj
    rw [Equiv.swap_apply_right, List.getElem?_set_self (by rw [List.length_set]; exact hj),
      List.getElem?_eq_getElem hi]
  · rw [List.getElem?_set_ne fun h => hpj h.symm]
    by_cases hpi : p = i
    · subst hpi
      rw [Equiv.swap_apply_left, List.getElem?_set_self hi, List.getElem?_eq_getElem hj]
    · rw [List.getElem?_set_ne fun h => hpi h.symm, Equiv.swap_apply_of_ne_of_ne hpi hpj]

end Library
