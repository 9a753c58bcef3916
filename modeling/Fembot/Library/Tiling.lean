/-
  File:      Fembot/Library/Tiling.lean
  Subject:   Windows that lie one behind the other, and the parts of an array they cut out.

  `Tiles a ws b` says that the windows `ws`, each a pair of its lower and its upper end, are not
  empty, adjacent, and reach from `a` to `b`. The slices of such windows put one behind the other
  are the slice from `a` to `b` (`Tiles.flatten_slices`); where the array holds no value twice,
  no two of them share a value (`Tiles.pairwise_disjoint`) and each value stands in exactly one
  (`Tiles.exists_unique`).
-/
import Fembot.Library.Cells

namespace Library

variable {α : Type*}

/-- The windows are not empty and lie one behind the other, from `a` to `b`. -/
inductive Tiles : Nat → List (Nat × Nat) → Nat → Prop
  | nil (a : Nat) : Tiles a [] a
  | cons {lo hi b : Nat} {ws : List (Nat × Nat)} (h : lo < hi) (rest : Tiles hi ws b) :
      Tiles lo ((lo, hi) :: ws) b

/-- The slices the windows cut out of an array. -/
def slices (l : List α) (ws : List (Nat × Nat)) : List (List α) :=
  ws.map fun w => slice l w.1 w.2

theorem Tiles.le {a b : Nat} {ws : List (Nat × Nat)} (h : Tiles a ws b) : a ≤ b := by
  induction h with
  | nil a => exact Nat.le_refl a
  | cons h _ ih => exact Nat.le_of_lt (Nat.lt_of_lt_of_le h ih)

/-- A further window is put behind the last. -/
theorem Tiles.snoc {a b c : Nat} {ws : List (Nat × Nat)} (h : Tiles a ws b) (hbc : b < c) :
    Tiles a (ws ++ [(b, c)]) c := by
  induction h with
  | nil a => exact Tiles.cons hbc (Tiles.nil c)
  | cons hlo _ ih => exact Tiles.cons hlo (ih hbc)

/-- Each window lies between the ends and is not empty. -/
theorem Tiles.bounds {a b : Nat} {ws : List (Nat × Nat)} (h : Tiles a ws b) :
    ∀ w ∈ ws, a ≤ w.1 ∧ w.1 < w.2 ∧ w.2 ≤ b := by
  induction h with
  | nil => exact fun w hw => absurd hw List.not_mem_nil
  | cons hlo hrest ih =>
    intro w hw
    cases hw with
    | head => exact ⟨Nat.le_refl _, hlo, hrest.le⟩
    | tail _ hw =>
      obtain ⟨h1, h2, h3⟩ := ih w hw
      exact ⟨by omega, h2, h3⟩

/-- Each window begins behind the beginning of those before. -/
theorem Tiles.pairwise_lt {a b : Nat} {ws : List (Nat × Nat)} (h : Tiles a ws b) :
    ws.Pairwise fun w w' => w.1 < w'.1 := by
  induction h with
  | nil => exact List.Pairwise.nil
  | cons hlo hrest ih =>
    exact List.Pairwise.cons (fun w hw => Nat.lt_of_lt_of_le hlo (hrest.bounds w hw).1) ih

/-- Nothing between the ends is left out or taken twice. -/
theorem Tiles.flatten_slices {a b : Nat} {ws : List (Nat × Nat)} (h : Tiles a ws b)
    (l : List α) : (slices l ws).flatten = slice l a b := by
  induction h with
  | nil a => exact (slice_self l a).symm
  | cons hlo hrest ih =>
    rw [slices, List.map_cons, List.flatten_cons]
    rw [slices] at ih
    rw [ih, slice_append (Nat.le_of_lt hlo) hrest.le]

theorem Tiles.pairwise_disjoint {a b : Nat} {ws : List (Nat × Nat)} (h : Tiles a ws b)
    {l : List α} (hnd : l.Nodup) : (slices l ws).Pairwise List.Disjoint := by
  have hs : (slice l a b).Nodup :=
    hnd.sublist ((List.take_sublist _ _).trans (List.drop_sublist _ _))
  rw [← h.flatten_slices l] at hs
  exact (List.nodup_flatten.mp hs).2

/-- Each value between the ends stands in the slice of exactly one window. -/
theorem Tiles.exists_unique {a b : Nat} {ws : List (Nat × Nat)} (h : Tiles a ws b)
    {l : List α} (hnd : l.Nodup) {v : α} (hv : v ∈ slice l a b) :
    ∃! k : Nat, ∃ w : Nat × Nat, ws[k]? = some w ∧ v ∈ slice l w.1 w.2 := by
  have hpair : ws.Pairwise fun w w' => (slice l w.1 w.2).Disjoint (slice l w'.1 w'.2) :=
    List.pairwise_map.mp (h.pairwise_disjoint hnd)
  have hdis := List.pairwise_iff_getElem.mp hpair
  rw [← h.flatten_slices l] at hv
  obtain ⟨s, hs, hvs⟩ := List.mem_flatten.mp hv
  obtain ⟨w, hw, rfl⟩ := List.mem_map.mp hs
  obtain ⟨k, hk⟩ := List.mem_iff_getElem?.mp hw
  refine ⟨k, ⟨w, hk, hvs⟩, ?_⟩
  intro k' hin
  obtain ⟨w', hk', hvs'⟩ := hin
  obtain ⟨hlt, rfl⟩ := List.getElem?_eq_some_iff.mp hk
  obtain ⟨hlt', rfl⟩ := List.getElem?_eq_some_iff.mp hk'
  by_contra hne
  rcases Nat.lt_or_gt_of_ne hne with hkk | hkk
  · exact hdis k' k hlt' hlt hkk hvs' hvs
  · exact hdis k k' hlt hlt' hkk hvs hvs'

end Library
