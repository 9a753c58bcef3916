/-
  File:      Fembot/Library/Cells.lean
  Subject:   Rearrangement of a prefix of an array in place, and the slices of an array.

  * `PermBelow n a b` -- `a` is `b` with its first `n` cells rearranged and every later cell
    kept; a swap below `n` is one (`permBelow_swap`), and they compose;
  * `slice l lo hi` -- the cells `lo ≤ i < hi` of `l`; adjacent slices join
    (`slice_append`);
  * `overwrite l i vs` -- `l` with `vs` written over its cells from `i` on; writing them one by
    one comes to the same (`overwrite_set`).
-/
import Mathlib.Data.List.Basic
import Mathlib.Data.List.Nodup
import Mathlib.Tactic.Common

namespace Library

variable {α : Type*}

/-! ## 1. Rearrangement below a bound -/

/-- `a` is `b` with the first `n` cells rearranged and the others kept. -/
def PermBelow (n : Nat) (a b : List α) : Prop :=
  (a.take n).Perm (b.take n) ∧ a.drop n = b.drop n

theorem PermBelow.refl (n : Nat) (a : List α) : PermBelow n a a := ⟨List.Perm.refl _, rfl⟩

theorem PermBelow.trans {n : Nat} {a b c : List α} (h1 : PermBelow n a b) (h2 : PermBelow n b c) :
    PermBelow n a c := ⟨h1.1.trans h2.1, h1.2.trans h2.2⟩

/-- A rearrangement below `n` is one below every larger bound. -/
theorem PermBelow.mono {n m : Nat} {a b : List α} (h : PermBelow n a b) (hnm : n ≤ m) :
    PermBelow m a b := by
  obtain ⟨k, rfl⟩ := Nat.exists_eq_add_of_le hnm
  refine ⟨?_, ?_⟩
  · rw [List.take_add, List.take_add, h.2]
    exact h.1.append_right _
  · rw [← List.drop_drop, ← List.drop_drop, h.2]

theorem PermBelow.perm {n : Nat} {a b : List α} (h : PermBelow n a b) : a.Perm b := by
  rw [← List.take_append_drop n a, ← List.take_append_drop n b, h.2]
  exact h.1.append_right _

theorem PermBelow.length_eq {n : Nat} {a b : List α} (h : PermBelow n a b) :
    a.length = b.length := h.perm.length_eq

/-- The exchange of two cells below `n` rearranges the cells below `n`. -/
theorem permBelow_swap {n i j : Nat} {l : List α} (hil : i < l.length) (hjl : j < l.length)
    (hi : i < n) (hj : j < n) : PermBelow n ((l.set i l[j]).set j l[i]) l := by
  refine ⟨?_, ?_⟩
  · have hit : i < (l.take n).length := by rw [List.length_take]; omega
    have hjt : j < (l.take n).length := by rw [List.length_take]; omega
    have h := List.set_set_perm hit hjt
    rw [List.getElem_take, List.getElem_take] at h
    rw [List.take_set, List.take_set]
    exact h
  · rw [List.drop_set_of_lt hj, List.drop_set_of_lt hi]

/-! ## 2. Slices -/

/-- The cells `lo ≤ i < hi`. -/
def slice (l : List α) (lo hi : Nat) : List α := (l.drop lo).take (hi - lo)

theorem getElem?_slice {l : List α} {lo hi i : Nat} (h : i < hi - lo) :
    (slice l lo hi)[i]? = l[lo + i]? := by
  rw [slice, List.getElem?_take_of_lt h, List.getElem?_drop]

/-- A cell of the slice is a cell of the array at an index of the slice. -/
theorem mem_slice {l : List α} {lo hi : Nat} {v : α} (h : v ∈ slice l lo hi) :
    ∃ i, lo ≤ i ∧ i < hi ∧ l[i]? = some v := by
  obtain ⟨i, hlen, rfl⟩ := List.getElem_of_mem h
  have hlt : i < hi - lo := by
    rw [slice, List.length_take] at hlen
    omega
  refine ⟨lo + i, by omega, by omega, ?_⟩
  rw [← getElem?_slice hlt]
  exact List.getElem?_eq_getElem hlen

theorem mem_slice_of {l : List α} {lo hi i : Nat} {v : α} (h1 : lo ≤ i) (h2 : i < hi)
    (h : l[i]? = some v) : v ∈ slice l lo hi := by
  have e : (slice l lo hi)[i - lo]? = some v := by
    rw [getElem?_slice (by omega), Nat.add_sub_cancel' h1, h]
  exact List.mem_of_getElem? e

/-- Adjacent slices join. -/
theorem slice_append {l : List α} {lo mid hi : Nat} (h1 : lo ≤ mid) (h2 : mid ≤ hi) :
    slice l lo mid ++ slice l mid hi = slice l lo hi := by
  have e : hi - lo = (mid - lo) + (hi - mid) := by omega
  rw [slice, slice, slice, e, List.take_add, List.drop_drop, Nat.add_sub_cancel' h1]

theorem slice_zero (l : List α) (n : Nat) : slice l 0 n = l.take n := by
  rw [slice, List.drop_zero, Nat.sub_zero]

theorem slice_self (l : List α) (n : Nat) : slice l n n = [] := by
  rw [slice, Nat.sub_self, List.take_zero]

/-- A slice that ends within the first `n` cells holds nothing but them. -/
theorem mem_take_of_slice {l : List α} {lo hi n : Nat} {v : α} (h : v ∈ slice l lo hi)
    (hn : hi ≤ n) : v ∈ l.take n := by
  obtain ⟨i, -, hi, hv⟩ := mem_slice h
  refine List.mem_of_getElem? (i := i) ?_
  rw [List.getElem?_take_of_lt (Nat.lt_of_lt_of_le hi hn), hv]

theorem slice_take {l : List α} {n lo hi : Nat} (h : hi ≤ n) :
    slice (l.take n) lo hi = slice l lo hi := by
  have e : min (hi - lo) (n - lo) = hi - lo := by omega
  rw [slice, slice, List.drop_take, List.take_take, e]

/-! ## 3. Writing over -/

/-- The cells from `i` on are written over with `vs`. -/
def overwrite (l : List α) (i : Nat) (vs : List α) : List α :=
  l.take i ++ vs ++ l.drop (i + vs.length)

theorem overwrite_nil (l : List α) (i : Nat) : overwrite l i [] = l := by
  rw [overwrite, List.append_nil, List.length_nil, Nat.add_zero, List.take_append_drop]

/-- The first of the values is written, then the others behind it. -/
theorem overwrite_set {l : List α} {i : Nat} (h : i < l.length) (v : α) (vs : List α) :
    overwrite (l.set i v) (i + 1) vs = overwrite l i (v :: vs) := by
  have htake : (l.set i v).take (i + 1) = l.take i ++ [v] := by
    rw [List.take_add_one, List.take_set_of_le (Nat.le_refl i), List.getElem?_set_self h]
    rfl
  have hdrop : (l.set i v).drop (i + 1 + vs.length) = l.drop (i + (v :: vs).length) := by
    rw [List.drop_set_of_lt (by omega), List.length_cons, Nat.add_assoc, Nat.add_comm 1]
  rw [overwrite, overwrite, htake, hdrop, List.append_assoc, List.append_assoc, List.append_assoc,
    List.singleton_append, List.cons_append]

theorem length_overwrite {l : List α} {i : Nat} {vs : List α} (h : i + vs.length ≤ l.length) :
    (overwrite l i vs).length = l.length := by
  rw [overwrite, List.length_append, List.length_append, List.length_take, List.length_drop]
  omega

theorem take_overwrite (l vs : List α) : (overwrite l 0 vs).take vs.length = vs := by
  rw [overwrite, List.take_zero, List.nil_append, List.take_left]

theorem drop_overwrite (l vs : List α) :
    (overwrite l 0 vs).drop vs.length = l.drop vs.length := by
  rw [overwrite, List.take_zero, List.nil_append, List.drop_left, Nat.zero_add]

end Library
