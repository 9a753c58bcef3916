/-
  File:      Fembot/Library/Cyclic.lean
  Subject:   A counter that walks around a ring of `n` places.

  * `exists_probe` -- in `n` steps it comes to each place;
  * `walk n c d` -- the first `d` places from the counter `c` on; the first `n` are all places in
    ascending order, cut at `c % n` and put together the other way around (`walk_full`);
  * `served n c p d` -- those among them that `p` holds of. A search that stops at the next of them
    (`exists_next`) appends it to what was served before (`served_next`).
-/
import Mathlib.Data.List.Basic
import Mathlib.Data.Nat.Find
import Mathlib.Tactic.Common

namespace Library

/-! ## 1. One round -/

/-- Of `n` successive counter values one falls on the place `r` of a ring of `n` places. -/
theorem exists_probe {n r : Nat} (hr : r < n) (c : Nat) : ∃ i < n, (c + i) % n = r := by
  have hc : c % n < n := Nat.mod_lt _ (Nat.lt_of_le_of_lt (Nat.zero_le _) hr)
  rcases Nat.le_total (c % n) r with hle | hle
  · refine ⟨r - c % n, by omega, ?_⟩
    rw [Nat.add_mod, Nat.mod_eq_of_lt (a := r - c % n) (by omega), Nat.add_sub_cancel' hle,
      Nat.mod_eq_of_lt hr]
  · -- the place lies behind the counter: once around the ring
    rcases Nat.eq_or_lt_of_le hle with heq | hlt
    · exact ⟨0, by omega, by rw [Nat.add_zero]; exact heq.symm⟩
    · refine ⟨n + r - c % n, by omega, ?_⟩
      rw [Nat.add_mod, Nat.mod_eq_of_lt (a := n + r - c % n) (by omega),
        Nat.add_sub_cancel' (by omega), Nat.add_mod_left, Nat.mod_eq_of_lt hr]

/-- The first `d` places of the walk from the counter `c` on. -/
def walk (n c d : Nat) : List Nat := (List.range d).map fun i => (c + i) % n

theorem walk_succ (n c d : Nat) : walk n c (d + 1) = walk n c d ++ [(c + d) % n] := by
  rw [walk, List.range_succ, List.map_append]
  rfl

/-- The walk around: from `c % n` up, and then from 0 up to it. -/
theorem walk_full {n : Nat} (hn : 0 < n) (c : Nat) :
    walk n c n = (List.range n).filter (c % n ≤ ·) ++ (List.range n).filter (· < c % n) := by
  have hr : c % n < n := Nat.mod_lt c hn
  have hplace : ∀ i, (c + i) % n = (c % n + i) % n := fun i => (Nat.mod_add_mod c n i).symm
  simp only [walk, hplace]
  generalize c % n = r at hr
  obtain ⟨m, rfl⟩ := Nat.exists_eq_add_of_le (Nat.le_of_lt hr)
  have hfront : (List.range (r + m)).filter (r ≤ ·) = (List.range m).map (r + ·) := by
    rw [List.range_add, List.filter_append, List.filter_eq_nil_iff.mpr, List.nil_append,
      List.filter_eq_self.mpr]
    · simp
    · simp
  have hback : (List.range (r + m)).filter (· < r) = List.range r := by
    rw [List.range_add, List.filter_append, List.filter_eq_self.mpr, List.filter_eq_nil_iff.mpr,
      List.append_nil]
    · simp
    · simp
  rw [hfront, hback, Nat.add_comm r m, List.range_add, List.map_append, List.map_map]
  refine congrArg₂ (· ++ ·) (List.map_congr_left fun i hi => ?_) ?_
  · rw [List.mem_range] at hi
    exact Nat.mod_eq_of_lt (by omega)
  · conv_rhs => rw [← List.map_id (List.range r)]
    refine List.map_congr_left fun i hi => ?_
    rw [List.mem_range] at hi
    show (r + (m + i)) % (m + r) = i
    rw [← Nat.add_assoc, Nat.add_comm r m, Nat.add_mod_left, Nat.mod_eq_of_lt (by omega)]

/-! ## 2. What is served -/

section

variable {n c : Nat} {p : Nat → Prop} [DecidablePred p]

/-- The places among the first `d` that `p` holds of. -/
def served (n c : Nat) (p : Nat → Prop) [DecidablePred p] (d : Nat) : List Nat :=
  (walk n c d).filter p

/-- Places that `p` does not hold of are passed over. -/
theorem served_skip {d j : Nat} (hdj : d ≤ j)
    (hmiss : ∀ i, d ≤ i → i < j → ¬ p ((c + i) % n)) : served n c p j = served n c p d := by
  induction hdj with
  | refl => rfl
  | @step j hdj ih =>
    have hj := hmiss j hdj (Nat.lt_succ_self j)
    rw [served, walk_succ, List.filter_append, List.filter_cons_of_neg (by simpa using hj)]
    simpa [served] using ih fun i h1 h2 => hmiss i h1 (Nat.lt_succ_of_lt h2)

/-- A search that stops at the next place serves it. -/
theorem served_next {d j : Nat} (hdj : d ≤ j)
    (hmiss : ∀ i, d ≤ i → i < j → ¬ p ((c + i) % n)) (hp : p ((c + j) % n)) :
    served n c p (j + 1) = served n c p d ++ [(c + j) % n] := by
  rw [← served_skip hdj hmiss, served, walk_succ, List.filter_append,
    List.filter_cons_of_pos (by simpa using hp)]
  rfl

theorem served_initial {d m : Nat} (h : d ≤ m) : served n c p d <+: served n c p m := by
  obtain ⟨k, rfl⟩ := Nat.exists_eq_add_of_le h
  rw [served, served, walk, walk, List.range_add, List.map_append, List.filter_append]
  exact List.prefix_append _ _

/-- While not all are served that the first `m` places have, one of these is the next. -/
theorem exists_next {d m : Nat} (hd : d ≤ m)
    (hlt : (served n c p d).length < (served n c p m).length) :
    ∃ j, d ≤ j ∧ j < m ∧ p ((c + j) % n) ∧ ∀ i, d ≤ i → i < j → ¬ p ((c + i) % n) := by
  have hex : ∃ j, d ≤ j ∧ j < m ∧ p ((c + j) % n) := by
    by_contra hnone
    rw [served_skip hd fun i h1 h2 hp => hnone ⟨i, h1, h2, hp⟩] at hlt
    exact Nat.lt_irrefl _ hlt
  obtain ⟨h1, h2, hp⟩ := Nat.find_spec hex
  refine ⟨Nat.find hex, h1, h2, hp, fun i hi hlt hpi => ?_⟩
  exact Nat.find_min hex hlt ⟨hi, by omega, hpi⟩

/-- Once around, all that `p` holds of is served, from `c % n` up and then from 0 up to it. -/
theorem served_full (hn : 0 < n) (c : Nat) :
    served n c p n = ((List.range n).filter p).filter (c % n ≤ ·) ++
      ((List.range n).filter p).filter (· < c % n) := by
  rw [served, walk_full hn, List.filter_append, List.filter_comm, List.filter_comm (p := (p ·))]

end

end Library
