/-
  File:      Fembot/Fchown.lean
  Subject:   The operation `src/funcs/src/chown/fchown.c`: the group it gives a file.

  * `fchownLoop`, `chownFchown` -- the operation. It asks `getgroups` for the number of groups and
    allocates as many places, but never asks for the groups: the loop searches the zeros of `calloc`;
  * `otherGroup` -- the group the loop is meant to find: the first of the process's that is not the
    file's;
  * `Coincides`, `fchown_group_iff` -- when the one is the other.
-/
import Fembot.Probing
import Mathlib.Data.List.TakeWhile

namespace Fembot

/-! ## 1. The operation -/

/-- The call `getgroups(0, NULL)`: the number of supplementary groups. -/
def getgroups0 (groups : List UInt32) : Int := groups.length

/-- The call `calloc(n, sizeof(gid_t))`: `n` zeros, if there is memory. -/
def callocGids (avail : Bool) (n : Nat) : Option (List UInt32) :=
  if avail then some (List.replicate n 0) else none

/-- The loop of the operation, `n` rounds from `x` on: the first id that is different from the
    file's, or the `newid` before the loop. -/
def fchownLoop (newids : List UInt32) (stGid newid : UInt32) : Nat → Nat → Exec UInt32
  | _, 0 => pure newid
  | x, n + 1 => do
    let id ← load newids x
    if id ≠ stGid then pure id else fchownLoop newids stGid newid (x + 1) n

/-- The arguments of the `fchown` call. -/
structure FchownCall where
  fd : Int
  owner : UInt32
  group : UInt32
  deriving DecidableEq, Repr

/-- The group the operation looks for, in its own variable `newid`. -/
def fchownNewid (stGid : UInt32) (groups : List UInt32) (avail : Bool) : Exec UInt32 :=
  -- get the current supplementary group list
  let groupids := getgroups0 groups
  let newids := if groupids > 0 then callocGids avail groupids.toNat else none
  let newid : UInt32 := -1
  match newids with
  -- find the first group id that is different than the file
  | some newids => fchownLoop newids stGid newid 0 groupids.toNat
  | none => pure newid

section

variable {K : Type} (sys : Sys K)

/-- `src/chown/fchown.c`, for a process with the supplementary groups `groups`. `fstat` gives the
    group in the buffer behind the `fstat` call. -/
def chownFchown (k : K) (ps : Fdstore) (fstat : Int → UInt32) (groups : List UInt32)
    (avail : Bool) : Exec (K × Fdstore × FchownCall) := do
  let (k, ps, fd) ← bstgFdstoreGet sys k ps
  let newid ← fchownNewid (fstat fd) groups avail
  pure (k, ps, ⟨fd, -1, newid⟩)

end

/-! ## 2. What the loop finds -/

/-- The first element of `ids` that is not `gid`, or -1. -/
def otherGroup (ids : List UInt32) (gid : UInt32) : UInt32 := (ids.find? (· ≠ gid)).getD (-1)

/-- The loop finds that of the places it searches. -/
theorem fchownLoop_spec (newids : List UInt32) (stGid newid : UInt32) {x n : Nat}
    (hn : x + n = newids.length) :
    fchownLoop newids stGid newid x n =
      .ok (((newids.drop x).find? (· ≠ stGid)).getD newid) := by
  induction n generalizing x with
  | zero =>
    have hx : newids.length ≤ x := by omega
    rw [List.drop_eq_nil_of_le hx]
    rfl
  | succ n ih =>
    have hx : x < newids.length := by omega
    rw [fchownLoop, load_ok hx, exec_bind_ok, List.drop_eq_getElem_cons hx]
    by_cases hid : newids[x] = stGid
    · rw [if_neg (not_not.mpr hid), ih (by omega), List.find?_cons_of_neg (by simpa using hid)]
    · rw [if_pos hid, List.find?_cons_of_pos (by simpa using hid)]
      rfl

/-- The places hold zeros: whatever the groups are, it is 0 or -1 that is found. -/
theorem fchownNewid_eq (stGid : UInt32) (groups : List UInt32) :
    fchownNewid stGid groups true = .ok (if groups ≠ [] ∧ stGid ≠ 0 then 0 else -1) := by
  cases groups with
  | nil => rfl
  | cons g groups =>
    have hpos : getgroups0 (g :: groups) > 0 := by
      show (0 : Int) < ((g :: groups).length : Nat)
      rw [List.length_cons]
      omega
    have hlen : (getgroups0 (g :: groups)).toNat = groups.length + 1 := rfl
    have hloop := fchownLoop_spec (List.replicate (groups.length + 1) 0) stGid (-1)
      (x := 0) (n := groups.length + 1) (by rw [List.length_replicate, Nat.zero_add])
    simp only [fchownNewid, if_pos hpos, callocGids, if_true, hlen, hloop, List.drop_zero]
    by_cases hgid : stGid = 0
    · subst hgid
      have hnone : (List.replicate (groups.length + 1) (0 : UInt32)).find? (· ≠ 0) = none := by
        refine List.find?_eq_none.mpr fun id hid => ?_
        rw [List.eq_of_mem_replicate hid]
        decide
      rw [hnone, if_neg fun h => h.2 rfl]
      rfl
    · have hfirst : (0 : UInt32) ≠ stGid := fun h => hgid h.symm
      rw [List.replicate_succ, List.find?_cons_of_pos (by simpa using hfirst),
        if_pos ⟨List.cons_ne_nil _ _, hgid⟩]
      rfl

/-! ## 3. When it is a group of the process -/

/-- The group that is passed is the first of the process's that is not the file's, or -1 for want of
    one; it is none the process does not belong to. -/
def PicksOther (groups : List UInt32) (stGid newid : UInt32) : Prop :=
  newid = otherGroup groups stGid ∧ (newid = -1 ∨ newid ∈ groups)

/-- The lists on which 0 or -1 happens to be right: there are no groups; the file's is not 0, and the
    first other group is 0; the file's is 0, and no other group comes, or comes first, than the
    number that stands for none. -/
inductive Coincides (stGid : UInt32) : List UInt32 → Prop
  | empty : Coincides stGid []
  | root (n : Nat) (rest : List UInt32) (h : stGid ≠ 0) :
      Coincides stGid (List.replicate n stGid ++ 0 :: rest)
  | zeros (n : Nat) (h : stGid = 0) : Coincides stGid (List.replicate n 0)
  | reserved (n : Nat) (rest : List UInt32) (h : stGid = 0) :
      Coincides stGid (List.replicate n 0 ++ -1 :: rest)

/-- A list with the first element that is not `gid` in sight. -/
theorem find?_other_eq_some {ids : List UInt32} {gid id : UInt32} :
    ids.find? (· ≠ gid) = some id ↔
      id ≠ gid ∧ ∃ n rest, ids = List.replicate n gid ++ id :: rest := by
  rw [List.find?_eq_some_iff_append]
  constructor
  · rintro ⟨hid, pre, rest, rfl, hpre⟩
    refine ⟨of_decide_eq_true hid, pre.length, rest, ?_⟩
    rw [← List.eq_replicate_of_mem fun a ha => by simpa using hpre a ha]
  · rintro ⟨hid, n, rest, rfl⟩
    refine ⟨decide_eq_true hid, _, rest, rfl, fun a ha => ?_⟩
    rw [List.eq_of_mem_replicate ha]
    simp

theorem find?_other_eq_none {ids : List UInt32} {gid : UInt32} :
    ids.find? (· ≠ gid) = none ↔ ∃ n, ids = List.replicate n gid := by
  rw [List.find?_eq_none]
  constructor
  · intro h
    exact ⟨ids.length, List.eq_replicate_of_mem fun a ha => by simpa using h a ha⟩
  · rintro ⟨n, rfl⟩ a ha
    rw [List.eq_of_mem_replicate ha]
    simp

/-- -1, or a group of the process. -/
theorem otherGroup_mem (groups : List UInt32) (gid : UInt32) :
    otherGroup groups gid = -1 ∨ otherGroup groups gid ∈ groups := by
  unfold otherGroup
  cases hfind : groups.find? (· ≠ gid) with
  | none => exact .inl rfl
  | some id => exact .inr (List.mem_of_find?_eq_some hfind)

/-- What the search of the groups gives, by what stands in front. -/
theorem otherGroup_eq_iff {groups : List UInt32} {gid id : UInt32} :
    otherGroup groups gid = id ↔
      (id ≠ gid ∧ ∃ n rest, groups = List.replicate n gid ++ id :: rest) ∨
        (id = -1 ∧ ∃ n, groups = List.replicate n gid) := by
  rw [otherGroup, ← find?_other_eq_some, ← find?_other_eq_none]
  cases groups.find? (· ≠ gid) with
  | none => simp [eq_comm]
  | some first => simp

/-- What the search of the zeros gives is what the search of the groups gives. -/
theorem newid_eq_otherGroup_iff (stGid : UInt32) (groups : List UInt32) :
    (if groups ≠ [] ∧ stGid ≠ 0 then (0 : UInt32) else -1) = otherGroup groups stGid ↔
      Coincides stGid groups := by
  rw [eq_comm]
  constructor
  · intro heq
    by_cases hnil : groups = []
    · rw [hnil]
      exact .empty
    by_cases hgid : stGid = 0
    · rw [if_neg fun h => h.2 hgid] at heq
      subst hgid
      rcases otherGroup_eq_iff.mp heq with ⟨-, n, rest, rfl⟩ | ⟨-, n, rfl⟩
      · exact .reserved n rest rfl
      · exact .zeros n rfl
    · rw [if_pos ⟨hnil, hgid⟩] at heq
      rcases otherGroup_eq_iff.mp heq with ⟨-, n, rest, rfl⟩ | ⟨hnone, -⟩
      · exact .root n rest hgid
      · exact absurd hnone (by decide)
  · intro h
    cases h with
    | empty => rfl
    | root n rest hgid =>
      rw [if_pos ⟨by simp, hgid⟩]
      exact otherGroup_eq_iff.mpr (.inl ⟨fun h => hgid h.symm, n, rest, rfl⟩)
    | zeros n hgid =>
      rw [if_neg fun h => h.2 hgid, hgid]
      exact otherGroup_eq_iff.mpr (.inr ⟨rfl, n, rfl⟩)
    | reserved n rest hgid =>
      rw [if_neg fun h => h.2 hgid, hgid]
      exact otherGroup_eq_iff.mpr (.inl ⟨by decide, n, rest, rfl⟩)

/-- For every list of groups and every file, memory permitting: the operation passes the group it
    means to on these lists and no others. -/
theorem fchown_group_iff {K : Type} (sys : Sys K) {k k' : K} {ps ps' : Fdstore}
    (fstat : Int → UInt32) (groups : List UInt32) {call : FchownCall}
    (hop : chownFchown sys k ps fstat groups true = .ok (k', ps', call)) :
    PicksOther groups (fstat call.fd) call.group ↔ Coincides (fstat call.fd) groups := by
  obtain ⟨⟨k₁, ps₁, fd⟩, -, hop⟩ := exec_bind_inv hop
  dsimp only at hop
  rw [fchownNewid_eq, exec_bind_ok] at hop
  cases hop
  rw [← newid_eq_otherGroup_iff]
  constructor
  · exact fun h => h.1
  · intro h
    refine ⟨h, ?_⟩
    dsimp only at h ⊢
    rw [h]
    exact otherGroup_mem groups _

/-- A file of group 100 and a process of the groups 100, 0 and 27: the search goes over the first. -/
theorem fchown_group_iff_run : PicksOther [100, 0, 27] 100 0 ↔ Coincides 100 [100, 0, 27] := by
  have hop : chownFchown obliging () (bstgFdstoreInit ⟨0, 0, 0, fdZero⟩).1 (fun _ => 100)
      [100, 0, 27] true =
      .ok ((), (bstgFdstoreInit ⟨0, 0, 0, fdZero⟩).1.tracking 5 (by decide), ⟨5, -1, 0⟩) := rfl
  exact fchown_group_iff obliging (fun _ => 100) [100, 0, 27] hop

/-- The failing input: a file of group 100 and a process of the groups 100 and 27. The operation
    passes 0. -/
theorem fchown_root_group :
    chownFchown obliging () (bstgFdstoreInit ⟨0, 0, 0, fdZero⟩).1 (fun _ => 100) [100, 27] true =
        .ok ((), (bstgFdstoreInit ⟨0, 0, 0, fdZero⟩).1.tracking 5 (by decide), ⟨5, -1, 0⟩) ∧
      otherGroup [100, 27] 100 = 27 ∧ ¬ PicksOther [100, 27] 100 0 := by
  refine ⟨rfl, rfl, fun h => ?_⟩
  exact absurd h.1 (by decide)

end Fembot
