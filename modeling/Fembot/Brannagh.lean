/-
  File:      Fembot/Brannagh.lean
  Subject:   `main` of brannagh (`src/brannagh/brannagh.c`): 37 children that run the table in turn, and
             a parent that waits for them.

  Child `x` begins at the operation `x` and goes on to the next one for ever. It never comes to what
  stands behind its loop: an operation cuts it short, or its counter overflows. The parent reaps all
  children and gives back what `bstg_funcs_init` mapped.

  * `forkLoop`, `brannaghChild`, `brannaghMain` -- the loop that forks, a child, and `main`;
  * `count_childFunc` -- how often a child comes to each operation;
  * `forkLoop_ends`, `parent_ends`, `child_ends` -- the parent, and a child;
  * `brannagh_ends` -- how `main` ends, in each process.
-/
import Fembot.Aibreann
import Mathlib.Data.Int.CardIntervalMod

namespace Fembot.Brannagh

open Library Aibreann

/-! ## 1. `main` -/

/-- "f:nv" -/
def brannaghSpec : OptSpec
  | 'f' => some true
  | 'n' | 'v' => some false
  | _ => none

/-- The loop that forks, over the children to come: which child the process is, if it is one. -/
def forkLoop : List Nat → Op (Option Nat)
  | [] => pure none
  | x :: xs => do
    let pid ← call .fork
    if pid = 0 then pure (some x) else forkLoop xs

/-- `func++ % NFUNCS` in round `k` of child `x`, where `func` began with `x`. -/
def childFunc (x k : Nat) : Nat := (x + k) % NFUNCS

section

variable (basedir : Path) (pf : Funcs)

/-- The loop of child `x`, a process of its own: `func` can be incremented until it is `INT_MAX`. -/
def brannaghChild (x : Nat) (w : World) : ProcessEnd :=
  match run (opStep basedir pf) { w with child := false }
      ((List.range (INT_MAX - x)).map (childFunc x)) with
  | .error e => e
  | .ok _ => .overflow

/-- The parent behind the loop that forks. -/
def brannaghParent : Op (Int × Funcs) := do
  call .waits
  bstgFuncsDestroy pf

end

/-- `main` -/
def brannaghMain (basedir : Path) (words : List Word) (w : World) : Ending :=
  match getOptions brannaghSpec words with
  | none => .usage
  | some o =>
    if o.nflag then .printed (Nat.toDigits 10 NFUNCS ++ ['\n'])
    else
      match (bstgFuncsInit (if o.verbose then 1 else 0) 1048576).exec handle w with
      | .error e => .ended e
      | .ok ((rc, pf), w) =>
        if rc ≠ 0 then .errx "cannot init bfs"
        else
          match (forkLoop (List.range 37)).exec handle w with
          | .error e => .ended e
          | .ok (some x, w) => .ended (brannaghChild basedir pf x w)
          | .ok (none, w) =>
            match (brannaghParent pf).exec handle w with
            | .error e => .ended e
            | .ok ((rc, _), w) => if rc ≠ 0 then .errx "cannot destroy bfs" else .returned w

/-! ## 2. What the children run -/

theorem childFunc_lt (x k : Nat) : childFunc x k < NFUNCS := Nat.mod_lt _ (by decide)

/-- Each operation has its turn once in `NFUNCS` rounds: in `n` of them, `n / NFUNCS` times or once
    more. -/
theorem count_childFunc (x n : Nat) {i : Nat} (hi : i < NFUNCS) :
    ((List.range n).map (childFunc x)).count i =
      n / NFUNCS + if (i + 101 * x) % NFUNCS < n % NFUNCS then 1 else 0 := by
  have hplace : ∀ k, childFunc x k = i ↔ k ≡ i + 101 * x [MOD NFUNCS] := by
    intro k
    have hfuncs : NFUNCS = 102 := rfl
    rw [childFunc, Nat.ModEq, hfuncs]
    rw [hfuncs] at hi
    omega
  rw [← Nat.count_modEq_card n (by decide : 0 < NFUNCS)]
  induction n with
  | zero => rfl
  | succ n ih =>
    rw [List.range_succ, List.map_append, List.count_append, ih, Nat.count_succ, List.map_singleton]
    by_cases hk : childFunc x n = i
    · rw [if_pos ((hplace n).mp hk), hk, List.count_singleton_self]
    · rw [if_neg fun h => hk ((hplace n).mpr h), List.count_singleton, if_neg]
      rwa [beq_iff_eq]

/-! ## 3. The parent -/

/-- The process is what it was, but for its children and whether it is one. -/
structure Forking (w w' : World) : Prop where
  k : w'.k = w.k
  ps : w'.ps = w.ps
  mem : w'.mem = w.mem
  heap : w'.heap = w.heap
  handlers : w'.handlers = w.handlers
  cwd : w'.cwd = w.cwd
  isDir : w'.isDir = w.isDir

theorem forking_refl (w : World) : Forking w w := ⟨rfl, rfl, rfl, rfl, rfl, rfl, rfl⟩

theorem Forking.trans {w w' w'' : World} (h : Forking w w') (h' : Forking w' w'') : Forking w w'' where
  k := h'.k.trans h.k
  ps := h'.ps.trans h.ps
  mem := h'.mem.trans h.mem
  heap := h'.heap.trans h.heap
  handlers := h'.handlers.trans h.handlers
  cwd := h'.cwd.trans h.cwd
  isDir := h'.isDir.trans h.isDir

/-- A call about processes. -/
theorem forking_handle {c : Call} {w w' : World} {r : c.Ret} (hc : c.group = .process)
    (hs : handle c w = .ok (r, w')) : Forking w w' := by
  have hf := handle_framed hs
  rw [hc] at hf
  exact ⟨hf.k rfl, hf.ps rfl, hf.mem nofun, hf.heap nofun, hf.handlers nofun, hf.cwd nofun, hf.isDir⟩

/-- Only the child is told 0. -/
theorem fork_child (w : World) (hpid : w.fork.1 ≠ 0) : w.fork.2.child = w.child := by
  unfold World.fork at hpid ⊢
  split
  · rename_i hok
    rw [if_pos hok] at hpid
    split
    · rename_i hnum
      rw [if_pos hnum] at hpid
      exact absurd rfl hpid
    · split <;> rfl
  · rfl

/-- The loop that forks ends, in the parent and in each child. -/
theorem forkLoop_ends (xs : List Nat) (w : World) :
    (forkLoop xs).Ends handle w fun who w' => Forking w w' ∧ (who = none → w'.child = w.child) := by
  induction xs generalizing w with
  | nil => exact Prog.ends_ret ⟨forking_refl w, fun _ => rfl⟩
  | cons x xs ih =>
    have hfork : handle .fork w = .ok w.fork := rfl
    have hforking : Forking w w.fork.2 := forking_handle rfl hfork
    refine Prog.ends_call hfork ?_
    show Prog.Ends handle (ite (w.fork.1 = 0) _ _) w.fork.2 _
    split
    · exact Prog.ends_ret ⟨hforking, nofun⟩
    · rename_i hpid
      refine (ih w.fork.2).post fun who w' hw' => ⟨hforking.trans hw'.1, fun hwho => ?_⟩
      exact (hw'.2 hwho).trans (fork_child w hpid)

/-- The parent behind the loop: what `bstg_funcs_init` mapped is given back, and no child is left. -/
theorem parent_ends {w w₁ u : World} {verbose : Int} {r : Int × Funcs}
    (hinit : InitEnd w verbose r w₁) (hrc : r.1 = 0) (hu : Forking w₁ u) (hchild : u.child = w₁.child)
    (hkids : w.kids = ∅) :
    ∃ ps w', (brannaghParent r.2).exec handle u = .ok ((0, ps), w') ∧ SameProcess w w' := by
  obtain ⟨hm, -, hps, hk⟩ := hinit.done hrc
  obtain ⟨hhandlers, hheap, -, hchild', hcwd, hdir⟩ := hinit.unmoved
  let v : World := { u with kids := ∅ }
  have hempty : v.ps.members = ∅ := by
    show u.ps.members = ∅
    rw [hu.ps, hps]
    rfl
  have hvalid : v.ps.Valid := hu.ps ▸ hinit.valid hrc
  obtain ⟨fds, hrun, -⟩ := funcsDestroy_run (w := v) hm.magic hvalid
  have hnone : ∀ n : Int, n ∉ v.ps.members.sort (· ≤ ·) := fun n hn => by
    rw [Finset.mem_sort, hempty] at hn
    exact Finset.notMem_empty n hn
  refine ⟨_, _, (Prog.exec_call_ok rfl _).trans hrun, ?_, ?_, ?_, hu.handlers.trans hhandlers, hkids.symm,
    hchild.trans hchild', hu.cwd.trans hcwd, hu.isDir.trans hdir⟩
  · funext n
    rw [closes_slot, if_neg (hnone n)]
    show u.k.slot n = w.k.slot n
    rw [hu.k, hk]
  · show unmapped _ (unmapped _ u.mem) = w.mem
    rw [hu.mem, hm.unmapped]
  · show w.heap ⊆ u.heap
    rw [hu.heap, hheap]

/-! ## 4. How `main` ends -/

/-- What ends a child. -/
theorem child_ends (basedir : Path) {pf : Funcs} {m₀ : Memory} {w : World}
    (hm : Mapped pf m₀ w.mem) (hw : w.handlers = defaultHandlers) (hv : w.ps.Valid) (x : Nat) :
    EndsInCall basedir (brannaghChild basedir pf x w) ∨ brannaghChild basedir pf x w = .overflow := by
  unfold brannaghChild
  split
  · rename_i e hrun
    have hids : ∀ i ∈ (List.range (INT_MAX - x)).map (childFunc x),
        i < (operations basedir pf).length := by
      intro i hi
      obtain ⟨k, -, rfl⟩ := List.mem_map.mp hi
      exact childFunc_lt x k
    obtain ⟨c, u, hcall, hend, hcut⟩ := run_cutShort (w := { w with child := false }) hm hw hv hids hrun
    exact .inl ⟨pf, _, _, c, u, rfl, hcall, hend, hcut⟩
  · exact .inr rfl

end Fembot.Brannagh
