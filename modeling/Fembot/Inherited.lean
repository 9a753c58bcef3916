/-
  File:      Fembot/Inherited.lean
  Subject:   WHAT A PROGRAM INHERITS that an operation starts: the descriptors it finds open.

  The operations that call `execve` call `bstg_preexec` before: what the store tracks, and the three
  of the standard streams, are closed in the child, and every other descriptor is as the process
  that dispatched has it. `posix_spawn.c` does not: its program has them all.

  * `Inherits` -- what each call that starts a program finds;
  * `kind_inherits` -- each operation of the table;
  * `programs_inherit` -- over every run.
-/
import Fembot.Bystanders

namespace Fembot

open Library

/-! ## 1. Starting a program -/

/-- The numbers are closed one after the other. -/
theorem closes_slot (fds : List Int) (k : Kernel) (n : Int) :
    (fds.foldl (fun k fd => (k.close fd).1) k).slot n = if n ∈ fds then none else k.slot n := by
  by_cases hn : n ∈ fds
  · rw [if_pos hn]
    induction fds generalizing k with
    | nil => cases hn
    | cons fd fds ih =>
      rw [List.foldl_cons]
      by_cases hin : n ∈ fds
      · exact ih _ hin
      · have hfd : n = fd := (List.mem_cons.mp hn).resolve_right hin
        rw [Kernel.closes_others fds hin, ← hfd]
        unfold Kernel.close
        split
        · rename_i hopen
          exact (Kernel.put_slot (Kernel.isOpen_nonneg hopen) _ n).trans (if_pos rfl)
        · rename_i hclosed
          exact Option.not_isSome_iff_eq_none.mp hclosed
  · rw [if_neg hn]
    exact Kernel.closes_others fds hn

/-- The descriptors that `bstg_preexec` closes in the process `t`. -/
def GivenUp (t : World) (n : Int) : Prop := n ∈ t.ps.members ∨ n = 0 ∨ n = 1 ∨ n = 2

instance (t : World) (n : Int) : Decidable (GivenUp t n) := by unfold GivenUp; infer_instance

/-- What a call finds that starts a program, where `t` is the process that dispatched. -/
def Inherits (t : World) : Call → World → Prop
  | .execve _, u => ∀ n, u.k.slot n = if GivenUp t n then none else t.k.slot n
  | .posixSpawn _, u => u.k = t.k
  | _, _ => True

/-- The table and the store are those of `t`. -/
def SameTable (t u : World) : Prop := u.k = t.k ∧ u.ps = t.ps

section

variable {t w : World}

theorem sameTable_frames (t : World) : Frames [.get, .table, .store, .own] (SameTable t) (Inherits t) where
  keep c u r u' hc hI hs := by
    have hg : c.group.onTable = false := by
      cases hg : c.group with
      | get | table | store | own =>
        rw [hg] at hc
        cases hc
      | _ => rfl
    exact ⟨((handle_framed hs).k hg).trans hI.1, ((handle_framed hs).ps hg).trans hI.2⟩
  meets c u hc hI := by
    cases c with
    | execve p => cases hc
    | posixSpawn p => exact hI.1
    | _ => trivial

/-- Calls that start no program. -/
theorem quiet_frames (t : World) : Frames [.process, .own] (fun _ => True) (Inherits t) where
  keep _ _ _ _ _ _ _ := trivial
  meets c u hc _ := by
    cases c with
    | execve p => cases hc
    | posixSpawn p => cases hc
    | _ => trivial

/-! ## 2. The operations -/

/-- `bstg_preexec`, and the program behind it. -/
theorem preexec_inherits (hv : t.ps.Valid) (hw : SameTable t w) (token : Path) {f : Int → Op Unit}
    {Q : Unit → World → Prop} (hf : ∀ r u, (f r).Meets handle (Inherits t) u Q) :
    Prog.Meets handle (Inherits t) (.call .preexec fun _ => .call (.execve token) f) w Q := by
  refine ⟨trivial, fun _ w₁ hs₁ => ⟨fun n => ?_, fun r w₂ _ => hf r w₂⟩⟩
  rw [handle, hw.1, hw.2, preexec_spec hv] at hs₁
  cases hs₁
  refine (closes_slot _ t.k n).trans ?_
  have hmem : n ∈ t.ps.members.sort (· ≤ ·) ++ [0, 1, 2] ↔ GivenUp t n := by
    rw [List.mem_append, Finset.mem_sort, GivenUp]
    simp
  exact if_congr hmem rfl rfl

/-- Nothing comes behind `_exit`. -/
theorem exit_inherits (code : Int) (f : Empty → Op Unit) (u : World) (Q : Unit → World → Prop) :
    Prog.Meets handle (Inherits t) (.call (.exit code) f) u Q := ⟨trivial, fun r => nomatch r⟩

theorem execChild_inherits (hv : t.ps.Valid) (hw : SameTable t w) (token : Path)
    (Q : Unit → World → Prop) :
    Prog.Meets handle (Inherits t) (do call .preexec; let _ ← call (.execve token); exit 1 : Op Unit) w Q :=
  preexec_inherits hv hw token fun _ u => exit_inherits 1 _ u Q

/-- A process forks and waits, and the child goes its own way. -/
theorem forked_inherits {ticks : Int} {child : Op Unit} (hw : SameTable t w)
    (hchild : ∀ u, SameTable t u → child.Meets handle (Inherits t) u fun _ _ => True) :
    Prog.Meets handle (Inherits t) (do
      let childpid ← call .fork
      if childpid > 0 then do
        let _ ← bstgWaitpidOp childpid ticks
      else if childpid = 0 then child : Op Unit) w fun _ _ => True := by
  refine (sameTable_frames t).call rfl hw fun pid w₁ h₁ => ?_
  show Prog.Meets handle _ (ite (pid > 0) _ (ite (pid = 0) _ _)) w₁ _
  split
  · have hwait : (do let _ ← bstgWaitpidOp pid ticks : Op Unit).Only (Call.In [.plain, .process]) :=
      waited_only rfl rfl pid ticks
    exact ((sameTable_frames t).only hwait rfl h₁).post fun _ _ _ => trivial
  · split
    · exact hchild w₁ h₁
    · trivial

theorem putenv_inherits {name value : List Char} {f : Op Unit} {Q : Unit → World → Prop}
    (hf : ∀ u, SameTable t u → f.Meets handle (Inherits t) u Q) (hw : SameTable t w) :
    (putenvBuf name value >>= fun _ => f).Meets handle (Inherits t) w Q := by
  refine (sameTable_frames t).call rfl hw fun buf w₁ h₁ => Prog.meets_bind.mpr ?_
  show Prog.Meets handle (Inherits t) (ite (buf ≠ none) _ _) w₁ _
  split
  · refine ⟨trivial, fun _ w₂ hs₂ => ?_⟩
    cases hs₂
    exact hf w₁ h₁
  · exact hf w₁ h₁

variable (hv : t.ps.Valid) (hw : SameTable t w)

include hv hw

theorem exec_inherits : specialExec.Meets handle (Inherits t) w fun _ _ => True :=
  (sameTable_frames t).call rfl hw fun token _ h₁ => forked_inherits h₁ fun _ hu =>
    execChild_inherits hv hu token _

theorem ldlibrarypath_inherits : specialLdlibrarypath.Meets handle (Inherits t) w fun _ _ => True := by
  have hF := sameTable_frames t
  refine hF.call rfl hw fun token _ h₁ => hF.call rfl h₁ fun _ _ h₂ => hF.call rfl h₂ fun dup _ h₃ =>
    forked_inherits h₃ fun u hu => putenv_inherits (fun u hu => ⟨trivial, fun _ w' hs => ?_⟩) hu
  cases hs
  exact execChild_inherits hv hu token _

theorem ldpreload_inherits : specialLdpreload.Meets handle (Inherits t) w fun _ _ => True := by
  have hF := sameTable_frames t
  exact hF.call rfl hw fun token _ h₁ => hF.call rfl h₁ fun _ _ h₂ => forked_inherits h₂ fun _ hu =>
    putenv_inherits (fun _ hu => execChild_inherits hv hu token _) hu

theorem gcore_inherits : specialGcore.Meets handle (Inherits t) w fun _ _ => True := by
  have hF := sameTable_frames t
  refine hF.call rfl hw fun sleepchild w₁ h₁ => ?_
  show Prog.Meets handle _ (ite (sleepchild = 0) _ (ite (sleepchild > 0) _ _)) w₁ _
  split
  · exact ⟨trivial, fun _ w₂ _ => exit_inherits 1 _ w₂ _⟩
  · split
    · have hend : (do call (.kill sleepchild); let _ ← call (.waitpid sleepchild) : Op Unit).Only
          (Call.In [.plain, .process]) := ⟨rfl, fun _ => ⟨rfl, fun _ => trivial⟩⟩
      refine hF.call rfl h₁ fun _ _ h₂ => hF.call rfl h₂ fun gcorechild w₃ h₃ => ?_
      show Prog.Meets handle _ (ite (gcorechild > 0) _ (ite (gcorechild = 0) _ _)) w₃ _
      split
      · have hwait : (bstgWaitpidOp gcorechild 60 >>= fun _ => do
            call (.kill sleepchild); let _ ← call (.waitpid sleepchild) : Op Unit).Only
            (Call.In [.plain, .process]) := (bstgWaitpidOp_only rfl rfl gcorechild 60).bind fun _ => hend
        exact (hF.only hwait rfl h₃).post fun _ _ _ => trivial
      · split
        · exact preexec_inherits hv h₃ _ fun _ u => exit_inherits 1 _ u _
        · exact (hF.only hend rfl h₃).post fun _ _ _ => trivial
    · trivial

omit hv

theorem posixSpawn_inherits : specialPosixSpawn.Meets handle (Inherits t) w fun _ _ => True := by
  have hF := sameTable_frames t
  refine hF.call rfl hw fun token _ h₁ => hF.call rfl h₁ fun child w₂ h₂ => ?_
  show Prog.Meets handle _ (ite (child > 0) _ (ite (child = 0) _ _)) w₂ _
  split
  · exact hF.call rfl h₂ fun _ _ _ => trivial
  · split
    · exact hF.call rfl h₂ fun _ _ h₃ => hF.call rfl h₃ fun _ w₄ _ => exit_inherits 0 _ w₄ _
    · trivial

theorem dlopen_inherits : srcDlopenDlopen.Meets handle (Inherits t) w fun _ _ => True := by
  have hF := sameTable_frames t
  refine hF.call rfl hw fun mypath _ h₁ => forked_inherits h₁ fun u hu =>
    hF.call rfl hu fun _ _ h₂ => hF.call rfl h₂ fun _ _ h₃ => hF.call rfl h₃ fun loaded w₄ h₄ => ?_
  have hexit : ∀ v, SameTable t v → Prog.Meets handle (Inherits t) (do
      call (.signal .SIGBUS .SIG_DFL)
      call (.signal .SIGSEGV .SIG_DFL)
      exit 1 : Op Unit) v fun _ _ => True := fun v hv =>
    hF.call rfl hv fun _ _ h₅ => hF.call rfl h₅ fun _ w₆ _ => exit_inherits 1 _ w₆ _
  show Prog.Meets handle _ (ite (loaded = true) _ _) w₄ _
  split
  · exact hF.call rfl h₄ fun _ w₅ h₅ => hexit w₅ h₅
  · exact hexit w₄ h₄

include hv

/-- Every operation of the table. -/
theorem kind_inherits {basedir : Path} {pf : Funcs} {i : Nat} {p : Op Unit}
    (hp : OpKind basedir pf i p) : p.Meets handle (Inherits t) w fun _ _ => True := by
  have quiet {p : Op Unit} {gs : List Group} (hp : p.Only (Call.In gs))
      (hgs : (gs.all fun g => !([.process, .own] : List Group).contains g) = true) :
      p.Meets handle (Inherits t) w fun _ _ => True := (quiet_frames t).only hp hgs trivial
  cases hp with
  | plain h => exact quiet h rfl
  | copyexe flags => exact quiet (copyexe_only basedir flags) rfl
  | exec => exact exec_inherits hv hw
  | gcore => exact gcore_inherits hv hw
  | ldlibrarypath => exact ldlibrarypath_inherits hv hw
  | ldpreload => exact ldpreload_inherits hv hw
  | move => exact quiet (move_only basedir) rfl
  | posixSpawn => exact posixSpawn_inherits hw
  | chdir => exact quiet chdir_only rfl
  | fchdir => exact quiet fchdir_only rfl
  | fchown => exact quiet fchown_only rfl
  | closeall => exact quiet closeall_only rfl
  | dlopen => exact dlopen_inherits hw
  | mapAndRead flag => exact quiet (mapAndRead_only pf flag) rfl
  | mmapFile => exact quiet (mmapFile_only pf) rfl
  | mmapStatd => exact quiet (mmapStatd_only pf) rfl
  | openAndSet flags => exact quiet (openAndSet_only flags) rfl
  | fdopendir => exact quiet fdopendir_only rfl
  | opendir => exact quiet opendir_only rfl
  | readdir => exact quiet readdir_only rfl
  | pipe => exact quiet pipe_only rfl

end

/-! ## 3. Runs -/

section

variable {basedir : Path} {pf : Funcs}

theorem fembotFunc_inherits {i : Nat} {t : World} (hv : t.ps.Valid) :
    (fembotFunc basedir pf i).Meets handle (Inherits t) t fun _ _ => True :=
  (sameTable_frames t).fembotFunc rfl (fun _ _ => trivial) (fun _ _ hp hu => kind_inherits hv hu hp)
    ⟨rfl, rfl⟩

/-- No operation makes or destroys the store. -/
theorem valid_keeps (basedir : Path) (pf : Funcs) :
    Keeps basedir pf (fun u => u.ps.Valid) fun _ _ => True where
  func i w hI := by
    have keep : ∀ (g : Held) (c : Call) (u : World) (r : c.Ret) (u' : World),
        UsesOrAnnounces basedir pf g c → True → u.ps.Valid → handle c u = .ok (r, u') → u'.ps.Valid := by
      intro g c u r u' hU _ hu hs
      refine handle_valid ?_ hu hs
      obtain huse | ⟨-, ⟨d, rfl⟩ | rfl | rfl⟩ := hU
      · exact huse.store
      all_goals exact nofun
    refine (Prog.meets_of_within keep (fun _ _ _ _ _ _ => trivial) (fembotFunc_within basedir pf i)
      (Prog.meets_trivial _ w) hI).post fun _ u hu => ?_
    obtain ⟨-, g, hv⟩ := hu
    exact hv

end

end Fembot
