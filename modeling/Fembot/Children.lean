/-
  File:      Fembot/Children.lean
  Subject:   THE CHILDREN OF THE OPERATIONS: over every run of the table each child is reaped by the
             operation that forked it, and no child comes back to the pool.

  Six operations fork. In the parent each waits until its child is reaped, `special/gcore.c` for two
  of them; in the child each ends the process, by `_exit` or as another program.

  * `OwnChildren` -- a signal goes to, and a wait is for, a child that is not reaped; and what a
    process does to itself -- its end, its environment, its libraries -- only a child does;
  * `forked_meets` -- the one argument behind five of the six: the parent waits, the child ends;
  * `children_keeps`, `children_reaped` -- every operation that comes to its end is in the process
    that started it, with the children that it had.
-/
import Fembot.OperationRules

namespace Fembot

open Library

/-! ## 1. One child -/

/-- What is sent to a child is sent to one of the process that is not reaped, and what only a child
    may do a child does. -/
def OwnChildren : Call → World → Prop
  | .kill pid, w | .waitpid pid, w | .waitpidNohang pid, w => pid ∈ w.kids
  | .preexec, w | .exit _, w | .execve _, w | .putenv _, w | .sleep _, w => w.child = true
  | .posixSpawn _, w | .waits, w | .dlopen _, w => w.child = true
  | _, _ => True

/-- The process has the children `K`, is or is not a child itself, and handles no signal. -/
structure Parent (K : Finset Int) (c : Bool) (w : World) : Prop where
  kids : w.kids = K
  child : w.child = c
  handlers : w.handlers = defaultHandlers

variable {K : Finset Int} {c : Bool} {w : World}

theorem parent_frames (K : Finset Int) (c : Bool) :
    Frames [.handler, .process, .own] (Parent K c) OwnChildren where
  keep cl w r w' hc hI hs := by
    have hf := handle_framed hs
    have hne : cl.group ≠ .handler ∧ cl.group ≠ .process := by
      refine ⟨?_, ?_⟩ <;>
      · intro h
        rw [h] at hc
        cases hc
    exact ⟨(hf.kids hne.2).trans hI.kids, (hf.child hne.2).trans hI.child,
      (hf.handlers hne.1).trans hI.handlers⟩
  meets cl w hc hI := by
    cases cl with
    | kill | waitpid | waitpidNohang | preexec | exit | execve => cases hc
    | putenv | sleep | posixSpawn | waits | dlopen => cases hc
    | _ => trivial

/-- `fork` fails, makes the process its own child, or gives it a child more. -/
theorem fork_inv {w' : World} {pid : Int} (h : Parent K c w) (hs : handle .fork w = .ok (pid, w')) :
    pid = -1 ∧ Parent K c w' ∨ pid = 0 ∧ Parent ∅ true w' ∨
      0 < pid ∧ pid ∉ K ∧ Parent (insert pid K) c w' := by
  have hs : w.fork = (pid, w') := Except.ok.inj hs
  unfold World.fork at hs
  split at hs
  · split at hs
    · cases hs
      exact .inr (.inl ⟨rfl, rfl, rfl, h.handlers⟩)
    · split at hs
      · cases hs
        exact .inl ⟨rfl, h.kids, h.child, h.handlers⟩
      · rename_i hnum hnew
        cases hs
        refine .inr (.inr ⟨by omega, h.kids ▸ hnew, ?_, h.child, h.handlers⟩)
        show insert _ w.kids = _
        rw [h.kids]
  · cases hs
    exact .inl ⟨rfl, h.kids, h.child, h.handlers⟩

/-- What a poll of a child answers: the child, which is reaped, or 0. -/
theorem waitpidNohang_inv {w' : World} {pid rc : Int} (hpid : pid ∉ K)
    (h : Parent (insert pid K) c w) (hs : handle (.waitpidNohang pid) w = .ok (rc, w')) :
    rc = pid ∧ Parent K c w' ∨ rc = 0 ∧ Parent (insert pid K) c w' := by
  have hs : w.waitpidNohang pid = (rc, w') := Except.ok.inj hs
  have hin : pid ∈ w.kids := h.kids ▸ Finset.mem_insert_self pid K
  rw [World.waitpidNohang, if_pos hin] at hs
  split at hs
  · cases hs
    refine .inl ⟨rfl, ?_, h.child, h.handlers⟩
    show w.kids.erase pid = K
    rw [h.kids, Finset.erase_insert hpid]
  · cases hs
    exact .inr ⟨rfl, h.kids, h.child, h.handlers⟩

/-- `waitpid` waits, as no signal is handled. -/
theorem waitpid_inv {w' : World} {pid rc : Int} (hpid : pid ∉ K) (h : Parent (insert pid K) c w)
    (hs : handle (.waitpid pid) w = .ok (rc, w')) : Parent K c w' := by
  have hs : w.waitpid pid = (rc, w') := Except.ok.inj hs
  have hin : pid ∈ w.kids := h.kids ▸ Finset.mem_insert_self pid K
  have hdfl : w.handlers .SIGBUS = .SIG_DFL ∧ w.handlers .SIGSEGV = .SIG_DFL := by
    rw [h.handlers]
    exact ⟨rfl, rfl⟩
  rw [World.waitpid, if_pos hin, if_pos (.inr hdfl)] at hs
  cases hs
  refine ⟨?_, h.child, h.handlers⟩
  show w.kids.erase pid = K
  rw [h.kids, Finset.erase_insert hpid]

/-- The rounds of `bstg_waitpid` are of a child that is not reaped, until it is. -/
theorem waitpidOp_meets {pid ticks : Int} (hpos : 0 < pid) (hpid : pid ∉ K) (rounds count : Nat)
    (h : Parent (insert pid K) c w) :
    (waitpidOp pid ticks rounds count).Meets handle OwnChildren w fun _ => Parent K c := by
  induction rounds generalizing count w with
  | zero => exact ⟨trivial, fun r => nomatch r⟩
  | succ rounds ih =>
    have hin : ∀ {w : World}, Parent (insert pid K) c w → pid ∈ w.kids := fun h =>
      h.kids ▸ Finset.mem_insert_self pid K
    have hpoll : ∀ w : World, Parent (insert pid K) c w → Prog.Meets handle OwnChildren (do
        let rc ← call (.waitpidNohang pid)
        if rc = pid then pure pid
        else do
          call (.usleep 250000)
          waitpidOp pid ticks rounds (count + 1) : Op Int) w fun _ => Parent K c := by
      intro w h
      refine ⟨hin h, fun rc w₁ hs₁ => ?_⟩
      show Prog.Meets handle OwnChildren (ite (rc = pid) _ _) w₁ _
      obtain ⟨hrc, h₁⟩ | ⟨hrc, h₁⟩ := waitpidNohang_inv hpid h hs₁
      · rw [if_pos hrc]
        exact h₁
      · have hne : ¬ rc = pid := fun he => absurd (he.symm.trans hrc) (Int.ne_of_gt hpos)
        rw [if_neg hne]
        refine ⟨trivial, fun _ w₂ hs₂ => ?_⟩
        cases hs₂
        exact ih (count + 1) h₁
    rw [waitpidOp]
    split
    · refine ⟨hin h, fun _ w₁ hs₁ => ?_⟩
      cases hs₁
      exact hpoll w h
    · exact hpoll w h

/-- The operations that fork once and wait: in the child the process ends. -/
theorem forked_meets {ticks : Int} {child : Op Unit} (h : Parent K c w)
    (hchild : ∀ w, Parent ∅ true w → child.Meets handle OwnChildren w fun _ _ => False) :
    Prog.Meets handle OwnChildren (do
      let childpid ← call .fork
      if childpid > 0 then do
        let _ ← bstgWaitpidOp childpid ticks
      else if childpid = 0 then child : Op Unit) w fun _ => Parent K c := by
  refine ⟨trivial, fun pid w₁ hs₁ => ?_⟩
  show Prog.Meets handle OwnChildren (ite (pid > 0) _ (ite (pid = 0) _ _)) w₁ _
  obtain ⟨rfl, h₁⟩ | ⟨rfl, h₁⟩ | ⟨hpos, hnew, h₁⟩ := fork_inv h hs₁
  · exact h₁
  · exact (hchild w₁ h₁).post fun _ _ => False.elim
  · rw [if_pos hpos]
    exact Prog.meets_bind.mpr ((waitpidOp_meets hpos hnew _ _ h₁).post fun _ _ hw => hw)

/-! ## 2. The operations -/

/-- What a child makes of itself. -/
theorem execChild_meets (token : Path) (hw : w.child = true) (Q : Unit → World → Prop) :
    Prog.Meets handle OwnChildren (do
      call .preexec
      let _ ← call (.execve token)
      exit 1 : Op Unit) w Q := by
  refine ⟨hw, fun _ w₁ hs₁ => ?_⟩
  have h₁ : w₁.child = true := ((handle_framed hs₁).child nofun).trans hw
  refine ⟨h₁, fun _ w₂ hs₂ => ?_⟩
  exact ⟨((handle_framed hs₂).child nofun).trans h₁, fun r => nomatch r⟩

theorem putenvBuf_meets {name value : List Char} {f : Op Unit} {Q : Unit → World → Prop}
    (hf : ∀ w : World, w.child = true → f.Meets handle OwnChildren w Q) (hw : w.child = true) :
    (putenvBuf name value >>= fun _ => f).Meets handle OwnChildren w Q := by
  refine ⟨trivial, fun buf w₁ hs₁ => Prog.meets_bind.mpr ?_⟩
  have h₁ : w₁.child = true := ((handle_framed hs₁).child nofun).trans hw
  show Prog.Meets handle OwnChildren (ite (buf ≠ none) _ _) w₁ _
  split
  · exact ⟨h₁, fun _ w₂ hs₂ => hf w₂ (((handle_framed hs₂).child nofun).trans h₁)⟩
  · exact hf w₁ h₁

theorem exec_children (h : Parent K c w) :
    specialExec.Meets handle OwnChildren w fun _ => Parent K c :=
  (parent_frames K c).call rfl h fun token _ h₁ => forked_meets h₁ fun _ hw => execChild_meets token hw.child _

theorem ldlibrarypath_children (h : Parent K c w) :
    specialLdlibrarypath.Meets handle OwnChildren w fun _ => Parent K c := by
  have hP := parent_frames K c
  refine hP.call rfl h fun token _ h₁ => hP.call rfl h₁ fun _ _ h₂ => hP.call rfl h₂ fun dup _ h₃ =>
    forked_meets h₃ fun w hw => ?_
  refine putenvBuf_meets (fun w hw => ⟨hw, fun _ w' hs => ?_⟩) hw.child
  exact execChild_meets token (((handle_framed hs).child nofun).trans hw) _

theorem ldpreload_children (h : Parent K c w) :
    specialLdpreload.Meets handle OwnChildren w fun _ => Parent K c :=
  (parent_frames K c).call rfl h fun token _ h₁ => (parent_frames K c).call rfl h₁ fun _ _ h₂ => forked_meets h₂
    fun _ hw => putenvBuf_meets (fun _ hw => execChild_meets token hw _) hw.child

theorem dlopen_children (h : Parent K c w) :
    srcDlopenDlopen.Meets handle OwnChildren w fun _ => Parent K c := by
  refine (parent_frames K c).call rfl h fun mypath _ h₁ => forked_meets h₁ fun w hw => ?_
  refine ⟨trivial, fun _ w₁ hs₁ => ⟨trivial, fun _ w₂ hs₂ => ⟨?_, fun loaded w₃ hs₃ => ?_⟩⟩⟩
  · cases hs₁
    cases hs₂
    exact hw.child
  · have h₃ : w₃.child = true := by
      cases hs₁
      cases hs₂
      exact ((handle_framed hs₃).child nofun).trans hw.child
    have hexit : ∀ w : World, w.child = true → Prog.Meets handle OwnChildren (do
        call (.signal .SIGBUS .SIG_DFL)
        call (.signal .SIGSEGV .SIG_DFL)
        exit 1 : Op Unit) w fun _ _ => False := by
      intro w hw
      refine ⟨trivial, fun _ w₁ hs₁ => ⟨trivial, fun _ w₂ hs₂ => ⟨?_, fun r => nomatch r⟩⟩⟩
      cases hs₁
      cases hs₂
      exact hw
    show Prog.Meets handle OwnChildren (ite (loaded = true) _ _) w₃ _
    split
    · refine ⟨trivial, fun _ w₄ hs₄ => ?_⟩
      cases hs₄
      exact hexit w₃ h₃
    · exact hexit w₃ h₃

theorem posixSpawn_children (h : Parent K c w) :
    specialPosixSpawn.Meets handle OwnChildren w fun _ => Parent K c := by
  refine (parent_frames K c).call rfl h fun token _ h₁ => ⟨trivial, fun pid w₂ hs₂ => ?_⟩
  show Prog.Meets handle OwnChildren (ite (pid > 0) _ (ite (pid = 0) _ _)) w₂ _
  obtain ⟨rfl, h₂⟩ | ⟨rfl, h₂⟩ | ⟨hpos, hnew, h₂⟩ := fork_inv h₁ hs₂
  · exact h₂
  · refine ⟨h₂.child, fun _ w₃ hs₃ => ?_⟩
    obtain rfl := world_eq hs₃
    have h₃ : w₂.posixSpawn.child = true := by
      unfold World.posixSpawn
      split <;> exact h₂.child
    refine ⟨h₃, fun _ w₄ hs₄ => ?_⟩
    cases hs₄
    exact ⟨h₃, fun r => nomatch r⟩
  · rw [if_pos hpos]
    have hin : pid ∈ w₂.kids := h₂.kids ▸ Finset.mem_insert_self pid K
    exact ⟨hin, fun rc w₃ hs₃ => waitpid_inv hnew h₂ hs₃⟩

/-- The sleeping child is alive while the other one runs, then it is killed and reaped. -/
theorem gcore_children (h : Parent K c w) :
    specialGcore.Meets handle OwnChildren w fun _ => Parent K c := by
  refine ⟨trivial, fun sleepchild w₁ hs₁ => ?_⟩
  show Prog.Meets handle OwnChildren (ite (sleepchild = 0) _ (ite (sleepchild > 0) _ _)) w₁ _
  obtain ⟨rfl, h₁⟩ | ⟨rfl, h₁⟩ | ⟨hpos, hnew, h₁⟩ := fork_inv h hs₁
  · exact h₁
  · refine ⟨h₁.child, fun _ w₂ hs₂ => ?_⟩
    cases hs₂
    exact ⟨h₁.child, fun r => nomatch r⟩
  · rw [if_neg (Int.ne_of_gt hpos), if_pos hpos]
    have hend : ∀ w, Parent (insert sleepchild K) c w → Prog.Meets handle OwnChildren (do
        call (.kill sleepchild)
        let _ ← call (.waitpid sleepchild) : Op Unit) w fun _ => Parent K c := by
      intro w hw
      have hin : sleepchild ∈ w.kids := hw.kids ▸ Finset.mem_insert_self sleepchild K
      refine ⟨hin, fun _ w₂ hs₂ => ⟨?_, fun rc w₃ hs₃ => ?_⟩⟩
      all_goals cases hs₂
      · exact hin
      · exact waitpid_inv hnew hw hs₃
    refine (parent_frames _ c).call rfl h₁ fun _ w₂ h₂ => ⟨trivial, fun gcorechild w₃ hs₃ => ?_⟩
    show Prog.Meets handle OwnChildren (ite (gcorechild > 0) _ (ite (gcorechild = 0) _ _)) w₃ _
    obtain ⟨rfl, h₃⟩ | ⟨rfl, h₃⟩ | ⟨hpos', hnew', h₃⟩ := fork_inv h₂ hs₃
    · exact hend w₃ h₃
    · refine ⟨h₃.child, fun _ w₄ hs₄ => ?_⟩
      have h₄ : w₄.child = true := ((handle_framed hs₄).child nofun).trans h₃.child
      refine ⟨h₄, fun _ w₅ hs₅ => ?_⟩
      exact ⟨((handle_framed hs₅).child nofun).trans h₄, fun r => nomatch r⟩
    · rw [if_pos hpos']
      exact Prog.meets_bind.mpr ((waitpidOp_meets hpos' hnew' _ _ h₃).post fun _ w₄ h₄ =>
        hend w₄ h₄)

/-- The handlers of a copy are gone behind it. -/
theorem guardedCopy_children {dst src : Area} {len : Nat} (h : Parent K c w) :
    (guardedCopy dst src len).Meets handle OwnChildren w fun _ => Parent K c := by
  refine ⟨trivial, fun _ w₁ hs₁ => ⟨trivial, fun _ w₂ hs₂ => ⟨trivial, fun _ w₃ hs₃ =>
    ⟨trivial, fun _ w₄ hs₄ => ⟨trivial, fun _ w₅ hs₅ => ?_⟩⟩⟩⟩⟩
  have hf := handle_framed hs₃
  have hh : w₃.handlers = w₂.handlers := hf.handlers nofun
  have hk : w₃.kids = w₂.kids := hf.kids nofun
  have hc : w₃.child = w₂.child := hf.child nofun
  cases hs₁
  cases hs₂
  cases hs₄
  cases hs₅
  refine ⟨hk.trans h.kids, hc.trans h.child, ?_⟩
  show Function.update (Function.update w₃.handlers _ _) _ _ = _
  rw [hh]
  funext sig
  cases sig <;> rfl

variable {basedir : Path} {ps : Funcs}

theorem children_keeps (basedir : Path) (ps : Funcs) (K : Finset Int) (c : Bool) :
    Keeps basedir ps (Parent K c) OwnChildren := by
  have hP := parent_frames K c
  refine hP.keeps rfl (fun e w => trivial) fun i p w hp hI => ?_
  have frames {p : Op Unit} {gs : List Group} (hp : p.Only (Call.In gs))
      (hgs : (gs.all fun g => !([.handler, .process, .own] : List Group).contains g) = true) :
      p.Meets handle OwnChildren w fun _ => Parent K c := hP.only hp hgs hI
  cases hp with
  | plain h => exact frames h rfl
  | copyexe flags => exact frames (copyexe_only basedir flags) rfl
  | exec => exact exec_children hI
  | gcore => exact gcore_children hI
  | ldlibrarypath => exact ldlibrarypath_children hI
  | ldpreload => exact ldpreload_children hI
  | move => exact frames (move_only basedir) rfl
  | posixSpawn => exact posixSpawn_children hI
  | chdir => exact frames chdir_only rfl
  | fchdir => exact frames fchdir_only rfl
  | fchown => exact frames fchown_only rfl
  | closeall => exact frames closeall_only rfl
  | dlopen => exact dlopen_children hI
  | openAndSet flags => exact frames (openAndSet_only flags) rfl
  | fdopendir => exact frames fdopendir_only rfl
  | opendir => exact frames opendir_only rfl
  | readdir => exact frames readdir_only rfl
  | pipe => exact frames pipe_only rfl
  | mapAndRead flag =>
    refine hP.call rfl hI fun fd _ h₁ => hP.call rfl h₁ fun st _ h₂ => hP.call rfl h₂ fun area _ h₃ => ?_
    exact Prog.meets_bind.mpr ((guardedCopy_children h₃).post fun _ _ h₄ =>
      hP.call rfl h₄ fun _ _ h₅ => h₅)
  | mmapFile =>
    refine hP.call rfl hI fun fd _ h₁ => hP.call rfl h₁ fun st _ h₂ => hP.call rfl h₂ fun area _ h₃ => ?_
    exact Prog.meets_bind.mpr ((guardedCopy_children h₃).post fun _ _ h₄ =>
      hP.call rfl h₄ fun _ _ h₅ => h₅)
  | mmapStatd =>
    refine hP.call rfl hI fun fd _ h₁ => hP.call rfl h₁ fun st _ h₂ => hP.call rfl h₂ fun area _ h₃ => ?_
    exact Prog.meets_bind.mpr ((guardedCopy_children h₃).post fun _ _ h₄ =>
      hP.call rfl h₄ fun _ _ h₅ => hP.call rfl h₅ fun _ _ h₆ => h₆)

/-! ## 3. Runs -/

/-- In every run of a process that handles no signal, each signal and each wait is for a child that
    is not reaped, and what ends or changes the process itself happens in a child; every state that
    the run reaches is of the process that started it, with the children that it had. -/
theorem children_reaped (basedir : Path) (ps : Funcs) (w : World)
    (hw : w.handlers = defaultHandlers) (ids : List Nat) :
    EachCall basedir ps OwnChildren w ids ∧
      Always (opStep basedir ps) w ids fun t =>
        t.kids = w.kids ∧ t.child = w.child ∧ t.handlers = defaultHandlers := by
  have hkeeps := children_keeps basedir ps w.kids w.child
  have h : Parent w.kids w.child w := ⟨rfl, rfl, hw⟩
  exact ⟨hkeeps.eachCall h ids, (hkeeps.always h ids).imp fun t ht => ⟨ht.kids, ht.child, ht.handlers⟩⟩

/-- A process in which each `fork` makes a child of another number. -/
def forkingWorld : World :=
  .started (fun _ => ⟨true, 7⟩) (fun _ => "/mnt/a".toList) fun n => ⟨true, n + 1, ⟨0, 0⟩⟩

/-- A run of `special/exec.c` and `special/gcore.c`. -/
theorem children_reaped_forking :
    EachCall "/mnt".toList ⟨0, 0, ⟨none, 0⟩, ⟨none, 0⟩⟩ OwnChildren forkingWorld [1, 2] ∧
      Always (opStep "/mnt".toList ⟨0, 0, ⟨none, 0⟩, ⟨none, 0⟩⟩) forkingWorld [1, 2] fun t =>
        t.kids = ∅ ∧ t.child = false ∧ t.handlers = defaultHandlers :=
  children_reaped "/mnt".toList _ forkingWorld rfl [1, 2]

end Fembot
