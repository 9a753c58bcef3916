/-
  File:      Fembot/OperationUses.lean
  Subject:   What an operation uses it has obtained: the descriptors and the path names in its calls.

  * `Held`, `Held.obtain` -- the descriptors and the paths that the calls so far have given;
  * `Uses` -- a call on a descriptor is on one of these, a call on a path on one of these, on the
    directory of one, or on one of the two that copyexe and move name themselves;
  * `operations_within` -- every operation of the table keeps to that, whatever the answers.
-/
import Fembot.OperationRules

namespace Fembot

open Library

/-! ## 1. Held and used -/

/-- The descriptors and the paths that an operation has obtained. -/
structure Held where
  fds : List Int
  paths : List Path

/-- What is held behind a call and its answer. -/
def Held.obtain (g : Held) : (c : Call) → c.Ret → Held
  | .get2 _, fd => { g with fds := fd :: g.fds }
  | .openPath _ _, fd => { g with fds := fd :: g.fds }
  | .openDot, fd => { g with fds := fd :: g.fds }
  | .opendir _, some fd => { g with fds := fd :: g.fds }
  | .pipe, some ends => { g with fds := ends.1 :: ends.2 :: g.fds }
  | .path, path => { g with paths := path :: g.paths }
  | _, _ => g

/-- The descriptors that a call is on. -/
def Call.fds : Call → List Int
  | .onFd (.sendfile s) fd => [s, fd]
  | .onFd _ fd | .fstat fd | .close fd | .closedir fd | .set fd | .fdopendir fd | .fchdir fd => [fd]
  | .mmap _ _ _ fd => fd.toList
  | _ => []

/-- The second path of a call on two. -/
def PathCall.paths : PathCall → List Path
  | .link path2 | .rename path2 => [path2]
  | _ => []

/-- The path names that a call hands to the file system, but for the program that `execve` runs. -/
def Call.paths : Call → List Path
  | .onPath c p => p :: c.paths
  | .openPath p _ | .opendir p | .chdir p | .posixSpawn p | .dlopen p => [p]
  | _ => []

/-- The program that a call makes of the process. -/
def Call.programs : Call → List Path
  | .execve p => [p]
  | _ => []

/-- The path is one that is held, or the directory of one, or one of the two of `BASEDIR`. -/
def Nameable (basedir : Path) (paths : List Path) (p : Path) : Prop :=
  p ∈ paths ∨ p ∈ paths.map dirname ∨ p = basedir ++ "/true".toList ∨ p = basedir ++ "/tmp".toList

/-- What a call may use. -/
structure Uses (basedir : Path) (g : Held) (c : Call) : Prop where
  fds : ∀ fd ∈ c.fds, fd ∈ g.fds
  paths : ∀ p ∈ c.paths, Nameable basedir g.paths p
  programs : ∀ p ∈ c.programs, p ∈ g.paths ∨ p = "/usr/bin/gcore".toList
  store : c.group ≠ .store

/-! ## 2. Programs -/

/-- The program uses what it has obtained, from what is held on. -/
def UsesOwn (basedir : Path) (g : Held) (p : Op Unit) : Prop := p.Within (Uses basedir) Held.obtain g

/-- The call uses no descriptor and no path. -/
def UsesNone (c : Call) : Prop := c.fds = [] ∧ c.paths = [] ∧ c.programs = [] ∧ c.group ≠ .store

variable {basedir : Path} {g : Held}

theorem forall_mem_of_nil {α : Type} {l : List α} {P : α → Prop} (h : l = []) : ∀ a ∈ l, P a := by
  intro a ha
  rw [h] at ha
  cases ha

theorem forall_mem_of_one {α : Type} {l : List α} {b : α} {P : α → Prop} (h : l = [b]) (hb : P b) :
    ∀ a ∈ l, P a := by
  intro a ha
  rw [h] at ha
  rwa [List.mem_singleton.mp ha]

theorem uses_none {c : Call} (hfds : c.fds = []) (hpaths : c.paths = []) (hp : c.programs = [])
    (hs : c.group ≠ .store) : Uses basedir g c :=
  ⟨forall_mem_of_nil hfds, forall_mem_of_nil hpaths, forall_mem_of_nil hp, hs⟩

theorem uses_fd {c : Call} {fd : Int} (hfds : c.fds = [fd]) (hpaths : c.paths = [])
    (hp : c.programs = []) (hs : c.group ≠ .store) (hfd : fd ∈ g.fds) : Uses basedir g c :=
  ⟨forall_mem_of_one hfds hfd, forall_mem_of_nil hpaths, forall_mem_of_nil hp, hs⟩

theorem uses_path {c : Call} {p : Path} (hfds : c.fds = []) (hpaths : c.paths = [p])
    (hprograms : c.programs = []) (hs : c.group ≠ .store) (hp : Nameable basedir g.paths p) :
    Uses basedir g c :=
  ⟨forall_mem_of_nil hfds, forall_mem_of_one hpaths hp, forall_mem_of_nil hprograms, hs⟩

/-- Another program: the one that is held, or gcore. -/
theorem uses_program {p : Path} (hp : p ∈ g.paths ∨ p = "/usr/bin/gcore".toList) :
    Uses basedir g (.execve p) :=
  ⟨nofun, nofun, forall_mem_of_one rfl hp, nofun⟩

theorem usesOwn_none {α : Type} {p : Op α} (h : p.Only UsesNone) :
    p.Within (Uses basedir) Held.obtain g :=
  h.within (fun _ _ hc => uses_none hc.1 hc.2.1 hc.2.2.1 hc.2.2.2) g

/-- What an operation obtains it goes on holding. -/
theorem obtain_fds (g : Held) (c : Call) (r : c.Ret) : ∀ fd ∈ g.fds, fd ∈ (g.obtain c r).fds := by
  intro fd hfd
  cases c with
  | get2 | openPath | openDot => exact List.mem_cons_of_mem _ hfd
  | opendir path =>
    cases r with
    | none => exact hfd
    | some n => exact List.mem_cons_of_mem _ hfd
  | pipe =>
    cases r with
    | none => exact hfd
    | some ends => exact List.mem_cons_of_mem _ (List.mem_cons_of_mem _ hfd)
  | _ => exact hfd

theorem obtain_paths (g : Held) (c : Call) (r : c.Ret) : ∀ p ∈ g.paths, p ∈ (g.obtain c r).paths := by
  intro p hp
  cases c with
  | path => exact List.mem_cons_of_mem _ hp
  | opendir path => cases r <;> exact hp
  | pipe => cases r <;> exact hp
  | _ => exact hp

theorem bstgWaitpidOp_none (childpid ticks : Int) : (bstgWaitpidOp childpid ticks).Only UsesNone :=
  waitpidOp_only childpid ticks ⟨rfl, rfl, rfl, nofun⟩ ⟨rfl, rfl, rfl, nofun⟩ ⟨rfl, rfl, rfl, nofun⟩
    ⟨rfl, rfl, rfl, nofun⟩ _ _

theorem waited_none (childpid ticks : Int) :
    (do let _ ← bstgWaitpidOp childpid ticks : Op Unit).Only UsesNone :=
  (bstgWaitpidOp_none childpid ticks).bind fun _ => trivial

/-- A child that becomes another program. -/
theorem within_execChild {token : Path} (h : token ∈ g.paths) :
    UsesOwn basedir g (do call .preexec; let _ ← call (.execve token); exit 1) :=
  ⟨uses_none rfl rfl rfl nofun, fun _ => ⟨uses_program (.inl h), fun _ =>
    ⟨uses_none rfl rfl rfl nofun, fun r => nomatch r⟩⟩⟩

theorem within_exec : UsesOwn basedir g specialExec :=
  ⟨uses_none rfl rfl rfl nofun, fun _ => ⟨uses_none rfl rfl rfl nofun, fun childpid =>
    .ite (usesOwn_none (waited_none childpid 60))
      (.ite (within_execChild List.mem_cons_self) trivial)⟩⟩

theorem within_gcore : UsesOwn basedir g specialGcore := by
  refine ⟨uses_none rfl rfl rfl nofun, fun sleepchild => .ite ⟨uses_none rfl rfl rfl nofun, fun _ =>
    ⟨uses_none rfl rfl rfl nofun, fun r => nomatch r⟩⟩ (.ite ?_ trivial)⟩
  refine ⟨uses_none rfl rfl rfl nofun, fun _ => ⟨uses_none rfl rfl rfl nofun, fun gcorechild => ?_⟩⟩
  have hend : (do call (.kill sleepchild); let _ ← call (.waitpid sleepchild) : Op Unit).Only
      UsesNone := ⟨⟨rfl, rfl, rfl, nofun⟩, fun _ => ⟨⟨rfl, rfl, rfl, nofun⟩, fun _ => trivial⟩⟩
  exact .ite (usesOwn_none ((bstgWaitpidOp_none gcorechild 60).bind fun _ => hend))
    (.ite ⟨uses_none rfl rfl rfl nofun, fun _ => ⟨uses_program (.inr rfl), fun _ =>
      ⟨uses_none rfl rfl rfl nofun, fun r => nomatch r⟩⟩⟩ (usesOwn_none hend))

theorem putenvBuf_none (name value : List Char) : (putenvBuf name value).Only UsesNone :=
  ⟨⟨rfl, rfl, rfl, nofun⟩, fun _ => .ite ⟨⟨rfl, rfl, rfl, nofun⟩, fun _ => trivial⟩ trivial⟩

/-- The environment is set before the child becomes another program. -/
theorem within_putenv {token : Path} (h : token ∈ g.paths) {name value : List Char} {f : Op Unit}
    (hf : ∀ g : Held, token ∈ g.paths → UsesOwn basedir g f) :
    UsesOwn basedir g (putenvBuf name value >>= fun _ => f) :=
  Prog.Within.bind (V := fun g => token ∈ g.paths) (fun g c r => obtain_paths g c r token) h
    (usesOwn_none (putenvBuf_none name value)) fun _ g => hf g

theorem within_ldlibrarypath : UsesOwn basedir g specialLdlibrarypath := by
  refine ⟨uses_none rfl rfl rfl nofun, fun _ => ⟨uses_none rfl rfl rfl nofun, fun _ =>
    ⟨uses_none rfl rfl rfl nofun, fun _ => ⟨uses_none rfl rfl rfl nofun, fun childpid =>
      .ite (usesOwn_none (waited_none childpid 60)) (.ite ?_ trivial)⟩⟩⟩⟩
  exact within_putenv (List.mem_cons_of_mem _ List.mem_cons_self) fun g hg =>
    ⟨uses_none rfl rfl rfl nofun, fun _ => within_execChild hg⟩

theorem within_ldpreload : UsesOwn basedir g specialLdpreload := by
  refine ⟨uses_none rfl rfl rfl nofun, fun _ => ⟨uses_none rfl rfl rfl nofun, fun _ =>
    ⟨uses_none rfl rfl rfl nofun, fun childpid =>
      .ite (usesOwn_none (waited_none childpid 60)) (.ite ?_ trivial)⟩⟩⟩
  exact within_putenv (List.mem_cons_of_mem _ List.mem_cons_self) fun g hg =>
    within_execChild hg

/-- A path that was obtained. -/
theorem nameable_self (p : Path) (paths : List Path) : Nameable basedir (p :: paths) p :=
  .inl List.mem_cons_self

theorem nameable_dirname (p : Path) (paths : List Path) :
    Nameable basedir (p :: paths) (dirname p) := .inr (.inl List.mem_cons_self)

theorem within_onGet (c : FdCall) (hc : ∀ fd, (Call.onFd c fd).fds = [fd]) :
    UsesOwn basedir g (onGet c) :=
  ⟨uses_none rfl rfl rfl nofun, fun fd => ⟨uses_fd (hc fd) rfl rfl nofun List.mem_cons_self, fun _ => trivial⟩⟩

theorem within_onStat (c : Int → FdCall) (hc : ∀ size fd, (Call.onFd (c size) fd).fds = [fd]) :
    UsesOwn basedir g (onStat c) :=
  ⟨uses_none rfl rfl rfl nofun, fun fd => ⟨uses_fd rfl rfl rfl nofun List.mem_cons_self, fun st =>
    ⟨uses_fd (hc st.2.size fd) rfl rfl nofun List.mem_cons_self, fun _ => trivial⟩⟩⟩

theorem within_seekWrite (op : SeekOp) : UsesOwn basedir g (seekWrite op) :=
  ⟨uses_none rfl rfl rfl nofun, fun _ => ⟨uses_fd rfl rfl rfl nofun List.mem_cons_self, fun _ =>
    ⟨uses_fd rfl rfl rfl nofun List.mem_cons_self, fun _ => trivial⟩⟩⟩

theorem within_onPathGet (c : PathCall) (hc : c.paths = []) : UsesOwn basedir g (onPathGet c) := by
  refine ⟨uses_none rfl rfl rfl nofun, fun path => ⟨uses_path rfl ?_ rfl nofun (nameable_self path _),
    fun _ => trivial⟩⟩
  show path :: c.paths = [path]
  rw [hc]

theorem within_onTwoPaths (c : Path → PathCall) (hc : ∀ q, ∀ p ∈ (c q).paths, p = q) :
    UsesOwn basedir g (onTwoPaths c) := by
  refine ⟨uses_none rfl rfl rfl nofun, fun path => ⟨uses_none rfl rfl rfl nofun, fun path2 =>
    ⟨⟨nofun, fun p hp => ?_, nofun, nofun⟩, fun _ => trivial⟩⟩⟩
  rcases List.mem_cons.mp hp with rfl | hp
  · exact .inl (List.mem_cons_of_mem _ List.mem_cons_self)
  · rw [hc path2 p hp]
    exact nameable_self path2 _

theorem within_mkhashbang : UsesOwn basedir g specialMkhashbang :=
  ⟨uses_none rfl rfl rfl nofun, fun _ => ⟨uses_none rfl rfl rfl nofun, fun _ =>
    ⟨uses_fd rfl rfl rfl nofun List.mem_cons_self, fun _ =>
      ⟨uses_fd rfl rfl rfl nofun List.mem_cons_self, fun _ => trivial⟩⟩⟩⟩

theorem within_mkhashbang2 : UsesOwn basedir g specialMkhashbang2 :=
  ⟨uses_none rfl rfl rfl nofun, fun _ => ⟨uses_none rfl rfl rfl nofun, fun _ =>
    ⟨uses_fd rfl rfl rfl nofun List.mem_cons_self, fun _ =>
      ⟨uses_fd rfl rfl rfl nofun List.mem_cons_self, fun _ => trivial⟩⟩⟩⟩

theorem within_mkscript : UsesOwn basedir g srcWriteMkscript :=
  ⟨uses_none rfl rfl rfl nofun, fun _ => ⟨uses_none rfl rfl rfl nofun, fun _ =>
    ⟨uses_fd rfl rfl rfl nofun List.mem_cons_self, fun _ => trivial⟩⟩⟩

theorem within_sendfile : UsesOwn basedir g srcSendfileSendfile := by
  refine ⟨uses_none rfl rfl rfl nofun, fun fd => ⟨uses_none rfl rfl rfl nofun, fun s =>
    ⟨⟨fun n hn => ?_, nofun, nofun, nofun⟩, fun _ => trivial⟩⟩⟩
  rcases List.mem_cons.mp hn with rfl | hn
  · exact List.mem_cons_self
  · rw [List.mem_singleton.mp hn]
    exact List.mem_cons_of_mem _ List.mem_cons_self

theorem within_sync : UsesOwn basedir g srcSyncSync := ⟨uses_none rfl rfl rfl nofun, fun _ => trivial⟩

theorem within_closeall : UsesOwn basedir g srcCloseCloseall :=
  ⟨uses_none rfl rfl rfl nofun, fun _ => trivial⟩

theorem within_copyexe (flags : List OpenFlag) : UsesOwn basedir g (copyexe basedir flags) := by
  have hend : ∀ (fd : Int) (base : Area) (size : Nat) (g : Held), fd ∈ g.fds → UsesOwn basedir g (do
      let _ ← call (.close fd)
      if base ≠ none then do
        let fd ← call (.get2 flags)
        call (.posixMadvise base size)
        let _ ← call (.onFd (.ftruncate 0) fd)
        let _ ← call (.onFd (.pwrite (.base size) 0) fd)
        let _ ← call (.munmap base size)) := fun fd base size g hfd =>
    ⟨uses_fd rfl rfl rfl nofun hfd, fun _ => .ite ⟨uses_none rfl rfl rfl nofun, fun _ =>
      ⟨uses_none rfl rfl rfl nofun, fun _ => ⟨uses_fd rfl rfl rfl nofun List.mem_cons_self, fun _ =>
        ⟨uses_fd rfl rfl rfl nofun List.mem_cons_self, fun _ =>
          ⟨uses_none rfl rfl rfl nofun, fun _ => trivial⟩⟩⟩⟩⟩ trivial⟩
  have htrue : Nameable basedir g.paths (basedir ++ "/true".toList) := .inr (.inr (.inl rfl))
  refine ⟨uses_path rfl rfl rfl nofun htrue, fun fd => .ite ⟨uses_fd rfl rfl rfl nofun List.mem_cons_self,
    fun st => .ite ⟨uses_fd rfl rfl rfl nofun List.mem_cons_self, fun base => ?_⟩ ?_⟩ ?_⟩
  · exact hend fd base _ _ List.mem_cons_self
  · exact hend fd none _ _ List.mem_cons_self
  · exact hend fd none 0 _ List.mem_cons_self

theorem within_move : UsesOwn basedir g (specialMove basedir) := by
  refine ⟨uses_none rfl rfl rfl nofun, fun path => ⟨uses_none rfl rfl rfl nofun, fun orig => .ite ?_ trivial⟩⟩
  have hsrc : Nameable basedir (path :: g.paths) (dirname path) := nameable_dirname path g.paths
  have hdst : Nameable basedir (path :: g.paths) (basedir ++ "/tmp".toList) := .inr (.inr (.inr rfl))
  refine ⟨⟨nofun, fun p hp => ?_, nofun, nofun⟩, fun rc => .ite
    ⟨⟨nofun, fun p hp => ?_, nofun, nofun⟩, fun _ =>
    ⟨uses_none rfl rfl rfl nofun, fun _ => trivial⟩⟩ ⟨uses_none rfl rfl rfl nofun, fun _ => trivial⟩⟩
  · rcases List.mem_cons.mp hp with rfl | hp
    · exact hsrc
    · rw [List.mem_singleton.mp hp]
      exact hdst
  · rcases List.mem_cons.mp hp with rfl | hp
    · exact hdst
    · rw [List.mem_singleton.mp hp]
      exact hsrc

theorem within_posixSpawn : UsesOwn basedir g specialPosixSpawn :=
  ⟨uses_none rfl rfl rfl nofun, fun token => ⟨uses_none rfl rfl rfl nofun, fun _ =>
    .ite ⟨uses_none rfl rfl rfl nofun, fun _ => trivial⟩
      (.ite ⟨uses_path rfl rfl rfl nofun (nameable_self token _), fun _ => ⟨uses_none rfl rfl rfl nofun, fun _ =>
        ⟨uses_none rfl rfl rfl nofun, fun r => nomatch r⟩⟩⟩ trivial)⟩⟩

theorem within_dlopen : UsesOwn basedir g srcDlopenDlopen := by
  refine ⟨uses_none rfl rfl rfl nofun, fun mypath => ⟨uses_none rfl rfl rfl nofun, fun child =>
    .ite (usesOwn_none (waited_none child 30)) (.ite ?_ trivial)⟩⟩
  refine ⟨uses_none rfl rfl rfl nofun, fun _ => ⟨uses_none rfl rfl rfl nofun, fun _ =>
    ⟨uses_path rfl rfl rfl nofun (nameable_self mypath _), fun loaded => ?_⟩⟩⟩
  exact .ite ⟨uses_none rfl rfl rfl nofun, fun _ => ⟨uses_none rfl rfl rfl nofun, fun _ =>
    ⟨uses_none rfl rfl rfl nofun, fun _ => ⟨uses_none rfl rfl rfl nofun, fun r => nomatch r⟩⟩⟩⟩
    ⟨uses_none rfl rfl rfl nofun, fun _ => ⟨uses_none rfl rfl rfl nofun, fun _ =>
      ⟨uses_none rfl rfl rfl nofun, fun r => nomatch r⟩⟩⟩

theorem within_chdir : UsesOwn basedir g srcChdirChdir :=
  ⟨uses_none rfl rfl rfl nofun, fun _ => .ite ⟨uses_none rfl rfl rfl nofun, fun path =>
    ⟨uses_path rfl rfl rfl nofun (nameable_self path _), fun _ =>
      ⟨uses_fd rfl rfl rfl nofun List.mem_cons_self, fun _ =>
        ⟨uses_fd rfl rfl rfl nofun List.mem_cons_self, fun _ => trivial⟩⟩⟩⟩ trivial⟩

theorem within_fchdir : UsesOwn basedir g srcChdirFchdir :=
  ⟨uses_none rfl rfl rfl nofun, fun _ => .ite ⟨uses_none rfl rfl rfl nofun, fun _ =>
    ⟨uses_fd rfl rfl rfl nofun List.mem_cons_self, fun _ =>
      ⟨uses_fd rfl rfl rfl nofun (List.mem_cons_of_mem _ List.mem_cons_self), fun _ =>
        ⟨uses_fd rfl rfl rfl nofun (List.mem_cons_of_mem _ List.mem_cons_self), fun _ => trivial⟩⟩⟩⟩
    trivial⟩

theorem within_fchown : UsesOwn basedir g srcChownFchown := by
  refine ⟨uses_none rfl rfl rfl nofun, fun fd => ⟨uses_fd rfl rfl rfl nofun List.mem_cons_self, fun st =>
    ⟨uses_none rfl rfl rfl nofun, fun groupids => ?_⟩⟩⟩
  have hend : ∀ (newids : Option Nat) (newid : UInt32) (g : Held), fd ∈ g.fds → UsesOwn basedir g (do
      let _ ← call (.onFd (.fchown (-1) newid) fd)
      call (.free newids)) := fun newids newid g hfd =>
    ⟨uses_fd rfl rfl rfl nofun hfd, fun _ => ⟨uses_none rfl rfl rfl nofun, fun _ => trivial⟩⟩
  have hloop : ∀ (newids : Option Nat) (g : Held), fd ∈ g.fds → UsesOwn basedir g
      (if newids ≠ none then do
        let newid ← liftExec
          (fchownLoop (List.replicate groupids.toNat 0) st.2.gid (-1) 0 groupids.toNat)
        let _ ← call (.onFd (.fchown (-1) newid) fd)
        call (.free newids)
      else do
        let newid ← pure (-1)
        let _ ← call (.onFd (.fchown (-1) newid) fd)
        call (.free newids)) := fun newids g hfd => by
    obtain ⟨newid, hnewid⟩ := fchownLoop_replicate groupids.toNat st.2.gid
    rw [hnewid]
    exact .ite (hend newids newid g hfd) (hend newids (-1) g hfd)
  exact .ite ⟨uses_none rfl rfl rfl nofun, fun newids => hloop newids _ List.mem_cons_self⟩
    (hloop none _ List.mem_cons_self)

theorem guardedCopy_none (dst src : Area) (len : Nat) : (guardedCopy dst src len).Only UsesNone :=
  ⟨⟨rfl, rfl, rfl, nofun⟩, fun _ => ⟨⟨rfl, rfl, rfl, nofun⟩, fun _ => ⟨⟨rfl, rfl, rfl, nofun⟩, fun _ =>
    ⟨⟨rfl, rfl, rfl, nofun⟩, fun _ => ⟨⟨rfl, rfl, rfl, nofun⟩, fun _ => trivial⟩⟩⟩⟩⟩

theorem within_mapAndRead (ps : Funcs) (flag : MapFlag) : UsesOwn basedir g (mapAndRead ps flag) := by
  have hrest (size : Nat) (area : Area) : (do
      guardedCopy ps.buffer.base area (min size ps.buffer.len)
      let _ ← call (.munmap area size) : Op Unit).Only UsesNone :=
    (guardedCopy_none _ _ _).bind fun _ => ⟨⟨rfl, rfl, rfl, nofun⟩, fun _ => trivial⟩
  exact ⟨uses_none rfl rfl rfl nofun, fun _ => ⟨uses_fd rfl rfl rfl nofun List.mem_cons_self, fun _ =>
    ⟨uses_fd rfl rfl rfl nofun List.mem_cons_self, fun area => usesOwn_none (hrest _ area)⟩⟩⟩

theorem within_mmapFile (ps : Funcs) : UsesOwn basedir g (srcMmapFile ps) := by
  have hrest (size : Nat) (area : Area) : (do
      guardedCopy area ps.pattern.base (min size ps.pattern.len)
      let _ ← call (.munmap area ps.buffer.len) : Op Unit).Only UsesNone :=
    (guardedCopy_none _ _ _).bind fun _ => ⟨⟨rfl, rfl, rfl, nofun⟩, fun _ => trivial⟩
  exact ⟨uses_none rfl rfl rfl nofun, fun _ => ⟨uses_fd rfl rfl rfl nofun List.mem_cons_self, fun _ =>
    ⟨uses_fd rfl rfl rfl nofun List.mem_cons_self, fun area => usesOwn_none (hrest _ area)⟩⟩⟩

theorem within_mmapStatd (ps : Funcs) : UsesOwn basedir g (srcMmapStatd ps) := by
  have hrest (size : Nat) (area : Area) : (do
      guardedCopy area ps.pattern.base (min size ps.pattern.len)
      call (.msync area)
      let _ ← call (.munmap area ps.buffer.len) : Op Unit).Only UsesNone :=
    (guardedCopy_none _ _ _).bind fun _ =>
      ⟨⟨rfl, rfl, rfl, nofun⟩, fun _ => ⟨⟨rfl, rfl, rfl, nofun⟩, fun _ => trivial⟩⟩
  exact ⟨uses_none rfl rfl rfl nofun, fun _ => ⟨uses_fd rfl rfl rfl nofun List.mem_cons_self, fun _ =>
    ⟨uses_fd rfl rfl rfl nofun List.mem_cons_self, fun area => usesOwn_none (hrest _ area)⟩⟩⟩

theorem within_openAndSet (flags : List OpenFlag) : UsesOwn basedir g (openAndSet flags) :=
  ⟨uses_none rfl rfl rfl nofun, fun path => ⟨uses_path rfl rfl rfl nofun (nameable_self path _), fun _ =>
    ⟨uses_fd rfl rfl rfl nofun List.mem_cons_self, fun _ => trivial⟩⟩⟩

theorem within_fdopendir : UsesOwn basedir g srcOpendirFdopendir :=
  ⟨uses_none rfl rfl rfl nofun, fun _ => ⟨uses_fd rfl rfl rfl nofun List.mem_cons_self, fun _ =>
    .ite ⟨uses_fd rfl rfl rfl nofun List.mem_cons_self, fun _ => trivial⟩ trivial⟩⟩

theorem within_opendir : UsesOwn basedir g srcOpendirOpendir := by
  refine ⟨uses_none rfl rfl rfl nofun, fun path => ⟨uses_path rfl rfl rfl nofun (nameable_self path _),
    fun dirp => ?_⟩⟩
  cases dirp with
  | none => trivial
  | some fd => exact ⟨uses_fd rfl rfl rfl nofun List.mem_cons_self, fun _ => trivial⟩

theorem within_readdir : UsesOwn basedir g srcOpendirReaddir := by
  refine ⟨uses_none rfl rfl rfl nofun, fun path => ⟨uses_none rfl rfl rfl nofun, fun dup =>
    .ite ⟨uses_path rfl rfl rfl nofun (nameable_dirname path _), fun dirp => ?_⟩ trivial⟩⟩
  cases dirp with
  | none => exact ⟨uses_none rfl rfl rfl nofun, fun _ => trivial⟩
  | some fd =>
    exact ⟨uses_none rfl rfl rfl nofun, fun _ => ⟨uses_fd rfl rfl rfl nofun List.mem_cons_self, fun _ =>
      ⟨uses_none rfl rfl rfl nofun, fun _ => trivial⟩⟩⟩

theorem within_pipeEnd {pfd : Int} (h : pfd ∈ g.fds) : UsesOwn basedir g (pipeEnd pfd) :=
  ⟨uses_fd rfl rfl rfl nofun h, fun _ => .ite
    ⟨uses_fd rfl rfl rfl nofun h, fun _ => ⟨uses_fd rfl rfl rfl nofun h, fun _ => trivial⟩⟩
    ⟨uses_fd rfl rfl rfl nofun h, fun _ => trivial⟩⟩

theorem within_pipe : UsesOwn basedir g srcPipePipe := by
  refine ⟨uses_none rfl rfl rfl nofun, fun ends => ?_⟩
  cases ends with
  | none => trivial
  | some ends =>
    have hfirst : ends.1 ∈ (g.obtain .pipe (some ends)).fds := List.mem_cons_self
    have hsecond : ends.2 ∈ (g.obtain .pipe (some ends)).fds :=
      List.mem_cons_of_mem _ List.mem_cons_self
    have hrest : UsesOwn basedir (g.obtain .pipe (some ends))
        (pipeEnd ends.1 >>= fun _ => pipeEnd ends.2) :=
      Prog.Within.bind (V := fun g => ends.2 ∈ g.fds) (fun g c r => obtain_fds g c r ends.2) hsecond
        (within_pipeEnd hfirst) fun _ _ h => within_pipeEnd h
    exact hrest

/-! ## 3. The table -/

theorem operations_within (basedir : Path) (ps : Funcs) :
    ∀ e ∈ operations basedir ps, UsesOwn basedir ⟨[], []⟩ e.2 := by
  have onFd (c : FdCall) (hc : ∀ fd, (Call.onFd c fd).fds = [fd]) :
      UsesOwn basedir ⟨[], []⟩ (onGet c) := within_onGet c hc
  have onSt (c : Int → FdCall) (hc : ∀ size fd, (Call.onFd (c size) fd).fds = [fd]) :
      UsesOwn basedir ⟨[], []⟩ (onStat c) := within_onStat c hc
  have path (c : PathCall) (hc : c.paths = []) : UsesOwn basedir ⟨[], []⟩ (onPathGet c) :=
    within_onPathGet c hc
  have seek (op : SeekOp) : UsesOwn basedir ⟨[], []⟩ (seekWrite op) := within_seekWrite op
  have g (fd : Int) : [fd] = [fd] := rfl
  have s (_ : Int) (fd : Int) : [fd] = [fd] := rfl
  simp only [operations, List.forall_mem_cons]
  exact ⟨within_copyexe _, within_exec, within_gcore, within_ldlibrarypath, within_ldpreload,
    within_mkhashbang,
    within_posixSpawn, path _ rfl, path _ rfl, within_closeall, onFd _ g, within_dlopen,
    within_onTwoPaths _ fun _ _ => List.mem_singleton.mp,
    seek _, seek _, seek _, seek _, seek _, seek _, seek _, seek _, seek _, seek _, seek _, seek _,
    path _ rfl, path _ rfl, within_mapAndRead _ _, within_mapAndRead _ _, within_mmapFile _,
    within_mmapStatd _, within_openAndSet _, within_openAndSet _, within_openAndSet _,
    within_openAndSet _, within_openAndSet _, within_fdopendir, within_opendir, within_readdir,
    onFd _ g, path _ rfl, path _ rfl, within_pipe, onFd _ g, onFd _ g, path _ rfl, path _ rfl,
    within_onTwoPaths _ fun _ _ => List.mem_singleton.mp, path _ rfl, within_sendfile, onFd _ g,
    path _ rfl, path _ rfl, path _ rfl, within_onTwoPaths _ (fun _ _ h => absurd h List.not_mem_nil), onFd _ g,
    within_sync, onFd _ g, onFd _ g, onFd _ g, onSt _ s, onSt _ s, onSt _ s, onSt _ s, onFd _ g,
    path _ rfl, path _ rfl, path _ rfl, path _ rfl, path _ rfl, onSt _ s, onSt _ s, onSt _ s,
    onSt _ s, onSt _ s, onFd _ g, onFd _ g, path _ rfl, path _ rfl, path _ rfl, onFd _ g,
    path _ rfl, path _ rfl, onSt _ s, onSt _ s, onSt _ s, onSt _ s, within_mkscript, onSt _ s,
    onSt _ s, onSt _ s, onSt _ s, onFd _ g, onFd _ g, within_copyexe _, within_mkhashbang2,
    within_move, within_fchown, onFd _ g, onFd _ g, within_chdir, within_fchdir,
    fun _ h => absurd h List.not_mem_nil⟩

end Fembot
