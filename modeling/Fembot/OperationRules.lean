/-
  File:      Fembot/OperationRules.lean
  Subject:   The kinds of operations in the table, and the rules that take a property of each kind to
             every run of the table.

  * `plain_onGet` and its like -- four operations in five make plain calls only;
  * `OpKind`, `operations_kind` -- an operation of the table is plain, or one of the twenty listed;
  * `Frames`, `Keeps` -- what every kind keeps, every run keeps (`Keeps.always`), and what it demands
    of its calls holds of every call of a run (`Keeps.eachCall`);
  * `bstgWaitpidOp_agrees`, `seekWrite_agrees`, `srcChownFchown_agrees` -- the loop of `bstg_waitpid`,
    the lseek operations and src/chown/fchown.c, which Waitpid.lean, Lseek.lean and Fchown.lean have as
    functions, are these as programs.
-/
import Fembot.CallRules
import Fembot.Operations

namespace Fembot

open Library

/-! ## 1. Plain operations -/

theorem plain_onGet (c : FdCall) : (onGet c).Only Plain :=
  ⟨rfl, fun _ => ⟨rfl, fun _ => trivial⟩⟩

theorem plain_onStat (c : Int → FdCall) : (onStat c).Only Plain :=
  ⟨rfl, fun _ => ⟨rfl, fun _ => ⟨rfl, fun _ => trivial⟩⟩⟩

theorem plain_seekWrite (op : SeekOp) : (seekWrite op).Only Plain :=
  ⟨rfl, fun _ => ⟨rfl, fun _ => ⟨rfl, fun _ => trivial⟩⟩⟩

theorem plain_onPathGet (c : PathCall) : (onPathGet c).Only Plain :=
  ⟨rfl, fun _ => ⟨rfl, fun _ => trivial⟩⟩

theorem plain_onTwoPaths (c : Path → PathCall) : (onTwoPaths c).Only Plain :=
  ⟨rfl, fun _ => ⟨rfl, fun _ => ⟨rfl, fun _ => trivial⟩⟩⟩

theorem plain_mkhashbang : specialMkhashbang.Only Plain :=
  ⟨rfl, fun _ => ⟨rfl, fun _ => ⟨rfl, fun _ => ⟨rfl, fun _ => trivial⟩⟩⟩⟩

theorem plain_mkhashbang2 : specialMkhashbang2.Only Plain :=
  ⟨rfl, fun _ => ⟨rfl, fun _ => ⟨rfl, fun _ => ⟨rfl, fun _ => trivial⟩⟩⟩⟩

theorem plain_mkscript : srcWriteMkscript.Only Plain :=
  ⟨rfl, fun _ => ⟨rfl, fun _ => ⟨rfl, fun _ => trivial⟩⟩⟩

theorem plain_sendfile : srcSendfileSendfile.Only Plain :=
  ⟨rfl, fun _ => ⟨rfl, fun _ => ⟨rfl, fun _ => trivial⟩⟩⟩

theorem plain_sync : srcSyncSync.Only Plain := ⟨rfl, fun _ => trivial⟩

/-! ## 2. Kinds -/

section

variable (basedir : Path) (pf : Funcs)

/-- The operations of the table, with the place of the one that leaves a block behind. -/
inductive OpKind : Nat → Op Unit → Prop
  | plain {i : Nat} {p : Op Unit} (h : p.Only Plain) : OpKind i p
  | copyexe {i : Nat} (flags : List OpenFlag) : OpKind i (copyexe basedir flags)
  | exec {i : Nat} : OpKind i specialExec
  | gcore {i : Nat} : OpKind i specialGcore
  | ldlibrarypath : OpKind 3 specialLdlibrarypath
  | ldpreload {i : Nat} : OpKind i specialLdpreload
  | move {i : Nat} : OpKind i (specialMove basedir)
  | posixSpawn {i : Nat} : OpKind i specialPosixSpawn
  | chdir {i : Nat} : OpKind i srcChdirChdir
  | fchdir {i : Nat} : OpKind i srcChdirFchdir
  | fchown {i : Nat} : OpKind i srcChownFchown
  | closeall {i : Nat} : OpKind i srcCloseCloseall
  | dlopen {i : Nat} : OpKind i srcDlopenDlopen
  | mapAndRead {i : Nat} (flag : MapFlag) : OpKind i (mapAndRead pf flag)
  | mmapFile {i : Nat} : OpKind i (srcMmapFile pf)
  | mmapStatd {i : Nat} : OpKind i (srcMmapStatd pf)
  | openAndSet {i : Nat} (flags : List OpenFlag) : OpKind i (openAndSet flags)
  | fdopendir {i : Nat} : OpKind i srcOpendirFdopendir
  | opendir {i : Nat} : OpKind i srcOpendirOpendir
  | readdir {i : Nat} : OpKind i srcOpendirReaddir
  | pipe {i : Nat} : OpKind i srcPipePipe

/-- Each operation of the table, in its order. -/
theorem operations_kind :
    ∀ e ∈ (operations basedir pf).zipIdx, OpKind basedir pf e.2 e.1.2 := by
  have onFd {i : Nat} (c : FdCall) : OpKind basedir pf i (onGet c) := .plain (plain_onGet c)
  have onSt {i : Nat} (c : Int → FdCall) : OpKind basedir pf i (onStat c) := .plain (plain_onStat c)
  have seek {i : Nat} (op : SeekOp) : OpKind basedir pf i (seekWrite op) := .plain (plain_seekWrite op)
  have path {i : Nat} (c : PathCall) : OpKind basedir pf i (onPathGet c) := .plain (plain_onPathGet c)
  have two {i : Nat} (c : Path → PathCall) : OpKind basedir pf i (onTwoPaths c) :=
    .plain (plain_onTwoPaths c)
  simp only [operations, List.zipIdx_cons, List.zipIdx_nil, List.forall_mem_cons]
  exact ⟨.copyexe _, .exec, .gcore, .ldlibrarypath, .ldpreload, .plain plain_mkhashbang, .posixSpawn,
    path _, path _, .closeall, onFd _, .dlopen, two _,
    seek _, seek _, seek _, seek _, seek _, seek _, seek _, seek _, seek _, seek _, seek _, seek _,
    path _, path _, .mapAndRead _, .mapAndRead _, .mmapFile, .mmapStatd,
    .openAndSet _, .openAndSet _, .openAndSet _, .openAndSet _, .openAndSet _,
    .fdopendir, .opendir, .readdir, onFd _, path _, path _, .pipe, onFd _, onFd _, path _, path _,
    two _, path _, .plain plain_sendfile, onFd _, path _, path _, path _, two _, onFd _,
    .plain plain_sync,
    onFd _, onFd _, onFd _, onSt _, onSt _, onSt _, onSt _, onFd _, path _, path _, path _, path _,
    path _, onSt _, onSt _, onSt _, onSt _, onSt _, onFd _,
    onFd _, path _, path _, path _, onFd _, path _, path _,
    onSt _, onSt _, onSt _, onSt _, .plain plain_mkscript, onSt _, onSt _, onSt _, onSt _,
    onFd _, onFd _,
    .copyexe _, .plain plain_mkhashbang2, .move, .fchown, onFd _, onFd _, .chdir, .fchdir,
    fun _ h => absurd h List.not_mem_nil⟩

/-! ## 3. The groups of each kind -/

theorem waitpidOp_only {S : Call → Prop} (childpid ticks : Int) (hover : S .overflow)
    (hkill : S (.kill childpid)) (hwait : S (.waitpidNohang childpid)) (hsleep : S (.usleep 250000))
    (rounds count : Nat) : (waitpidOp childpid ticks rounds count).Only S := by
  induction rounds generalizing count with
  | zero => exact ⟨hover, fun r => nomatch r⟩
  | succ rounds ih =>
    have hpoll : (do
        let rc ← call (.waitpidNohang childpid)
        if rc = childpid then pure childpid
        else do
          call (.usleep 250000)
          waitpidOp childpid ticks rounds (count + 1) : Op Int).Only S := by
      refine ⟨hwait, fun rc => ?_⟩
      exact Prog.Only.ite trivial ⟨hsleep, fun _ => ih (count + 1)⟩
    rw [waitpidOp]
    split
    · exact ⟨hkill, fun _ => hpoll⟩
    · exact hpoll

section

variable {gs : List Group}

theorem bstgWaitpidOp_only (hp : gs.contains .plain = true) (hc : gs.contains .process = true)
    (childpid ticks : Int) :
    (bstgWaitpidOp childpid ticks).Only (Call.In gs) :=
  waitpidOp_only childpid ticks hc hc hc hp _ _

/-- Waiting, and nothing behind it. -/
theorem waited_only (hp : gs.contains .plain = true) (hc : gs.contains .process = true)
    (childpid ticks : Int) :
    (do let _ ← bstgWaitpidOp childpid ticks : Op Unit).Only (Call.In gs) :=
  (bstgWaitpidOp_only hp hc childpid ticks).bind fun _ => trivial

/-- What a child makes of itself: it gives its descriptors up, and is another program or ends. -/
theorem execChild_only (hs : gs.contains .own = true)
    (token : Path) :
    (do call .preexec; let _ ← call (.execve token); exit 1 : Op Unit).Only (Call.In gs) :=
  ⟨hs, fun _ => ⟨hs, fun _ => ⟨hs, fun r => nomatch r⟩⟩⟩

end

theorem exec_only : specialExec.Only (Call.In [.plain, .process, .own]) :=
  ⟨rfl, fun token => ⟨rfl, fun childpid => .ite (waited_only rfl rfl childpid 60)
    (.ite (execChild_only rfl token) trivial)⟩⟩

theorem gcore_only : specialGcore.Only (Call.In [.plain, .process, .own]) := by
  refine ⟨rfl, fun sleepchild => .ite ⟨rfl, fun _ => ⟨rfl, fun r => nomatch r⟩⟩ (.ite ?_ trivial)⟩
  refine ⟨rfl, fun _ => ⟨rfl, fun gcorechild => ?_⟩⟩
  have hend : (do call (.kill sleepchild); let _ ← call (.waitpid sleepchild) : Op Unit).Only
      (Call.In [.plain, .process, .own]) := ⟨rfl, fun _ => ⟨rfl, fun _ => trivial⟩⟩
  exact .ite ((bstgWaitpidOp_only rfl rfl gcorechild 60).bind fun _ => hend)
    (.ite ⟨rfl, fun _ => ⟨rfl, fun _ => ⟨rfl, fun r => nomatch r⟩⟩⟩ hend)

theorem putenvBuf_only {gs : List Group} (hp : gs.contains .own = true)
    (hb : gs.contains .block = true) (name value : List Char) :
    (putenvBuf name value).Only (Call.In gs) :=
  ⟨hb, fun _ => .ite ⟨hp, fun _ => trivial⟩ trivial⟩

theorem ldlibrarypath_only :
    specialLdlibrarypath.Only (Call.In [.plain, .block, .process, .own]) :=
  ⟨rfl, fun token => ⟨rfl, fun _ => ⟨rfl, fun _ => ⟨rfl, fun childpid =>
    .ite (waited_only rfl rfl childpid 60)
      (.ite ((putenvBuf_only rfl rfl _ _).bind fun _ => ⟨rfl, fun _ => execChild_only rfl token⟩)
        trivial)⟩⟩⟩⟩

theorem ldpreload_only :
    specialLdpreload.Only (Call.In [.plain, .block, .process, .own]) :=
  ⟨rfl, fun token => ⟨rfl, fun _ => ⟨rfl, fun childpid =>
    .ite (waited_only rfl rfl childpid 60)
      (.ite ((putenvBuf_only rfl rfl _ _).bind fun _ => execChild_only rfl token) trivial)⟩⟩⟩

theorem move_only (basedir : Path) : (specialMove basedir).Only (Call.In [.plain, .block]) :=
  ⟨rfl, fun _ => ⟨rfl, fun _ => .ite
    ⟨rfl, fun _ => .ite ⟨rfl, fun _ => ⟨rfl, fun _ => trivial⟩⟩ ⟨rfl, fun _ => trivial⟩⟩ trivial⟩⟩

theorem posixSpawn_only : specialPosixSpawn.Only (Call.In [.plain, .process, .own]) :=
  ⟨rfl, fun _ => ⟨rfl, fun _ => .ite ⟨rfl, fun _ => trivial⟩
    (.ite ⟨rfl, fun _ => ⟨rfl, fun _ => ⟨rfl, fun r => nomatch r⟩⟩⟩ trivial)⟩⟩

theorem chdir_only : srcChdirChdir.Only (Call.In [.plain, .table, .cwd]) :=
  ⟨rfl, fun _ => .ite ⟨rfl, fun _ => ⟨rfl, fun _ => ⟨rfl, fun _ => ⟨rfl, fun _ => trivial⟩⟩⟩⟩
    trivial⟩

theorem fchdir_only : srcChdirFchdir.Only (Call.In [.plain, .get, .table, .cwd]) :=
  ⟨rfl, fun _ => .ite ⟨rfl, fun _ => ⟨rfl, fun _ => ⟨rfl, fun _ => ⟨rfl, fun _ => trivial⟩⟩⟩⟩
    trivial⟩

/-- The search for a group stays within the places that were allocated. -/
theorem fchownLoop_replicate (n : Nat) (stGid : UInt32) :
    ∃ newid, fchownLoop (List.replicate n 0) stGid (-1) 0 n = .ok newid :=
  ⟨_, fchownLoop_spec _ stGid (-1) (by rw [List.length_replicate, Nat.zero_add])⟩

/-- What `fchown` does with its descriptor. -/
theorem fchown_rest : ∃ f, srcChownFchown = .call (.get2 [.O_CREAT]) f ∧
    ∀ fd, (f fd).Only (Call.In [.plain, .block]) := by
  refine ⟨_, rfl, fun fd => ⟨rfl, fun st => ⟨rfl, fun groupids => ?_⟩⟩⟩
  have hend : ∀ newids newid, (do
      let _ ← call (.onFd (.fchown (-1) newid) fd)
      call (.free newids) : Op Unit).Only (Call.In [.plain, .block]) :=
    fun newids newid => ⟨rfl, fun _ => ⟨rfl, fun _ => trivial⟩⟩
  -- what follows the allocation, whatever it gave
  have hloop : ∀ newids : Option Nat, (if newids ≠ none then do
        let newid ← liftExec
          (fchownLoop (List.replicate groupids.toNat 0) st.2.gid (-1) 0 groupids.toNat)
        let _ ← call (.onFd (.fchown (-1) newid) fd)
        call (.free newids)
      else do
        let newid ← pure (-1)
        let _ ← call (.onFd (.fchown (-1) newid) fd)
        call (.free newids) : Op Unit).Only (Call.In [.plain, .block]) := fun newids => by
    obtain ⟨newid, hnewid⟩ := fchownLoop_replicate groupids.toNat st.2.gid
    rw [hnewid]
    exact .ite (hend newids newid) (hend newids (-1))
  exact .ite ⟨rfl, fun newids => hloop newids⟩ (hloop none)

theorem fchown_only : srcChownFchown.Only (Call.In [.plain, .get, .block]) := by
  obtain ⟨f, hf, hrest⟩ := fchown_rest
  rw [hf]
  exact ⟨rfl, fun fd => (hrest fd).imp fun _ => Call.In.mono rfl⟩

theorem dlopen_only : srcDlopenDlopen.Only (Call.In [.plain, .handler, .process, .own]) := by
  refine ⟨rfl, fun mypath => ⟨rfl, fun child => .ite (waited_only rfl rfl child 30)
    (.ite ⟨rfl, fun _ => ⟨rfl, fun _ => ⟨rfl, fun loaded => ?_⟩⟩⟩ trivial)⟩⟩
  exact .ite ⟨rfl, fun _ => ⟨rfl, fun _ => ⟨rfl, fun _ => ⟨rfl, fun r => nomatch r⟩⟩⟩⟩
    ⟨rfl, fun _ => ⟨rfl, fun _ => ⟨rfl, fun r => nomatch r⟩⟩⟩

theorem copyexe_only (basedir : Path) (flags : List OpenFlag) :
    (copyexe basedir flags).Only (Call.In [.plain, .get, .table, .memory]) := by
  have hend : ∀ (fd : Int) (mapped : Area × Nat), (do
      let _ ← call (.close fd)
      if mapped.1 ≠ none then do
        let fd ← call (.get2 flags)
        call (.posixMadvise mapped.1 mapped.2)
        let _ ← call (.onFd (.ftruncate 0) fd)
        let _ ← call (.onFd (.pwrite (.base mapped.2) 0) fd)
        let _ ← call (.munmap mapped.1 mapped.2) : Op Unit).Only
      (Call.In [.plain, .get, .table, .memory]) := fun fd mapped =>
    ⟨rfl, fun _ => .ite ⟨rfl, fun _ => ⟨rfl, fun _ => ⟨rfl, fun _ => ⟨rfl, fun _ => ⟨rfl, fun _ =>
      trivial⟩⟩⟩⟩⟩ trivial⟩
  refine ⟨rfl, fun fd => .ite ⟨rfl, fun st => .ite ⟨rfl, fun base => ?_⟩ ?_⟩ ?_⟩
  · exact hend fd (base, _)
  · exact hend fd (none, _)
  · exact hend fd (none, 0)

theorem openAndSet_only (flags : List OpenFlag) :
    (openAndSet flags).Only (Call.In [.plain, .table]) :=
  ⟨rfl, fun _ => ⟨rfl, fun _ => ⟨rfl, fun _ => trivial⟩⟩⟩

theorem closeall_only : srcCloseCloseall.Only (Call.In [.plain, .table]) :=
  ⟨rfl, fun _ => trivial⟩

theorem fdopendir_only : srcOpendirFdopendir.Only (Call.In [.plain, .get, .table]) :=
  ⟨rfl, fun _ => ⟨rfl, fun _ => .ite ⟨rfl, fun _ => trivial⟩ trivial⟩⟩

theorem opendir_only : srcOpendirOpendir.Only (Call.In [.plain, .table]) :=
  ⟨rfl, fun _ => ⟨rfl, fun dirp => by
    cases dirp with
    | none => trivial
    | some fd => exact ⟨rfl, fun _ => trivial⟩⟩⟩

theorem readdir_only : srcOpendirReaddir.Only (Call.In [.plain, .table, .block]) := by
  refine ⟨rfl, fun path => ⟨rfl, fun dup => .ite ⟨rfl, fun dirp => ?_⟩ trivial⟩⟩
  cases dirp with
  | none => exact ⟨rfl, fun _ => trivial⟩
  | some fd => exact ⟨rfl, fun _ => ⟨rfl, fun _ => ⟨rfl, fun _ => trivial⟩⟩⟩

theorem pipeEnd_only (pfd : Int) : (pipeEnd pfd).Only (Call.In [.plain, .table]) :=
  ⟨rfl, fun _ => .ite ⟨rfl, fun _ => ⟨rfl, fun _ => trivial⟩⟩ ⟨rfl, fun _ => trivial⟩⟩

theorem pipe_only : srcPipePipe.Only (Call.In [.plain, .table]) := by
  refine ⟨rfl, fun ends => ?_⟩
  cases ends with
  | none => trivial
  | some ends => exact (pipeEnd_only ends.1).bind fun _ => pipeEnd_only ends.2

theorem guardedCopy_only {gs : List Group} (hm : gs.contains .memory = true)
    (hh : gs.contains .handler = true) (dst src : Area) (len : Nat) :
    (guardedCopy dst src len).Only (Call.In gs) :=
  ⟨hh, fun _ => ⟨hh, fun _ => ⟨hm, fun _ => ⟨hh, fun _ => ⟨hh, fun _ => trivial⟩⟩⟩⟩⟩

theorem mapAndRead_only (pf : Funcs) (flag : MapFlag) :
    (mapAndRead pf flag).Only (Call.In [.plain, .get, .memory, .handler]) :=
  ⟨rfl, fun _ => ⟨rfl, fun _ => ⟨rfl, fun _ => (guardedCopy_only rfl rfl _ _ _).bind fun _ =>
    ⟨rfl, fun _ => trivial⟩⟩⟩⟩

theorem mmapFile_only (pf : Funcs) : (srcMmapFile pf).Only (Call.In [.plain, .get, .memory, .handler]) :=
  ⟨rfl, fun _ => ⟨rfl, fun _ => ⟨rfl, fun _ => (guardedCopy_only rfl rfl _ _ _).bind fun _ =>
    ⟨rfl, fun _ => trivial⟩⟩⟩⟩

theorem mmapStatd_only (pf : Funcs) :
    (srcMmapStatd pf).Only (Call.In [.plain, .get, .memory, .handler]) :=
  ⟨rfl, fun _ => ⟨rfl, fun _ => ⟨rfl, fun _ => (guardedCopy_only rfl rfl _ _ _).bind fun _ =>
    ⟨rfl, fun _ => ⟨rfl, fun _ => trivial⟩⟩⟩⟩⟩

/-! ## 4. From operations to runs -/

/-- The calls of every group that is not in `bad` keep `I`, and are made as `φ` demands. -/
structure Frames (bad : List Group) (I : World → Prop) (φ : Call → World → Prop) : Prop where
  keep : ∀ c w r w', bad.contains c.group = false → I w → handle c w = .ok (r, w') → I w'
  meets : ∀ c w, bad.contains c.group = false → I w → φ c w

/-- A program without calls of the groups in `bad` keeps the invariant. -/
theorem Frames.only {bad gs : List Group} {I : World → Prop} {φ : Call → World → Prop}
    (h : Frames bad I φ) {α : Type} {p : Op α} (hp : p.Only (Call.In gs))
    (hgs : (gs.all fun g => !bad.contains g) = true) {w : World} (hI : I w) :
    p.Meets handle φ w fun _ => I := by
  have hgood : ∀ c, Call.In gs c → bad.contains c.group = false := fun c hc => by
    have := List.all_eq_true.mp hgs c.group (List.contains_iff_mem.mp hc)
    rwa [Bool.not_eq_true'] at this
  exact Prog.meets_of_only (fun c w r w' hc => h.keep c w r w' (hgood c hc))
    (fun c w hc => h.meets c w (hgood c hc)) hp hI

/-- A call that keeps the invariant, before the rest of a program. -/
theorem Frames.call {bad : List Group} {I : World → Prop} {φ : Call → World → Prop}
    (h : Frames bad I φ) {c : Call} (hc : bad.contains c.group = false) {α : Type}
    {f : c.Ret → Op α} {Q : α → World → Prop} {w : World} (hI : I w)
    (hf : ∀ r w', I w' → (f r).Meets handle φ w' Q) :
    (Fembot.call c >>= f).Meets handle φ w Q :=
  ⟨h.meets c w hc hI, fun r w' hs => hf r w' (h.keep c w r w' hc hI hs)⟩

variable {basedir pf}

theorem operation_kind {i : Nat} {path : String} {body : Op Unit}
    (h : (operations basedir pf)[i]? = some (path, body)) : OpKind basedir pf i body :=
  operations_kind basedir pf ((path, body), i) (List.mem_zipIdx_iff_getElem?.mpr h)

/-- What `mkfuncs.sh` puts before an operation. -/
theorem generatedFunc_meets {φ : Call → World → Prop} {I : World → Prop} {Q : Unit → World → Prop}
    (keep : ∀ c w r w', c.group = .plain → I w → handle c w = .ok (r, w') → I w')
    (hφ : ∀ c w, c.group = .plain → I w → φ c w) {path : String} {body : Op Unit}
    (hbody : ∀ w, I w → body.Meets handle φ w Q) {w : World} (hI : I w) :
    (generatedFunc pf path body).Meets handle φ w Q := by
  unfold generatedFunc
  split
  · have hplain : (do
        let _ ← call (.onFd (.write (.text (funcIdent (generated path.toList) ++ [Char.ofNat 0]))) 2)
        let _ ← call (.onFd (.write (.text ['\n'])) 2)
        let _ ← call (.onFd .fsync 2)
        let _ ← call (.onFd .tcdrain 2)
        call (.usleep 250) : Op Unit).Only fun c => c.group = .plain :=
      ⟨rfl, fun _ => ⟨rfl, fun _ => ⟨rfl, fun _ => ⟨rfl, fun _ =>
        ⟨rfl, fun _ => trivial⟩⟩⟩⟩⟩
    exact Prog.meets_bind.mpr ((Prog.meets_of_only keep hφ hplain hI).post fun _ w' hw' =>
      hbody w' hw')
  · exact hbody w hI

/-- An invariant of the operations, with what it demands of their calls. -/
structure Keeps (basedir : Path) (pf : Funcs) (I : World → Prop) (φ : Call → World → Prop) :
    Prop where
  func : ∀ i w, I w → (fembotFunc basedir pf i).Meets handle φ w fun _ => I

variable {I : World → Prop} {φ : Call → World → Prop}

/-- What holds behind each kind of operation that stands at the place `i` holds behind that place. -/
theorem Frames.fembotFunc {bad : List Group} (h : Frames bad I φ)
    (hbad : bad.contains .plain = false) (fault : ∀ e w, φ (.fault e) w) {i : Nat}
    {Q : Unit → World → Prop}
    (kinds : ∀ p w, OpKind basedir pf i p → I w → p.Meets handle φ w Q) {w : World} (hI : I w) :
    (fembotFunc basedir pf i).Meets handle φ w Q := by
  unfold Fembot.fembotFunc
  split
  · rename_i path body hget
    refine generatedFunc_meets (fun c w r w' hc => h.keep c w r w' ?_)
      (fun c w hc => h.meets c w ?_) (fun w hw => kinds body w (operation_kind hget) hw) hI
    · rwa [hc]
    · rwa [hc]
  · exact ⟨fault _ w, fun r => nomatch r⟩

/-- It is enough to look at the operations that make calls of the groups in `bad`. -/
theorem Frames.keeps {bad : List Group} (h : Frames bad I φ) (hbad : bad.contains .plain = false)
    (fault : ∀ e w, φ (.fault e) w)
    (kinds : ∀ i p w, OpKind basedir pf i p → I w → p.Meets handle φ w fun _ => I) :
    Keeps basedir pf I φ :=
  ⟨fun i _ hI => h.fembotFunc hbad fault (kinds i) hI⟩

/-- The process behind what `mkfuncs.sh` puts before an operation, where no signal of a write ends it. -/
def World.announced (pf : Funcs) (w : World) : World :=
  if pf.verbose ≠ 0 then w.asked.asked.asked.asked else w

theorem generatedFunc_exec {pf : Funcs} {path : String} {body : Op Unit} {w : World} {r : Unit × World}
    (h : (generatedFunc pf path body).exec handle w = .ok r) :
    body.exec handle (w.announced pf) = .ok r := by
  unfold generatedFunc at h
  unfold World.announced
  split at h
  · rename_i hverbose
    obtain ⟨_, _, hcall, h⟩ := Prog.exec_call_inv h
    obtain rfl := onFd_asked hcall
    obtain ⟨_, _, hcall, h⟩ := Prog.exec_call_inv h
    obtain rfl := onFd_asked hcall
    obtain ⟨_, _, hcall, h⟩ := Prog.exec_call_inv h
    obtain rfl := onFd_asked hcall
    obtain ⟨_, _, hcall, h⟩ := Prog.exec_call_inv h
    obtain rfl := onFd_asked hcall
    rw [if_pos hverbose]
    exact h
  · rename_i hverbose
    rw [if_neg hverbose]
    exact h

theorem opStep_ok {w w' : World} {i : Nat} :
    opStep basedir pf w i = .ok w' ↔ (Fembot.fembotFunc basedir pf i).exec handle w = .ok ((), w') := by
  unfold opStep
  cases (Fembot.fembotFunc basedir pf i).exec handle w with
  | error e => exact ⟨nofun, nofun⟩
  | ok t =>
    refine ⟨fun h => ?_, fun h => ?_⟩
    · cases h
      rfl
    · cases h
      rfl

theorem opStep_error {w : World} {i : Nat} {e : ProcessEnd} :
    opStep basedir pf w i = .error e ↔ (Fembot.fembotFunc basedir pf i).exec handle w = .error e := by
  unfold opStep
  cases (Fembot.fembotFunc basedir pf i).exec handle w with
  | error e' =>
    refine ⟨fun h => ?_, fun h => ?_⟩
    · cases h
      rfl
    · cases h
      rfl
  | ok t => exact ⟨nofun, nofun⟩

theorem Keeps.step (h : Keeps basedir pf I φ) {w w' : World} {i : Nat} (hI : I w)
    (hs : opStep basedir pf w i = .ok w') : I w' :=
  (h.func i _ hI).exec (opStep_ok.mp hs)

/-- The run over `ids` makes the call `c` in the state `u`. -/
def CallAt (basedir : Path) (pf : Funcs) (w : World) (ids : List Nat) (c : Call) (u : World) : Prop :=
  ∃ pre i t, pre ++ [i] <+: ids ∧ run (opStep basedir pf) w pre = .ok t ∧
    (Fembot.fembotFunc basedir pf i).Makes handle c u t

/-- Each call that the run over `ids` makes is made in a state that meets `φ`. -/
def EachCall (basedir : Path) (pf : Funcs) (φ : Call → World → Prop) (w : World) (ids : List Nat) :
    Prop :=
  ∀ c u, CallAt basedir pf w ids c u → φ c u

/-- What every operation keeps holds in every state that a run reaches. -/
theorem Keeps.always (h : Keeps basedir pf I φ) {w : World} (hI : I w) (ids : List Nat) :
    Always (opStep basedir pf) w ids I :=
  always_of_invariant ids hI fun _ _ _ hI hs => h.step hI hs

theorem Keeps.eachCall (h : Keeps basedir pf I φ) {w : World} (hI : I w) (ids : List Nat) :
    EachCall basedir pf φ w ids := by
  rintro c u ⟨pre, i, t, hp, ht, hm⟩
  have hpre := h.always hI ids pre ((List.prefix_append pre [i]).trans hp) t ht
  exact (h.func i t hpre).makes hm

/-- What ends a run early is one of its calls. -/
theorem run_error_callAt {w : World} {ids : List Nat} {e : ProcessEnd}
    (hrun : run (opStep basedir pf) w ids = .error e) :
    ∃ c u, CallAt basedir pf w ids c u ∧ handle c u = .error e := by
  induction ids generalizing w with
  | nil => cases hrun
  | cons i ids ih =>
    cases hs : opStep basedir pf w i with
    | error e' =>
      rw [run_cons_error ids hs] at hrun
      cases hrun
      obtain ⟨c, u, hm, hu⟩ := Prog.exec_error_makes (opStep_error.mp hs)
      exact ⟨c, u, ⟨[], i, w, List.cons_prefix_cons.mpr ⟨rfl, List.nil_prefix⟩, rfl, hm⟩, hu⟩
    | ok w' =>
      rw [run_cons_ok ids hs] at hrun
      obtain ⟨c, u, ⟨pre, j, t, hp, ht, hm⟩, hu⟩ := ih hrun
      refine ⟨c, u, ⟨i :: pre, j, t, List.cons_prefix_cons.mpr ⟨rfl, hp⟩, ?_, hm⟩, hu⟩
      rw [run_cons_ok pre hs, ht]

theorem Keeps.run_error (h : Keeps basedir pf I φ) {w : World} (hI : I w) {ids : List Nat} {e : ProcessEnd}
    (hrun : run (opStep basedir pf) w ids = .error e) : ∃ c u, φ c u ∧ handle c u = .error e := by
  obtain ⟨c, u, hcall, hu⟩ := run_error_callAt hrun
  exact ⟨c, u, h.eachCall hI ids c u hcall, hu⟩

end

/-! ## 5. Functions that have a model of their own -/

/-- A handler that answers each poll from a stream, and keeps the calls of `bstg_waitpid` in the order
    they are made; the overflow of the counter ends it. -/
def waitHandle : (c : Call) → Stream' WaitAnswer × List WaitEvent →
    Except (List WaitEvent) (c.Ret × Stream' WaitAnswer × List WaitEvent)
  | .kill pid, (answers, events) => .ok ((), answers, events ++ [.kill pid SIGKILL])
  | .waitpidNohang pid, (answers, events) =>
    .ok (answers.head.ret, answers.tail, events ++ [.waitpid pid])
  | .usleep usec, (answers, events) => .ok ((), answers, events ++ [.usleep usec])
  | _, (_, events) => .error events

/-- What is behind the signal of a round: the poll, and the pause where it does not answer with the
    child. -/
theorem exec_poll (childpid : Int) (more : Op Int) (answers : Stream' WaitAnswer)
    (events : List WaitEvent) :
    (do
      let rc ← call (.waitpidNohang childpid)
      if rc = childpid then pure childpid
      else do
        call (.usleep 250000)
        more : Op Int).exec waitHandle (answers, events) =
      if answers.head.ret = childpid then
        .ok (childpid, answers.tail, events ++ [.waitpid childpid])
      else more.exec waitHandle (answers.tail, events ++ [.waitpid childpid] ++ [.usleep 250000]) := by
  show Prog.exec waitHandle (if answers.head.ret = childpid then pure childpid
    else call (.usleep 250000) >>= fun _ => more) (answers.tail, events ++ [.waitpid childpid]) = _
  by_cases hreaped : answers.head.ret = childpid
  · rw [if_pos hreaped, if_pos hreaped]
    rfl
  · rw [if_neg hreaped, if_neg hreaped]
    rfl

theorem exec_round (childpid ticks : Int) (rounds count : Nat) (answers : Stream' WaitAnswer)
    (events : List WaitEvent) :
    (waitpidOp childpid ticks (rounds + 1) count).exec waitHandle (answers, events) =
      if answers.head.ret = childpid then
        .ok (childpid, answers.tail, events ++ pollEvents childpid ticks count)
      else (waitpidOp childpid ticks rounds (count + 1)).exec waitHandle
        (answers.tail, events ++ pollEvents childpid ticks count ++ [.usleep 250000]) := by
  rw [waitpidOp, pollEvents]
  split
  · refine (exec_poll childpid _ answers (events ++ [.kill childpid SIGKILL])).trans ?_
    rw [List.append_assoc events]
  · exact exec_poll childpid _ answers events

/-- The loop of the program makes the calls of the loop of `waitpidLoop` and returns what it does. -/
theorem waitpidOp_records (childpid ticks : Int) (rounds count : Nat) (status : Int)
    (answers : Stream' WaitAnswer) (events : List WaitEvent) :
    ((waitpidOp childpid ticks rounds count).exec waitHandle (answers, events)).map
        (fun r => (r.1, r.2.2)) =
      match (waitpidLoop childpid ticks rounds count status answers).ret with
      | none => .error (events ++ (waitpidLoop childpid ticks rounds count status answers).events)
      | some rc => .ok (rc, events ++ (waitpidLoop childpid ticks rounds count status answers).events) := by
  induction rounds generalizing count status answers events with
  | zero =>
    show Except.error events = Except.error (events ++ [])
    rw [List.append_nil]
  | succ rounds ih =>
    rw [exec_round, waitpidLoop]
    dsimp only
    by_cases hreaped : answers.head.ret = childpid
    · rw [if_pos hreaped, if_pos hreaped]
      rfl
    · rw [if_neg hreaped, if_neg hreaped,
        ih (count + 1) (if answers.head.ret > 0 then answers.head.status else status)]
      simp only [List.append_assoc, List.singleton_append]

/-- `bstg_waitpid`, as the operations call it, is the function of Waitpid.lean: for every stream of
    answers it makes the same calls in the same order and returns the same number, or counts on to the
    overflow where that does. -/
theorem bstgWaitpidOp_agrees (childpid status ticks : Int) (answers : Stream' WaitAnswer) :
    ((bstgWaitpidOp childpid ticks).exec waitHandle (answers, [])).map (fun r => (r.1, r.2.2)) =
      match (bstgWaitpid childpid status ticks answers).ret with
      | none => .error (bstgWaitpid childpid status ticks answers).events
      | some rc => .ok (rc, (bstgWaitpid childpid status ticks answers).events) :=
  waitpidOp_records childpid ticks (INT_MAX + 1) 0 status answers []

/-- A handler with the places in the open files, for the calls of the lseek operations, which make no
    others. -/
def seekHandle : (c : Call) → SeekState → Except Fault (c.Ret × SeekState)
  | .get2 flags, s =>
    (bstgFdstoreGet2 kernel s.k s.ps flags).map fun r => (r.2.2, ⟨r.1, r.2.1, s.files⟩)
  | .onFd (.lseek offset whence) fd, s =>
    match s.k.slot fd with
    | none => .ok (-1, s)
    | some f =>
      let r := s.files.lseek f offset whence
      .ok (r.2, { s with files := r.1 })
  | .onFd (.write .fd) fd, s =>
    match s.k.slot fd with
    | none => .ok (-1, s)
    | some f => .ok (4, { s with files := s.files.write f 4 })
  | _, _ => .error .outOfFuel

/-- The lseek operations are those of Lseek.lean. -/
theorem seekWrite_agrees (op : SeekOp) (s : SeekState) :
    (seekWrite op).exec seekHandle s = (seekStep s op).map fun s' => ((), s') := by
  cases hget : bstgFdstoreGet2 kernel s.k s.ps [.O_CREAT] with
  | error e =>
    have hcall : seekHandle (.get2 [.O_CREAT]) s = .error e := by
      rw [seekHandle, hget]
      rfl
    refine (Prog.exec_call_error hcall _).trans ?_
    rw [seekStep, bstgFdstoreGet, hget]
    rfl
  | ok r =>
    obtain ⟨k, ps, fd⟩ := r
    have hcall : seekHandle (.get2 [.O_CREAT]) s = .ok (fd, ⟨k, ps, s.files⟩) := by
      rw [seekHandle, hget]
      rfl
    refine (Prog.exec_call_ok hcall _).trans ?_
    rw [seekStep, bstgFdstoreGet, hget, exec_bind_ok]
    dsimp only
    cases hslot : k.slot fd with
    | none =>
      have hlseek : seekHandle (.onFd (.lseek op.args.1 op.args.2) fd) ⟨k, ps, s.files⟩ =
          .ok (-1, ⟨k, ps, s.files⟩) := by
        rw [seekHandle, hslot]
      have hwrite : seekHandle (.onFd (.write .fd) fd) ⟨k, ps, s.files⟩ =
          .ok (-1, ⟨k, ps, s.files⟩) := by
        rw [seekHandle, hslot]
      exact (Prog.exec_call_ok hlseek _).trans (Prog.exec_call_ok hwrite _)
    | some f =>
      let files := (s.files.lseek f op.args.1 op.args.2).1
      have hlseek : seekHandle (.onFd (.lseek op.args.1 op.args.2) fd) ⟨k, ps, s.files⟩ =
          .ok ((s.files.lseek f op.args.1 op.args.2).2, ⟨k, ps, files⟩) := by
        rw [seekHandle, hslot]
      have hwrite : seekHandle (.onFd (.write .fd) fd) ⟨k, ps, files⟩ =
          .ok (4, ⟨k, ps, files.write f 4⟩) := by
        rw [seekHandle, hslot]
      exact (Prog.exec_call_ok hlseek _).trans (Prog.exec_call_ok hwrite _)

/-- Without places for them no group is searched. -/
theorem fchownNewid_none (stGid : UInt32) (groups : List UInt32) :
    fchownNewid stGid groups false = .ok (-1) := by
  simp only [fchownNewid, callocGids, Bool.false_eq_true, if_false, ite_self]
  rfl

/-- With them, as many zeros as there are groups are. -/
theorem fchownNewid_some (stGid : UInt32) {groups : List UInt32} {n : Nat} (h : groups.length = n) :
    fchownNewid stGid groups true = fchownLoop (List.replicate n 0) stGid (-1) 0 n := by
  subst h
  cases groups with
  | nil => rfl
  | cons g groups =>
    have hpos : getgroups0 (g :: groups) > 0 := Int.natCast_pos.mpr (Nat.succ_pos _)
    have hcount : (getgroups0 (g :: groups)).toNat = (g :: groups).length := rfl
    simp only [fchownNewid, callocGids, if_true, if_pos hpos, hcount]

/-- src/chown/fchown.c behind its `calloc`. -/
theorem fchown_made {w t : World} {c : FdCall} {fd fd' : Int} (stGid : UInt32)
    {groups : List UInt32} {n : Nat} (hgroups : groups.length = n) (newids : Option Nat)
    (h : Prog.Makes handle (.onFd c fd') t (if newids ≠ none then do
        let newid ← liftExec (fchownLoop (List.replicate n 0) stGid (-1) 0 n)
        let _ ← call (.onFd (.fchown (-1) newid) fd)
        call (.free newids)
      else do
        let newid ← pure (-1)
        let _ ← call (.onFd (.fchown (-1) newid) fd)
        call (.free newids) : Op Unit) w) :
    ∃ newid, fchownNewid stGid groups newids.isSome = .ok newid ∧
      c = .fchown (-1) newid ∧ fd' = fd ∧ t = w := by
  have hcall : ∀ newid, Prog.Makes handle (.onFd c fd') t (do
      let _ ← call (.onFd (.fchown (-1) newid) fd)
      call (.free newids) : Op Unit) w → c = .fchown (-1) newid ∧ fd' = fd ∧ t = w := by
    intro newid hm
    cases hm with
    | here => exact ⟨rfl, rfl, rfl⟩
    | later _ hm =>
      cases hm with
      | later _ hm => cases hm
  cases newids with
  | none => exact ⟨-1, fchownNewid_none stGid groups, hcall (-1) h⟩
  | some b =>
    obtain ⟨newid, hloop⟩ := fchownLoop_replicate n stGid
    rw [if_pos (Option.some_ne_none b), hloop] at h
    exact ⟨newid, (fchownNewid_some stGid hgroups).trans hloop, hcall newid h⟩

/-- The group in the buffer behind `fstat`, whether it fails or not. -/
theorem fstat_gid {w w' : World} {fd : Int} {st : Int × Stat}
    (h : handle (.fstat fd) w = .ok (st, w')) : st.2.gid = w.reply.stat.gid ∧ w' = w.asked := by
  have hstat : w.fstat fd = (st, w') := Except.ok.inj h
  unfold World.fstat at hstat
  split at hstat
  · cases hstat
    exact ⟨rfl, rfl⟩
  · cases hstat
    exact ⟨rfl, rfl⟩

theorem chownFchown_ok {k k' : Kernel} {ps ps' : Fdstore} {fd : Int} {fstat : Int → UInt32}
    {groups : List UInt32} {avail : Bool} {newid : UInt32}
    (hget : bstgFdstoreGet kernel k ps = .ok (k', ps', fd))
    (hnewid : fchownNewid (fstat fd) groups avail = .ok newid) :
    chownFchown kernel k ps fstat groups avail = .ok (k', ps', ⟨fd, -1, newid⟩) := by
  rw [chownFchown, hget, exec_bind_ok]
  dsimp only
  rw [hnewid]
  rfl

/-- src/chown/fchown.c is the operation of Fchown.lean: the call of `fchown` that it makes, and the
    process at that call, are those of `chownFchown` for as many groups as the first call of `getgroups`
    gives. -/
theorem srcChownFchown_agrees {w t : World} {c : FdCall} {fd : Int}
    (h : Prog.Makes handle (.onFd c fd) t srcChownFchown w) {groups : List UInt32}
    (hgroups : groups.length = (w.replies.get 1).num) :
    ∃ avail newid, c = .fchown (-1) newid ∧
      chownFchown kernel w.k w.ps (fun _ => (w.replies.get 0).stat.gid) groups avail =
        .ok (t.k, t.ps, ⟨fd, -1, newid⟩) := by
  cases h with
  | @later _ _ fd₀ _ _ hfd h =>
    obtain ⟨k, ps, paths, hget, rfl⟩ := World.get2_inv hfd
    cases h with
    | @later _ _ st _ w₂ hstat h =>
      obtain ⟨hgid, rfl⟩ := fstat_gid hstat
      cases h with
      | @later _ _ n _ w₃ hcount h =>
        cases hcount
        -- what the call says wherever the two branches of the allocation lead
        have hcall : ∀ {newids : Option Nat} {w' : World}, w'.k = k → w'.ps = ps →
            (∃ newid, fchownNewid st.2.gid groups newids.isSome = .ok newid ∧
              c = .fchown (-1) newid ∧ fd = fd₀ ∧ t = w') →
            ∃ avail newid, c = .fchown (-1) newid ∧
              chownFchown kernel w.k w.ps (fun _ => (w.replies.get 0).stat.gid) groups avail =
                .ok (t.k, t.ps, ⟨fd, -1, newid⟩) := by
          intro newids w' hk hps hmade
          obtain ⟨newid, hnewid, hc, rfl, rfl⟩ := hmade
          rw [hgid] at hnewid
          exact ⟨newids.isSome, newid, hc, hk ▸ hps ▸ chownFchown_ok hget hnewid⟩
        by_cases hn : (w.replies.get 1).num > 0
        · have hpos : ((w.replies.get 1).num : Int) > 0 := Int.natCast_pos.mpr hn
          have h : Prog.Makes handle _ t (if ((w.replies.get 1).num : Int) > 0 then _ else _) _ := h
          rw [if_pos hpos] at h
          cases h with
          | later halloc h =>
            have hframed := handle_framed halloc
            exact hcall (hframed.k rfl) (hframed.ps rfl) (fchown_made st.2.gid hgroups _ h)
        · have hpos : ¬ ((w.replies.get 1).num : Int) > 0 := fun h => hn (Int.natCast_pos.mp h)
          have h : Prog.Makes handle _ t (if ((w.replies.get 1).num : Int) > 0 then _ else _) _ := h
          rw [if_neg hpos] at h
          have hmade := fchown_made st.2.gid hgroups none h
          exact hcall rfl rfl hmade

end Fembot
