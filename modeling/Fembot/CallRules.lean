/-
  File:      Fembot/CallRules.lean
  Subject:   What a call of an operation can change, and what can stop it.

  * `Call.group`, `handle_framed` -- calls come in groups, and each leaves as it was what only the
    calls of other groups change;
  * `handle_valid` -- every call but `bstg_fdstore_destroy` keeps the store valid;
  * `StoppedBy`, `handle_stopped` -- what a run can be stopped with, and by which call.
-/
import Fembot.Calls
import Fembot.Probing

namespace Fembot

open Library

/-! ## 1. Groups of calls -/

/-- What a call is about. -/
inductive Group where
  | plain | get | table | store | cwd | memory | block | handler | process | own | undefined
  deriving DecidableEq, Repr

/-- The group of a call: the plain ones change no more than the paths and the replies to come. -/
def Call.group : Call → Group
  | .path | .onFd _ _ | .fstat _ | .onPath _ _ | .sync | .readdirs => .plain
  | .msync _ | .posixMadvise _ _ | .usleep _ | .dlclose | .getgroups0 => .plain
  | .errno => .plain
  | .get2 _ => .get
  | .set _ | .closeall | .openPath _ _ | .openDot | .close _ | .pipe => .table
  | .opendir _ | .fdopendir _ | .closedir _ => .table
  | .fdstoreInit | .fdstoreDestroy => .store
  | .chdir _ | .fchdir _ => .cwd
  | .mmap _ _ _ _ | .munmap _ _ | .memcpy _ _ _ | .mprotect _ _ _ | .memset _ _ => .memory
  | .strdup _ | .malloc _ | .calloc _ | .free _ => .block
  | .signal _ _ | .dlopen _ => .handler
  | .fork | .waitpidNohang _ | .waitpid _ | .waits | .kill _ | .posixSpawn _ | .overflow => .process
  | .preexec | .exit _ | .execve _ | .putenv _ | .sleep _ => .own
  | .fault _ => .undefined

/-- The group of a call that may change the descriptor table or the store. -/
def Group.onTable (g : Group) : Bool := g = .get || g = .table || g = .store || g = .own

/-- The process behind a call of the group `g`: what calls of other groups change is the same. -/
structure Framed (g : Group) (w w' : World) : Prop where
  mem : g ≠ .memory → w'.mem = w.mem
  handlers : g ≠ .handler → w'.handlers = w.handlers
  heap : g ≠ .block → w'.heap = w.heap
  kids : g ≠ .process → w'.kids = w.kids
  child : g ≠ .process → w'.child = w.child
  cwd : g ≠ .cwd → w'.cwd = w.cwd
  k : g.onTable = false → w'.k = w.k
  ps : g.onTable = false → w'.ps = w.ps
  isDir : w'.isDir = w.isDir
  paths : g ≠ .plain → g ≠ .get → w'.paths = w.paths

theorem framed_refl (g : Group) (w : World) : Framed g w w :=
  ⟨fun _ => rfl, fun _ => rfl, fun _ => rfl, fun _ => rfl, fun _ => rfl, fun _ => rfl,
    fun _ => rfl, fun _ => rfl, rfl, fun _ _ => rfl⟩

theorem framed_asked (g : Group) (w : World) : Framed g w w.asked :=
  ⟨fun _ => rfl, fun _ => rfl, fun _ => rfl, fun _ => rfl, fun _ => rfl, fun _ => rfl,
    fun _ => rfl, fun _ => rfl, rfl, fun _ _ => rfl⟩

/-- The table and the store change. -/
theorem framed_table {g : Group} (hg : g.onTable = true) (w : World) (k : Kernel)
    (ps : Fdstore) {paths : Stream' Path} (hpaths : g ≠ .get → paths = w.paths) :
    Framed g w { w with k := k, ps := ps, paths := paths } :=
  ⟨fun _ => rfl, fun _ => rfl, fun _ => rfl, fun _ => rfl, fun _ => rfl, fun _ => rfl,
    fun h => absurd hg (Bool.eq_false_iff.mp h), fun h => absurd hg (Bool.eq_false_iff.mp h), rfl,
    fun _ => hpaths⟩

theorem framed_paths (w : World) (paths : Stream' Path) : Framed .plain w { w with paths := paths } :=
  ⟨fun _ => rfl, fun _ => rfl, fun _ => rfl, fun _ => rfl, fun _ => rfl, fun _ => rfl,
    fun _ => rfl, fun _ => rfl, rfl, fun h => absurd rfl h⟩

theorem framed_cwd (w : World) (f : File) (rs : Stream' Reply) :
    Framed .cwd w { w with cwd := f, replies := rs } :=
  ⟨fun _ => rfl, fun _ => rfl, fun _ => rfl, fun _ => rfl, fun _ => rfl, fun h => absurd rfl h,
    fun _ => rfl, fun _ => rfl, rfl, fun _ _ => rfl⟩

theorem framed_memory (w : World) (m : Memory) (rs : Stream' Reply) :
    Framed .memory w { w with mem := m, replies := rs } :=
  ⟨fun h => absurd rfl h, fun _ => rfl, fun _ => rfl, fun _ => rfl, fun _ => rfl, fun _ => rfl,
    fun _ => rfl, fun _ => rfl, rfl, fun _ _ => rfl⟩

theorem framed_block (w : World) (heap : Finset Nat) (rs : Stream' Reply) :
    Framed .block w { w with heap := heap, replies := rs } :=
  ⟨fun _ => rfl, fun _ => rfl, fun h => absurd rfl h, fun _ => rfl, fun _ => rfl, fun _ => rfl,
    fun _ => rfl, fun _ => rfl, rfl, fun _ _ => rfl⟩

theorem framed_process (w : World) (child : Bool) (kids : Finset Int) (rs : Stream' Reply) :
    Framed .process w { w with child := child, kids := kids, replies := rs } :=
  ⟨fun _ => rfl, fun _ => rfl, fun _ => rfl, fun h => absurd rfl h, fun h => absurd rfl h,
    fun _ => rfl, fun _ => rfl, fun _ => rfl, rfl, fun _ _ => rfl⟩

/-- A call of the functions on the store. -/
theorem store_framed {g : Group} (hg : g.onTable = true) {w w' : World}
    {x : Exec (Kernel × Fdstore × Int)} {rc : Int} {paths : Stream' Path}
    (hpaths : g ≠ .get → paths = w.paths)
    (h : { w with paths := paths }.store x = .ok (rc, w')) : Framed g w w' := by
  cases x with
  | error e => cases h
  | ok t =>
    cases h
    exact framed_table hg w _ _ hpaths

theorem faulted_framed {g : Group} {w w' : World} {r : Unit} (h : w.faulted = .ok (r, w')) :
    Framed g w w' := by
  unfold World.faulted at h
  split at h
  · cases h
    exact framed_asked g w
  · cases h
  · cases h

/-- A call that does no more than consume its reply, where it returns. -/
theorem failed_asked {w w' : World} {raises : WriteSignal → Bool} {r : Int}
    (h : w.failed raises = .ok (r, w')) : w' = w.asked := by
  unfold World.failed at h
  split at h
  · split at h
    · cases h
    · cases h
      rfl
  · cases h
    rfl

theorem onFd_asked {c : FdCall} {fd : Int} {w w' : World} {r : Int}
    (h : handle (.onFd c fd) w = .ok (r, w')) : w' = w.asked := by
  rw [handle, World.onFd] at h
  split at h
  · split at h
    · cases h
      rfl
    · exact failed_asked h
  · cases h
    rfl

theorem onPath_asked {c : PathCall} {path : Path} {w w' : World} {r : Int}
    (h : handle (.onPath c path) w = .ok (r, w')) : w' = w.asked := by
  rw [handle, World.onPath] at h
  split at h
  · cases h
    rfl
  · exact failed_asked h

/-- The process behind a call that always returns. -/
theorem world_eq {α : Type} {x : α × World} {r : α} {w' : World}
    (h : (.ok x : Except ProcessEnd (α × World)) = .ok (r, w')) : w' = x.2 := by
  cases h
  rfl

/-- What a call leaves as it was. -/
theorem handle_framed {c : Call} {w w' : World} {r : c.Ret} (h : handle c w = .ok (r, w')) :
    Framed c.group w w' := by
  cases c with
  | get2 flags => exact store_framed rfl (fun hg => absurd rfl hg) h
  | closeall => exact store_framed (w := w) rfl (fun _ => rfl) h
  | fdstoreDestroy => exact store_framed (w := w) rfl (fun _ => rfl) h
  | set fd =>
    cases hset : w.store (bstgFdstoreSet kernel w.k w.ps fd) with
    | error e =>
      rw [handle, hset] at h
      cases h
    | ok t =>
      rw [handle, hset] at h
      cases h
      exact store_framed (w := w) rfl (fun _ => rfl) hset
  | preexec =>
    rw [handle] at h
    split at h
    · cases h
      exact framed_table rfl w _ _ fun _ => rfl
    · cases h
  | fdstoreInit =>
    cases h
    exact framed_table rfl w w.k _ fun _ => rfl
  | path =>
    cases h
    exact framed_paths w _
  | openPath path flags =>
    cases h
    exact framed_table rfl w _ w.ps fun _ => rfl
  | openDot =>
    cases h
    exact framed_table rfl w _ w.ps fun _ => rfl
  | close fd =>
    cases h
    exact framed_table rfl w _ w.ps fun _ => rfl
  | closedir fd =>
    cases h
    exact framed_table rfl w _ w.ps fun _ => rfl
  | pipe =>
    cases h
    exact framed_table rfl w _ w.ps fun _ => rfl
  | opendir path =>
    cases h
    exact framed_table rfl w _ w.ps fun _ => rfl
  | fdopendir fd =>
    cases h
    exact framed_table rfl w _ w.ps fun _ => rfl
  | chdir path =>
    obtain rfl := world_eq h
    unfold World.chdir
    split
    · exact framed_cwd w _ _
    · exact framed_asked _ w
  | fchdir fd =>
    obtain rfl := world_eq h
    unfold World.fchdir
    split
    · split
      · exact framed_cwd w _ w.replies
      · exact framed_refl _ w
    · exact framed_refl _ w
  | mmap len prot flag fd =>
    obtain rfl := world_eq h
    unfold World.mmap
    dsimp only
    split
    · exact framed_memory w _ _
    · exact framed_asked _ w
  | munmap area len =>
    obtain rfl := world_eq h
    unfold World.munmap
    split
    · exact framed_refl _ w
    · split
      · exact framed_refl _ w
      · exact framed_memory w _ w.replies
  | mprotect area len prot =>
    cases h
    unfold World.mprotect
    split
    · exact framed_refl _ w
    · split
      · exact framed_memory w _ w.replies
      · exact framed_refl _ w
  | memcpy dst src len =>
    rw [handle, World.memcpy] at h
    split at h
    · cases h
      exact framed_asked _ w
    · exact faulted_framed h
  | memset area len =>
    rw [handle, World.memset] at h
    split at h
    · cases h
      exact framed_asked _ w
    · exact faulted_framed h
  | strdup s =>
    obtain rfl := world_eq h
    unfold World.alloc
    split
    · exact framed_block w _ _
    · exact framed_asked _ w
  | malloc s =>
    obtain rfl := world_eq h
    unfold World.alloc
    split
    · exact framed_block w _ _
    · exact framed_asked _ w
  | calloc s =>
    obtain rfl := world_eq h
    unfold World.alloc
    split
    · exact framed_block w _ _
    · exact framed_asked _ w
  | free p =>
    rw [handle] at h
    cases p with
    | none =>
      cases h
      exact framed_refl _ w
    | some b =>
      unfold World.free at h
      dsimp only at h
      split at h
      · cases h
        exact framed_block w _ w.replies
      · cases h
  | signal sig handler =>
    cases h
    exact ⟨fun _ => rfl, fun h => absurd rfl h, fun _ => rfl, fun _ => rfl, fun _ => rfl,
      fun _ => rfl, fun _ => rfl, fun _ => rfl, rfl, fun _ _ => rfl⟩
  | dlopen path =>
    rw [handle, World.dlopen] at h
    split at h
    · cases h
      exact framed_asked _ w
    · split at h
      · cases h
      · cases h
        exact framed_asked _ w
      · cases h
  | fork =>
    obtain rfl := world_eq h
    unfold World.fork
    split
    · split
      · exact framed_process w _ _ _
      · split
        · exact framed_asked _ w
        · exact framed_process w w.child _ _
    · exact framed_asked _ w
  | waitpidNohang pid =>
    obtain rfl := world_eq h
    unfold World.waitpidNohang
    split
    · split
      · exact framed_process w w.child _ _
      · exact framed_asked _ w
    · exact framed_asked _ w
  | waitpid pid =>
    obtain rfl := world_eq h
    unfold World.waitpid
    split
    · split
      · exact framed_process w w.child _ _
      · exact framed_asked _ w
    · exact framed_asked _ w
  | waits =>
    cases h
    exact framed_process w w.child _ w.replies
  | posixSpawn path =>
    cases h
    unfold World.posixSpawn
    split
    · exact framed_process w w.child _ _
    · exact framed_asked _ w
  | execve path =>
    rw [handle] at h
    split at h
    · cases h
    · cases h
      exact framed_asked _ w
  | fstat fd =>
    obtain rfl := world_eq h
    unfold World.fstat
    split
    · exact framed_asked _ w
    · exact framed_asked _ w
  | exit code => cases h
  | fault e => cases h
  | overflow => cases h
  | onFd _ _ =>
    obtain rfl := onFd_asked h
    exact framed_asked _ w
  | onPath _ _ =>
    obtain rfl := onPath_asked h
    exact framed_asked _ w
  | getgroups0 | errno =>
    cases h
    exact framed_asked _ w
  | sync | readdirs | msync _ | posixMadvise _ _ | kill _ | usleep _ | sleep _ | dlclose | putenv _ =>
    cases h
    exact framed_refl _ w

/-! ## 2. The store -/

theorem World.store_inv {w w' : World} {x : Exec (Kernel × Fdstore × Int)} {rc : Int}
    (h : w.store x = .ok (rc, w')) :
    ∃ k ps, x = .ok (k, ps, rc) ∧ w' = { w with k := k, ps := ps } := by
  cases x with
  | error e => cases h
  | ok t =>
    cases h
    exact ⟨t.1, t.2.1, rfl, rfl⟩

theorem store_error {w : World} {x : Exec (Kernel × Fdstore × Int)} {e : ProcessEnd}
    (h : w.store x = .error e) : ∃ f, x = .error f ∧ e = .fault f := by
  cases x with
  | ok t => cases h
  | error f =>
    cases h
    exact ⟨f, rfl, rfl⟩

theorem World.get2_inv {w w' : World} {flags : List OpenFlag} {fd : Int}
    (h : handle (.get2 flags) w = .ok (fd, w')) :
    ∃ k ps paths, bstgFdstoreGet2 kernel w.k w.ps flags = .ok (k, ps, fd) ∧
      w' = { w with k := k, ps := ps, paths := paths } := by
  obtain ⟨k, ps, hget, rfl⟩ := World.store_inv h
  exact ⟨k, ps, _, hget, rfl⟩

theorem World.set_inv {w w' : World} {fd : Int} {r : Unit} (h : handle (.set fd) w = .ok (r, w')) :
    ∃ k ps rc, bstgFdstoreSet kernel w.k w.ps fd = .ok (k, ps, rc) ∧
      w' = { w with k := k, ps := ps } := by
  cases hset : w.store (bstgFdstoreSet kernel w.k w.ps fd) with
  | error e =>
    rw [handle, hset] at h
    cases h
  | ok t =>
    rw [handle, hset] at h
    obtain rfl := world_eq h
    obtain ⟨k, ps, hx, hw⟩ := World.store_inv hset
    exact ⟨k, ps, _, hx, hw⟩

/-- `bstg_preexec` on a valid store: the tracked descriptors are closed, and the three of the
    standard streams. -/
theorem preexec_spec {ps : Fdstore} (h : ps.Valid) (k : Kernel) :
    bstgPreexec kernel k ps =
      .ok (((ps.members.sort (· ≤ ·)) ++ [0, 1, 2]).foldl (fun k fd => (k.close fd).1) k,
        (bstgFdstoreReset ps).1) := by
  rw [bstgPreexec, closeall_spec h, exec_bind_ok, List.foldl_append]
  rfl

/-- A store that is valid stays so, unless it is destroyed. -/
theorem handle_valid {c : Call} {w w' : World} {r : c.Ret} (hc : c.group ≠ .store)
    (hv : w.ps.Valid) (h : handle c w = .ok (r, w')) : w'.ps.Valid := by
  have same (hg : c.group.onTable = false) : w'.ps.Valid := by
    rw [(handle_framed h).ps hg]
    exact hv
  cases c with
  | get2 flags =>
    obtain ⟨k, ps, paths, hget, rfl⟩ := World.get2_inv h
    exact get2_valid hv hget
  | set fd =>
    obtain ⟨k, ps, rc, hset, rfl⟩ := World.set_inv h
    exact set_valid hv hset
  | closeall =>
    obtain ⟨k, ps, hclose, rfl⟩ := World.store_inv h
    rw [closeall_spec hv] at hclose
    cases hclose
    exact fdstoreReset_valid hv
  | preexec =>
    rw [handle, preexec_spec hv] at h
    cases h
    exact fdstoreReset_valid hv
  | fdstoreInit | fdstoreDestroy => exact absurd rfl hc
  | path | openPath _ _ | openDot | close _ | closedir _ | pipe | opendir _ | fdopendir _ =>
    cases h
    exact hv
  | onFd _ _ =>
    obtain rfl := onFd_asked h
    exact hv
  | onPath _ _ =>
    obtain rfl := onPath_asked h
    exact hv
  | getgroups0 | errno | sync | readdirs | msync _ | posixMadvise _ _ =>
    cases h
    exact hv
  | usleep _ | sleep _ | dlclose | putenv _ =>
    cases h
    exact hv
  | fstat fd =>
    obtain rfl := world_eq h
    unfold World.fstat
    split
    · exact hv
    · exact hv
  | execve path =>
    rw [handle] at h
    split at h
    · cases h
    · cases h
      exact hv
  | exit code => cases h
  | _ => exact same rfl

theorem set_error {K : Type} {sys : Sys K} {k : K} {ps : Fdstore} {fd : Int} {f : Fault}
    (h : ps.Valid) (hset : bstgFdstoreSet sys k ps fd = .error f) :
    FD_SETSIZE ≤ fd ∧ f = .outOfBounds fd.toNat := by
  have hout := set_outcome sys h k fd
  rw [hset] at hout
  cases hout with
  | overrun _ hfd => exact ⟨hfd, rfl⟩

theorem get2_error {K : Type} {sys : Sys K} {k : K} {ps : Fdstore} {flags : List OpenFlag}
    {f : Fault} (h : ps.Valid) (hget : bstgFdstoreGet2 sys k ps flags = .error f) :
    ∃ fd : Int, FD_SETSIZE ≤ fd ∧ f = .outOfBounds fd.toNat := by
  have hout := get2_outcome sys h k flags
  generalize get2SetCalls sys k ps flags = scs at hout
  generalize bstgFdstoreGet2 sys k ps flags = res at hout hget
  subst hget
  generalize hres : (Except.error f : Exec (K × Fdstore × Int)) = res at hout
  cases hout with
  | found => cases hres
  | opened =>
    obtain ⟨hfd, rfl⟩ := set_error (h.probed _) hres.symm
    exact ⟨_, hfd, rfl⟩
  | nothing => cases hres

/-- The call is one of the functions on the store. -/
def Call.OnStore : Call → Prop
  | .get2 _ | .set _ | .closeall | .preexec | .fdstoreDestroy => True
  | _ => False

/-- A function on a valid store stops a run only where a descriptor has no bit. -/
theorem handle_outOfBounds {c : Call} {w : World} {e : ProcessEnd} (hc : c.OnStore) (hv : w.ps.Valid)
    (h : handle c w = .error e) : ∃ fd : Int, FD_SETSIZE ≤ fd ∧ e = .fault (.outOfBounds fd.toNat) := by
  cases c with
  | get2 flags =>
    obtain ⟨f, hget, rfl⟩ := store_error h
    obtain ⟨fd, hfd, rfl⟩ := get2_error hv hget
    exact ⟨fd, hfd, rfl⟩
  | set fd =>
    cases hset : w.store (bstgFdstoreSet kernel w.k w.ps fd) with
    | ok t =>
      rw [handle, hset] at h
      cases h
    | error e' =>
      rw [handle, hset] at h
      cases h
      obtain ⟨f, hx, rfl⟩ := store_error hset
      obtain ⟨hfd, rfl⟩ := set_error hv hx
      exact ⟨fd, hfd, rfl⟩
  | closeall =>
    rw [handle, closeall_spec hv] at h
    cases h
  | preexec =>
    rw [handle, preexec_spec hv] at h
    cases h
  | fdstoreDestroy =>
    rw [handle, destroy_spec hv] at h
    cases h
  | _ => exact hc.elim

/-! ## 3. What stops a run -/

/-- The call may fault. -/
def Call.Faulting : Call → Prop
  | .memcpy _ _ _ | .memset _ _ | .dlopen _ => True
  | _ => False

/-- The call may raise the signal in the process. -/
def Call.Raises (w : World) (sig : WriteSignal) : Call → Prop
  | .onFd c fd => w.k.IsOpen fd ∧ c.raises sig = true
  | .onPath c _ => c.raises sig = true
  | _ => False

/-- What a call can stop the run of a process with. -/
inductive StoppedBy (w : World) : Call → ProcessEnd → Prop
  | store {c : Call} (e : Fault) (h : c.OnStore) : StoppedBy w c (.fault e)
  | undefined (e : Fault) : StoppedBy w (.fault e) (.fault e)
  | overflow : StoppedBy w .overflow .overflow
  | exit (code : Int) : StoppedBy w (.exit code) (.exited code)
  | execve (path : Path) : StoppedBy w (.execve path) (.execed path)
  | signalled {c : Call} {sig : Signal} (h : c.Faulting) (hsig : w.handlers sig = .bstgSignalx) :
      StoppedBy w c (.exited sig.number)
  | killed {c : Call} {sig : Signal} (h : c.Faulting) (hsig : w.handlers sig = .SIG_DFL) :
      StoppedBy w c (.killed sig)
  | writeKilled {c : Call} {sig : WriteSignal} (h : c.Raises w sig) : StoppedBy w c (.writeKilled sig)
  | free {b : Nat} (h : b ∉ w.heap) : StoppedBy w (.free (some b)) .badFree

theorem store_stopped {w w' : World} {c : Call} (hc : c.OnStore)
    {x : Exec (Kernel × Fdstore × Int)} {e : ProcessEnd} (h : w'.store x = .error e) : StoppedBy w c e := by
  obtain ⟨f, -, rfl⟩ := store_error h
  exact .store f hc

theorem faulted_stopped {w : World} {c : Call} (hc : c.Faulting) {e : ProcessEnd}
    (h : w.faulted = .error e) : StoppedBy w c e := by
  unfold World.faulted at h
  split at h
  · cases h
  · rename_i hsig
    cases h
    exact .signalled hc hsig
  · rename_i hsig
    cases h
    exact .killed hc hsig

theorem failed_stopped {w : World} {raises : WriteSignal → Bool} {e : ProcessEnd}
    (h : w.failed raises = .error e) : ∃ sig, raises sig = true ∧ e = .writeKilled sig := by
  unfold World.failed at h
  split at h
  · split at h
    · rename_i hraises
      cases h
      exact ⟨_, hraises, rfl⟩
    · cases h
  · cases h

theorem handle_stopped {c : Call} {w : World} {e : ProcessEnd} (h : handle c w = .error e) :
    StoppedBy w c e := by
  cases c with
  | get2 flags => exact store_stopped (c := .get2 flags) trivial h
  | closeall => exact store_stopped (c := .closeall) trivial h
  | fdstoreDestroy => exact store_stopped (c := .fdstoreDestroy) trivial h
  | set fd =>
    cases hset : w.store (bstgFdstoreSet kernel w.k w.ps fd) with
    | error e' =>
      rw [handle, hset] at h
      cases h
      exact store_stopped (c := .set fd) trivial hset
    | ok t =>
      rw [handle, hset] at h
      cases h
  | preexec =>
    rw [handle] at h
    split at h
    · cases h
    · cases h
      exact .store _ trivial
  | memcpy dst src len =>
    rw [handle, World.memcpy] at h
    split at h
    · cases h
    · exact faulted_stopped (c := .memcpy dst src len) trivial h
  | memset area len =>
    rw [handle, World.memset] at h
    split at h
    · cases h
    · exact faulted_stopped (c := .memset area len) trivial h
  | dlopen path =>
    rw [handle, World.dlopen] at h
    split at h
    · cases h
    · split at h
      · rename_i hsig
        cases h
        exact .killed trivial hsig
      · cases h
      · rename_i hsig
        cases h
        exact .signalled trivial hsig
  | free p =>
    rw [handle] at h
    cases p with
    | none => cases h
    | some b =>
      unfold World.free at h
      dsimp only at h
      split at h
      · cases h
      · rename_i hb
        cases h
        exact .free hb
  | onFd c fd =>
    rw [handle, World.onFd] at h
    split at h
    · rename_i hopen
      split at h
      · cases h
      · obtain ⟨sig, hraises, rfl⟩ := failed_stopped h
        exact .writeKilled (c := .onFd c fd) ⟨hopen, hraises⟩
    · cases h
  | onPath c path =>
    rw [handle, World.onPath] at h
    split at h
    · cases h
    · obtain ⟨sig, hraises, rfl⟩ := failed_stopped h
      exact .writeKilled (c := .onPath c path) hraises
  | execve path =>
    rw [handle] at h
    split at h
    · cases h
      exact .execve path
    · cases h
  | exit code =>
    cases h
    exact .exit code
  | fault e' =>
    cases h
    exact .undefined e'
  | overflow =>
    cases h
    exact .overflow
  | _ => cases h

/-- The call is of one of the groups. -/
def Call.In (gs : List Group) (c : Call) : Prop := gs.contains c.group = true

theorem Call.In.mono {gs gs' : List Group} (hgs : (gs.all fun g => gs'.contains g) = true) {c : Call}
    (h : Call.In gs c) : Call.In gs' c :=
  List.all_eq_true.mp hgs c.group (List.contains_iff_mem.mp h)

/-- The call is plain, or one of `bstg_fdstore_get2`. -/
def Plain : Call → Prop := Call.In [.plain, .get]

end Fembot
