/-
  File:      Fembot/Calls.lean
  Subject:   The calls that the operations of the pool make, and what each does to the process.

  An operation is a program (Library/Program.lean) that makes calls of the library of fembot, of
  the C library and of the system. `Call` lists them, `Call.Ret` is what each returns, and `handle`
  is the process under them: a `World` of descriptors, mapped pages, allocated blocks, signal
  handlers and children. What is decided outside about a call is the `Reply` it consumes.

  * `fork` answers twice in C; here it answers once, and an answer of 0 makes the process the child;
  * `_exit`, `execve` that succeeds and a signal that nothing handles stop the run with a `ProcessEnd`:
    SIGBUS and SIGSEGV of a fault, for which operations set handlers, and SIGPIPE and SIGXFSZ of a
    write, for which none does.
-/
import Fembot.Pool
import Fembot.Library.Program
import Mathlib.Data.Finset.Basic

namespace Fembot

open Library

/-! ## 1. What the calls are about -/

/-- A path name. -/
abbrev Path := List Char

/-- `PROT_READ`, and `PROT_READ|PROT_WRITE`. -/
inductive Prot where
  | PROT_READ | PROT_WRITE
  deriving DecidableEq, Repr

/-- The flags of a mapping. -/
inductive MapFlag where
  | MAP_PRIVATE | MAP_SHARED | MAP_ANON
  deriving DecidableEq, Repr

/-- The protection of each mapped page. -/
abbrev Memory := Nat → Option Prot

/-- The memory with the `n` pages from `b` on set. -/
def Memory.put (m : Memory) (b n : Nat) (prot : Option Prot) : Memory :=
  fun p => if b ≤ p ∧ p < b + n then prot else m p

/-- The number of pages that `len` bytes take. -/
def pages (len : Nat) : Nat := (len + 4095) / 4096

/-- The start of a mapping, by its page; `none` is `MAP_FAILED`. -/
abbrev Area := Option Nat

namespace Memory

variable (m : Memory)

/-- The `n` pages from `b` on are not mapped. -/
def Free (b n : Nat) : Prop := ∀ i < n, m (b + i) = none

/-- Every page of `len` bytes from `area` on is mapped. -/
def Readable : Area → Nat → Prop
  | none, len => len = 0
  | some b, len => ∀ i < pages len, (m (b + i)).isSome

/-- Every page of `len` bytes from `area` on may be written. -/
def Writable : Area → Nat → Prop
  | none, len => len = 0
  | some b, len => ∀ i < pages len, m (b + i) = some .PROT_WRITE

instance (b n : Nat) : Decidable (m.Free b n) := by unfold Free; infer_instance

instance (area : Area) (len : Nat) : Decidable (m.Readable area len) := by
  cases area <;> unfold Readable <;> infer_instance

instance (area : Area) (len : Nat) : Decidable (m.Writable area len) := by
  cases area <;> unfold Writable <;> infer_instance

end Memory

/-- `struct iovec` -/
structure IoVec where
  base : Area
  len : Nat
  deriving DecidableEq, Repr

/-- `bstg_funcs_t`, but for its store. -/
structure Funcs where
  magic : UInt32
  verbose : Int
  pattern : IoVec
  buffer : IoVec
  deriving DecidableEq, Repr

/-- The signals of a fault, for which the operations set handlers. -/
inductive Signal where
  | SIGBUS | SIGSEGV
  deriving DecidableEq, Repr

/-- The numbers of the signals. -/
def Signal.number : Signal → Int
  | .SIGBUS => 10
  | .SIGSEGV => 11

/-- What a signal is set to: `bstg_signalj` jumps back, `bstg_signalx` exits. -/
inductive Handler where
  | SIG_DFL | bstgSignalj | bstgSignalx
  deriving DecidableEq, Repr

/-- The signals of a write: to a pipe whose other end is closed, and beyond the limit on the size of a
    file. Nothing handles, blocks or ignores them. -/
inductive WriteSignal where
  | SIGPIPE | SIGXFSZ
  deriving DecidableEq, Repr

/-- The two fields of `struct stat` that the operations read. -/
structure Stat where
  size : Int
  gid : UInt32
  deriving DecidableEq, Repr, Inhabited

/-- The bytes a write takes: the pattern, a text, the number of a descriptor, or the bytes that are
    mapped at `base` in copyexe. -/
inductive Data where
  | pattern
  | text (s : List Char)
  | fd
  | base (size : Nat)
  deriving DecidableEq, Repr

/-- What is called on a descriptor that neither opens nor closes one. -/
inductive FdCall where
  | read | readv
  | write (d : Data) | writev (d : Data)
  | pwrite (d : Data) (offset : Int) | pwritev (d : Data) (offset : Int)
  | ftruncate (length : Int)
  | lseek (offset whence : Int)
  | fchmod (mode : Nat) | fchown (owner group : UInt32) | futimes
  | fsync | tcdrain | fpathconf | fstatvfs | ttyname | devname
  | sendfile (s : Int)
  | fcntl
  deriving DecidableEq, Repr

/-- What is called on one path or on two. -/
inductive PathCall where
  | access | eaccess | statvfs | pathconf | lpathconf | readlink | realpath
  | mkdir (mode : Nat) | mkfifo (mode : Nat)
  | truncate (length : Int)
  | unlink | remove | rmdir | utimes | lutimes | unmount
  | link (path2 : Path) | rename (path2 : Path)
  | symlink (target : List Char)
  deriving DecidableEq, Repr

/-- The signals that a call on a descriptor may raise. -/
def FdCall.raises : FdCall → WriteSignal → Bool
  | .write _, _ | .writev _, _ | .sendfile _, _ => true
  | .pwrite _ _, sig | .pwritev _ _, sig | .ftruncate _, sig => sig = .SIGXFSZ
  | _, _ => false

/-- The signals that a call on a path may raise. -/
def PathCall.raises : PathCall → WriteSignal → Bool
  | .truncate _, sig => sig = .SIGXFSZ
  | _, _ => false

/-! ## 2. Calls -/

inductive Call where
  /-- `bstg_fdstore_get2`, `bstg_fdstore_set`, `bstg_fdstore_closeall` and `bstg_preexec` -/
  | get2 (flags : List OpenFlag) | set (fd : Int) | closeall | preexec
  /-- `bstg_fdstore_init` and `bstg_fdstore_destroy` -/
  | fdstoreInit | fdstoreDestroy
  /-- `bstg_pathstore_get` -/
  | path
  | onFd (c : FdCall) (fd : Int)
  | fstat (fd : Int)
  | onPath (c : PathCall) (path : Path)
  | sync
  | openPath (path : Path) (flags : List OpenFlag) | openDot
  | close (fd : Int) | pipe
  | opendir (path : Path) | fdopendir (fd : Int) | readdirs | closedir (fd : Int)
  | chdir (path : Path) | fchdir (fd : Int)
  | mmap (len : Nat) (prot : Prot) (flag : MapFlag) (fd : Option Int)
  | munmap (area : Area) (len : Nat) | memcpy (dst src : Area) (len : Nat)
  | mprotect (area : Area) (len : Nat) (prot : Prot) | memset (area : Area) (len : Nat)
  | msync (area : Area) | posixMadvise (area : Area) (len : Nat)
  | strdup (s : List Char) | malloc (size : Nat) | calloc (n : Nat) | free (p : Option Nat)
  | signal (sig : Signal) (handler : Handler)
  | fork | exit (code : Int) | execve (path : Path)
  /-- `waitpid` with `WNOHANG` and without, and `wait` until there is no child -/
  | waitpidNohang (pid : Int) | waitpid (pid : Int) | waits
  | kill (pid : Int) | usleep (usec : Nat) | sleep (sec : Nat)
  | posixSpawn (path : Path) | dlopen (path : Path) | dlclose | putenv (s : List Char)
  | getgroups0
  /-- the value of `errno` behind a call that failed -/
  | errno
  /-- the end of the model: what C gives no meaning to -/
  | fault (e : Fault) | overflow
  deriving DecidableEq, Repr

/-- What a call returns. -/
@[reducible] def Call.Ret : Call → Type
  | .get2 _ | .onFd _ _ | .onPath _ _ | .openPath _ _ | .openDot | .close _ | .closeall => Int
  | .chdir _ | .fchdir _ | .munmap _ _ | .fdstoreInit | .fdstoreDestroy | .errno => Int
  | .fork | .execve _ | .waitpidNohang _ | .waitpid _ | .getgroups0 => Int
  | .path => Path
  | .fstat _ => Int × Stat
  | .pipe => Option (Int × Int)
  | .opendir _ => Option Int
  | .fdopendir _ | .dlopen _ => Bool
  | .mmap _ _ _ _ => Area
  | .strdup _ | .malloc _ | .calloc _ => Option Nat
  | .exit _ | .fault _ | .overflow => Empty
  | _ => Unit

/-- An operation, or a part of one. -/
abbrev Op (α : Type) := Prog Call Call.Ret α

/-- The program of one call. -/
def call (c : Call) : Op c.Ret := Prog.ask c

/-! ## 3. The process -/

/-- What is decided outside about one call: whether it succeeds, a number it gives, and what a
    `struct stat` holds behind it. -/
structure Reply where
  ok : Bool
  num : Nat
  stat : Stat
  deriving Inhabited

/-- The signal of a fault, if there is one. -/
def Reply.signal (r : Reply) : Signal := if r.num = 0 then .SIGBUS else .SIGSEGV

/-- The signal of a write that fails, if there is one. -/
def Reply.writeSignal (r : Reply) : Option WriteSignal :=
  match r.num with
  | 1 => some .SIGPIPE
  | 2 => some .SIGXFSZ
  | _ => none

/-- A process: its descriptors and its store, the directory it works in, its mapped pages, its
    allocated blocks, its signal handlers, whether it is the child of a `fork` of its own, and its
    children that are not reaped; the paths that `bstg_pathstore_get` is going to give, and the
    replies to the calls to come. `isDir` tells the open files that are directories. -/
structure World where
  k : Kernel
  ps : Fdstore
  cwd : File
  isDir : File → Bool
  mem : Memory
  heap : Finset Nat
  handlers : Signal → Handler
  child : Bool
  kids : Finset Int
  paths : Stream' Path
  replies : Stream' Reply

/-- How the run of a process ends before its program does. -/
inductive ProcessEnd where
  | fault (e : Fault)
  | exited (code : Int)
  | execed (path : Path)
  | killed (sig : Signal)
  | writeKilled (sig : WriteSignal)
  | badFree
  | overflow
  deriving DecidableEq, Repr

/-- No signal has a handler of the operations. -/
def defaultHandlers : Signal → Handler := fun _ => .SIG_DFL

namespace World

/-- A process as `main` finds it: 0, 1 and 2 are open, on the file 0, which is the directory too, the
    store is initialised, and nothing is mapped, allocated, handled or forked. -/
def started (answers : Stream' Answer) (paths : Stream' Path) (replies : Stream' Reply) : World where
  k :=
    { slot := fun fd => if 0 ≤ fd ∧ fd ≤ 2 then some 0 else none
      nonneg := fun fd h => if_neg fun hc => by omega
      limit := 1024
      answers := answers }
  ps := (bstgFdstoreInit ⟨0, 0, 0, fdZero⟩).1
  cwd := 0
  isDir f := f = 0
  mem _ := none
  heap := ∅
  handlers := defaultHandlers
  child := false
  kids := ∅
  paths := paths
  replies := replies

variable (w : World)

/-- The process behind a call that consumed its reply. -/
def asked : World := { w with replies := w.replies.tail }

/-- The reply to the next call. -/
def reply : Reply := w.replies.head

/-! ### Memory -/

/-- `mmap`: where it succeeds, pages that were free are mapped. -/
def mmap (len : Nat) (prot : Prot) (fd : Option Int) : Area × World :=
  let b := w.reply.num
  if w.reply.ok ∧ len ≠ 0 ∧ w.mem.Free b (pages len) ∧ ∀ n ∈ fd, w.k.IsOpen n then
    (some b, { w.asked with mem := w.mem.put b (pages len) (some prot) })
  else (none, w.asked)

/-- `munmap`: the pages that hold one of the bytes are no longer mapped. -/
def munmap (area : Area) (len : Nat) : Int × World :=
  match area with
  | none => (-1, w)
  | some b => if len = 0 then (-1, w) else (0, { w with mem := w.mem.put b (pages len) none })

/-- `mprotect`, of pages that are mapped. -/
def mprotect (area : Area) (len : Nat) (prot : Prot) : World :=
  match area with
  | none => w
  | some b =>
    if w.mem.Readable (some b) len then
      { w with mem := w.mem.put b (pages len) (some prot) }
    else w

/-- A fault comes to the handler of its signal, from where `bstg_signalj` leads back behind what
    faulted. -/
def faulted : Except ProcessEnd (Unit × World) :=
  match w.handlers w.reply.signal with
  | .bstgSignalj => .ok ((), w.asked)
  | .bstgSignalx => .error (.exited w.reply.signal.number)
  | .SIG_DFL => .error (.killed w.reply.signal)

/-- `memcpy`: a copy beyond what is mapped faults, and so can one from or to a mapped file that is
    shorter. -/
def memcpy (dst src : Area) (len : Nat) : Except ProcessEnd (Unit × World) :=
  if w.reply.ok ∧ w.mem.Writable dst len ∧ w.mem.Readable src len then .ok ((), w.asked) else w.faulted

/-- `memset`, of memory that is no file's. -/
def memset (area : Area) (len : Nat) : Except ProcessEnd (Unit × World) :=
  if w.mem.Writable area len then .ok ((), w.asked) else w.faulted

/-! ### Blocks -/

/-- `malloc` and its like: a block that was not allocated, or `none`. -/
def alloc : Option Nat × World :=
  if w.reply.ok ∧ w.reply.num ∉ w.heap then
    (some w.reply.num, { w.asked with heap := insert w.reply.num w.heap })
  else (none, w.asked)

/-- `free` -/
def free : Option Nat → Except ProcessEnd (Unit × World)
  | none => .ok ((), w)
  | some b => if b ∈ w.heap then .ok ((), { w with heap := w.heap.erase b }) else .error .badFree

/-! ### Children -/

/-- `fork`: the process goes on as the parent, with the child's number, or as the child, with 0. -/
def fork : Int × World :=
  if w.reply.ok then
    if w.reply.num = 0 then (0, { w.asked with child := true, kids := ∅ })
    else if (w.reply.num : Int) ∈ w.kids then (-1, w.asked)
    else (w.reply.num, { w.asked with kids := insert (w.reply.num : Int) w.kids })
  else (-1, w.asked)

/-- `waitpid` with `WNOHANG`: the number of a child that has ended, which is then reaped, 0 for one
    that has not, -1 for a process that is no child. -/
def waitpidNohang (pid : Int) : Int × World :=
  if pid ∈ w.kids then
    if w.reply.ok then (pid, { w.asked with kids := w.kids.erase pid }) else (0, w.asked)
  else (-1, w.asked)

/-- `waitpid` without a flag waits for the child to end, unless a signal that is handled comes
    between. -/
def waitpid (pid : Int) : Int × World :=
  if pid ∈ w.kids then
    if w.reply.ok ∨ w.handlers .SIGBUS = .SIG_DFL ∧ w.handlers .SIGSEGV = .SIG_DFL then
      (pid, { w.asked with kids := w.kids.erase pid })
    else (-1, w.asked)
  else (-1, w.asked)

/-- `posix_spawn` -/
def posixSpawn : World :=
  if w.reply.ok then { w.asked with kids := insert (w.reply.num : Int) w.kids } else w.asked

/-! ### Descriptors -/

/-- A call of the functions on the store, which may be undefined. -/
def store (r : Exec (Kernel × Fdstore × Int)) : Except ProcessEnd (Int × World) :=
  match r with
  | .ok (k, ps, rc) => .ok (rc, { w with k := k, ps := ps })
  | .error e => .error (.fault e)

/-- The calls of `bstg_pathstore_get` in a call of `bstg_fdstore_get2`. -/
def get2Paths (flags : List OpenFlag) : Nat :=
  match bstgFdstoreGetraw w.ps with
  | .ok (_, fd) => if fd > 0 then 0 else (openTries kernel flags omodes w.k).results.length
  | .error _ => 0

/-- `bstg_fdstore_get2` -/
def get2 (flags : List OpenFlag) : Except ProcessEnd (Int × World) :=
  { w with paths := w.paths.drop (w.get2Paths flags) }.store (bstgFdstoreGet2 kernel w.k w.ps flags)

/-- `open` of a file. -/
def openPath : Int × World := (w.k.openFile.2, { w with k := w.k.openFile.1 })

/-- `open` of the directory the process works in. -/
def openDot : Int × World :=
  let k := { w.k with answers := Stream'.cons ⟨w.k.answers.head.ok, w.cwd⟩ w.k.answers.tail }
  (k.openFile.2, { w with k := k.openFile.1 })

/-- `opendir`: the descriptor under the stream. -/
def opendir : Option Int × World :=
  (if w.openPath.1 = -1 then none else some w.openPath.1, w.openPath.2)

/-- `chdir`: the path may be that of a directory. -/
def chdir : Int × World :=
  if w.reply.ok ∧ w.isDir w.reply.num then (0, { w.asked with cwd := w.reply.num })
  else (-1, w.asked)

/-- `fchdir`: the descriptor must be that of a directory. -/
def fchdir (fd : Int) : Int × World :=
  match w.k.slot fd with
  | some f => if w.isDir f then (0, { w with cwd := f }) else (-1, w)
  | none => (-1, w)

/-- `fstat`: a failing call leaves in the buffer what it held. -/
def fstat (fd : Int) : (Int × Stat) × World :=
  if w.reply.ok ∧ w.k.IsOpen fd then ((0, { w.reply.stat with size := w.reply.stat.size.natAbs }), w.asked)
  else ((-1, w.reply.stat), w.asked)

/-- A call that fails, unless it raises the signal of its reply. -/
def failed (raises : WriteSignal → Bool) : Except ProcessEnd (Int × World) :=
  match w.reply.writeSignal with
  | some sig => if raises sig then .error (.writeKilled sig) else .ok (-1, w.asked)
  | none => .ok (-1, w.asked)

/-- A call on a descriptor that changes neither the table nor the store. -/
def onFd (c : FdCall) (fd : Int) : Except ProcessEnd (Int × World) :=
  if w.k.IsOpen fd then
    if w.reply.ok then .ok (w.reply.num, w.asked) else w.failed c.raises
  else .ok (-1, w.asked)

/-- A call on a path. -/
def onPath (c : PathCall) : Except ProcessEnd (Int × World) :=
  if w.reply.ok then .ok (w.reply.num, w.asked) else w.failed c.raises

/-- `dlopen`: the functions of the library may fault. -/
def dlopen : Except ProcessEnd (Bool × World) :=
  if w.reply.ok then .ok (w.reply.num ≠ 0, w.asked)
  else
    match w.handlers w.reply.signal with
    | .SIG_DFL => .error (.killed w.reply.signal)
    | .bstgSignalj => .ok (false, w.asked)
    | .bstgSignalx => .error (.exited w.reply.signal.number)

end World

/-! ## 4. The handler -/

/-- What a call does to a process. -/
def handle : (c : Call) → World → Except ProcessEnd (c.Ret × World)
  | .get2 flags, w => w.get2 flags
  | .set fd, w => (w.store (bstgFdstoreSet kernel w.k w.ps fd)).map fun r => ((), r.2)
  | .closeall, w => w.store (bstgFdstoreCloseall kernel w.k w.ps)
  | .preexec, w =>
    match bstgPreexec kernel w.k w.ps with
    | .ok (k, ps) => .ok ((), { w with k := k, ps := ps })
    | .error e => .error (.fault e)
  | .path, w => .ok (w.paths.head, { w with paths := w.paths.tail })
  | .fdstoreInit, w => .ok ((bstgFdstoreInit w.ps).2, { w with ps := (bstgFdstoreInit w.ps).1 })
  | .fdstoreDestroy, w => w.store (bstgFdstoreDestroy kernel w.k w.ps)
  | .onFd c fd, w => w.onFd c fd
  | .fstat fd, w => .ok (w.fstat fd)
  | .onPath c _, w => w.onPath c
  | .sync, w => .ok ((), w)
  | .openPath _ _, w => .ok w.openPath
  | .openDot, w => .ok w.openDot
  | .close fd, w => .ok ((w.k.close fd).2, { w with k := (w.k.close fd).1 })
  | .pipe, w => .ok (w.k.pipe.2, { w with k := w.k.pipe.1 })
  | .opendir _, w => .ok w.opendir
  | .fdopendir fd, w => .ok ((w.k.fdopendir fd).2, { w with k := (w.k.fdopendir fd).1 })
  | .readdirs, w => .ok ((), w)
  | .closedir fd, w => .ok ((), { w with k := (w.k.close fd).1 })
  | .chdir _, w => .ok w.chdir
  | .fchdir fd, w => .ok (w.fchdir fd)
  | .mmap len prot _ fd, w => .ok (w.mmap len prot fd)
  | .munmap area len, w => .ok (w.munmap area len)
  | .memcpy dst src len, w => w.memcpy dst src len
  | .mprotect area len prot, w => .ok ((), w.mprotect area len prot)
  | .memset area len, w => w.memset area len
  | .msync _, w => .ok ((), w)
  | .posixMadvise _ _, w => .ok ((), w)
  | .strdup _, w => .ok w.alloc
  | .malloc _, w => .ok w.alloc
  | .calloc _, w => .ok w.alloc
  | .free p, w => w.free p
  | .signal sig handler, w =>
    .ok ((), { w with handlers := Function.update w.handlers sig handler })
  | .fork, w => .ok w.fork
  | .exit code, _ => .error (.exited code)
  | .execve path, w => if w.reply.ok then .error (.execed path) else .ok (-1, w.asked)
  | .waitpidNohang pid, w => .ok (w.waitpidNohang pid)
  | .waitpid pid, w => .ok (w.waitpid pid)
  | .waits, w => .ok ((), { w with kids := ∅ })
  | .kill _, w => .ok ((), w)
  | .usleep _, w => .ok ((), w)
  | .sleep _, w => .ok ((), w)
  | .posixSpawn _, w => .ok ((), w.posixSpawn)
  | .dlopen _, w => w.dlopen
  | .dlclose, w => .ok ((), w)
  | .putenv _, w => .ok ((), w)
  | .getgroups0, w => .ok (w.reply.num, w.asked)
  | .errno, w => .ok (w.reply.num + 1, w.asked)
  | .fault e, _ => .error (.fault e)
  | .overflow, _ => .error .overflow

end Fembot
