/-
  File:      Fembot/Operations.lean
  Subject:   THE OPERATIONS OF THE POOL (`src/funcs`), each as the program of its file, and the table
             `bstg_fembot_funcs` of the 102 that `list.txt` names.

  The operations stand under the names of their files. Those that differ in one call or in a number
  only are one program with a parameter: `onGet`, `onStat`, `seekWrite`, `onPathGet`, `openAndSet`,
  `copyexe`. `#ifdef` parts are those of FreeBSD.

  * `bstgWaitpidOp` -- the loop of `src/lib/bstg_waitpid.c`, as a program;
  * `generatedFunc` -- the function that `mkfuncs.sh` puts around an operation;
  * `operations`, `opStep` -- the table, and what dispatching at an index of it does to a process.
-/
import Fembot.Calls
import Fembot.Fchown
import Fembot.FuncTable
import Fembot.Lseek
import Fembot.Waitpid

namespace Fembot

open Library

/-! ## 1. Shared parts -/

/-- `bstg_fdstore_get` -/
def get : Op Int := call (.get2 [.O_CREAT])

/-- `_exit` -/
def exit {α : Type} (code : Int) : Op α := do
  let e ← call (.exit code)
  nomatch e

/-- A computation that may have no meaning. -/
def liftExec {α : Type} : Exec α → Op α
  | .ok a => pure a
  | .error e => do
    let e ← call (.fault e)
    nomatch e

/-- `dirname` of a path. -/
def dirname (path : Path) : Path :=
  let component := (path.reverse.dropWhile (· = '/')).dropWhile (· ≠ '/')
  let dir := component.dropWhile (· = '/')
  if dir = [] then if path.head? = some '/' then ['/'] else ['.'] else dir.reverse

/-- `snprintf` of a text into `len` bytes. -/
def snprintf (len : Nat) (text : List Char) : List Char := text.take (len - 1)

/-- The rounds of `bstg_waitpid` that are left before `count` overflows. -/
def waitpidOp (childpid ticks : Int) : Nat → Nat → Op Int
  | 0, _ => do
    let e ← call .overflow
    nomatch e
  | rounds + 1, count => do
    if (count : Int) > ticks then call (.kill childpid)
    let rc ← call (.waitpidNohang childpid)
    if rc = childpid then pure childpid
    else do
      call (.usleep 250000)
      waitpidOp childpid ticks rounds (count + 1)

/-- `bstg_waitpid`, whose status the operations do not look at. -/
def bstgWaitpidOp (childpid ticks : Int) : Op Int := waitpidOp childpid ticks (INT_MAX + 1) 0

/-- A descriptor is taken from the store and one call made on it. -/
def onGet (c : FdCall) : Op Unit := do
  let fd ← get
  let _ ← call (.onFd c fd)

/-- The same, with the size of the file at hand. -/
def onStat (c : Int → FdCall) : Op Unit := do
  let fd ← get
  let st ← call (.fstat fd)
  let _ ← call (.onFd (c st.2.size) fd)

/-- The offset is set, and the number of the descriptor written. -/
def seekWrite (op : SeekOp) : Op Unit := do
  let fd ← get
  let _ ← call (.onFd (.lseek op.args.1 op.args.2) fd)
  let _ ← call (.onFd (.write .fd) fd)

/-- A call on a path. -/
def onPathGet (c : PathCall) : Op Unit := do
  let path ← call .path
  let _ ← call (.onPath c path)

/-- A call on two paths. -/
def onTwoPaths (c : Path → PathCall) : Op Unit := do
  let path ← call .path
  let path2 ← call .path
  let _ ← call (.onPath (c path2) path)

/-- A file is opened and its descriptor given to the store. -/
def openAndSet (flags : List OpenFlag) : Op Unit := do
  let path ← call .path
  let fd ← call (.openPath path flags)
  call (.set fd)

/-- A copy that a fault in a mapped file leads out of. -/
def guardedCopy (dst src : Area) (len : Nat) : Op Unit := do
  -- sigsetjmp, and the branch in which it returns 0
  call (.signal .SIGBUS .bstgSignalj)
  call (.signal .SIGSEGV .bstgSignalj)
  call (.memcpy dst src len)
  -- where siglongjmp comes to as well
  call (.signal .SIGBUS .SIG_DFL)
  call (.signal .SIGSEGV .SIG_DFL)

/-- The script that the three mkscript operations write. -/
def script (path : Path) : List Char := "#!".toList ++ path ++ "\nexit 1\n".toList

/-! ## 2. `special` -/

section

variable (basedir : Path) (pf : Funcs)

/-- `copyexe.c` and `copyexe2.c`: the file under a descriptor becomes a copy of `/true`. -/
def copyexe (flags : List OpenFlag) : Op Unit := do
  let fd ← call (.openPath (basedir ++ "/true".toList) [.O_RDONLY, .O_NONBLOCK, .O_NOCTTY])
  let (base, size) ←
    if fd > 0 then do
      let st ← call (.fstat fd)
      let size := st.2.size.toNat
      if st.1 = 0 then do
        let base ← call (.mmap size .PROT_READ .MAP_PRIVATE (some fd))
        pure (base, size)
      else pure (none, size)
    else pure (none, 0)
  let _ ← call (.close fd)
  if base ≠ none then do
    let fd ← call (.get2 flags)
    call (.posixMadvise base size)
    let _ ← call (.onFd (.ftruncate 0) fd)
    let _ ← call (.onFd (.pwrite (.base size) 0) fd)
    let _ ← call (.munmap base size)

def specialCopyexe : Op Unit := copyexe basedir []

def specialCopyexe2 : Op Unit := copyexe basedir [.O_CREAT]

def specialExec : Op Unit := do
  let token ← call .path
  let childpid ← call .fork
  if childpid > 0 then do
    -- parent should busywait for the child to terminate
    let _ ← bstgWaitpidOp childpid 60
  else if childpid = 0 then do
    call .preexec
    let _ ← call (.execve token)
    exit 1

def specialGcore : Op Unit := do
  -- create a child for the gcore target
  let sleepchild ← call .fork
  if sleepchild = 0 then do
    call (.sleep 30)
    exit 1
  else if sleepchild > 0 then do
    let _ ← call .path
    let gcorechild ← call .fork
    if gcorechild > 0 then do
      let _ ← bstgWaitpidOp gcorechild 60
    else if gcorechild = 0 then do
      call .preexec
      let _ ← call (.execve "/usr/bin/gcore".toList)
      exit 1
    call (.kill sleepchild)
    let _ ← call (.waitpid sleepchild)

/-- A variable of the environment, if there is memory for it. -/
def putenvBuf (name value : List Char) : Op Unit := do
  let len := 25 + value.length
  let buf ← call (.malloc len)
  if buf ≠ none then call (.putenv (snprintf len (name ++ '=' :: value)))

def specialLdlibrarypath : Op Unit := do
  let token ← call .path
  let path ← call .path
  let dup ← call (.strdup path)
  let libpath := if dup = none then ['.'] else dirname path
  let childpid ← call .fork
  if childpid > 0 then do
    let _ ← bstgWaitpidOp childpid 60
  else if childpid = 0 then do
    putenvBuf "LD_LIBRARY_PATH".toList libpath
    call (.putenv "LD_PRELOAD=libfembotisnothere.so.13".toList)
    call .preexec
    let _ ← call (.execve token)
    exit 1

def specialLdpreload : Op Unit := do
  let token ← call .path
  let preload ← call .path
  let childpid ← call .fork
  if childpid > 0 then do
    let _ ← bstgWaitpidOp childpid 60
  else if childpid = 0 then do
    putenvBuf "LD_PRELOAD".toList preload
    call .preexec
    let _ ← call (.execve token)
    exit 1

def specialMkhashbang : Op Unit := do
  let path ← call .path
  let fd ← call (.get2 [])
  let _ ← call (.onFd (.ftruncate 0) fd)
  let _ ← call (.onFd (.pwritev (.text (script path)) 0) fd)

def specialMkhashbang2 : Op Unit := do
  let path ← call .path
  let fd ← get
  let _ ← call (.onFd (.ftruncate path.length) fd)
  let _ ← call (.onFd (.pwritev (.text (script path)) 0) fd)

def specialMove : Op Unit := do
  let path ← call .path
  let orig ← call (.strdup path)
  if orig ≠ none then do
    let src := dirname path
    let dst := basedir ++ "/tmp".toList
    let rc ← call (.onPath (.rename dst) src)
    if rc = 0 then do
      let _ ← call (.onPath (.rename src) dst)
    call (.free orig)

def specialPosixSpawn : Op Unit := do
  let token ← call .path
  let child ← call .fork
  if child > 0 then do
    let _ ← call (.waitpid child)
  else if child = 0 then do
    call (.posixSpawn token)
    call .waits
    exit 0

/-! ## 3. `src` -/

def srcAccessAccess : Op Unit := onPathGet .access
def srcAccessEaccess : Op Unit := onPathGet .eaccess

def srcChdirChdir : Op Unit := do
  let cwdfd ← call .openDot
  if cwdfd > 0 then do
    let path ← call .path
    let _ ← call (.chdir path)
    let _ ← call (.fchdir cwdfd)
    let _ ← call (.close cwdfd)

def srcChdirFchdir : Op Unit := do
  let cwdfd ← call .openDot
  if cwdfd > 0 then do
    let fd ← get
    let _ ← call (.fchdir fd)
    let _ ← call (.fchdir cwdfd)
    let _ ← call (.close cwdfd)

def srcChmodFchmod0770 : Op Unit := onGet (.fchmod 0o7777)
def srcChmodFchmod07770 : Op Unit := onGet (.fchmod 0o770)

def srcChownFchown : Op Unit := do
  let fd ← get
  let st ← call (.fstat fd)
  -- get the current supplementary group list
  let groupids ← call .getgroups0
  let newids ← if groupids > 0 then call (.calloc groupids.toNat) else pure none
  let newid ←
    if newids ≠ none then
      liftExec (fchownLoop (List.replicate groupids.toNat 0) st.2.gid (-1) 0 groupids.toNat)
    else pure (-1)
  let _ ← call (.onFd (.fchown (-1) newid) fd)
  call (.free newids)

def srcCloseCloseall : Op Unit := do
  let _ ← call .closeall

def srcDevnameDevname : Op Unit := onGet .devname

def srcDlopenDlopen : Op Unit := do
  let mypath ← call .path
  let child ← call .fork
  if child > 0 then do
    let _ ← bstgWaitpidOp child 30
  else if child = 0 then do
    call (.signal .SIGBUS .bstgSignalx)
    call (.signal .SIGSEGV .bstgSignalx)
    let handle ← call (.dlopen mypath)
    if handle then call .dlclose
    call (.signal .SIGBUS .SIG_DFL)
    call (.signal .SIGSEGV .SIG_DFL)
    exit 1

def srcLinkLink : Op Unit := onTwoPaths .link

def srcLseekCur0 : Op Unit := seekWrite .cur0
def srcLseekCur1 : Op Unit := seekWrite .cur1
def srcLseekCur16k : Op Unit := seekWrite .cur16k
def srcLseekCur1m : Op Unit := seekWrite .cur1m
def srcLseekEnd0 : Op Unit := seekWrite .end0
def srcLseekEnd1 : Op Unit := seekWrite .end1
def srcLseekEnd16k : Op Unit := seekWrite .end16k
def srcLseekEnd1m : Op Unit := seekWrite .end1m
def srcLseekSet0 : Op Unit := seekWrite .set0
def srcLseekSet1 : Op Unit := seekWrite .set1
def srcLseekSet16k : Op Unit := seekWrite .set16k
def srcLseekSet1m : Op Unit := seekWrite .set1m

def srcMkdirMkdir : Op Unit := onPathGet (.mkdir 0x777)
def srcMkfifoMkfifo : Op Unit := onPathGet (.mkfifo 0x777)

/-- The size of the file of a descriptor, or 512 where `fstat` fails. -/
def sizeOr512 (fd : Int) : Op Nat := do
  let st ← call (.fstat fd)
  pure (if st.1 = 0 then st.2.size.toNat else 512)

/-- `ar.c` and `cp.c`: a mapped file is copied to the buffer. -/
def mapAndRead (flag : MapFlag) : Op Unit := do
  let fd ← get
  let size ← sizeOr512 fd
  let area ← call (.mmap size .PROT_READ flag (some fd))
  guardedCopy pf.buffer.base area (min size pf.buffer.len)
  let _ ← call (.munmap area size)

def srcMmapAr : Op Unit := mapAndRead pf .MAP_PRIVATE
def srcMmapCp : Op Unit := mapAndRead pf .MAP_SHARED

def srcMmapFile : Op Unit := do
  let fd ← get
  let size ← sizeOr512 fd
  let area ← call (.mmap pf.pattern.len .PROT_WRITE .MAP_PRIVATE (some fd))
  guardedCopy area pf.pattern.base (min size pf.pattern.len)
  let _ ← call (.munmap area pf.buffer.len)

def srcMmapStatd : Op Unit := do
  let fd ← get
  let size ← sizeOr512 fd
  let area ← call (.mmap pf.pattern.len .PROT_WRITE .MAP_SHARED (some fd))
  guardedCopy area pf.pattern.base (min size pf.pattern.len)
  call (.msync area)
  let _ ← call (.munmap area pf.buffer.len)

def srcOpenAppend : Op Unit :=
  openAndSet [.O_RDWR, .O_NONBLOCK, .O_CREAT, .O_NOCTTY, .O_APPEND]
def srcOpenAppendtrunc : Op Unit :=
  openAndSet [.O_RDWR, .O_NONBLOCK, .O_CREAT, .O_NOCTTY, .O_TRUNC, .O_APPEND]
def srcOpenOsync : Op Unit := openAndSet [.O_RDWR, .O_NONBLOCK, .O_CREAT, .O_NOCTTY, .O_SYNC]
def srcOpenRdwr : Op Unit := openAndSet [.O_RDWR, .O_NONBLOCK, .O_CREAT, .O_NOCTTY]
def srcOpenTrunc : Op Unit := openAndSet [.O_RDWR, .O_NONBLOCK, .O_CREAT, .O_NOCTTY, .O_TRUNC]

def srcOpendirFdopendir : Op Unit := do
  let fd ← get
  let dirp ← call (.fdopendir fd)
  if dirp then call (.closedir fd)

def srcOpendirOpendir : Op Unit := do
  let path ← call .path
  let dirp ← call (.opendir path)
  match dirp with
  | some fd => call (.closedir fd)
  | none => pure ()

def srcOpendirReaddir : Op Unit := do
  let path ← call .path
  let dup ← call (.strdup path)
  if dup ≠ none then do
    let dirp ← call (.opendir (dirname path))
    match dirp with
    | some fd =>
      call .readdirs
      call (.closedir fd)
    | none => pure ()
    call (.free dup)

def srcPathconfFpathconf : Op Unit := onGet .fpathconf
def srcPathconfLpathconf : Op Unit := onPathGet .lpathconf
def srcPathconfPathconf : Op Unit := onPathGet .pathconf

/-- The rounds of the loop of `pipe.c`: the end becomes non-blocking and is given to the store. -/
def pipeEnd (pfd : Int) : Op Unit := do
  let val ← call (.onFd .fcntl pfd)
  if val ≥ 0 then do
    let _ ← call (.onFd .fcntl pfd)
  call (.set pfd)

def srcPipePipe : Op Unit := do
  let ends ← call .pipe
  match ends with
  | some (pfd0, pfd1) =>
    pipeEnd pfd0
    pipeEnd pfd1
  | none => pure ()

def srcReadRead : Op Unit := onGet .read
def srcReadReadv : Op Unit := onGet .readv
def srcReadlinkReadlink : Op Unit := onPathGet .readlink
def srcRealpathRealpath : Op Unit := onPathGet .realpath
def srcRenameRename : Op Unit := onTwoPaths .rename
def srcRmdirRmdir : Op Unit := onPathGet .rmdir

def srcSendfileSendfile : Op Unit := do
  let fd ← get
  let s ← get
  let _ ← call (.onFd (.sendfile s) fd)

def srcStatvfsFstatvfs : Op Unit := onGet .fstatvfs
def srcStatvfsStatvfs : Op Unit := onPathGet .statvfs
/-- The source fills a buffer of 1024 bytes with 'x' and puts no NUL behind them, so that `symlink` reads
    on; here the target is the 1024 characters. -/
def srcSymlinkBigsymlink : Op Unit := onPathGet (.symlink (List.replicate 1024 'x'))
def srcSymlinkEmptysymlink : Op Unit := onPathGet (.symlink [])
def srcSymlinkSymlink : Op Unit := onTwoPaths .symlink
def srcSyncFsync : Op Unit := onGet .fsync
def srcSyncSync : Op Unit := call .sync

def srcTruncate16k : Op Unit := onGet (.ftruncate 1024)
def srcTruncate1k : Op Unit := onGet (.ftruncate 16384)
def srcTruncate1m : Op Unit := onGet (.ftruncate 1048576)
def srcTruncateMinus16k : Op Unit := onStat fun size => .ftruncate (size - 1024)
def srcTruncateMinus1k : Op Unit := onStat fun size => .ftruncate (size - 16384)
def srcTruncateMinus1m : Op Unit := onStat fun size => .ftruncate (size - 1048576)
def srcTruncateMinusone : Op Unit := onStat fun size => .ftruncate (size - 1)
def srcTruncateOne : Op Unit := onGet (.ftruncate 1)
def srcTruncatePath16k : Op Unit := onPathGet (.truncate 1024)
def srcTruncatePath1k : Op Unit := onPathGet (.truncate 16384)
def srcTruncatePath1m : Op Unit := onPathGet (.truncate 1048576)
def srcTruncatePathone : Op Unit := onPathGet (.truncate 1)
def srcTruncatePathzero : Op Unit := onPathGet (.truncate 0)
def srcTruncatePlus16k : Op Unit := onStat fun size => .ftruncate (size + 1024)
def srcTruncatePlus1k : Op Unit := onStat fun size => .ftruncate (size + 16384)
def srcTruncatePlus1m : Op Unit := onStat fun size => .ftruncate (size + 1048576)
def srcTruncatePlusone : Op Unit := onStat fun size => .ftruncate (size + 1)
def srcTruncatePluszero : Op Unit := onStat fun size => .ftruncate (size + 0)
def srcTruncateZero : Op Unit := onGet (.ftruncate 0)

def srcTtynameTtyname : Op Unit := onGet .ttyname
def srcUmountUmount : Op Unit := onPathGet .unmount
def srcUnlinkRemove : Op Unit := onPathGet .remove
def srcUnlinkUnlink : Op Unit := onPathGet .unlink
def srcUtimesFutimes : Op Unit := onGet .futimes
def srcUtimesLutimes : Op Unit := onPathGet .lutimes
def srcUtimesUtimes : Op Unit := onPathGet .utimes

def srcWriteMinus16k : Op Unit := onStat fun size => .pwritev .pattern (size - 1024)
def srcWriteMinus1k : Op Unit := onStat fun size => .pwritev .pattern (size - 16384)
def srcWriteMinus1m : Op Unit := onStat fun size => .pwritev .pattern (size - 1048576)
def srcWriteMinusone : Op Unit := onStat fun size => .pwritev .pattern (size - 1)

def srcWriteMkscript : Op Unit := do
  let path ← call .path
  let fd ← get
  let _ ← call (.onFd (.pwritev (.text (script path)) 0) fd)

def srcWritePlus16k : Op Unit := onStat fun size => .pwritev .pattern (size + 1024)
def srcWritePlus1k : Op Unit := onStat fun size => .pwritev .pattern (size + 16384)
def srcWritePlus1m : Op Unit := onStat fun size => .pwritev .pattern (size + 1048576)
def srcWritePluszero : Op Unit := onStat fun size => .pwritev .pattern (size + 0)
def srcWriteWrite : Op Unit := onGet (.write .pattern)
def srcWriteWritev : Op Unit := onGet (.writev .pattern)

/-! ## 4. The table -/

/-- `list.txt`, and the operation of each file. -/
def operations : List (String × Op Unit) := [
  ("special/copyexe.c", specialCopyexe basedir),
  ("special/exec.c", specialExec),
  ("special/gcore.c", specialGcore),
  ("special/ldlibrarypath.c", specialLdlibrarypath),
  ("special/ldpreload.c", specialLdpreload),
  ("special/mkhashbang.c", specialMkhashbang),
  ("special/posix_spawn.c", specialPosixSpawn),
  ("src/access/access.c", srcAccessAccess),
  ("src/access/eaccess.c", srcAccessEaccess),
  ("src/close/closeall.c", srcCloseCloseall),
  ("src/devname/devname.c", srcDevnameDevname),
  ("src/dlopen/dlopen.c", srcDlopenDlopen),
  ("src/link/link.c", srcLinkLink),
  ("src/lseek/cur0.c", srcLseekCur0),
  ("src/lseek/cur1.c", srcLseekCur1),
  ("src/lseek/cur16k.c", srcLseekCur16k),
  ("src/lseek/cur1m.c", srcLseekCur1m),
  ("src/lseek/end0.c", srcLseekEnd0),
  ("src/lseek/end1.c", srcLseekEnd1),
  ("src/lseek/end16k.c", srcLseekEnd16k),
  ("src/lseek/end1m.c", srcLseekEnd1m),
  ("src/lseek/set0.c", srcLseekSet0),
  ("src/lseek/set1.c", srcLseekSet1),
  ("src/lseek/set16k.c", srcLseekSet16k),
  ("src/lseek/set1m.c", srcLseekSet1m),
  ("src/mkdir/mkdir.c", srcMkdirMkdir),
  ("src/mkfifo/mkfifo.c", srcMkfifoMkfifo),
  ("src/mmap/ar.c", srcMmapAr pf),
  ("src/mmap/cp.c", srcMmapCp pf),
  ("src/mmap/file.c", srcMmapFile pf),
  ("src/mmap/statd.c", srcMmapStatd pf),
  ("src/open/append.c", srcOpenAppend),
  ("src/open/appendtrunc.c", srcOpenAppendtrunc),
  ("src/open/osync.c", srcOpenOsync),
  ("src/open/rdwr.c", srcOpenRdwr),
  ("src/open/trunc.c", srcOpenTrunc),
  ("src/opendir/fdopendir.c", srcOpendirFdopendir),
  ("src/opendir/opendir.c", srcOpendirOpendir),
  ("src/opendir/readdir.c", srcOpendirReaddir),
  ("src/pathconf/fpathconf.c", srcPathconfFpathconf),
  ("src/pathconf/lpathconf.c", srcPathconfLpathconf),
  ("src/pathconf/pathconf.c", srcPathconfPathconf),
  ("src/pipe/pipe.c", srcPipePipe),
  ("src/read/read.c", srcReadRead),
  ("src/read/readv.c", srcReadReadv),
  ("src/readlink/readlink.c", srcReadlinkReadlink),
  ("src/realpath/realpath.c", srcRealpathRealpath),
  ("src/rename/rename.c", srcRenameRename),
  ("src/rmdir/rmdir.c", srcRmdirRmdir),
  ("src/sendfile/sendfile.c", srcSendfileSendfile),
  ("src/statvfs/fstatvfs.c", srcStatvfsFstatvfs),
  ("src/statvfs/statvfs.c", srcStatvfsStatvfs),
  ("src/symlink/bigsymlink.c", srcSymlinkBigsymlink),
  ("src/symlink/emptysymlink.c", srcSymlinkEmptysymlink),
  ("src/symlink/symlink.c", srcSymlinkSymlink),
  ("src/sync/fsync.c", srcSyncFsync),
  ("src/sync/sync.c", srcSyncSync),
  ("src/truncate/16k.c", srcTruncate16k),
  ("src/truncate/1k.c", srcTruncate1k),
  ("src/truncate/1m.c", srcTruncate1m),
  ("src/truncate/minus16k.c", srcTruncateMinus16k),
  ("src/truncate/minus1k.c", srcTruncateMinus1k),
  ("src/truncate/minus1m.c", srcTruncateMinus1m),
  ("src/truncate/minusone.c", srcTruncateMinusone),
  ("src/truncate/one.c", srcTruncateOne),
  ("src/truncate/path16k.c", srcTruncatePath16k),
  ("src/truncate/path1k.c", srcTruncatePath1k),
  ("src/truncate/path1m.c", srcTruncatePath1m),
  ("src/truncate/pathone.c", srcTruncatePathone),
  ("src/truncate/pathzero.c", srcTruncatePathzero),
  ("src/truncate/plus16k.c", srcTruncatePlus16k),
  ("src/truncate/plus1k.c", srcTruncatePlus1k),
  ("src/truncate/plus1m.c", srcTruncatePlus1m),
  ("src/truncate/plusone.c", srcTruncatePlusone),
  ("src/truncate/pluszero.c", srcTruncatePluszero),
  ("src/truncate/zero.c", srcTruncateZero),
  ("src/ttyname/ttyname.c", srcTtynameTtyname),
  ("src/umount/umount.c", srcUmountUmount),
  ("src/unlink/remove.c", srcUnlinkRemove),
  ("src/unlink/unlink.c", srcUnlinkUnlink),
  ("src/utimes/futimes.c", srcUtimesFutimes),
  ("src/utimes/lutimes.c", srcUtimesLutimes),
  ("src/utimes/utimes.c", srcUtimesUtimes),
  ("src/write/minus16k.c", srcWriteMinus16k),
  ("src/write/minus1k.c", srcWriteMinus1k),
  ("src/write/minus1m.c", srcWriteMinus1m),
  ("src/write/minusone.c", srcWriteMinusone),
  ("src/write/mkscript.c", srcWriteMkscript),
  ("src/write/plus16k.c", srcWritePlus16k),
  ("src/write/plus1k.c", srcWritePlus1k),
  ("src/write/plus1m.c", srcWritePlus1m),
  ("src/write/pluszero.c", srcWritePluszero),
  ("src/write/write.c", srcWriteWrite),
  ("src/write/writev.c", srcWriteWritev),
  ("special/copyexe2.c", specialCopyexe2 basedir),
  ("special/mkhashbang2.c", specialMkhashbang2),
  ("special/move.c", specialMove basedir),
  ("src/chown/fchown.c", srcChownFchown),
  ("src/chmod/fchmod0770.c", srcChmodFchmod0770),
  ("src/chmod/fchmod07770.c", srcChmodFchmod07770),
  ("src/chdir/chdir.c", srcChdirChdir),
  ("src/chdir/fchdir.c", srcChdirFchdir)]

/-- The function that `mkfuncs.sh` makes of an operation. -/
def generatedFunc (path : String) (body : Op Unit) : Op Unit := do
  let func := funcIdent (generated path.toList)
  if pf.verbose ≠ 0 then do
    let _ ← call (.onFd (.write (.text (func ++ [Char.ofNat 0]))) 2)
    let _ ← call (.onFd (.write (.text ['\n'])) 2)
    let _ ← call (.onFd .fsync 2)
    let _ ← call (.onFd .tcdrain 2)
    call (.usleep 250)
  body

/-- `(*bstg_fembot_funcs[i]) (&bfs)` -/
def fembotFunc (i : Nat) : Op Unit :=
  match (operations basedir pf)[i]? with
  | some (path, body) => generatedFunc pf path body
  | none => liftExec (.error (.outOfBounds i))

/-- What dispatching at an index does to a process. -/
def opStep (w : World) (i : Nat) : Except ProcessEnd World :=
  ((fembotFunc basedir pf i).exec handle w).map (·.2)

end

end Fembot
