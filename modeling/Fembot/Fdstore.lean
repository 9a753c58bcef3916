/-
  File:      Fembot/Fdstore.lean
  Subject:   The collection of descriptors (`src/lib/fdstore.c`): its functions over any system
             that answers `open`, `dup2` and `close`, and the invariant of its record.

  * `FdSet` -- select's `fd_set`: FD_SETSIZE bits, an access outside of which is a fault;
  * `Sys` -- the system calls the functions make, on a state of their own;
  * `Fdstore`, `bstgFdstoreInit` .. `bstgPreexec` -- the source's record and functions;
  * `Fdstore.Valid` -- the invariant: only positive numbers are tracked, and `max` is the largest
    of them, or -1.
-/
import Fembot.Libc
import Mathlib.Data.Finset.Insert
import Mathlib.Data.Int.Order.Basic

namespace Fembot

/-! ## 1. Descriptor sets and system calls -/

/-- The number of bits of an `fd_set`. -/
def FD_SETSIZE : Int := 1024

/-- The descriptors whose bits are set. -/
structure FdSet where
  members : Finset Int
  inRange : ∀ fd ∈ members, 0 ≤ fd ∧ fd < FD_SETSIZE

/-- `FD_ZERO`. -/
def fdZero : FdSet := ⟨∅, fun _ h => absurd h (Finset.notMem_empty _)⟩

/-- `FD_ISSET`. -/
def fdIsset (fd : Int) (fds : FdSet) : Exec Bool :=
  if 0 ≤ fd ∧ fd < FD_SETSIZE then .ok (fd ∈ fds.members) else .error (.outOfBounds fd.toNat)

/-- `FD_SET`. -/
def fdSet (fd : Int) (fds : FdSet) : Exec FdSet :=
  if h : 0 ≤ fd ∧ fd < FD_SETSIZE then
    .ok ⟨insert fd fds.members, fun n hn => by
      rcases Finset.mem_insert.mp hn with rfl | hn
      · exact h
      · exact fds.inRange n hn⟩
  else .error (.outOfBounds fd.toNat)

/-- The flags the sources hand to `open`. -/
inductive OpenFlag where
  | O_RDONLY | O_WRONLY | O_RDWR | O_NONBLOCK | O_NOCTTY | O_CREAT | O_APPEND | O_TRUNC | O_SYNC
  deriving DecidableEq, Repr

/-- The access mode `src/lib/bstg.h` gives where the system has no such mode. -/
def O_NOACCESS : OpenFlag := .O_RDONLY

/-- The system calls of the store on a state `K`: `openPath` is `open` of the path that
    `bstg_pathstore_get` gives. A call returns the new state and its result, -1 for a failure. -/
structure Sys (K : Type) where
  openPath : K → List OpenFlag → K × Int
  dup2 : K → Int → Int → K × Int
  close : K → Int → K × Int

/-! ## 2. The functions -/

def BSTG_FDSTORE_MAGIC : UInt32 := ~~~0xbeef1238

/-- The `errno` value of an invalid argument. -/
def EINVAL : Int := 22

/-- `bstg_fdstore_t`. `count` is the number of probes since the last reset; the field of the source
    is `unsigned` and holds it modulo 2^32. -/
structure Fdstore where
  max : Int
  magic : UInt32
  count : Nat
  fds : FdSet

/-- `bstg_fdstore_reset`. -/
def bstgFdstoreReset (ps : Fdstore) : Fdstore × Int :=
  ({ ps with max := -1, count := 0, fds := fdZero }, 0)

/-- `bstg_fdstore_init`. -/
def bstgFdstoreInit (ps : Fdstore) : Fdstore × Int :=
  bstgFdstoreReset { ps with magic := BSTG_FDSTORE_MAGIC }

/-- The loop of `bstg_fdstore_getraw`, with the number of tries left. -/
def getrawLoop : Nat → Fdstore → Exec (Fdstore × Int)
  | 0, ps => pure (ps, -1)
  | tries + 1, ps => do
    let fd : Int := (ps.count % 2 ^ 32 % (ps.max + 1).toNat : Nat)
    let ps := { ps with count := ps.count + 1 }
    if ← fdIsset fd ps.fds then pure (ps, fd) else getrawLoop tries ps

/-- `bstg_fdstore_getraw`. -/
def bstgFdstoreGetraw (ps : Fdstore) : Exec (Fdstore × Int) := do
  assert (ps.magic = BSTG_FDSTORE_MAGIC)
  -- make ps->max+1 attempts to find an fd
  getrawLoop (ps.max + 1).toNat ps

/-- The end of `bstg_fdstore_set`: keep track of the highest number, and set the bit. -/
def fdstoreTrack {K : Type} (k : K) (ps : Fdstore) (fd : Int) : Exec (K × Fdstore × Int) :=
  if fd > 0 then do
    let ps := if fd > ps.max then { ps with max := fd } else ps
    let fds ← fdSet fd ps.fds
    pure (k, { ps with fds := fds }, fd)
  else pure (k, ps, fd)

section

variable {K : Type} (sys : Sys K)

/-- The loop of `bstg_fdstore_closeall`: `n` numbers from `curr` on. -/
def closeallLoop (ps : Fdstore) : Nat → Int → K → Exec K
  | 0, _, k => pure k
  | n + 1, curr, k => do
    if ← fdIsset curr ps.fds then closeallLoop ps n (curr + 1) (sys.close k curr).1
    else closeallLoop ps n (curr + 1) k

/-- `bstg_fdstore_closeall`. -/
def bstgFdstoreCloseall (k : K) (ps : Fdstore) : Exec (K × Fdstore × Int) :=
  if ps.magic ≠ BSTG_FDSTORE_MAGIC then pure (k, ps, EINVAL)
  else do
    let k ← closeallLoop sys ps (ps.max + 1).toNat 0 k
    pure (k, bstgFdstoreReset ps)

/-- `bstg_fdstore_destroy`. -/
def bstgFdstoreDestroy (k : K) (ps : Fdstore) : Exec (K × Fdstore × Int) := do
  let (k, ps, rc) ← bstgFdstoreCloseall sys k ps
  if rc ≠ 0 then pure (k, ps, rc)
  else do
    assert (ps.magic = BSTG_FDSTORE_MAGIC)
    pure (k, { ps with magic := ~~~BSTG_FDSTORE_MAGIC }, 0)

/-- `bstg_fdstore_set`. -/
def bstgFdstoreSet (k : K) (ps : Fdstore) (fd : Int) : Exec (K × Fdstore × Int) := do
  assert (ps.magic = BSTG_FDSTORE_MAGIC)
  -- replace an fd if there are too many open already
  if ps.max > 10 then do
    let (ps, newd) ← bstgFdstoreGetraw ps
    if newd > 0 then
      let (k, rc) := sys.dup2 k fd newd
      if rc ≠ -1 then pure (k, ps, newd) else fdstoreTrack k ps fd
    else fdstoreTrack k ps fd
  else fdstoreTrack k ps fd

/-- The access modes `bstg_fdstore_get2` tries in turn. -/
def omodes : List OpenFlag := [.O_RDWR, .O_WRONLY, .O_RDONLY, O_NOACCESS]

/-- The loop of `bstg_fdstore_get2` over the access modes. -/
def openLoop (flags : List OpenFlag) : List OpenFlag → K → Fdstore → Exec (K × Fdstore × Int)
  | [], k, ps => pure (k, ps, -1)
  | omode :: omodes, k, ps =>
    let (k, fd) := sys.openPath k ([omode, .O_NONBLOCK, .O_NOCTTY] ++ flags)
    if fd > 0 then bstgFdstoreSet sys k ps fd else openLoop flags omodes k ps

/-- `bstg_fdstore_get2`. -/
def bstgFdstoreGet2 (k : K) (ps : Fdstore) (flags : List OpenFlag) :
    Exec (K × Fdstore × Int) := do
  let (ps, fd) ← bstgFdstoreGetraw ps
  if fd > 0 then pure (k, ps, fd)
  else openLoop sys flags omodes k ps

/-- `bstg_fdstore_get`. -/
def bstgFdstoreGet (k : K) (ps : Fdstore) : Exec (K × Fdstore × Int) :=
  bstgFdstoreGet2 sys k ps [.O_CREAT]

/-- `bstg_preexec`, but for the resource limits. -/
def bstgPreexec (k : K) (ps : Fdstore) : Exec (K × Fdstore) := do
  let (k, ps, _) ← bstgFdstoreCloseall sys k ps
  let k := (sys.close k 0).1
  let k := (sys.close k 1).1
  let k := (sys.close k 2).1
  pure (k, ps)

end

/-! ## 3. Valid stores -/

/-- The tracked descriptors. -/
def Fdstore.members (ps : Fdstore) : Finset Int := ps.fds.members

/-- The invariant of an initialised store. -/
structure Fdstore.Valid (ps : Fdstore) : Prop where
  magic : ps.magic = BSTG_FDSTORE_MAGIC
  pos : ∀ fd ∈ ps.members, 0 < fd
  le : ∀ fd ∈ ps.members, fd ≤ ps.max
  top : ps.max = -1 ∧ ps.members = ∅ ∨ ps.max ∈ ps.members

/-- The store with another number of probes. -/
def Fdstore.probed (ps : Fdstore) (count : Nat) : Fdstore := { ps with count := count }

@[simp] theorem probed_max (ps : Fdstore) (c : Nat) : (ps.probed c).max = ps.max := rfl
@[simp] theorem probed_members (ps : Fdstore) (c : Nat) : (ps.probed c).members = ps.members := rfl
@[simp] theorem probed_count (ps : Fdstore) (c : Nat) : (ps.probed c).count = c := rfl
@[simp] theorem probed_probed (ps : Fdstore) (c d : Nat) : (ps.probed c).probed d = ps.probed d := rfl

theorem Fdstore.Valid.probed {ps : Fdstore} (h : ps.Valid) (count : Nat) : (ps.probed count).Valid :=
  ⟨h.magic, h.pos, h.le, h.top⟩

/-- The store that tracks `fd` too. -/
def Fdstore.tracking (ps : Fdstore) (fd : Int) (h : 0 ≤ fd ∧ fd < FD_SETSIZE) : Fdstore :=
  { ps with
    max := if fd > ps.max then fd else ps.max
    fds := ⟨insert fd ps.members, fun n hn => by
      rcases Finset.mem_insert.mp hn with rfl | hn
      · exact h
      · exact ps.fds.inRange n hn⟩ }

@[simp] theorem tracking_members (ps : Fdstore) (fd : Int) (h : 0 ≤ fd ∧ fd < FD_SETSIZE) :
    (ps.tracking fd h).members = insert fd ps.members := rfl

@[simp] theorem tracking_count (ps : Fdstore) (fd : Int) (h : 0 ≤ fd ∧ fd < FD_SETSIZE) :
    (ps.tracking fd h).count = ps.count := rfl

theorem tracking_max (ps : Fdstore) (fd : Int) (h : 0 ≤ fd ∧ fd < FD_SETSIZE) :
    (ps.tracking fd h).max = if fd > ps.max then fd else ps.max := rfl

theorem Fdstore.Valid.tracking {ps : Fdstore} (h : ps.Valid) {fd : Int} (hpos : 0 < fd)
    (hfd : 0 ≤ fd ∧ fd < FD_SETSIZE) : (ps.tracking fd hfd).Valid := by
  refine ⟨h.magic, ?_, ?_, ?_⟩
  · intro n hn
    rcases Finset.mem_insert.mp hn with rfl | hn
    · exact hpos
    · exact h.pos n hn
  · intro n hn
    rw [tracking_max]
    rcases Finset.mem_insert.mp hn with rfl | hn
    · split <;> omega
    · have := h.le n hn
      split <;> omega
  · right
    rw [tracking_members, tracking_max]
    by_cases hmax : fd > ps.max
    · rw [if_pos hmax]
      exact Finset.mem_insert_self _ _
    · rw [if_neg hmax]
      rcases h.top with htop | htop
      · omega
      · exact Finset.mem_insert_of_mem htop

theorem Fdstore.Valid.max_lt {ps : Fdstore} (h : ps.Valid) : -1 ≤ ps.max ∧ ps.max < FD_SETSIZE := by
  rcases h.top with htop | htop
  · rw [htop.1]
    exact ⟨Int.le_refl _, by decide⟩
  · have := ps.fds.inRange _ htop
    omega

/-- A store that tracks a descriptor tracks one at `max`. -/
theorem Fdstore.Valid.top_mem {ps : Fdstore} (h : ps.Valid) (hne : ps.members ≠ ∅) :
    ps.max ∈ ps.members := h.top.resolve_left fun htop => hne htop.2

theorem Fdstore.Valid.max_of_empty {ps : Fdstore} (h : ps.Valid) (hnone : ps.members = ∅) :
    ps.max = -1 := by
  rcases h.top with htop | htop
  · exact htop.1
  · rw [hnone] at htop
    exact absurd htop (Finset.notMem_empty _)

/-- Every number up to `max` has a bit. -/
theorem fdIsset_ok {fd : Int} {fds : FdSet} (h0 : 0 ≤ fd) (h1 : fd < FD_SETSIZE) :
    fdIsset fd fds = .ok (decide (fd ∈ fds.members)) := if_pos ⟨h0, h1⟩

theorem fdstoreInit_valid (ps : Fdstore) : (bstgFdstoreInit ps).1.Valid :=
  ⟨rfl, fun _ h => absurd h (Finset.notMem_empty _), fun _ h => absurd h (Finset.notMem_empty _),
    .inl ⟨rfl, rfl⟩⟩

theorem fdstoreReset_valid {ps : Fdstore} (h : ps.Valid) : (bstgFdstoreReset ps).1.Valid :=
  ⟨h.magic, fun _ h => absurd h (Finset.notMem_empty _),
    fun _ h => absurd h (Finset.notMem_empty _), .inl ⟨rfl, rfl⟩⟩

end Fembot
