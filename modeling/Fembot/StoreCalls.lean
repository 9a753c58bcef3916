/-
  File:      Fembot/StoreCalls.lean
  Subject:   Runs of calls on one store, over any system.

  A `StoreCall` is one call of the interface of `src/lib/fdstore.c`, `storeStep` executes it. The
  calls of `bstg_fdstore_set` that happen in a step, directly or inside `bstg_fdstore_get2`, are
  `StoreCall.setCalls`: what the results assume of "each argument of set" they assume of these.
-/
import Fembot.FdstoreSpec
import Fembot.Library.Run

namespace Fembot

/-- A call on the store. -/
inductive StoreCall where
  | init
  | set (fd : Int)
  | get
  | get2 (flags : List OpenFlag)
  | closeall
  | destroy
  deriving DecidableEq, Repr

/-- The system, the store, and what the last call returned. -/
structure StoreState (K : Type) where
  k : K
  ps : Fdstore
  rc : Int

section

variable {K : Type} (sys : Sys K)

/-- What a call does to the system and the store, and what it returns. -/
def StoreCall.exec (k : K) (ps : Fdstore) : StoreCall → Exec (K × Fdstore × Int)
  | .init => .ok (k, bstgFdstoreInit ps)
  | .set fd => bstgFdstoreSet sys k ps fd
  | .get => bstgFdstoreGet sys k ps
  | .get2 flags => bstgFdstoreGet2 sys k ps flags
  | .closeall => bstgFdstoreCloseall sys k ps
  | .destroy => bstgFdstoreDestroy sys k ps

/-- The calls of `bstg_fdstore_set` in a call. -/
def StoreCall.setCalls (k : K) (ps : Fdstore) : StoreCall → List (SetCall K)
  | .set fd => [⟨k, ps, fd⟩]
  | .get => get2SetCalls sys k ps [.O_CREAT]
  | .get2 flags => get2SetCalls sys k ps flags
  | _ => []

/-- One step of a run. -/
def storeStep (s : StoreState K) (c : StoreCall) : Exec (StoreState K) := do
  let (k, ps, rc) ← c.exec sys s.k s.ps
  pure ⟨k, ps, rc⟩

/-- The state `bstg_fdstore_init` leaves, in whatever memory. -/
def storeStart (k : K) (ps : Fdstore) : StoreState K :=
  ⟨k, (bstgFdstoreInit ps).1, (bstgFdstoreInit ps).2⟩

variable {sys}

theorem storeStep_ok {s : StoreState K} {c : StoreCall} {r : K × Fdstore × Int}
    (h : c.exec sys s.k s.ps = .ok r) : storeStep sys s c = .ok ⟨r.1, r.2.1, r.2.2⟩ := by
  rw [storeStep, h]
  rfl

/-- `bstg_fdstore_destroy` on a valid store: as `bstg_fdstore_closeall`, and the magic value goes. -/
theorem destroy_spec {ps : Fdstore} (h : ps.Valid) (k : K) :
    bstgFdstoreDestroy sys k ps =
      .ok ((ps.members.sort (· ≤ ·)).foldl (fun k fd => (sys.close k fd).1) k,
        { (bstgFdstoreReset ps).1 with magic := ~~~BSTG_FDSTORE_MAGIC }, 0) := by
  rw [bstgFdstoreDestroy, closeall_spec h, exec_bind_ok]
  have hrc : ¬ (bstgFdstoreReset ps).2 ≠ 0 := not_not.mpr rfl
  dsimp only
  rw [if_neg hrc, assert_pos (fdstoreReset_valid h).magic]
  rfl

theorem destroy_einval {ps : Fdstore} (h : ps.magic ≠ BSTG_FDSTORE_MAGIC) (k : K) :
    bstgFdstoreDestroy sys k ps = .ok (k, ps, EINVAL) := by
  rw [bstgFdstoreDestroy, closeall_einval h, exec_bind_ok]
  exact if_pos (by decide)

end

end Fembot
