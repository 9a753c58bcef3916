/-
  File:      Fembot/Bits.lean
  Subject:   WHERE THE STORE WRITES BEHIND ITS `fd_set`: an access of `FD_SET` or `FD_ISSET` outside
             of the FD_SETSIZE bits, over runs of any calls on any system.

  * `Fits` -- the exact condition on a call of `bstg_fdstore_set`: its number has a bit, or the store
    is full and its next number can be bound anew;
  * `bits_iff` -- a run stays within the bits exactly when each of its calls of `bstg_fdstore_set`
    fits;
  * `wide_set` -- the first descriptor of a process that may have more than FD_SETSIZE.
-/
import Fembot.Rebinding

namespace Fembot

open Library

/-! ## 1. One call -/

section

variable {K : Type} (sys : Sys K)

/-- The number has a bit; or it is never tracked: the store is full, and `dup2` binds the next number
    to the file. -/
def Fits (sc : SetCall K) : Prop := sc.fd < FD_SETSIZE ∨ Replaces sys sc.k sc.ps sc.fd

/-- A call of `bstg_fdstore_set` goes through if it fits, and else writes behind the `fd_set`. -/
theorem set_fits (k : K) {ps : Fdstore} (h : ps.Valid) (fd : Int) :
    (Fits sys ⟨k, ps, fd⟩ ∧ ∃ r, bstgFdstoreSet sys k ps fd = .ok r) ∨
      (¬ Fits sys ⟨k, ps, fd⟩ ∧ bstgFdstoreSet sys k ps fd = .error (.outOfBounds fd.toNat)) := by
  have hout := set_outcome sys h k fd
  generalize bstgFdstoreSet sys k ps fd = res at hout
  cases hout with
  | replaced hrep => exact .inl ⟨.inr (hrep.replaces h), _, rfl⟩
  | tracked _ _ hfd => exact .inl ⟨.inl hfd.2, _, rfl⟩
  | refused _ hfd =>
    have hsize : FD_SETSIZE = 1024 := rfl
    exact .inl ⟨.inl (show fd < FD_SETSIZE by omega), _, rfl⟩
  | overrun hnot hfd =>
    refine .inr ⟨?_, rfl⟩
    rintro (hlt | hnext)
    · exact absurd hlt (Int.not_lt.mpr hfd)
    · exact hnot.not_replaces h hnext

theorem get2_fits (k : K) {ps : Fdstore} (h : ps.Valid) (flags : List OpenFlag) :
    ((∀ sc ∈ get2SetCalls sys k ps flags, Fits sys sc) ∧
        ∃ r, bstgFdstoreGet2 sys k ps flags = .ok r) ∨
      ((¬ ∀ sc ∈ get2SetCalls sys k ps flags, Fits sys sc) ∧
        ∃ i, bstgFdstoreGet2 sys k ps flags = .error (.outOfBounds i)) := by
  have hout := get2_outcome sys h k flags
  generalize bstgFdstoreGet2 sys k ps flags = res at hout
  generalize get2SetCalls sys k ps flags = scs at hout
  cases hout with
  | found => exact .inl ⟨fun sc hsc => absurd hsc List.not_mem_nil, _, rfl⟩
  | nothing => exact .inl ⟨fun sc hsc => absurd hsc List.not_mem_nil, _, rfl⟩
  | @opened count fd hraw hfound =>
    rw [List.forall_mem_singleton]
    exact (set_fits sys _ (h.probed count) fd).imp_right fun hno => ⟨hno.1, _, hno.2⟩

/-- Each call of `bstg_fdstore_set` in the step fits. -/
def EachFits (s : StoreState K) (c : StoreCall) : Prop :=
  ∀ sc ∈ c.setCalls sys s.k s.ps, Fits sys sc

/-- The step lemma: a call goes through and leaves a valid store if each set in it fits; else it ends
    behind the bits. -/
theorem storeStep_fits {s : StoreState K} (h : s.ps.Valid) {c : StoreCall} (hc : c ≠ .destroy) :
    (EachFits sys s c ∧ ∃ s', storeStep sys s c = .ok s' ∧ s'.ps.Valid) ∨
      (¬ EachFits sys s c ∧ ∃ i, storeStep sys s c = .error (.outOfBounds i)) := by
  have hgood : ∀ r, c.exec sys s.k s.ps = .ok r →
      ∃ s', storeStep sys s c = .ok s' ∧ s'.ps.Valid := by
    intro r hexec
    have hs := storeStep_ok hexec
    exact ⟨_, hs, (storeStep_valid h hs).resolve_right fun hd => hc hd.1⟩
  have hbad : ∀ i, c.exec sys s.k s.ps = .error (.outOfBounds i) →
      storeStep sys s c = .error (.outOfBounds i) := by
    intro i hexec
    rw [storeStep, hexec, exec_bind_error]
  have hget2 : ∀ flags, c.exec sys s.k s.ps = bstgFdstoreGet2 sys s.k s.ps flags →
      c.setCalls sys s.k s.ps = get2SetCalls sys s.k s.ps flags →
      (EachFits sys s c ∧ ∃ s', storeStep sys s c = .ok s' ∧ s'.ps.Valid) ∨
        (¬ EachFits sys s c ∧ ∃ i, storeStep sys s c = .error (.outOfBounds i)) := by
    intro flags hexec hcalls
    unfold EachFits
    rw [hcalls]
    rcases get2_fits sys s.k h flags with ⟨hfits, r, hget⟩ | ⟨hno, i, hget⟩
    · exact .inl ⟨hfits, hgood r (hexec.trans hget)⟩
    · exact .inr ⟨hno, i, hbad i (hexec.trans hget)⟩
  have hnone : c.setCalls sys s.k s.ps = [] → EachFits sys s c := by
    intro hnil sc hsc
    rw [hnil] at hsc
    exact absurd hsc List.not_mem_nil
  cases c with
  | init => exact .inl ⟨hnone rfl, hgood _ rfl⟩
  | set fd =>
    have heach : EachFits sys s (.set fd) ↔ Fits sys ⟨s.k, s.ps, fd⟩ := List.forall_mem_singleton
    rw [heach]
    rcases set_fits sys s.k h fd with ⟨hfits, r, hset⟩ | ⟨hno, hset⟩
    · exact .inl ⟨hfits, hgood r hset⟩
    · exact .inr ⟨hno, _, hbad _ hset⟩
  | get => exact hget2 [.O_CREAT] rfl rfl
  | get2 flags => exact hget2 flags rfl rfl
  | closeall => exact .inl ⟨hnone rfl, hgood _ (closeall_spec h s.k)⟩
  | destroy => exact absurd rfl hc

/-! ## 2. Runs -/

/-- A run of init, set, get, get2 and closeall, over any system: every access of the `fd_set` is to
    one of its bits exactly when each call of `bstg_fdstore_set` the run comes to fits. -/
theorem bits_iff (k : K) (ps : Fdstore) (calls : List StoreCall)
    (hcalls : ∀ c ∈ calls, c ≠ .destroy) :
    (∀ i, run (storeStep sys) (storeStart k ps) calls ≠ .error (.outOfBounds i)) ↔
      EachStep (storeStep sys) (storeStart k ps) calls (EachFits sys) := by
  have hfree : (∀ e, run (storeStep sys) (storeStart k ps) calls = .error e →
      ¬ ∃ i, e = .outOfBounds i) ↔
        EachStep (storeStep sys) (storeStart k ps) calls (EachFits sys) := by
    refine run_free_iff_eachStep (I := fun s => s.ps.Valid) hcalls (fdstoreInit_valid ps) ?_ ?_
    · intro s c hvalid hc hfits
      exact ((storeStep_fits sys hvalid hc).resolve_right fun hno => hno.1 hfits).2
    · intro s c hvalid hc hno
      obtain ⟨-, i, hs⟩ := (storeStep_fits sys hvalid hc).resolve_left fun hfits => hno hfits.1
      exact ⟨_, hs, i, rfl⟩
  rw [← hfree]
  constructor
  · rintro hrun e he ⟨i, rfl⟩
    exact hrun i he
  · intro hrun i he
    exact hrun _ he ⟨i, rfl⟩

end

/-- Two descriptors, and a get. -/
theorem bits_iff_run :
    (∀ i, run (storeStep kernel) start12 [.set 12, .set 5, .get] ≠ .error (.outOfBounds i)) ↔
      EachStep (storeStep kernel) start12 [.set 12, .set 5, .get] (EachFits kernel) :=
  bits_iff kernel (lowTable 13) ⟨0, 0, 0, fdZero⟩ [.set 12, .set 5, .get] (by decide)

/-- A process that may have 2048 descriptors, and has 1025. -/
def wideTable : Kernel := { lowTable 1025 with limit := 2048 }

/-- The failing run: the first descriptor that is set is 1024. It is open, and its bit is none of
    the `fd_set`. -/
theorem wide_set :
    wideTable.IsOpen 1024 ∧ (1024 : Int) < wideTable.limit ∧
      run (storeStep kernel) (storeStart wideTable ⟨0, 0, 0, fdZero⟩) [.set 1024] =
        .error (.outOfBounds 1024) ∧
      ¬ EachStep (storeStep kernel) (storeStart wideTable ⟨0, 0, 0, fdZero⟩) [.set 1024]
        (EachFits kernel) := by
  have hrun : run (storeStep kernel) (storeStart wideTable ⟨0, 0, 0, fdZero⟩) [.set 1024] =
      .error (.outOfBounds 1024) := rfl
  refine ⟨by decide, by decide, hrun, fun heach => ?_⟩
  obtain ⟨hfits, -⟩ := eachStep_cons.mp heach
  rcases hfits _ List.mem_cons_self with hlt | ⟨hmax, -⟩
  · exact absurd hlt (by decide)
  · exact absurd hmax (by decide)

end Fembot
