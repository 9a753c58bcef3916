/-
  File:      Fembot/Rebinding.lean
  Subject:   WHAT `bstg_fdstore_set` DOES TO THE DESCRIPTOR TABLE, for every store that is reached
             and every table.

  * `reached_valid` -- every initialised store that any run of calls reaches is valid;
  * `SetKeeps`, `set_keeps` -- an open descriptor stays what it was, and the number that is
    handed back refers to its file: at most that number is bound anew;
  * `Untouched`, `set_untouched_iff` -- a number that is no descriptor to track: with `max` up to 10
    nothing changes; above, the replacing comes before the test of the number, the counter has
    moved on, and `dup2` was asked to bind a tracked descriptor to it;
  * `stdin_set` -- descriptor 0, offered to a store that tracks 12: 12 is standard input then.
-/
import Fembot.Population
import Fembot.Probing

namespace Fembot

open Library

/-! ## 1. Stores that are reached -/

section

variable {K : Type} {sys : Sys K}

/-- Without the magic value no call but `bstg_fdstore_init` changes the store. -/
theorem storeStep_destroyed {s s' : StoreState K} {c : StoreCall}
    (h : s.ps.magic ≠ BSTG_FDSTORE_MAGIC) (hs : storeStep sys s c = .ok s') :
    s'.ps.Valid ∨ s'.ps = s.ps := by
  obtain ⟨⟨k', ps', r⟩, hexec, hs⟩ := exec_bind_inv hs
  cases hs
  -- set, get and get2 begin with the assertion of the magic value
  have hassert : ∀ {α : Type} {f : Unit → Exec α} {a : α},
      (assert (s.ps.magic = BSTG_FDSTORE_MAGIC) >>= f) ≠ .ok a := by
    intro α f a hf
    rw [assert, if_neg h] at hf
    cases hf
  have hget2 : ∀ flags r, bstgFdstoreGet2 sys s.k s.ps flags ≠ .ok r := by
    intro flags r hf
    obtain ⟨a, hraw, -⟩ := exec_bind_inv hf
    exact hassert hraw
  cases c with
  | init =>
    cases hexec
    exact .inl (fdstoreInit_valid _)
  | set fd => exact absurd hexec hassert
  | get => exact absurd hexec (hget2 _ _)
  | get2 flags => exact absurd hexec (hget2 _ _)
  | closeall =>
    rw [StoreCall.exec, closeall_einval h] at hexec
    cases hexec
    exact .inr rfl
  | destroy =>
    rw [StoreCall.exec, destroy_einval h] at hexec
    cases hexec
    exact .inr rfl

/-- Every initialised store that any calls reach is valid. -/
theorem reached_valid (k : K) (ps : Fdstore) (calls : List StoreCall) :
    Always (storeStep sys) (storeStart k ps) calls fun s =>
      s.ps.magic = BSTG_FDSTORE_MAGIC → s.ps.Valid := by
  have hinv : Always (storeStep sys) (storeStart k ps) calls fun s =>
      s.ps.Valid ∨ s.ps.magic ≠ BSTG_FDSTORE_MAGIC := by
    refine always_of_invariant calls (.inl (fdstoreInit_valid ps)) fun s c s' h hs => ?_
    rcases h with h | h
    · exact (storeStep_valid h hs).imp_right And.right
    · refine (storeStep_destroyed h hs).imp_right fun hps => ?_
      rwa [hps]
  exact hinv.imp fun s h hmagic => h.resolve_right fun hn => hn hmagic

end

/-! ## 2. An open descriptor -/

namespace Kernel

variable {k : Kernel} {fd newd : Int}

/-- A call of `dup2` that succeeds binds its target to the file of its source, and no other. -/
theorem dup2_slot (h : (k.dup2 fd newd).2 ≠ -1) (n : Int) :
    (k.dup2 fd newd).1.slot n = if n = newd then k.slot fd else k.slot n := by
  obtain ⟨-, hnn, hput⟩ := dup2_done h
  rw [hput]
  exact put_slot hnn _ n

/-- A call of `dup2` that fails binds none. -/
theorem dup2_slot_failed (h : (k.dup2 fd newd).2 = -1) (n : Int) :
    (k.dup2 fd newd).1.slot n = k.slot n := by
  rw [dup2_refused h]
  rfl

end Kernel

/-- Replacing that does not come about leaves every binding. -/
theorem NotReplaced.slot {k k' : Kernel} {ps : Fdstore} {fd : Int} {count : Nat}
    (h : NotReplaced kernel k ps fd k' count) (n : Int) : k'.slot n = k.slot n := by
  cases h with
  | small => rfl
  | missed => rfl
  | failed _ _ _ hdup => exact Kernel.dup2_slot_failed hdup n

/-- What the caller of `bstg_fdstore_set` is left with: `r`, which was handed back, is tracked and
    refers to the file of `fd`, which `fd` refers to as before; no other descriptor is bound anew.
    Where `r` is another number it was tracked already, and no number has been added. -/
structure SetKeeps (k : Kernel) (ps : Fdstore) (fd : Int) (k' : Kernel) (ps' : Fdstore) (r : Int) :
    Prop where
  pos : 0 < r
  tracked : r ∈ ps'.members
  file : k'.slot r = k.slot fd
  own : k'.slot fd = k.slot fd
  others : ∀ n, n ≠ r → k'.slot n = k.slot n
  replaced : r ≠ fd → r ∈ ps.members ∧ ps'.members = ps.members ∧ ps'.max = ps.max

/-- Whatever `bstg_fdstore_set` has done for a positive number. -/
theorem set_keeps_of_valid {k k' : Kernel} {ps ps' : Fdstore} {fd r : Int} (h : ps.Valid)
    (hpos : 0 < fd) (hset : bstgFdstoreSet kernel k ps fd = .ok (k', ps', r)) :
    SetKeeps k ps fd k' ps' r := by
  obtain ⟨count, ⟨-, -, hmem, hdup⟩, rfl, rfl⟩ |
    ⟨count, hnot, rfl, ⟨hle, -⟩ | ⟨-, hfd, rfl⟩⟩ := set_inv h hset
  · have hslot := Kernel.dup2_slot hdup
    refine ⟨h.pos r hmem, hmem, (hslot r).trans (if_pos rfl), ?_,
      fun n hn => (hslot n).trans (if_neg hn), fun _ => ⟨hmem, rfl, rfl⟩⟩
    refine (hslot fd).trans ?_
    split <;> rfl
  · omega
  · refine ⟨hpos, ?_, hnot.slot r, hnot.slot r, fun n _ => hnot.slot n, fun hne => absurd rfl hne⟩
    rw [tracking_members]
    exact Finset.mem_insert_self r _

/-- A number with a bit is taken. -/
theorem set_returns {K : Type} (sys : Sys K) {ps : Fdstore} (h : ps.Valid) (k : K) {fd : Int}
    (hfd : fd < FD_SETSIZE) : ∃ k' ps' r, bstgFdstoreSet sys k ps fd = .ok (k', ps', r) := by
  have hout := set_outcome sys h k fd
  generalize bstgFdstoreSet sys k ps fd = res at hout
  cases hout with
  | replaced => exact ⟨_, _, _, rfl⟩
  | tracked => exact ⟨_, _, _, rfl⟩
  | refused => exact ⟨_, _, _, rfl⟩
  | overrun _ hle => omega

/-- In every initialised store reached, over every table: the file of an open descriptor that is
    set stays within reach, under the number that is handed back and under its own. -/
theorem set_keeps {K : Type} (sys : Sys K) (k₀ : K) (ps₀ : Fdstore) (calls : List StoreCall)
    {s : StoreState K} (hrun : run (storeStep sys) (storeStart k₀ ps₀) calls = .ok s)
    (hmagic : s.ps.magic = BSTG_FDSTORE_MAGIC) (k : Kernel) {fd : Int} (hopen : k.IsOpen fd)
    (hpos : 0 < fd) (hfd : fd < FD_SETSIZE) :
    ∃ k' ps' r, bstgFdstoreSet kernel k s.ps fd = .ok (k', ps', r) ∧
      SetKeeps k s.ps fd k' ps' r ∧ k'.IsOpen r ∧ k'.IsOpen fd := by
  have hvalid := (reached_valid k₀ ps₀ calls).final hrun hmagic
  obtain ⟨k', ps', r, hset⟩ := set_returns kernel hvalid k hfd
  have hkeeps := set_keeps_of_valid hvalid hpos hset
  refine ⟨k', ps', r, hset, hkeeps, ?_, ?_⟩
  · rwa [Kernel.IsOpen, hkeeps.file]
  · rwa [Kernel.IsOpen, hkeeps.own]

/-- 12 is tracked, and 5 is set in its place. -/
theorem set_keeps_run : ∃ k' ps' r,
    bstgFdstoreSet kernel tracks12.k tracks12.ps 5 = .ok (k', ps', r) ∧
      SetKeeps tracks12.k tracks12.ps 5 k' ps' r ∧ k'.IsOpen r ∧ k'.IsOpen 5 :=
  set_keeps kernel (lowTable 13) ⟨0, 0, 0, fdZero⟩ [.set 12] (s := tracks12) rfl rfl tracks12.k
    (by decide) (by decide) (by decide)

/-! ## 3. A number that is no descriptor to track -/

/-- `bstg_fdstore_set` returns the number, and changes neither what is tracked, nor `max`, nor the
    counter, nor a binding. -/
def Untouched (k : Kernel) (ps : Fdstore) (fd : Int) : Prop :=
  ∃ k' ps', bstgFdstoreSet kernel k ps fd = .ok (k', ps', fd) ∧ ps'.members = ps.members ∧
    ps'.max = ps.max ∧ ps'.counter = ps.counter ∧ ∀ n, k'.slot n = k.slot n

/-- A scan of at least one place moves the counter on, also modulo 2^32. -/
theorem getraw_moves {ps : Fdstore} (h : ps.Valid) (hring : 0 < ps.ring) {count : Nat} {fd : Int}
    (hraw : bstgFdstoreGetraw ps = .ok (ps.probed count, fd)) :
    (ps.probed count).counter ≠ ps.counter := by
  obtain ⟨n, hn, hle, hcount⟩ : ∃ n, 0 < n ∧ n ≤ ps.ring ∧ count = ps.count + n := by
    obtain ⟨d, hd, -, -, hps, -⟩ | ⟨-, hps, -⟩ := getraw_inv h hraw
    · exact ⟨d + 1, Nat.succ_pos d, hd, congrArg Fdstore.count hps⟩
    · exact ⟨ps.ring, hring, Nat.le_refl _, congrArg Fdstore.count hps⟩
  have hmax := h.max_lt.2
  have hsize : FD_SETSIZE = 1024 := rfl
  unfold Fdstore.counter
  rw [probed_count, hcount]
  unfold Fdstore.ring at hle
  omega

theorem untouched_iff {ps : Fdstore} (h : ps.Valid) (k : Kernel) {fd : Int} (hfd : fd ≤ 0) :
    Untouched k ps fd ↔ ps.max ≤ 10 := by
  constructor
  · rintro ⟨k', ps', hset, -, -, hcounter, -⟩
    by_contra hmax
    -- what is left of the store has been probed
    obtain ⟨count, hprobe, hps | ⟨hpos, -⟩⟩ := set_leaves h hset
    · rcases hprobe with ⟨hsmall, -⟩ | ⟨-, newd, hraw⟩
      · exact hmax hsmall
      · subst hps
        have hring : 0 < ps.ring := by
          unfold Fdstore.ring
          omega
        exact getraw_moves h hring hraw hcounter
    · omega
  · intro hmax
    refine ⟨k, ps, ?_, rfl, rfl, rfl, fun _ => rfl⟩
    rw [bstgFdstoreSet, assert_pos h.magic, exec_bind_ok, if_neg (Int.not_lt.mpr hmax),
      fdstoreTrack_nonpos k ps hfd]

/-- In every initialised store reached, over every table: the -1 of an `open` that failed, and 0,
    leave all as it was exactly where `max` has not come above 10. -/
theorem set_untouched_iff {K : Type} (sys : Sys K) (k₀ : K) (ps₀ : Fdstore)
    (calls : List StoreCall) {s : StoreState K}
    (hrun : run (storeStep sys) (storeStart k₀ ps₀) calls = .ok s)
    (hmagic : s.ps.magic = BSTG_FDSTORE_MAGIC) (k : Kernel) {fd : Int} (hfd : fd ≤ 0) :
    Untouched k s.ps fd ↔ s.ps.max ≤ 10 :=
  untouched_iff ((reached_valid k₀ ps₀ calls).final hrun hmagic) k hfd

/-- The store that tracks 5 alone. -/
def tracks5 : StoreState Kernel := ⟨lowTable 13, start12.ps.tracking 5 (by decide), 5⟩

/-- A failed `open` and descriptor 0, offered to the store that tracks 5, and descriptor 0 to the one
    that tracks 12. -/
theorem set_untouched_iff_run :
    (Untouched tracks5.k tracks5.ps (-1) ↔ tracks5.ps.max ≤ 10) ∧
      (Untouched tracks5.k tracks5.ps 0 ↔ tracks5.ps.max ≤ 10) ∧
      (Untouched tracks12.k tracks12.ps 0 ↔ tracks12.ps.max ≤ 10) :=
  ⟨set_untouched_iff kernel (lowTable 13) ⟨0, 0, 0, fdZero⟩ [.set 5] (s := tracks5) rfl rfl tracks5.k
      (by decide),
    set_untouched_iff kernel (lowTable 13) ⟨0, 0, 0, fdZero⟩ [.set 5] (s := tracks5) rfl rfl tracks5.k
      (by decide),
    set_untouched_iff kernel (lowTable 13) ⟨0, 0, 0, fdZero⟩ [.set 12] (s := tracks12) rfl rfl
      tracks12.k (by decide)⟩

/-- The failing run: 12 is tracked, and 0 is offered. The scan finds 12, and `dup2` binds it to the
    file of descriptor 0, which is handed back under that name. -/
theorem stdin_set :
    run (storeStep kernel) start12 [.set 12] = .ok tracks12 ∧
      bstgFdstoreSet kernel tracks12.k tracks12.ps 0 =
        .ok ((tracks12.k.dup2 0 12).1, tracks12.ps.probed 13, 12) ∧
      tracks12.k.slot 12 = some 12 ∧ (tracks12.k.dup2 0 12).1.slot 12 = tracks12.k.slot 0 ∧
      ¬ Untouched tracks12.k tracks12.ps 0 := by
  refine ⟨rfl, rfl, rfl, rfl, ?_⟩
  rintro ⟨k', ps', hset, -⟩
  have hset' : bstgFdstoreSet kernel tracks12.k tracks12.ps 0 =
      .ok ((tracks12.k.dup2 0 12).1, tracks12.ps.probed 13, 12) := rfl
  have hfd := (Prod.mk.inj (Prod.mk.inj (Except.ok.inj (hset'.symm.trans hset))).2).2
  exact absurd hfd (by decide)

end Fembot
