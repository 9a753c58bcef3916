/-
  File:      Fembot/FdstoreSpec.lean
  Subject:   WHAT THE STORE'S FUNCTIONS DO to a valid store, over any system.

  * `getraw_spec` -- `bstg_fdstore_getraw` hands out a member, or has looked at every place;
    below 2^32 probes it misses only in an empty store (`getraw_found`);
  * `Fdstore.next` -- the tracked number the rotation comes to next;
  * `SetOutcome` -- the four ways a call of `bstg_fdstore_set` ends: a tracked descriptor is
    replaced, the new one is tracked, a number that is not positive is refused, or a number
    without a bit is written behind the `fd_set`;
  * `Get2Outcome` -- the three ways a call of `bstg_fdstore_get2` ends;
  * `closeall_spec` -- the members are closed, each once, in ascending order.

  The modules above argue from these by cases and never unfold the functions.
-/
import Fembot.Fdstore
import Fembot.Library.Cyclic
import Mathlib.Data.Finset.Sort
import Mathlib.Order.ConditionallyCompleteLattice.Basic
import Mathlib.Data.Int.ConditionallyCompleteOrder

namespace Fembot

/-! ## 1. Probing and tracking -/

/-- The number of places `bstg_fdstore_getraw` probes. -/
def Fdstore.ring (ps : Fdstore) : Nat := (ps.max + 1).toNat

/-- The number a probe looks at, `i` probes after the store's last. -/
def Fdstore.probe (ps : Fdstore) (i : Nat) : Int := ((ps.count + i) % 2 ^ 32 % ps.ring : Nat)

theorem probe_inRange {ps : Fdstore} (h : ps.Valid) (hring : 0 < ps.ring) (i : Nat) :
    0 ≤ ps.probe i ∧ ps.probe i ≤ ps.max := by
  have hmod : (ps.count + i) % 2 ^ 32 % ps.ring < ps.ring := Nat.mod_lt _ hring
  have hmax := h.max_lt
  unfold Fdstore.probe
  unfold Fdstore.ring at hmod hring ⊢
  omega

/-- The places are the numbers from 0 to the largest that is tracked. -/
theorem Fdstore.Valid.toNat_lt_ring {ps : Fdstore} (h : ps.Valid) {fd : Int}
    (hmem : fd ∈ ps.members) : fd.toNat < ps.ring := by
  have hle := h.le fd hmem
  have hpos := h.pos fd hmem
  unfold Fdstore.ring
  omega

theorem Fdstore.Valid.toNat_eq {ps : Fdstore} (h : ps.Valid) {fd : Int}
    (hmem : fd ∈ ps.members) : (fd.toNat : Int) = fd :=
  Int.toNat_of_nonneg (Int.le_of_lt (h.pos fd hmem))

/-- A scan within which the counter does not wrap comes to every place, the largest descriptor's
    too. -/
theorem exists_probe_top {ps : Fdstore} (h : ps.Valid) (hne : ps.members ≠ ∅)
    (hfit : ps.count % 2 ^ 32 + ps.ring ≤ 2 ^ 32) : ∃ i < ps.ring, ps.probe i = ps.max := by
  have htop := h.top_mem hne
  obtain ⟨i, hi, hplace⟩ := Library.exists_probe (h.toNat_lt_ring htop) (ps.count % 2 ^ 32)
  have hmod : (ps.count + i) % 2 ^ 32 = ps.count % 2 ^ 32 + i := by omega
  refine ⟨i, hi, ?_⟩
  rw [Fdstore.probe, hmod, hplace, h.toNat_eq htop]

/-- How a scan of `tries` places ends: at the first that is tracked, or behind the last. Only the
    number of probes changes. -/
inductive Scan (ps : Fdstore) (tries : Nat) : Exec (Fdstore × Int) → Prop
  | hit {d : Nat} (hd : d < tries) (hmem : ps.probe d ∈ ps.members)
      (hmiss : ∀ i < d, ps.probe i ∉ ps.members) :
      Scan ps tries (.ok (ps.probed (ps.count + (d + 1)), ps.probe d))
  | miss (hmiss : ∀ i < tries, ps.probe i ∉ ps.members) :
      Scan ps tries (.ok (ps.probed (ps.count + tries), -1))

theorem probe_probed (ps : Fdstore) (d i : Nat) :
    (ps.probed (ps.count + d)).probe i = ps.probe (d + i) := by
  rw [Fdstore.probe, Fdstore.probe, probed_count, Nat.add_assoc]
  rfl

theorem getrawLoop_scan {ps : Fdstore} (h : ps.Valid) {tries : Nat} (htries : tries ≤ ps.ring) :
    Scan ps tries (getrawLoop tries ps) := by
  induction tries generalizing ps with
  | zero => exact .miss fun i hi => absurd hi (Nat.not_lt_zero i)
  | succ tries ih =>
    obtain ⟨h0, h1⟩ := probe_inRange h (by omega) 0
    have hsize := h.max_lt
    have hisset : fdIsset (ps.probe 0) ps.fds = .ok (decide (ps.probe 0 ∈ ps.members)) :=
      fdIsset_ok h0 (by omega)
    have hloop : getrawLoop (tries + 1) ps =
        if ps.probe 0 ∈ ps.members then .ok (ps.probed (ps.count + 1), ps.probe 0)
        else getrawLoop tries (ps.probed (ps.count + 1)) := by
      show (fdIsset (ps.probe 0) ps.fds >>= fun b => if b then
        .ok (ps.probed (ps.count + 1), ps.probe 0) else getrawLoop tries (ps.probed (ps.count + 1)))
        = _
      rw [hisset, exec_bind_ok]
      simp only [decide_eq_true_eq]
    rw [hloop]
    by_cases hmem : ps.probe 0 ∈ ps.members
    · rw [if_pos hmem]
      exact .hit (Nat.succ_pos _) hmem fun i hi => absurd hi (Nat.not_lt_zero i)
    · rw [if_neg hmem]
      -- the places behind the first are those the rest of the loop looks at
      have hfirst : ∀ {n : Nat}, (∀ i < n, (ps.probed (ps.count + 1)).probe i ∉ ps.members) →
          ∀ i < n + 1, ps.probe i ∉ ps.members := by
        intro n hmiss i hi
        cases i with
        | zero => exact hmem
        | succ i =>
          have hnext := hmiss i (Nat.lt_of_succ_lt_succ hi)
          rwa [probe_probed, Nat.add_comm] at hnext
      have hrest := ih (h.probed (ps.count + 1)) (Nat.le_of_succ_le htries)
      generalize getrawLoop tries (ps.probed (ps.count + 1)) = r at hrest
      cases hrest with
      | @hit d hd hmem' hmiss =>
        rw [probe_probed, Nat.add_comm 1 d] at hmem' ⊢
        rw [probed_count, probed_probed, Nat.add_assoc, Nat.add_comm 1 (d + 1)]
        exact .hit (Nat.succ_lt_succ hd) hmem' (hfirst hmiss)
      | miss hmiss =>
        rw [probed_count, probed_probed, Nat.add_assoc, Nat.add_comm 1 tries]
        exact .miss (hfirst hmiss)

theorem getraw_scan {ps : Fdstore} (h : ps.Valid) : Scan ps ps.ring (bstgFdstoreGetraw ps) := by
  rw [bstgFdstoreGetraw, assert_pos h.magic, exec_bind_ok]
  exact getrawLoop_scan h (Nat.le_refl _)

/-- `bstg_fdstore_getraw` hands out a tracked descriptor, or looks at every place and returns -1.
    Only the number of probes changes. -/
theorem getraw_spec {ps : Fdstore} (h : ps.Valid) :
    ∃ n fd, bstgFdstoreGetraw ps = .ok (ps.probed (ps.count + n), fd) ∧ n ≤ ps.ring ∧
      (fd ∈ ps.members ∨ fd = -1 ∧ n = ps.ring ∧ ∀ i < ps.ring, ps.probe i ∉ ps.members) := by
  have hscan := getraw_scan h
  generalize bstgFdstoreGetraw ps = r at hscan
  cases hscan with
  | hit hd hmem => exact ⟨_, _, rfl, hd, .inl hmem⟩
  | miss hmiss => exact ⟨_, _, rfl, Nat.le_refl _, .inr ⟨rfl, rfl, hmiss⟩⟩

/-- The ways a call of `bstg_fdstore_getraw` can have returned. -/
theorem getraw_inv {ps ps' : Fdstore} {fd : Int} (h : ps.Valid)
    (hraw : bstgFdstoreGetraw ps = .ok (ps', fd)) :
    (∃ d < ps.ring, ps.probe d ∈ ps.members ∧ (∀ i < d, ps.probe i ∉ ps.members) ∧
      ps' = ps.probed (ps.count + (d + 1)) ∧ fd = ps.probe d) ∨
    (∀ i < ps.ring, ps.probe i ∉ ps.members) ∧ ps' = ps.probed (ps.count + ps.ring) ∧ fd = -1 := by
  have hscan := getraw_scan h
  generalize bstgFdstoreGetraw ps = res at hscan hraw
  cases hscan with
  | hit hd hmem hmiss =>
    cases hraw
    exact .inl ⟨_, hd, hmem, hmiss, rfl, rfl⟩
  | miss hmiss =>
    cases hraw
    exact .inr ⟨hmiss, rfl, rfl⟩

/-- Below 2^32 probes the counter does not wrap, and a store that is not empty always hands out a
    descriptor. -/
theorem getraw_found {ps : Fdstore} (h : ps.Valid) (hne : ps.members ≠ ∅) {count : Nat} {fd : Int}
    (hrun : bstgFdstoreGetraw ps = .ok (ps.probed count, fd)) (hcount : count < 2 ^ 32) :
    fd ∈ ps.members := by
  obtain ⟨n, fd', hrun', -, hspec⟩ := getraw_spec h
  rw [hrun] at hrun'
  have heq := Except.ok.inj hrun'
  have hn : count = ps.count + n := congrArg (fun r => r.1.count) heq
  have hfd : fd = fd' := congrArg Prod.snd heq
  subst hfd
  rcases hspec with hmem | ⟨-, hall, hmiss⟩
  · exact hmem
  · -- every place was probed, the largest member's too
    have hfit : ps.count % 2 ^ 32 + ps.ring ≤ 2 ^ 32 := by omega
    obtain ⟨i, hi, hprobe⟩ := exists_probe_top h hne hfit
    refine absurd ?_ (hmiss i hi)
    rw [hprobe]
    exact h.top_mem hne

/-- The first tracked number that the scan of `bstg_fdstore_getraw` comes to. -/
def Fdstore.next (ps : Fdstore) : Option Int :=
  ((List.range ps.ring).find? fun i => ps.probe i ∈ ps.members).map ps.probe

theorem next_of_hit {ps : Fdstore} {d : Nat} (hd : d < ps.ring) (hmem : ps.probe d ∈ ps.members)
    (hmiss : ∀ i < d, ps.probe i ∉ ps.members) : ps.next = some (ps.probe d) := by
  have hfind : (List.range ps.ring).find? (fun i => ps.probe i ∈ ps.members) = some d := by
    refine List.find?_range_eq_some.mpr ⟨decide_eq_true hmem, List.mem_range.mpr hd, fun i hi => ?_⟩
    rw [decide_eq_false (hmiss i hi)]
    rfl
  rw [Fdstore.next, hfind, Option.map_some]

theorem next_of_miss {ps : Fdstore} (hmiss : ∀ i < ps.ring, ps.probe i ∉ ps.members) :
    ps.next = none := by
  have hfind : (List.range ps.ring).find? (fun i => ps.probe i ∈ ps.members) = none := by
    refine List.find?_eq_none.mpr fun i hi => ?_
    rw [decide_eq_false (hmiss i (List.mem_range.mp hi))]
    exact Bool.false_ne_true
  rw [Fdstore.next, hfind, Option.map_none]

/-- `bstg_fdstore_getraw` hands out the next number. -/
theorem getraw_next {ps : Fdstore} (h : ps.Valid) {count : Nat} {fd : Int}
    (hraw : bstgFdstoreGetraw ps = .ok (ps.probed count, fd)) :
    fd ∈ ps.members ∧ ps.next = some fd ∨ fd = -1 ∧ ps.next = none := by
  obtain ⟨d, hd, hmem, hmiss, -, rfl⟩ | ⟨hmiss, -, rfl⟩ := getraw_inv h hraw
  · exact .inl ⟨hmem, next_of_hit hd hmem hmiss⟩
  · exact .inr ⟨rfl, next_of_miss hmiss⟩

/-- Keeping track of a descriptor: a positive number is tracked, provided it has a bit. -/
theorem fdstoreTrack_pos {K : Type} (k : K) (ps : Fdstore) {fd : Int} (hpos : 0 < fd)
    (hfd : 0 ≤ fd ∧ fd < FD_SETSIZE) :
    fdstoreTrack k ps fd = .ok (k, ps.tracking fd hfd, fd) := by
  have hset : ∀ fds : FdSet, fdSet fd fds = .ok ⟨insert fd fds.members, fun n hn => by
      rcases Finset.mem_insert.mp hn with rfl | hn
      · exact hfd
      · exact fds.inRange n hn⟩ := fun fds => dif_pos hfd
  rw [fdstoreTrack, if_pos hpos]
  by_cases hmax : fd > ps.max
  · simp only [hmax, if_true, hset, exec_bind_ok, exec_pure, Fdstore.tracking]
    rfl
  · simp only [hmax, if_false, hset, exec_bind_ok, exec_pure, Fdstore.tracking]
    rfl

theorem fdstoreTrack_nonpos {K : Type} (k : K) (ps : Fdstore) {fd : Int} (hfd : fd ≤ 0) :
    fdstoreTrack k ps fd = .ok (k, ps, fd) :=
  if_neg (Int.not_lt.mpr hfd)

/-- A number without a bit is written behind the `fd_set`. -/
theorem fdstoreTrack_overrun {K : Type} (k : K) (ps : Fdstore) {fd : Int} (hfd : FD_SETSIZE ≤ fd) :
    fdstoreTrack k ps fd = .error (.outOfBounds fd.toNat) := by
  have hpos : fd > 0 := Int.lt_of_lt_of_le (by decide) hfd
  have hset : ∀ fds : FdSet, fdSet fd fds = .error (.outOfBounds fd.toNat) :=
    fun fds => dif_neg fun h => absurd h.2 (Int.not_lt.mpr hfd)
  rw [fdstoreTrack, if_pos hpos]
  by_cases hmax : fd > ps.max
  · simp only [hmax, if_true, hset, exec_bind_error]
  · simp only [hmax, if_false, hset, exec_bind_error]

section

variable {K : Type} (sys : Sys K)

/-! ## 2. `bstg_fdstore_set` -/

/-- The replacing of `bstg_fdstore_set` that does not come about: the store is small, no tracked
    descriptor is found, or `dup2` fails. Then `k'` and `count` are what is left of the attempt. -/
inductive NotReplaced (k : K) (ps : Fdstore) (fd : Int) : K → Nat → Prop
  | small (h : ps.max ≤ 10) : NotReplaced k ps fd k ps.count
  | missed {count : Nat} (h : 10 < ps.max)
      (hraw : bstgFdstoreGetraw ps = .ok (ps.probed count, -1)) : NotReplaced k ps fd k count
  | failed {count : Nat} {newd : Int} (h : 10 < ps.max)
      (hraw : bstgFdstoreGetraw ps = .ok (ps.probed count, newd)) (hnewd : newd ∈ ps.members)
      (hdup : (sys.dup2 k fd newd).2 = -1) : NotReplaced k ps fd (sys.dup2 k fd newd).1 count

/-- The replacing that does come about. -/
def Replaced (k : K) (ps : Fdstore) (fd : Int) (count : Nat) (newd : Int) : Prop :=
  10 < ps.max ∧ bstgFdstoreGetraw ps = .ok (ps.probed count, newd) ∧ newd ∈ ps.members ∧
    (sys.dup2 k fd newd).2 ≠ -1

/-- When it does, by the state before the call: the store is full, and `dup2` can bind its next number
    to the file. -/
def Replaces (k : K) (ps : Fdstore) (fd : Int) : Prop :=
  10 < ps.max ∧ ∃ newd ∈ ps.next, (sys.dup2 k fd newd).2 ≠ -1

/-- All that `bstg_fdstore_set` can do to a valid store. -/
inductive SetOutcome (k : K) (ps : Fdstore) (fd : Int) : Exec (K × Fdstore × Int) → Prop
  | replaced {count : Nat} {newd : Int} (h : Replaced sys k ps fd count newd) :
      SetOutcome k ps fd (.ok ((sys.dup2 k fd newd).1, ps.probed count, newd))
  | tracked {k' : K} {count : Nat} (h : NotReplaced sys k ps fd k' count) (hpos : 0 < fd)
      (hfd : 0 ≤ fd ∧ fd < FD_SETSIZE) :
      SetOutcome k ps fd (.ok (k', (ps.probed count).tracking fd hfd, fd))
  | refused {k' : K} {count : Nat} (h : NotReplaced sys k ps fd k' count) (hfd : fd ≤ 0) :
      SetOutcome k ps fd (.ok (k', ps.probed count, fd))
  | overrun {k' : K} {count : Nat} (h : NotReplaced sys k ps fd k' count) (hfd : FD_SETSIZE ≤ fd) :
      SetOutcome k ps fd (.error (.outOfBounds fd.toNat))

variable {sys}

theorem Replaced.replaces {k : K} {ps : Fdstore} {fd newd : Int} {count : Nat} (h : ps.Valid)
    (hrep : Replaced sys k ps fd count newd) : Replaces sys k ps fd := by
  obtain ⟨hmax, hraw, hmem, hdup⟩ := hrep
  rcases getraw_next h hraw with ⟨-, hsome⟩ | ⟨hneg, -⟩
  · exact ⟨hmax, newd, hsome, hdup⟩
  · rw [hneg] at hmem
    exact absurd (h.pos _ hmem) (by decide)

theorem NotReplaced.not_replaces {k k' : K} {ps : Fdstore} {fd : Int} {count : Nat} (h : ps.Valid)
    (hnot : NotReplaced sys k ps fd k' count) : ¬ Replaces sys k ps fd := by
  rintro ⟨hmax, newd, hnext, hdup⟩
  cases hnot with
  | small hsmall => omega
  | missed _ hraw =>
    rcases getraw_next h hraw with ⟨hmem, -⟩ | ⟨-, hnone⟩
    · exact absurd (h.pos _ hmem) (by decide)
    · rw [hnone] at hnext
      cases hnext
  | failed _ hraw hmem hfail =>
    rcases getraw_next h hraw with ⟨-, hsome⟩ | ⟨hneg, -⟩
    · rw [hsome] at hnext
      cases hnext
      exact hdup hfail
    · rw [hneg] at hmem
      exact absurd (h.pos _ hmem) (by decide)

theorem track_outcome {k k' : K} {ps : Fdstore} {fd : Int} {count : Nat}
    (h : NotReplaced sys k ps fd k' count) :
    SetOutcome sys k ps fd (fdstoreTrack k' (ps.probed count) fd) := by
  by_cases hpos : 0 < fd
  · by_cases hfd : fd < FD_SETSIZE
    · rw [fdstoreTrack_pos k' _ hpos ⟨Int.le_of_lt hpos, hfd⟩]
      exact .tracked h hpos _
    · rw [fdstoreTrack_overrun k' _ (Int.not_lt.mp hfd)]
      exact .overrun h (Int.not_lt.mp hfd)
  · rw [fdstoreTrack_nonpos k' _ (Int.not_lt.mp hpos)]
    exact .refused h (Int.not_lt.mp hpos)

variable (sys)

theorem set_outcome {ps : Fdstore} (h : ps.Valid) (k : K) (fd : Int) :
    SetOutcome sys k ps fd (bstgFdstoreSet sys k ps fd) := by
  rw [bstgFdstoreSet, assert_pos h.magic, exec_bind_ok]
  by_cases hmax : ps.max > 10
  · obtain ⟨n, newd, hraw, -, hspec⟩ := getraw_spec h
    rw [if_pos hmax, hraw, exec_bind_ok]
    rcases hspec with hmem | ⟨hmiss, -, -⟩
    · dsimp only
      rw [if_pos (h.pos newd hmem)]
      by_cases hdup : (sys.dup2 k fd newd).2 = -1
      · rw [if_neg (not_not.mpr hdup)]
        exact track_outcome (.failed hmax hraw hmem hdup)
      · rw [if_pos hdup]
        exact .replaced ⟨hmax, hraw, hmem, hdup⟩
    · subst hmiss
      dsimp only
      rw [if_neg (by decide)]
      exact track_outcome (.missed hmax hraw)
  · rw [if_neg hmax]
    exact track_outcome (.small (Int.not_lt.mp hmax))

variable {sys}

/-- The ways a call of `bstg_fdstore_set` can have returned. -/
theorem set_inv {k k' : K} {ps ps' : Fdstore} {fd r : Int} (h : ps.Valid)
    (hset : bstgFdstoreSet sys k ps fd = .ok (k', ps', r)) :
    (∃ count, Replaced sys k ps fd count r ∧ k' = (sys.dup2 k fd r).1 ∧ ps' = ps.probed count) ∨
    (∃ count, NotReplaced sys k ps fd k' count ∧ r = fd ∧
      (fd ≤ 0 ∧ ps' = ps.probed count ∨
        0 < fd ∧ ∃ hfd, ps' = (ps.probed count).tracking fd hfd)) := by
  have hout := set_outcome sys h k fd
  generalize bstgFdstoreSet sys k ps fd = res at hout hset
  cases hout with
  | replaced hrep =>
    cases hset
    exact .inl ⟨_, hrep, rfl, rfl⟩
  | tracked hnot hpos hfd =>
    cases hset
    exact .inr ⟨_, hnot, rfl, .inr ⟨hpos, hfd, rfl⟩⟩
  | refused hnot hle =>
    cases hset
    exact .inr ⟨_, hnot, rfl, .inl ⟨hle, rfl⟩⟩
  | overrun => cases hset

variable (sys)

/-! ## 3. `bstg_fdstore_get2` -/

/-- The calls of `open` that `bstg_fdstore_get2` makes: the state behind them, the first positive
    result, if there is one, and all results in turn. -/
structure OpenTries (K : Type) where
  state : K
  found : Option Int
  results : List Int

def openTries (flags : List OpenFlag) : List OpenFlag → K → OpenTries K
  | [], k => ⟨k, none, []⟩
  | omode :: omodes, k =>
    let (k, fd) := sys.openPath k ([omode, .O_NONBLOCK, .O_NOCTTY] ++ flags)
    if fd > 0 then ⟨k, some fd, [fd]⟩
    else
      let t := openTries flags omodes k
      ⟨t.state, t.found, fd :: t.results⟩

variable {sys}

theorem openLoop_eq (flags modes : List OpenFlag) (k : K) (ps : Fdstore) :
    openLoop sys flags modes k ps =
      match (openTries sys flags modes k).found with
      | some fd => bstgFdstoreSet sys (openTries sys flags modes k).state ps fd
      | none => .ok ((openTries sys flags modes k).state, ps, -1) := by
  induction modes generalizing k with
  | nil => rfl
  | cons omode modes ih =>
    rw [openLoop, openTries]
    dsimp only
    by_cases hfd : (sys.openPath k ([omode, .O_NONBLOCK, .O_NOCTTY] ++ flags)).2 > 0
    · rw [if_pos hfd, if_pos hfd]
    · rw [if_neg hfd, if_neg hfd, ih]

theorem openTries_found {flags modes : List OpenFlag} {k : K} {fd : Int}
    (h : (openTries sys flags modes k).found = some fd) :
    0 < fd ∧ fd ∈ (openTries sys flags modes k).results := by
  induction modes generalizing k with
  | nil => cases h
  | cons omode modes ih =>
    rw [openTries] at h ⊢
    dsimp only at h ⊢
    by_cases hpos : (sys.openPath k ([omode, .O_NONBLOCK, .O_NOCTTY] ++ flags)).2 > 0
    · rw [if_pos hpos] at h ⊢
      cases h
      exact ⟨hpos, List.mem_cons_self⟩
    · rw [if_neg hpos] at h ⊢
      exact ⟨(ih h).1, List.mem_cons_of_mem _ (ih h).2⟩

/-- A call of `bstg_fdstore_set`: the system, the store and the descriptor it is made with. -/
structure SetCall (K : Type) where
  k : K
  ps : Fdstore
  fd : Int

/-- The calls of `bstg_fdstore_set` that `bstg_fdstore_get2` makes: at most one. -/
def get2SetCalls (sys : Sys K) (k : K) (ps : Fdstore) (flags : List OpenFlag) : List (SetCall K) :=
  match bstgFdstoreGetraw ps with
  | .error _ => []
  | .ok (ps, fd) =>
    if fd > 0 then []
    else
      let t := openTries sys flags omodes k
      match t.found with
      | some fd => [⟨t.state, ps, fd⟩]
      | none => []

/-- All that `bstg_fdstore_get2` can do to a valid store, with the calls of `bstg_fdstore_set` it
    makes on the way. -/
inductive Get2Outcome (sys : Sys K) (k : K) (ps : Fdstore) (flags : List OpenFlag) :
    List (SetCall K) → Exec (K × Fdstore × Int) → Prop
  | found {count : Nat} {fd : Int} (hraw : bstgFdstoreGetraw ps = .ok (ps.probed count, fd))
      (hmem : fd ∈ ps.members) : Get2Outcome sys k ps flags [] (.ok (k, ps.probed count, fd))
  | opened {count : Nat} {fd : Int} (hraw : bstgFdstoreGetraw ps = .ok (ps.probed count, -1))
      (hfound : (openTries sys flags omodes k).found = some fd) :
      Get2Outcome sys k ps flags [⟨(openTries sys flags omodes k).state, ps.probed count, fd⟩]
        (bstgFdstoreSet sys (openTries sys flags omodes k).state (ps.probed count) fd)
  | nothing {count : Nat} (hraw : bstgFdstoreGetraw ps = .ok (ps.probed count, -1))
      (hfound : (openTries sys flags omodes k).found = none) :
      Get2Outcome sys k ps flags [] (.ok ((openTries sys flags omodes k).state, ps.probed count, -1))

theorem get2_outcome (sys : Sys K) {ps : Fdstore} (h : ps.Valid) (k : K) (flags : List OpenFlag) :
    Get2Outcome sys k ps flags (get2SetCalls sys k ps flags) (bstgFdstoreGet2 sys k ps flags) := by
  obtain ⟨n, fd, hraw, -, hspec⟩ := getraw_spec h
  rcases hspec with hmem | ⟨hmiss, -, -⟩
  · have hpos : fd > 0 := h.pos fd hmem
    have hcalls : get2SetCalls sys k ps flags = [] := by
      simp only [get2SetCalls, hraw, hpos, if_true]
    have hget : bstgFdstoreGet2 sys k ps flags = .ok (k, ps.probed (ps.count + n), fd) := by
      rw [bstgFdstoreGet2, hraw, exec_bind_ok]
      exact if_pos hpos
    rw [hcalls, hget]
    exact .found hraw hmem
  · subst hmiss
    have hneg : ¬ (-1 : Int) > 0 := by decide
    have hget : bstgFdstoreGet2 sys k ps flags =
        openLoop sys flags omodes k (ps.probed (ps.count + n)) := by
      rw [bstgFdstoreGet2, hraw, exec_bind_ok]
      exact if_neg hneg
    cases hfound : (openTries sys flags omodes k).found with
    | some fd =>
      have hcalls : get2SetCalls sys k ps flags =
          [⟨(openTries sys flags omodes k).state, ps.probed (ps.count + n), fd⟩] := by
        simp only [get2SetCalls, hraw, hneg, if_false, hfound]
      rw [hcalls, hget, openLoop_eq, hfound]
      exact .opened hraw hfound
    | none =>
      have hcalls : get2SetCalls sys k ps flags = [] := by
        simp only [get2SetCalls, hraw, hneg, if_false, hfound]
      rw [hcalls, hget, openLoop_eq, hfound]
      exact .nothing hraw hfound

/-- The ways a call of `bstg_fdstore_get2` can have returned. -/
theorem get2_inv {sys : Sys K} {k k' : K} {ps ps' : Fdstore} {flags : List OpenFlag} {r : Int}
    (h : ps.Valid) (hget : bstgFdstoreGet2 sys k ps flags = .ok (k', ps', r)) :
    (∃ count, bstgFdstoreGetraw ps = .ok (ps.probed count, r) ∧ r ∈ ps.members ∧ k' = k ∧
      ps' = ps.probed count) ∨
    (∃ count, bstgFdstoreGetraw ps = .ok (ps.probed count, -1) ∧
      ((∃ fd, (openTries sys flags omodes k).found = some fd ∧
        bstgFdstoreSet sys (openTries sys flags omodes k).state (ps.probed count) fd =
          .ok (k', ps', r)) ∨
      (openTries sys flags omodes k).found = none ∧ k' = (openTries sys flags omodes k).state ∧
        ps' = ps.probed count ∧ r = -1)) := by
  have hout := get2_outcome sys h k flags
  generalize bstgFdstoreGet2 sys k ps flags = res at hout hget
  generalize get2SetCalls sys k ps flags = scs at hout
  cases hout with
  | found hraw hmem =>
    cases hget
    exact .inl ⟨_, hraw, hmem, rfl, rfl⟩
  | opened hraw hfound => exact .inr ⟨_, hraw, .inl ⟨_, hfound, hget⟩⟩
  | nothing hraw hfound =>
    cases hget
    exact .inr ⟨_, hraw, .inr ⟨hfound, rfl, rfl, rfl⟩⟩

/-! ## 4. `bstg_fdstore_closeall` -/

/-- The closing of `bstg_fdstore_closeall`: the members, each once, in ascending order. -/
theorem closeallLoop_spec (ps : Fdstore) (n : Nat) {curr : Int} (h0 : 0 ≤ curr)
    (hn : curr + n ≤ FD_SETSIZE) (k : K) :
    closeallLoop sys ps n curr k =
      .ok ((((List.range n).map fun (i : Nat) => curr + (i : Int)).filter (· ∈ ps.members)).foldl
        (fun k fd => (sys.close k fd).1) k) := by
  induction n generalizing curr k with
  | zero => rfl
  | succ n ih =>
    have hrange : (List.range (n + 1)).map (fun (i : Nat) => curr + (i : Int)) =
        curr :: (List.range n).map fun (i : Nat) => curr + 1 + (i : Int) := by
      rw [List.range_succ_eq_map, List.map_cons, List.map_map]
      refine congrArg₂ List.cons (Int.add_zero curr) (List.map_congr_left fun i _ => ?_)
      show curr + ((i + 1 : Nat) : Int) = curr + 1 + (i : Int)
      omega
    have hisset : fdIsset curr ps.fds = .ok (decide (curr ∈ ps.members)) :=
      fdIsset_ok h0 (by omega)
    rw [closeallLoop, hisset, exec_bind_ok, hrange]
    by_cases hmem : curr ∈ ps.members
    · rw [if_pos (decide_eq_true hmem), ih (by omega) (by omega), List.filter_cons_of_pos (by simpa)]
      rfl
    · rw [if_neg (by simpa), ih (by omega) (by omega), List.filter_cons_of_neg (by simpa)]

/-- The numbers up to `max` that are members are the members in ascending order. -/
theorem filter_range_members {ps : Fdstore} (h : ps.Valid) :
    ((List.range ps.ring).map fun (i : Nat) => (0 : Int) + (i : Int)).filter (· ∈ ps.members) =
      ps.members.sort (· ≤ ·) := by
  have hrange : ((List.range ps.ring).map fun (i : Nat) => (0 : Int) + (i : Int)).Pairwise (· < ·) :=
    List.pairwise_map.mpr (List.pairwise_lt_range.imp fun hij => by omega)
  have hsort : (ps.members.sort (· ≤ ·)).Pairwise (· < ·) :=
    (ps.members.sortedLT_sort).pairwise
  refine (hrange.filter _).eq_of_mem_iff hsort fun fd => ?_
  rw [List.mem_filter, Finset.mem_sort, decide_eq_true_eq, List.mem_map]
  constructor
  · exact fun h => h.2
  · intro hmem
    have hplace : (0 : Int) + (fd.toNat : Int) = fd := by rw [Int.zero_add, h.toNat_eq hmem]
    exact ⟨⟨fd.toNat, List.mem_range.mpr (h.toNat_lt_ring hmem), hplace⟩, hmem⟩

/-- `bstg_fdstore_closeall` on a valid store: every member is closed, once, in ascending order, and
    the store is reset. -/
theorem closeall_spec {ps : Fdstore} (h : ps.Valid) (k : K) :
    bstgFdstoreCloseall sys k ps =
      .ok ((ps.members.sort (· ≤ ·)).foldl (fun k fd => (sys.close k fd).1) k,
        bstgFdstoreReset ps) := by
  have hmax := h.max_lt
  have hsize : 0 + (ps.ring : Int) ≤ FD_SETSIZE := by
    unfold Fdstore.ring
    omega
  have hloop : closeallLoop sys ps ps.ring 0 k = _ :=
    closeallLoop_spec ps ps.ring (Int.le_refl 0) hsize k
  rw [filter_range_members h] at hloop
  rw [bstgFdstoreCloseall, if_neg (not_not.mpr h.magic)]
  show closeallLoop sys ps ps.ring 0 k >>= _ = _
  rw [hloop, exec_bind_ok, exec_pure]

/-- Without the magic value nothing is closed and nothing changes. -/
theorem closeall_einval {ps : Fdstore} (h : ps.magic ≠ BSTG_FDSTORE_MAGIC) (k : K) :
    bstgFdstoreCloseall sys k ps = .ok (k, ps, EINVAL) := if_pos h

end

end Fembot
