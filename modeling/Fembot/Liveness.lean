/-
  File:      Fembot/Liveness.lean
  Subject:   TRACKED IS OPEN: over every run of the pool the store tracks live descriptors only,
             but for one operation.

  `Tracks` (Pool.lean) is the invariant. Every operation keeps it (`poolStep_tracks`) except
  `src/opendir/fdopendir.c`, whose closedir closes a descriptor that the store goes on tracking:
  it breaks the invariant exactly when `fdopendir` succeeds (`fdopendir_loses`).
-/
import Fembot.Pool

namespace Fembot

open Library

/-- Every descriptor the store tracks is open. -/
def Live (p : Process) : Prop := ∀ fd ∈ p.ps.members, p.k.IsOpen fd

/-- What `bstg_fdstore_get2` hands out is open. -/
def HandsOutOpen (p : Process) : Prop :=
  ∀ flags k ps fd, bstgFdstoreGet2 kernel p.k p.ps flags = .ok (k, ps, fd) → 0 ≤ fd → k.IsOpen fd

/-- The operation is not an fdopendir whose `fdopendir` call succeeds on the descriptor the store
    hands it. -/
def LeavesOpen (p : Process) (op : PoolOp) : Prop :=
  op = .fdopendir → ∀ k ps fd, bstgFdstoreGet kernel p.k p.ps = .ok (k, ps, fd) →
    (k.fdopendir fd).2 = false

/-! ## 1. What get hands out -/

/-- `bstg_fdstore_get2` keeps the invariant, and hands out a tracked descriptor or -1. -/
theorem get2_tracks {p : Process} (h : Tracks p) {flags : List OpenFlag} {k : Kernel} {ps : Fdstore}
    {fd : Int} (hget : bstgFdstoreGet2 kernel p.k p.ps flags = .ok (k, ps, fd)) :
    Tracks ⟨k, ps⟩ ∧ (fd ∈ ps.members ∨ fd = -1) := by
  have hacq : acquire p (.get2 flags) = .ok ⟨k, ps⟩ := by
    rw [acquire, hget]
    rfl
  refine ⟨((acquire_step h _).2 _ hacq).tracks, ?_⟩
  obtain ⟨count, -, hmem, -, rfl⟩ | ⟨count, -, ⟨opened, hfound, hset⟩ | ⟨-, -, -, hneg⟩⟩ :=
    get2_inv h.valid hget
  · exact .inl hmem
  · -- the descriptor opened is open, and set tracks what it returns
    have hfresh := fresh_openTries flags omodes p.k
    obtain ⟨hpos, hin⟩ := openTries_found hfound
    have htracks := h.mono (fun n hn => (hfresh.opens n).mpr (.inl hn)) count
    have hopen := (hfresh.opens opened).mpr (.inr ⟨hin, Int.le_of_lt hpos⟩)
    obtain ⟨-, hr, -⟩ := (set_step htracks fun _ => hopen).2 k ps fd hset
    have hfd : 0 < fd := by
      obtain ⟨_, hrep, -⟩ | ⟨_, -, hsame, -⟩ := set_inv htracks.valid hset
      · exact htracks.valid.pos fd hrep.2.2.1
      · rwa [hsame]
    exact .inl (hr hfd)
  · exact .inr hneg

theorem Tracks.handsOutOpen {p : Process} (h : Tracks p) : HandsOutOpen p := by
  intro flags k ps fd hget h0
  obtain ⟨htracks, hfd⟩ := get2_tracks h hget
  rcases hfd with hmem | hneg
  · exact htracks.live fd hmem
  · omega

/-! ## 2. The operations -/

/-- The invariant holds still when a descriptor is closed that is not tracked. -/
theorem Tracks.close {p : Process} (h : Tracks p) {fd : Int} (hfd : fd ∉ p.ps.members) :
    Tracks ⟨(p.k.close fd).1, p.ps⟩ := by
  refine ⟨h.valid, fun n hn => (Kernel.close_isOpen fd n).mpr ⟨h.live n hn, fun heq => ?_⟩⟩
  rw [heq] at hn
  exact hfd hn

/-- What a call of `open` gives is not tracked. -/
theorem open_untracked {p : Process} (h : Tracks p) :
    Tracks ⟨p.k.openFile.1, p.ps⟩ ∧ p.k.openFile.2 ∉ p.ps.members := by
  have hfresh := fresh_open p.k
  refine ⟨h.mono (fun n hn => (hfresh.opens n).mpr (.inl hn)) p.ps.count, fun hmem => ?_⟩
  exact hfresh.fresh _ List.mem_cons_self (Int.le_of_lt (h.valid.pos _ hmem)) (h.live _ hmem)

theorem acquire_tracks {p p' : Process} (h : Tracks p) {a : Acquire}
    (hp' : acquire p a = .ok p') : Tracks p' :=
  ((acquire_step h a).2 p' hp').tracks

theorem closeall_tracks {p p' : Process} (h : Tracks p)
    (hp' : poolStep p .closeall = .ok p') : Tracks p' := by
  have hstep : poolStep p .closeall =
      .ok ⟨(p.ps.members.sort (· ≤ ·)).foldl (fun k fd => (kernel.close k fd).1) p.k,
        (bstgFdstoreReset p.ps).1⟩ := by
    rw [poolStep, closeall_spec h.valid]
    rfl
  rw [hstep] at hp'
  cases hp'
  exact ⟨fdstoreReset_valid h.valid, fun fd hfd => absurd hfd (Finset.notMem_empty _)⟩

theorem fchdir_tracks {p p' : Process} (h : Tracks p)
    (hp' : poolStep p .fchdir = .ok p') : Tracks p' := by
  obtain ⟨htracks, hnew⟩ := open_untracked h
  have hopens := (fresh_open p.k).opens
  unfold poolStep at hp'
  dsimp only at hp'
  by_cases hpos : p.k.openFile.2 > 0
  · rw [if_pos hpos] at hp'
    obtain ⟨q, hq, hp'⟩ := exec_bind_inv hp'
    cases hp'
    have hs := (acquire_step htracks _).2 q hq
    refine hs.tracks.close fun hmem => ?_
    -- the descriptor of the directory is open, so that it is not handed to the store
    rcases hs.only _ hmem with hmem | hclosed
    · exact hnew hmem
    · exact hclosed ((hopens _).mpr (.inr ⟨List.mem_cons_self, Int.le_of_lt hpos⟩))
  · rw [if_neg hpos] at hp'
    cases hp'
    exact htracks

theorem copyexe_tracks {p p' : Process} (h : Tracks p) {flags : List OpenFlag}
    (hp' : poolStep p (.copyexe flags) = .ok p') : Tracks p' := by
  obtain ⟨htracks, hnew⟩ := open_untracked h
  have hclosed : ∀ k : Kernel, p.k.openFile.1.SameOpen k →
      Tracks ⟨(k.close p.k.openFile.2).1, p.ps⟩ := by
    intro k hk
    have hk' : Tracks ⟨k, p.ps⟩ := htracks.mono (fun n hn => (hk n).mpr hn) p.ps.count
    exact hk'.close hnew
  unfold poolStep at hp'
  dsimp only at hp'
  by_cases hpos : p.k.openFile.2 > 0
  · simp only [hpos, if_true, Kernel.mapFile] at hp'
    have hmapped := hclosed p.k.openFile.1.asked (Kernel.sameOpen_asked _)
    split at hp'
    · exact acquire_tracks hmapped hp'
    · cases hp'
      exact hmapped
  · simp only [hpos, if_false, Bool.false_eq_true] at hp'
    cases hp'
    exact hclosed _ fun _ => Iff.rfl

/-- The fdopendir operation in one line. -/
theorem fdopendir_eq {p : Process} {k : Kernel} {ps : Fdstore} {fd : Int}
    (hget : bstgFdstoreGet kernel p.k p.ps = .ok (k, ps, fd)) :
    poolStep p .fdopendir =
      .ok (if (k.fdopendir fd).2 then ⟨((k.fdopendir fd).1.close fd).1, ps⟩
        else ⟨(k.fdopendir fd).1, ps⟩) := by
  unfold poolStep
  rw [hget, exec_bind_ok]
  dsimp only
  split
  · rfl
  · rfl

theorem fdopendir_sameOpen (k : Kernel) (fd : Int) : k.SameOpen (k.fdopendir fd).1 :=
  Kernel.sameOpen_asked k

/-- Every operation but a successful fdopendir keeps the invariant. -/
theorem poolStep_tracks {p p' : Process} {op : PoolOp} (h : Tracks p) (hop : LeavesOpen p op)
    (hp' : poolStep p op = .ok p') : Tracks p' := by
  cases op with
  | acquire a => exact acquire_tracks h hp'
  | closeall => exact closeall_tracks h hp'
  | sendfile =>
    obtain ⟨q, hq, hp'⟩ := exec_bind_inv hp'
    exact acquire_tracks (acquire_tracks h hq) hp'
  | fchdir => exact fchdir_tracks h hp'
  | copyexe flags => exact copyexe_tracks h hp'
  | fdopendir =>
    obtain ⟨⟨k, ps, fd⟩, hget, -⟩ := exec_bind_inv hp'
    rw [fdopendir_eq hget, hop rfl k ps fd hget] at hp'
    cases hp'
    exact (get2_tracks h hget).1.mono (fun n hn => (fdopendir_sameOpen k fd n).mpr hn) ps.count

/-- A successful fdopendir leaves a tracked descriptor closed. -/
theorem fdopendir_loses {p : Process} {op : PoolOp} (h : Tracks p) (hop : ¬ LeavesOpen p op) :
    ∃ p', poolStep p op = .ok p' ∧ ¬ Live p' := by
  unfold LeavesOpen at hop
  simp only [not_forall] at hop
  obtain ⟨rfl, k, ps, fd, hget, hdir⟩ := hop
  rw [Bool.not_eq_false] at hdir
  refine ⟨_, fdopendir_eq hget, ?_⟩
  rw [if_pos hdir]
  obtain ⟨htracks, hfd⟩ := get2_tracks h hget
  have hopen : k.IsOpen fd := of_decide_eq_true (Bool.and_eq_true_iff.mp hdir).2
  have hmem : fd ∈ ps.members := by
    rcases hfd with hmem | hneg
    · exact hmem
    · have h0 := Kernel.isOpen_nonneg hopen
      omega
  intro hlive
  exact ((Kernel.close_isOpen fd fd).mp (hlive fd hmem)).2 rfl

/-! ## 3. Every run -/

/-- Over every run of pool operations on a store that starts empty, with any outcomes of the
    calls: every tracked descriptor is open in every state reached exactly if no fdopendir
    operation of the run gets its stream; and then get hands out open descriptors only. -/
theorem tracked_live_iff (k : Kernel) (ps : Fdstore) (ops : List PoolOp) :
    (Always poolStep (Process.start k ps) ops Live ↔
        EachStep poolStep (Process.start k ps) ops LeavesOpen) ∧
      (EachStep poolStep (Process.start k ps) ops LeavesOpen →
        Always poolStep (Process.start k ps) ops HandsOutOpen) := by
  have h0 := tracks_start k ps
  have keep : ∀ p op p', Tracks p → LeavesOpen p op → poolStep p op = .ok p' → Tracks p' :=
    fun _ _ _ h hop hp' => poolStep_tracks h hop hp'
  refine ⟨always_iff_eachStep ops h0 (fun p h => h.live) keep fun p op h hop =>
    fdopendir_loses h hop, fun hall => ?_⟩
  exact (always_of_eachStep h0 keep hall).imp fun p h => h.handsOutOpen

/-- A table with 0, 1 and 2 open, on which two calls fail and all others succeed. -/
def standardOpen : Kernel where
  slot fd := if 0 ≤ fd ∧ fd < 3 then some fd.toNat else none
  nonneg fd h := if_neg fun hc => by omega
  limit := 64
  answers := fun n => ⟨decide (2 ≤ n), 7⟩

/-- The failing run: one operation is given a directory, and opens 3 after its attempts to write have
    failed; fdopendir gets 3 from the store and closes it. -/
theorem fdopendir_leaves_closed :
    ¬ Always poolStep (Process.start standardOpen ⟨0, 0, 0, fdZero⟩)
      [.acquire (.get2 []), .fdopendir] Live := by
  intro hall
  have hrun : ∃ q, run poolStep (Process.start standardOpen ⟨0, 0, 0, fdZero⟩)
      [.acquire (.get2 []), .fdopendir] = .ok q ∧ (3 : Int) ∈ q.ps.members ∧ ¬ q.k.IsOpen 3 := by
    refine ⟨_, rfl, ?_, ?_⟩
    · decide
    · decide
  obtain ⟨q, hq, hmem, hclosed⟩ := hrun
  exact hclosed (hall.final hq 3 hmem)

end Fembot
