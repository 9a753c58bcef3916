/-
  File:      Fembot/Pool.lean
  Subject:   The operations of the pool (`src/funcs`) on a process: its descriptor table and its
             store.

  An operation that takes a descriptor from the store and hands it to calls that neither open nor
  close any differs from `bstg_fdstore_get` or `bstg_fdstore_get2` in nothing the table or the
  store shows: it is `Acquire.get2` here. The others have a body of their own. What the operations do
  to the rest of a process, and those that use paths only or fork, are in Operations.lean;
  PoolRuns.lean shows that their runs do to the table and the store what is said here.
-/
import Fembot.FdstoreSpec
import Fembot.Kernel
import Fembot.Library.Run

namespace Fembot

/-! ## 1. Operations -/

structure Process where
  k : Kernel
  ps : Fdstore

/-- An operation that acquires descriptors. -/
inductive Acquire where
  | openPath (flags : List OpenFlag)
  | pipe
  | get2 (flags : List OpenFlag)
  deriving DecidableEq, Repr

/-- `src/open/rdwr.c` -/
def openRdwr : Acquire := .openPath [.O_RDWR, .O_NONBLOCK, .O_CREAT, .O_NOCTTY]

/-- `src/open/append.c` -/
def openAppend : Acquire := .openPath [.O_RDWR, .O_NONBLOCK, .O_CREAT, .O_NOCTTY, .O_APPEND]

/-- `src/open/trunc.c` -/
def openTrunc : Acquire := .openPath [.O_RDWR, .O_NONBLOCK, .O_CREAT, .O_NOCTTY, .O_TRUNC]

/-- `src/open/appendtrunc.c` -/
def openAppendtrunc : Acquire :=
  .openPath [.O_RDWR, .O_NONBLOCK, .O_CREAT, .O_NOCTTY, .O_TRUNC, .O_APPEND]

/-- `src/open/osync.c` -/
def openOsync : Acquire := .openPath [.O_RDWR, .O_NONBLOCK, .O_CREAT, .O_NOCTTY, .O_SYNC]

/-- The call `bstg_fdstore_get`. -/
def acquireGet : Acquire := .get2 [.O_CREAT]

/-- Hand descriptors to `bstg_fdstore_set`, one after the other. -/
def setAll (k : Kernel) (ps : Fdstore) : List Int → Exec Process
  | [] => pure ⟨k, ps⟩
  | fd :: fds => do
    let (k, ps, _) ← bstgFdstoreSet kernel k ps fd
    setAll k ps fds

/-- What an acquiring operation does. -/
def acquire (p : Process) : Acquire → Exec Process
  | .openPath flags =>
    let (k, fd) := kernel.openPath p.k flags
    setAll k p.ps [fd]
  | .pipe =>
    match p.k.pipe with
    | (k, none) => pure ⟨k, p.ps⟩
    -- setting O_NONBLOCK on the two ends does not show in the table
    | (k, some (pfd0, pfd1)) => setAll k p.ps [pfd0, pfd1]
  | .get2 flags => do
    let (k, ps, _) ← bstgFdstoreGet2 kernel p.k p.ps flags
    pure ⟨k, ps⟩

/-- The operations of the pool that touch the store. -/
inductive PoolOp where
  | acquire (a : Acquire)
  | closeall
  | sendfile
  | fdopendir
  | fchdir
  | copyexe (flags : List OpenFlag)
  deriving DecidableEq, Repr

/-- The `fdopendir` call: whether it gives a stream; the descriptor must be open. -/
def Kernel.fdopendir (k : Kernel) (fd : Int) : Kernel × Bool :=
  (k.asked, k.answers.head.ok && decide (k.IsOpen fd))

/-- The `fstat` and `mmap` calls of `special/copyexe.c`: whether both succeed. -/
def Kernel.mapFile (k : Kernel) : Kernel × Bool := (k.asked, k.answers.head.ok)

/-- What an operation of the pool does. -/
def poolStep (p : Process) : PoolOp → Exec Process
  | .acquire a => Fembot.acquire p a
  | .closeall => do
    let (k, ps, _) ← bstgFdstoreCloseall kernel p.k p.ps
    pure ⟨k, ps⟩
  | .sendfile => do
    let p ← Fembot.acquire p acquireGet
    Fembot.acquire p acquireGet
  | .fdopendir => do
    let (k, ps, fd) ← bstgFdstoreGet kernel p.k p.ps
    let (k, dirp) := k.fdopendir fd
    -- closedir closes the descriptor under the stream
    if dirp then pure ⟨(k.close fd).1, ps⟩ else pure ⟨k, ps⟩
  | .fchdir =>
    let (k, cwdfd) := p.k.openFile
    if cwdfd > 0 then do
      let p ← Fembot.acquire ⟨k, p.ps⟩ acquireGet
      pure ⟨(p.k.close cwdfd).1, p.ps⟩
    else pure ⟨k, p.ps⟩
  | .copyexe flags =>
    let (k, fd) := p.k.openFile
    let (k, mapped) := if fd > 0 then k.mapFile else (k, false)
    let k := (k.close fd).1
    if mapped then Fembot.acquire ⟨k, p.ps⟩ (.get2 flags) else pure ⟨k, p.ps⟩

/-- The process behind `bstg_fdstore_init`. -/
def Process.start (k : Kernel) (ps : Fdstore) : Process := ⟨k, (bstgFdstoreInit ps).1⟩

/-! ## 2. Tracked and open -/

/-- The store is valid, and every descriptor it tracks is open. -/
structure Tracks (p : Process) : Prop where
  valid : p.ps.Valid
  live : ∀ fd ∈ p.ps.members, p.k.IsOpen fd

theorem tracks_start (k : Kernel) (ps : Fdstore) : Tracks (Process.start k ps) :=
  ⟨fdstoreInit_valid ps, fun _ h => absurd h (Finset.notMem_empty _)⟩

/-- More open descriptors and other probes do not matter. -/
theorem Tracks.mono {p : Process} (h : Tracks p) {k : Kernel} (hk : ∀ n, p.k.IsOpen n → k.IsOpen n)
    (count : Nat) : Tracks ⟨k, p.ps.probed count⟩ :=
  ⟨h.valid.probed count, fun fd hfd => hk fd (h.live fd hfd)⟩

/-- The replacing of one tracked descriptor, or the attempt, opens and closes nothing. -/
theorem replaced_sameOpen {p : Process} (h : Tracks p) {fd newd : Int} {count : Nat}
    (hrep : Replaced kernel p.k p.ps fd count newd) :
    p.k.SameOpen (kernel.dup2 p.k fd newd).1 ∧ p.k.IsOpen fd := by
  obtain ⟨-, -, hmem, hdup⟩ := hrep
  obtain ⟨hopen, hiff⟩ := Kernel.dup2_ok hdup
  refine ⟨fun n => (hiff n).trans ⟨fun hn => ?_, .inl⟩, hopen⟩
  rcases hn with hn | rfl
  · exact hn
  · exact h.live n hmem

theorem notReplaced_sameOpen {k k' : Kernel} {ps : Fdstore} {fd : Int} {count : Nat}
    (h : NotReplaced kernel k ps fd k' count) : k.SameOpen k' := by
  cases h with
  | small => exact fun _ => Iff.rfl
  | missed => exact fun _ => Iff.rfl
  | failed _ _ _ hdup => exact Kernel.dup2_failed hdup

/-- The call of set is not one that replaces, and its descriptor has a bit. -/
def KeepsTrack (sc : SetCall Kernel) : Prop :=
  sc.fd < FD_SETSIZE ∧ ¬ Replaces kernel sc.k sc.ps sc.fd

/-- What a call of set that returns does to a process. -/
structure SetStep (p : Process) (fd : Int) (p' : Process) : Prop where
  tracks : Tracks p'
  same : p.k.SameOpen p'.k
  grows : p.ps.members ⊆ p'.ps.members
  only : ∀ n ∈ p'.ps.members, n ∈ p.ps.members ∨ n = fd

/-- A call of set on an open descriptor, or on none: it returns unless the descriptor has no bit;
    and the descriptor is tracked behind it exactly if the call keeps track of it. -/
theorem set_step {p : Process} (h : Tracks p) {fd : Int} (hfd : 0 < fd → p.k.IsOpen fd) :
    (KeepsTrack ⟨p.k, p.ps, fd⟩ → ∃ k' ps' r, bstgFdstoreSet kernel p.k p.ps fd = .ok (k', ps', r) ∧
      (0 < fd → fd ∈ ps'.members)) ∧
    ∀ k' ps' r, bstgFdstoreSet kernel p.k p.ps fd = .ok (k', ps', r) → SetStep p fd ⟨k', ps'⟩ ∧
      (0 < r → r ∈ ps'.members) ∧
      (¬ KeepsTrack ⟨p.k, p.ps, fd⟩ → p.k.IsOpen fd ∧ ps'.members = p.ps.members) := by
  have hout := set_outcome kernel h.valid p.k fd
  generalize bstgFdstoreSet kernel p.k p.ps fd = res at hout
  cases hout with
  | @replaced count newd hrep =>
    refine ⟨fun hkeep => absurd (hrep.replaces h.valid) hkeep.2, fun k' ps' r heq => ?_⟩
    cases heq
    obtain ⟨hsame, hopen⟩ := replaced_sameOpen h hrep
    exact ⟨⟨h.mono (fun n hn => (hsame n).mpr hn) count, hsame, fun n hn => hn,
      fun n hn => .inl hn⟩, fun _ => hrep.2.2.1, fun _ => ⟨hopen, rfl⟩⟩
  | @tracked k₁ count hnot hpos hin =>
    refine ⟨fun _ => ⟨_, _, _, rfl, fun _ => Finset.mem_insert_self _ _⟩, fun k' ps' r heq => ?_⟩
    cases heq
    have hsame := notReplaced_sameOpen hnot
    refine ⟨⟨⟨(h.valid.probed _).tracking hpos hin, fun n hn => ?_⟩, hsame,
      fun n hn => Finset.mem_insert_of_mem hn, fun n hn => ?_⟩,
      fun _ => Finset.mem_insert_self _ _, fun hnk => absurd ⟨hin.2, ?_⟩ hnk⟩
    · rcases Finset.mem_insert.mp hn with rfl | hn
      · exact (hsame n).mpr (hfd hpos)
      · exact (hsame n).mpr (h.live n hn)
    · exact (Finset.mem_insert.mp hn).symm
    · exact hnot.not_replaces h.valid
  | @refused k₁ count hnot hle =>
    refine ⟨fun _ => ⟨_, _, _, rfl, fun hpos => by omega⟩, fun k' ps' r heq => ?_⟩
    cases heq
    have hsame := notReplaced_sameOpen hnot
    refine ⟨⟨h.mono (fun n hn => (hsame n).mpr hn) count, hsame, fun n hn => hn,
      fun n hn => .inl hn⟩, fun hpos => by omega, fun hnk => absurd ⟨?_, ?_⟩ hnk⟩
    · exact Int.lt_of_le_of_lt hle (by decide)
    · exact hnot.not_replaces h.valid
  | overrun hnot hsize =>
    refine ⟨fun hkeep => ?_, fun k' ps' r heq => nomatch heq⟩
    have := hkeep.1
    dsimp only at this
    omega

/-- The calls of set that `setAll` comes to. -/
def setAllCalls (k : Kernel) (ps : Fdstore) : List Int → List (SetCall Kernel)
  | [] => []
  | fd :: fds => ⟨k, ps, fd⟩ ::
    match bstgFdstoreSet kernel k ps fd with
    | .ok (k', ps', _) => setAllCalls k' ps' fds
    | .error _ => []

/-- The descriptors can be handed on: those that are numbers of open files are open, and they are
    neither tracked nor the same. -/
structure Handable (p : Process) (fds : List Int) : Prop where
  opened : ∀ fd ∈ fds, 0 < fd → p.k.IsOpen fd
  fresh : ∀ fd ∈ fds, fd ∉ p.ps.members
  nodup : fds.Nodup

/-- What the first call leaves is as good for the rest. -/
theorem Handable.rest {p p' : Process} {fd : Int} {fds : List Int} (h : Handable p (fd :: fds))
    (hstep : SetStep p fd p') : Handable p' fds := by
  obtain ⟨hnot, hnodup⟩ := List.nodup_cons.mp h.nodup
  refine ⟨fun g hg hpos => ?_, fun g hg hmem => ?_, hnodup⟩
  · exact (hstep.same g).mpr (h.opened g (List.mem_cons_of_mem _ hg) hpos)
  · rcases hstep.only g hmem with hmem | rfl
    · exact h.fresh g (List.mem_cons_of_mem _ hg) hmem
    · exact hnot hg

/-- The calls behind the first one. -/
theorem setAllCalls_cons {k k' : Kernel} {ps ps' : Fdstore} {fd r : Int} {fds : List Int}
    (hset : bstgFdstoreSet kernel k ps fd = .ok (k', ps', r)) :
    setAllCalls k ps (fd :: fds) = ⟨k, ps, fd⟩ :: setAllCalls k' ps' fds := by
  rw [setAllCalls, hset]

/-- Where every call keeps track, handing on ends. -/
theorem setAll_ends {fds : List Int} {p : Process} (h : Tracks p) (hfds : Handable p fds)
    (hall : ∀ sc ∈ setAllCalls p.k p.ps fds, KeepsTrack sc) :
    ∃ p', setAll p.k p.ps fds = .ok p' := by
  induction fds generalizing p with
  | nil => exact ⟨p, rfl⟩
  | cons fd fds ih =>
    obtain ⟨hkeep, hret⟩ := set_step h (hfds.opened fd List.mem_cons_self)
    obtain ⟨k', ps', r, hset, -⟩ := hkeep (hall _ List.mem_cons_self)
    obtain ⟨hstep, -, -⟩ := hret k' ps' r hset
    rw [setAllCalls_cons hset] at hall
    obtain ⟨p', hp'⟩ := ih hstep.tracks (hfds.rest hstep)
      fun sc hsc => hall sc (List.mem_cons_of_mem _ hsc)
    refine ⟨p', ?_⟩
    rw [setAll, hset]
    exact hp'

/-- What handing on does to a process where it ends: the descriptors tracked behind it are all that
    can be exactly if every call keeps track. -/
structure SetAllStep (p : Process) (fds : List Int) (p' : Process) : Prop where
  tracks : Tracks p'
  same : p.k.SameOpen p'.k
  grows : p.ps.members ⊆ p'.ps.members
  only : ∀ n ∈ p'.ps.members, n ∈ p.ps.members ∨ n ∈ fds
  keeps : (∀ sc ∈ setAllCalls p.k p.ps fds, KeepsTrack sc) →
    ∀ fd ∈ fds, 0 < fd → fd ∈ p'.ps.members
  loses : (¬ ∀ sc ∈ setAllCalls p.k p.ps fds, KeepsTrack sc) →
    ∃ fd ∈ fds, 0 ≤ fd ∧ fd ∉ p'.ps.members

theorem setAll_step {fds : List Int} {p p' : Process} (h : Tracks p) (hfds : Handable p fds)
    (hp' : setAll p.k p.ps fds = .ok p') : SetAllStep p fds p' := by
  induction fds generalizing p with
  | nil =>
    cases hp'
    exact ⟨h, fun _ => Iff.rfl, fun n hn => hn, fun n hn => .inl hn,
      fun _ fd hfd => absurd hfd List.not_mem_nil,
      fun hnot => absurd (fun sc hsc => absurd hsc List.not_mem_nil) hnot⟩
  | cons fd fds ih =>
    rw [setAll] at hp'
    obtain ⟨⟨k', ps', r⟩, hset, hp'⟩ := exec_bind_inv hp'
    obtain ⟨hkeep, hret⟩ := set_step h (hfds.opened fd List.mem_cons_self)
    obtain ⟨hstep, -, hlost⟩ := hret k' ps' r hset
    have hrest := ih hstep.tracks (hfds.rest hstep) hp'
    refine ⟨hrest.tracks, hstep.same.trans hrest.same, fun n hn => hrest.grows (hstep.grows hn),
      fun n hn => ?_, fun hall => ?_, fun hbad => ?_⟩
    · rcases hrest.only n hn with hn | hn
      · rcases hstep.only n hn with hn | rfl
        · exact .inl hn
        · exact .inr List.mem_cons_self
      · exact .inr (List.mem_cons_of_mem _ hn)
    · rw [setAllCalls_cons hset] at hall
      intro g hg hpos
      rcases List.mem_cons.mp hg with rfl | hg
      · obtain ⟨k₁, ps₁, r₁, hset₁, hin⟩ := hkeep (hall _ List.mem_cons_self)
        rw [hset] at hset₁
        cases hset₁
        exact hrest.grows (hin hpos)
      · exact hrest.keeps (fun sc hsc => hall sc (List.mem_cons_of_mem _ hsc)) g hg hpos
    · rw [setAllCalls_cons hset] at hbad
      by_cases hfirst : KeepsTrack ⟨p.k, p.ps, fd⟩
      · obtain ⟨g, hg, hg0, hgm⟩ := hrest.loses fun hall =>
          hbad (List.forall_mem_cons.mpr ⟨hfirst, hall⟩)
        exact ⟨g, List.mem_cons_of_mem _ hg, hg0, hgm⟩
      · -- the descriptor is not tracked behind its own call, nor handed on again
        obtain ⟨hopen, hmembers⟩ := hlost hfirst
        refine ⟨fd, List.mem_cons_self, Kernel.isOpen_nonneg hopen, fun hmem => ?_⟩
        rcases hrest.only fd hmem with hmem | hmem
        · rw [hmembers] at hmem
          exact hfds.fresh fd List.mem_cons_self hmem
        · exact (List.nodup_cons.mp hfds.nodup).1 hmem

/-! ## 3. Acquiring -/

/-- What an acquiring operation has in hand once its calls of `open` or `pipe` are made: the table
    and the store then, the numbers these calls gave, and those to be handed to set. -/
structure Grab where
  k : Kernel
  ps : Fdstore
  given : List Int
  fds : List Int

def grab (p : Process) : Acquire → Grab
  | .openPath flags =>
    let (k, fd) := kernel.openPath p.k flags
    ⟨k, p.ps, [fd], [fd]⟩
  | .pipe =>
    match p.k.pipe with
    | (k, none) => ⟨k, p.ps, [], []⟩
    | (k, some (pfd0, pfd1)) => ⟨k, p.ps, [pfd0, pfd1], [pfd0, pfd1]⟩
  | .get2 flags =>
    match bstgFdstoreGetraw p.ps with
    | .error _ => ⟨p.k, p.ps, [], []⟩
    | .ok (ps, fd) =>
      if fd > 0 then ⟨p.k, ps, [], []⟩
      else
        let t := openTries kernel flags omodes p.k
        ⟨t.state, ps, t.results, t.found.toList⟩

/-- The numbers are fresh in the table `k`, and the table `k'` is `k` with them open. -/
structure Fresh (k k' : Kernel) (given : List Int) : Prop where
  fresh : ∀ n ∈ given, 0 ≤ n → ¬ k.IsOpen n
  opens : ∀ n, k'.IsOpen n ↔ k.IsOpen n ∨ n ∈ given ∧ 0 ≤ n

theorem fresh_nil {k k' : Kernel} (h : k.SameOpen k') : Fresh k k' [] := by
  refine ⟨fun n hn => absurd hn List.not_mem_nil, fun n => (h n).trans ⟨.inl, fun hn => ?_⟩⟩
  rcases hn with hn | hn
  · exact hn
  · exact absurd hn.1 List.not_mem_nil

theorem fresh_one {k k' : Kernel} {fd : Int} (h : k.Opens k' fd) : Fresh k k' [fd] := by
  obtain ⟨h0, hclosed, hiff⟩ := h
  refine ⟨fun n hn _ => ?_, fun n => (hiff n).trans ?_⟩
  · rw [List.mem_singleton.mp hn]
    exact hclosed
  · rw [List.mem_singleton]
    exact or_congr_right ⟨fun hn => ⟨hn, by omega⟩, fun hn => hn.1⟩

/-- A call of `open`. -/
theorem fresh_open (k : Kernel) : Fresh k k.openFile.1 [k.openFile.2] := by
  rcases k.openFile_spec with ⟨hfail, hsame⟩ | ⟨hopens, -⟩
  · rw [hfail]
    refine ⟨fun n hn h0 => ?_, fun n => (hsame n).trans ⟨.inl, fun hn => ?_⟩⟩
    · rw [List.mem_singleton.mp hn] at h0
      exact absurd h0 (by decide)
    · rcases hn with hn | ⟨hn, h0⟩
      · exact hn
      · rw [List.mem_singleton.mp hn] at h0
        exact absurd h0 (by decide)
  · exact fresh_one hopens

/-- Numbers given in two goes. -/
theorem Fresh.append {k k₁ k₂ : Kernel} {given given' : List Int} (h : Fresh k k₁ given)
    (h' : Fresh k₁ k₂ given') : Fresh k k₂ (given ++ given') := by
  refine ⟨fun n hn h0 hopen => ?_, fun n => ?_⟩
  · rcases List.mem_append.mp hn with hn | hn
    · exact h.fresh n hn h0 hopen
    · exact h'.fresh n hn h0 ((h.opens n).mpr (.inl hopen))
  · rw [h'.opens, h.opens, List.mem_append, or_assoc, or_and_right]

theorem fresh_openTries (flags modes : List OpenFlag) (k : Kernel) :
    Fresh k (openTries kernel flags modes k).state (openTries kernel flags modes k).results := by
  induction modes generalizing k with
  | nil => exact fresh_nil fun _ => Iff.rfl
  | cons omode modes ih =>
    rw [openTries]
    dsimp only
    split
    · exact fresh_open k
    · exact (fresh_open k).append (ih k.openFile.1)

/-- Of the results of the calls of `open` only the last can be positive. -/
theorem openTries_positive {K : Type} {sys : Sys K} {flags modes : List OpenFlag} {k : K} {n : Int}
    (hn : n ∈ (openTries sys flags modes k).results) (hpos : 0 < n) :
    (openTries sys flags modes k).found = some n := by
  induction modes generalizing k with
  | nil => exact absurd hn List.not_mem_nil
  | cons omode modes ih =>
    rw [openTries] at hn ⊢
    dsimp only at hn ⊢
    by_cases hfd : (sys.openPath k ([omode, .O_NONBLOCK, .O_NOCTTY] ++ flags)).2 > 0
    · rw [if_pos hfd] at hn ⊢
      rw [List.mem_singleton.mp hn]
    · rw [if_neg hfd] at hn ⊢
      rcases List.mem_cons.mp hn with heq | hn
      · exact absurd (heq ▸ hpos) hfd
      · exact ih hn

/-- What is in hand is fresh, and every positive number given is handed on. -/
structure GrabOk (p : Process) (g : Grab) : Prop where
  store : ∃ count, g.ps = p.ps.probed count
  fresh : Fresh p.k g.k g.given
  handed : ∀ fd ∈ g.fds, fd ∈ g.given
  positive : ∀ n ∈ g.given, 0 < n → n ∈ g.fds
  nodup : g.fds.Nodup

theorem grab_ok {p : Process} (h : Tracks p) (a : Acquire) : GrabOk p (grab p a) := by
  cases a with
  | openPath flags =>
    exact ⟨⟨_, rfl⟩, fresh_open p.k, fun fd hfd => hfd, fun n hn _ => hn, List.nodup_singleton _⟩
  | pipe =>
    rcases p.k.pipe_spec with ⟨hnone, hsame⟩ | ⟨n, m, k₁, hsome, hn, hm⟩
    · have hgrab : grab p .pipe = ⟨p.k.pipe.1, p.ps, [], []⟩ := by
        unfold grab
        rw [← Prod.mk.eta (p := p.k.pipe), hnone]
      rw [hgrab]
      exact ⟨⟨_, rfl⟩, fresh_nil hsame, fun fd hfd => hfd, fun n hn _ => hn, List.nodup_nil⟩
    · have hgrab : grab p .pipe = ⟨p.k.pipe.1, p.ps, [n, m], [n, m]⟩ := by
        unfold grab
        rw [← Prod.mk.eta (p := p.k.pipe), hsome]
      rw [hgrab]
      refine ⟨⟨_, rfl⟩, (fresh_one hn).append (fresh_one hm), fun fd hfd => hfd,
        fun n hn _ => hn, ?_⟩
      have hne : n ≠ m := by
        intro heq
        exact hm.2.1 ((hn.2.2 m).mpr (.inr heq.symm))
      simp [hne]
  | get2 flags =>
    obtain ⟨c, fd, hraw, -, hspec⟩ := getraw_spec h.valid
    rcases hspec with hmem | ⟨hmiss, -, -⟩
    · have hgrab : grab p (.get2 flags) = ⟨p.k, p.ps.probed (p.ps.count + c), [], []⟩ := by
        have hpos : fd > 0 := h.valid.pos fd hmem
        simp only [grab, hraw, hpos, if_true]
      rw [hgrab]
      exact ⟨⟨_, rfl⟩, fresh_nil fun _ => Iff.rfl, fun fd hfd => hfd, fun n hn _ => hn,
        List.nodup_nil⟩
    · subst hmiss
      have hgrab : grab p (.get2 flags) = ⟨(openTries kernel flags omodes p.k).state,
          p.ps.probed (p.ps.count + c), (openTries kernel flags omodes p.k).results,
          (openTries kernel flags omodes p.k).found.toList⟩ := by
        have hneg : ¬ (-1 : Int) > 0 := by decide
        simp only [grab, hraw, hneg, if_false]
      rw [hgrab]
      refine ⟨⟨_, rfl⟩, fresh_openTries flags omodes p.k, fun fd hfd => ?_, fun n hn hpos => ?_, ?_⟩
      · exact (openTries_found (Option.mem_toList.mp hfd)).2
      · exact Option.mem_toList.mpr (openTries_positive hn hpos)
      · cases (openTries kernel flags omodes p.k).found with
        | none => exact List.nodup_nil
        | some fd => exact List.nodup_singleton fd

/-- An acquiring operation hands on what it has in hand. -/
theorem acquire_eq {p : Process} (h : Tracks p) (a : Acquire) :
    acquire p a = setAll (grab p a).k (grab p a).ps (grab p a).fds := by
  cases a with
  | openPath flags => rfl
  | pipe =>
    unfold acquire grab
    generalize p.k.pipe = r
    obtain ⟨k, ends⟩ := r
    cases ends with
    | none => rfl
    | some ends => rfl
  | get2 flags =>
    have hset : ∀ (k : Kernel) (ps : Fdstore) (fd : Int), (do
        let (k, ps, _) ← bstgFdstoreSet kernel k ps fd
        pure ⟨k, ps⟩) = setAll k ps [fd] := fun k ps fd => rfl
    have hget : acquire p (.get2 flags) = (do
        let (k, ps, _) ← bstgFdstoreGet2 kernel p.k p.ps flags
        pure ⟨k, ps⟩) := rfl
    rw [hget]
    have hout := get2_outcome kernel h.valid p.k flags
    generalize get2SetCalls kernel p.k p.ps flags = calls at hout
    generalize bstgFdstoreGet2 kernel p.k p.ps flags = res at hout
    cases hout with
    | found hraw hmem =>
      have hpos := h.valid.pos _ hmem
      simp only [grab, hraw, gt_iff_lt, hpos, if_true]
      rfl
    | opened hraw hfound =>
      have hneg : ¬ (-1 : Int) > 0 := by decide
      simp only [grab, hraw, hneg, if_false, hfound]
      exact hset _ _ _
    | nothing hraw hfound =>
      have hneg : ¬ (-1 : Int) > 0 := by decide
      simp only [grab, hraw, hneg, if_false, hfound]
      rfl

/-- The calls of set in an acquiring operation. -/
def acquireCalls (p : Process) (a : Acquire) : List (SetCall Kernel) :=
  setAllCalls (grab p a).k (grab p a).ps (grab p a).fds

/-- No call of `open` or `pipe` in the operation gives number 0, and every call of set keeps track
    of its descriptor. -/
def KeepsAll (p : Process) (a : Acquire) : Prop :=
  0 ∉ (grab p a).given ∧ ∀ sc ∈ acquireCalls p a, KeepsTrack sc

/-- What an acquiring operation that ends does to a process. -/
structure AcquireStep (p : Process) (a : Acquire) (p' : Process) : Prop where
  tracks : Tracks p'
  opens : ∀ n, p'.k.IsOpen n ↔ p.k.IsOpen n ∨ n ∈ (grab p a).given ∧ 0 ≤ n
  grows : p.ps.members ⊆ p'.ps.members
  only : ∀ n ∈ p'.ps.members, n ∈ p.ps.members ∨ ¬ p.k.IsOpen n
  keeps : KeepsAll p a ↔ ∀ n ∈ (grab p a).given, 0 ≤ n → n ∈ p'.ps.members

theorem acquire_step {p : Process} (h : Tracks p) (a : Acquire) :
    (KeepsAll p a → ∃ p', acquire p a = .ok p') ∧
      ∀ p', acquire p a = .ok p' → AcquireStep p a p' := by
  have hg := grab_ok h a
  unfold KeepsAll acquireCalls
  rw [acquire_eq h a]
  generalize hgrab : grab p a = g at hg
  obtain ⟨⟨count, hps⟩, hfresh, hhanded, hpositive, hnodup⟩ := hg
  have htracks : Tracks ⟨g.k, g.ps⟩ := by
    rw [hps]
    exact h.mono (fun n hn => (hfresh.opens n).mpr (.inl hn)) count
  have hmembers : g.ps.members = p.ps.members := by
    rw [hps]
    rfl
  have hopen : ∀ fd ∈ g.fds, 0 < fd → g.k.IsOpen fd :=
    fun fd hfd hpos => (hfresh.opens fd).mpr (.inr ⟨hhanded fd hfd, Int.le_of_lt hpos⟩)
  have hnew : ∀ fd ∈ g.given, 0 ≤ fd → fd ∉ p.ps.members :=
    fun fd hfd h0 hmem => hfresh.fresh fd hfd h0 (h.live fd hmem)
  have hnew' : ∀ fd ∈ g.fds, fd ∉ g.ps.members := by
    intro fd hfd hmem
    rw [hmembers] at hmem
    exact hnew fd (hhanded fd hfd) (Int.le_of_lt (h.valid.pos fd hmem)) hmem
  have hfds : Handable ⟨g.k, g.ps⟩ g.fds := ⟨hopen, hnew', hnodup⟩
  refine ⟨fun hkeep => setAll_ends htracks hfds hkeep.2, fun p' hp' => ?_⟩
  have hstep := setAll_step htracks hfds hp'
  refine ⟨hstep.tracks, ?_, ?_, ?_, ?_⟩
  · intro n
    rw [hgrab]
    exact (hstep.same n).trans (hfresh.opens n)
  · rw [← hmembers]
    exact hstep.grows
  · intro n hn
    rcases hstep.only n hn with hmem | hfd
    · rw [hmembers] at hmem
      exact .inl hmem
    · exact .inr (hfresh.fresh n (hhanded n hfd) (Int.le_of_lt (hstep.tracks.valid.pos n hn)))
  · rw [KeepsAll, acquireCalls, hgrab]
    constructor
    · intro hkeep n hn h0
      have hne : n ≠ 0 := fun hz => hkeep.1 (hz ▸ hn)
      have hpos : 0 < n := by omega
      exact hstep.keeps hkeep.2 n (hpositive n hn hpos) hpos
    · intro hall
      refine ⟨fun h0 => ?_, ?_⟩
      · exact absurd (hstep.tracks.valid.pos 0 (hall 0 h0 (Int.le_refl 0))) (by decide)
      · by_contra hbad
        obtain ⟨fd, hfd, h0, hlost⟩ := hstep.loses hbad
        exact hlost (hall fd (hhanded fd hfd) h0)

end Fembot
