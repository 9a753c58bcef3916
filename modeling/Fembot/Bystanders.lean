/-
  File:      Fembot/Bystanders.lean
  Subject:   WHAT THE OPERATIONS LEAVE ALONE: the descriptors that were open when the run began and
             that the store does not track.

  An operation uses only descriptors that it obtained (OperationUses.lean), and obtains only numbers
  that were free or that the store tracks. So over every run such a descriptor stays bound to its
  file, and no call that the process makes is on it, but for what `mkfuncs.sh` writes to descriptor 2.

  * `Bystander`, `Aside` -- the descriptor, and the invariant;
  * `call_aside` -- what each call does to it, in the process that dispatches; a child is on its own;
  * `bystanders_untouched` -- over every run.
-/
import Fembot.Children
import Fembot.OperationUses
import Fembot.Rebinding

namespace Fembot

open Library

/-! ## 1. Free and tracked numbers -/

namespace Kernel

variable {k : Kernel}

/-- `open` leaves what is open as it was. -/
theorem openFile_others {n : Int} (h : k.IsOpen n) : k.openFile.1.slot n = k.slot n := by
  unfold openFile
  split
  · cases hfree : k.lowestFree with
    | none => rfl
    | some m =>
      refine (put_slot (Int.natCast_nonneg m) _ n).trans (if_neg fun hn => ?_)
      exact (lowestFree_spec hfree).2.1 (hn ▸ h)
  · rfl

theorem pipe_others {n : Int} (h : k.IsOpen n) : k.pipe.1.slot n = k.slot n := by
  unfold pipe
  split
  · cases hfree : k.lowestFree with
    | none => rfl
    | some m =>
      have hm : n ≠ m := fun hn => (lowestFree_spec hfree).2.1 (hn ▸ h)
      have hfirst := (put_slot (k := k.asked) (Int.natCast_nonneg m) (some k.answers.head.file) n).trans
        (if_neg hm)
      dsimp only
      cases hfree' : (k.asked.put m (some k.answers.head.file)).lowestFree with
      | none => rfl
      | some m' =>
        refine (put_slot (Int.natCast_nonneg m') _ n).trans ((if_neg fun hn => ?_).trans hfirst)
        refine (lowestFree_spec hfree').2.1 (hn ▸ ?_)
        exact (isOpen_put (Int.natCast_nonneg m) _ n).mpr (.inl h)
  · rfl

theorem close_others {fd n : Int} (h : n ≠ fd) : (k.close fd).1.slot n = k.slot n := by
  unfold close
  split
  · rename_i hopen
    exact (put_slot (isOpen_nonneg hopen) _ n).trans (if_neg h)
  · rfl

theorem closes_others (fds : List Int) {n : Int} (h : n ∉ fds) :
    (fds.foldl (fun k fd => (k.close fd).1) k).slot n = k.slot n := by
  induction fds generalizing k with
  | nil => rfl
  | cons fd fds ih =>
    have hfd : n ≠ fd := fun he => h (he ▸ List.mem_cons_self)
    exact (ih fun hfds => h (List.mem_cons_of_mem _ hfds)).trans (close_others hfd)

end Kernel

theorem openTries_others {k : Kernel} {flags modes : List OpenFlag} {n : Int} (h : k.IsOpen n) :
    (openTries kernel flags modes k).state.slot n = k.slot n := by
  induction modes generalizing k with
  | nil => rfl
  | cons omode modes ih =>
    rw [openTries]
    dsimp only [kernel]
    have hfirst := Kernel.openFile_others h
    split
    · exact hfirst
    · refine (ih ?_).trans hfirst
      rwa [Kernel.IsOpen, hfirst]

/-! ## 2. Bystanders -/

/-- The descriptor is open, and the store does not track it. -/
def Bystander (w : World) (n : Int) : Prop := w.k.IsOpen n ∧ n ∉ w.ps.members

/-- The bystanders of `w₀` are as they were, none is tracked, and none is held. -/
structure Aside (w₀ : World) (g : Held) (k : Kernel) (ps : Fdstore) : Prop where
  same : ∀ n, Bystander w₀ n → k.slot n = w₀.k.slot n
  tracked : ∀ n ∈ ps.members, ¬ Bystander w₀ n
  held : ∀ fd ∈ g.fds, ¬ Bystander w₀ fd

variable {w₀ : World} {g : Held} {k k' : Kernel} {ps ps' : Fdstore}

theorem Aside.isOpen (h : Aside w₀ g k ps) {n : Int} (hn : Bystander w₀ n) : k.IsOpen n := by
  rw [Kernel.IsOpen, h.same n hn]
  exact hn.1

/-- A number that was free is that of no bystander; nor is one below 0. -/
theorem Aside.of_fresh (h : Aside w₀ g k ps) {fd : Int} (hfd : 0 ≤ fd → ¬ k.IsOpen fd) :
    ¬ Bystander w₀ fd := fun hb => hfd (Kernel.isOpen_nonneg hb.1) (h.isOpen hb)

/-- Calls that open numbers which were free. -/
theorem Aside.opened (h : Aside w₀ g k ps) {given : List Int} (hfresh : Fresh k k' given)
    (hothers : ∀ n, k.IsOpen n → k'.slot n = k.slot n) {g' : Held}
    (hg : ∀ fd ∈ g'.fds, fd ∈ g.fds ∨ fd ∈ given) : Aside w₀ g' k' ps := by
  refine ⟨fun n hn => (hothers n (h.isOpen hn)).trans (h.same n hn), h.tracked, fun fd hfd => ?_⟩
  rcases hg fd hfd with hin | hin
  · exact h.held fd hin
  · exact h.of_fresh (hfresh.fresh fd hin)

/-- `bstg_fdstore_set` of a descriptor that is none. -/
theorem Aside.set (h : Aside w₀ g k ps) (hv : ps.Valid) {fd r : Int} (hfd : ¬ Bystander w₀ fd)
    (hset : bstgFdstoreSet kernel k ps fd = .ok (k', ps', r)) : Aside w₀ g k' ps' := by
  obtain ⟨count, hrep, rfl, rfl⟩ | ⟨count, hnot, -, hps⟩ := set_inv hv hset
  · refine ⟨fun n hn => ?_, h.tracked, h.held⟩
    have hne : n ≠ r := fun he => h.tracked r hrep.2.2.1 (he ▸ hn)
    exact ((Kernel.dup2_slot hrep.2.2.2 n).trans (if_neg hne)).trans (h.same n hn)
  · refine ⟨fun n hn => (hnot.slot n).trans (h.same n hn), fun n hn => ?_, h.held⟩
    obtain ⟨-, rfl⟩ | ⟨-, hin, rfl⟩ := hps
    · exact h.tracked n hn
    · rcases Finset.mem_insert.mp hn with rfl | hn
      · exact hfd
      · exact h.tracked n hn

/-- Neither the answers to come nor the probes of the store matter. -/
theorem Aside.probed (h : Aside w₀ g k ps) (hk : k'.slot = k.slot) (count : Nat) :
    Aside w₀ g k' (ps.probed count) := by
  refine ⟨fun n hn => ?_, h.tracked, h.held⟩
  rw [hk]
  exact h.same n hn

theorem Aside.holding (h : Aside w₀ g k ps) {fd : Int} (hfd : ¬ Bystander w₀ fd) :
    Aside w₀ { g with fds := fd :: g.fds } k ps := by
  refine ⟨h.same, h.tracked, fun n hn => ?_⟩
  rcases List.mem_cons.mp hn with rfl | hn
  · exact hfd
  · exact h.held n hn

/-- `bstg_fdstore_get2`: what it hands out is none. -/
theorem Aside.get2 (h : Aside w₀ g k ps) (hv : ps.Valid) {flags : List OpenFlag} {fd : Int}
    (hget : bstgFdstoreGet2 kernel k ps flags = .ok (k', ps', fd)) :
    Aside w₀ { g with fds := fd :: g.fds } k' ps' := by
  obtain ⟨count, -, hmem, rfl, rfl⟩ | ⟨count, -, ⟨opened, hfound, hset⟩ | ⟨-, rfl, rfl, rfl⟩⟩ :=
    get2_inv hv hget
  · exact (h.probed rfl count).holding (h.tracked fd hmem)
  · have hfresh := fresh_openTries flags omodes k
    have hin := (openTries_found hfound).2
    have hopened : Aside w₀ g (openTries kernel flags omodes k).state (ps.probed count) :=
      (h.probed rfl count).opened hfresh (fun n hn => openTries_others hn) fun n hn => .inl hn
    have hnone : ¬ Bystander w₀ opened := h.of_fresh (hfresh.fresh opened hin)
    refine (hopened.set (hv.probed count) hnone hset).holding ?_
    obtain ⟨_, hrep, -, -⟩ | ⟨_, -, rfl, -⟩ := set_inv (hv.probed count) hset
    · exact h.tracked fd hrep.2.2.1
    · exact hnone
  · refine ((h.probed rfl count).opened (fresh_openTries flags omodes k)
      (fun n hn => openTries_others hn) fun n hn => .inl hn).holding ?_
    exact h.of_fresh (fun h0 => absurd h0 (by decide))

theorem Aside.close (h : Aside w₀ g k ps) {fd : Int} (hfd : fd ∈ g.fds) :
    Aside w₀ g (k.close fd).1 ps := by
  refine ⟨fun n hn => ?_, h.tracked, h.held⟩
  have hne : n ≠ fd := fun he => h.held fd hfd (he ▸ hn)
  exact (Kernel.close_others hne).trans (h.same n hn)

theorem Aside.open (h : Aside w₀ g k ps) :
    Aside w₀ { g with fds := k.openFile.2 :: g.fds } k.openFile.1 ps := by
  refine h.opened (fresh_open k) (fun n hn => Kernel.openFile_others hn) fun n hn => ?_
  rcases List.mem_cons.mp hn with rfl | hn
  · exact .inr List.mem_cons_self
  · exact .inl hn

/-- `bstg_fdstore_closeall` closes the tracked descriptors only. -/
theorem Aside.closeall (h : Aside w₀ g k ps) (hv : ps.Valid) {rc : Int}
    (hclose : bstgFdstoreCloseall kernel k ps = .ok (k', ps', rc)) : Aside w₀ g k' ps' := by
  rw [closeall_spec hv] at hclose
  cases hclose
  refine ⟨fun n hn => ?_, fun n hn => absurd hn (Finset.notMem_empty n), h.held⟩
  have hnot : n ∉ ps.members.sort (· ≤ ·) := fun hmem =>
    h.tracked n ((Finset.mem_sort _).mp hmem) hn
  exact (Kernel.closes_others _ hnot).trans (h.same n hn)

/-! ## 3. Calls -/

/-- The process is a child, or the bystanders of `w₀` are aside. -/
structure Apart (w₀ : World) (g : Held) (u : World) : Prop where
  valid : u.ps.Valid
  aside : u.child = true ∨ Aside w₀ g u.k u.ps

theorem handle_child {c : Call} {u u' : World} {r : c.Ret} (hu : u.child = true)
    (hs : handle c u = .ok (r, u')) : u'.child = true := by
  by_cases hg : c.group = .process
  · cases c with
    | fork =>
      obtain rfl := world_eq hs
      unfold World.fork
      split
      · split
        · rfl
        · split <;> exact hu
      · exact hu
    | waitpidNohang pid =>
      obtain rfl := world_eq hs
      unfold World.waitpidNohang
      split
      · split <;> exact hu
      · exact hu
    | waitpid pid =>
      obtain rfl := world_eq hs
      unfold World.waitpid
      split
      · split <;> exact hu
      · exact hu
    | posixSpawn path =>
      obtain rfl := world_eq hs
      unfold World.posixSpawn
      split <;> exact hu
    | waits | kill =>
      cases hs
      exact hu
    | overflow => cases hs
    | _ => cases hg
  · exact ((handle_framed hs).child hg).trans hu

theorem Aside.pipe (h : Aside w₀ g k ps) (ends : Option (Int × Int)) (hends : k.pipe.2 = ends) :
    Aside w₀ (g.obtain .pipe ends) k.pipe.1 ps := by
  have hothers : ∀ n, k.IsOpen n → k.pipe.1.slot n = k.slot n := fun n hn => Kernel.pipe_others hn
  obtain ⟨hnone, hsame⟩ | ⟨n, m, k₁, hsome, hn, hm⟩ := k.pipe_spec
  · obtain rfl : ends = none := hends.symm.trans hnone
    exact h.opened (fresh_nil hsame) hothers fun fd hfd => .inl hfd
  · obtain rfl : ends = some (n, m) := hends.symm.trans hsome
    refine h.opened ((fresh_one hn).append (fresh_one hm)) hothers fun fd hfd => ?_
    rcases List.mem_cons.mp hfd with rfl | hfd
    · exact .inr List.mem_cons_self
    · rcases List.mem_cons.mp hfd with rfl | hfd
      · exact .inr (List.mem_cons_of_mem _ List.mem_cons_self)
      · exact .inl hfd

/-- What each call does, in a process that has not become a child. -/
theorem call_aside {basedir : Path} {c : Call} {u u' : World} {r : c.Ret} (huse : Uses basedir g c)
    (hown : OwnChildren c u) (h : Apart w₀ g u) (hs : handle c u = .ok (r, u')) :
    Apart w₀ (g.obtain c r) u' := by
  refine ⟨handle_valid huse.store h.valid hs, ?_⟩
  by_cases hchild : u.child = true
  · exact .inl (handle_child hchild hs)
  have haside : Aside w₀ g u.k u.ps := h.aside.resolve_left hchild
  have hfds := huse.fds
  refine .inr ?_
  by_cases hg : c.group.onTable = true
  · cases c with
    | get2 flags =>
      obtain ⟨k, ps, paths, hget, rfl⟩ := World.get2_inv hs
      exact haside.get2 h.valid hget
    | set fd =>
      obtain ⟨k, ps, rc, hset, rfl⟩ := World.set_inv hs
      exact haside.set h.valid (haside.held fd (hfds fd List.mem_cons_self)) hset
    | closeall =>
      obtain ⟨k, ps, hclose, rfl⟩ := World.store_inv hs
      exact haside.closeall h.valid hclose
    | close fd =>
      cases hs
      exact haside.close (hfds fd List.mem_cons_self)
    | closedir fd =>
      cases hs
      exact haside.close (hfds fd List.mem_cons_self)
    | openPath path flags =>
      cases hs
      exact haside.open
    | openDot =>
      cases hs
      have hanswers : ∀ answers, Aside w₀ g { u.k with answers := answers } u.ps :=
        fun answers => ⟨haside.same, haside.tracked, haside.held⟩
      exact (hanswers _).open
    | opendir path =>
      have hs : u.opendir = (r, u') := Except.ok.inj hs
      unfold World.opendir at hs
      split at hs
      · cases hs
        exact ⟨haside.open.same, haside.tracked, haside.held⟩
      · cases hs
        exact haside.open
    | pipe =>
      have hs : (u.k.pipe.2, { u with k := u.k.pipe.1 }) = (r, u') := Except.ok.inj hs
      obtain ⟨hends, rfl⟩ := Prod.mk.inj hs
      exact haside.pipe r hends
    | fdopendir fd =>
      cases hs
      exact ⟨haside.same, haside.tracked, haside.held⟩
    | fdstoreInit | fdstoreDestroy => exact absurd rfl huse.store
    | preexec | exit | execve | putenv | sleep => exact absurd hown hchild
    | _ => cases hg
  · have hf := handle_framed hs
    rw [hf.k (Bool.eq_false_iff.mpr hg), hf.ps (Bool.eq_false_iff.mpr hg)]
    have hgr : (g.obtain c r).fds = g.fds := by
      cases c <;> first | rfl | exact absurd rfl hg
    exact ⟨haside.same, haside.tracked, fun fd hfd => haside.held fd (hgr ▸ hfd)⟩

/-! ## 4. Runs -/

/-- A call of what `mkfuncs.sh` puts before each operation. -/
def Announces (pf : Funcs) (c : Call) : Prop :=
  pf.verbose ≠ 0 ∧ ((∃ d, c = .onFd (.write d) 2) ∨ c = .onFd .fsync 2 ∨ c = .onFd .tcdrain 2)

/-- The call uses what is held, or it announces the operation. -/
def UsesOrAnnounces (basedir : Path) (pf : Funcs) (g : Held) (c : Call) : Prop :=
  Uses basedir g c ∨ Announces pf c

theorem fembotFunc_within (basedir : Path) (pf : Funcs) (i : Nat) :
    (fembotFunc basedir pf i).Within (UsesOrAnnounces basedir pf) Held.obtain ⟨[], []⟩ := by
  unfold fembotFunc
  split
  · rename_i path body hget
    have hbody : body.Within (UsesOrAnnounces basedir pf) Held.obtain ⟨[], []⟩ :=
      (operations_within basedir pf _ (List.mem_of_getElem? hget)).imp fun _ _ => .inl
    unfold generatedFunc
    split
    · rename_i hverbose
      exact ⟨.inr ⟨hverbose, .inl ⟨_, rfl⟩⟩, fun _ => ⟨.inr ⟨hverbose, .inl ⟨_, rfl⟩⟩, fun _ =>
        ⟨.inr ⟨hverbose, .inr (.inl rfl)⟩, fun _ => ⟨.inr ⟨hverbose, .inr (.inr rfl)⟩, fun _ =>
          ⟨.inl (uses_none rfl rfl rfl nofun), fun _ => hbody⟩⟩⟩⟩⟩
    · exact hbody
  · exact ⟨.inl (uses_none rfl rfl rfl nofun), fun r => nomatch r⟩

/-- The call is on none of the bystanders of `w₀`, unless it announces an operation or is a
    child's. -/
def SparesBystanders (pf : Funcs) (w₀ : World) (c : Call) (u : World) : Prop :=
  u.child = true ∨ Announces pf c ∨ ∀ fd ∈ c.fds, ¬ Bystander w₀ fd

/-- A process that is no child, with the bystanders of `w₀` aside. -/
structure Spared (w₀ t : World) : Prop where
  parent : Parent w₀.kids false t
  valid : t.ps.Valid
  aside : Aside w₀ ⟨[], []⟩ t.k t.ps

theorem bystanders_keeps (basedir : Path) (pf : Funcs) (w₀ : World) :
    Keeps basedir pf (Spared w₀) (SparesBystanders pf w₀) where
  func i w hI := by
    have hχ := (children_keeps basedir pf w₀.kids false).func i w hI.parent
    have happart : Apart w₀ ⟨[], []⟩ w := ⟨hI.valid, .inr hI.aside⟩
    refine (Prog.meets_of_within (fun g c u r u' hU hown hA hs => ?_) (fun g c u hU hown hA => ?_)
      (fembotFunc_within basedir pf i) hχ happart).post fun _ u hu => ?_
    · obtain huse | ⟨-, hannounce⟩ := hU
      · exact call_aside huse hown hA hs
      · obtain ⟨d, rfl⟩ | rfl | rfl := hannounce
        all_goals
          obtain rfl := onFd_asked hs
          exact ⟨hA.valid, hA.aside.imp id fun h => ⟨h.same, h.tracked, h.held⟩⟩
    · obtain hchild | haside := hA.aside
      · exact .inl hchild
      · exact .inr (hU.symm.imp id fun huse fd hfd => haside.held fd (huse.fds fd hfd))
    · obtain ⟨hparent, g, hA⟩ := hu
      have haside := hA.aside.resolve_left fun hc => nomatch hparent.child.symm.trans hc
      exact ⟨hparent, hA.valid, haside.same, haside.tracked, fun fd hfd => nomatch hfd⟩

/-- Over every run of a process that is no child, handles no signal and has a valid store, each
    descriptor that was open and untracked at its start stays bound to its file, and but for a
    child's calls, and what is written to descriptor 2 where the table is verbose, no call is on
    it. -/
theorem bystanders_untouched (basedir : Path) (pf : Funcs) (w : World)
    (hw : w.handlers = defaultHandlers) (hc : w.child = false) (hv : w.ps.Valid) (ids : List Nat) :
    Always (opStep basedir pf) w ids (fun t => ∀ n, Bystander w n → t.k.slot n = w.k.slot n) ∧
      EachCall basedir pf (SparesBystanders pf w) w ids := by
  have h : Spared w w :=
    ⟨⟨rfl, hc, hw⟩, hv, fun _ _ => rfl, fun n hn hb => hb.2 hn, fun fd hfd => nomatch hfd⟩
  have hkeeps := bystanders_keeps basedir pf w
  exact ⟨(hkeeps.always h ids).imp fun t ht => ht.aside.same, hkeeps.eachCall h ids⟩

/-- The standard streams of a process that closes all it tracks, then forks, and takes what pipe
    gives. -/
theorem bystanders_untouched_forking :
    Bystander forkingWorld 1 ∧
      Always (opStep "/mnt".toList ⟨0, 1, ⟨none, 0⟩, ⟨none, 0⟩⟩) forkingWorld [9, 1, 42]
        (fun t => ∀ n, Bystander forkingWorld n → t.k.slot n = forkingWorld.k.slot n) ∧
      EachCall "/mnt".toList ⟨0, 1, ⟨none, 0⟩, ⟨none, 0⟩⟩
        (SparesBystanders ⟨0, 1, ⟨none, 0⟩, ⟨none, 0⟩⟩ forkingWorld) forkingWorld [9, 1, 42] :=
  ⟨⟨rfl, Finset.notMem_empty 1⟩, bystanders_untouched "/mnt".toList _ forkingWorld rfl rfl
    (fdstoreInit_valid _) [9, 1, 42]⟩

end Fembot
