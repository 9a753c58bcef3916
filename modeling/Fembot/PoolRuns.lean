/-
  File:      Fembot/PoolRuns.lean
  Subject:   EVERY RUN OF THE TABLE IS A RUN OF THE POOL: what the 102 operations do to the descriptor
             table and the store, the operations of Pool.lean do.

  An operation of the table is a program with all its calls; Pool.lean has what the table and the
  store show of it, one or no operation of `PoolOp`. The two differ in the answers of the system:
  some calls of a program consume none that the table sees, and one call of `copyexe` here stands for
  two of the program. So the statement is about some answers.

  * `poolOps` -- what each place of the table comes to in the pool;
  * `Comes` -- the pool comes from one table and store to another, whatever is answered afterwards;
  * `Pooled`, `operations_pooled` -- each program comes to what `poolOps` says;
  * `pool_simulates` -- over every run, so that what holds of every run of the pool holds of the table:
    `tracks_of_run` is the one that the modules behind this one use.
-/
import Fembot.Bystanders
import Fembot.PoolAnswers

namespace Fembot

open Library

/-! ## 1. What the pool comes to -/

/-- By the operations `ops` the pool comes from the table and the store of `p` to `k` and `ps`,
    whatever is answered afterwards. -/
def Comes (p : Process) (ops : List PoolOp) (k : Kernel) (ps : Fdstore) : Prop :=
  Leads (fun p => run poolStep p ops) p ⟨k, ps⟩

variable {p : Process} {ops ops' : List PoolOp} {k k' : Kernel} {ps ps' : Fdstore}

theorem comes_refl (p : Process) : Comes p [] p.k p.ps := fun rest => ⟨rest, rfl⟩

theorem Comes.trans (h : Comes p ops k ps) (h' : Comes ⟨k, ps⟩ ops' k' ps') :
    Comes p (ops ++ ops') k' ps' := by
  intro rest
  obtain ⟨answers', hrun'⟩ := h' rest
  obtain ⟨answers, hrun⟩ := h answers'
  exact ⟨answers, (run_append_ok ops' hrun).trans hrun'⟩

/-- What differs in the answers to come only. -/
theorem Comes.same (h : Comes p ops k ps) (hslot : k'.slot = k.slot) (hlimit : k'.limit = k.limit) :
    Comes p ops k' ps := by
  intro rest
  obtain ⟨answers, hrun⟩ := h rest
  refine ⟨answers, hrun.trans ?_⟩
  show Except.ok (Process.mk (k.answering rest) ps) = .ok ⟨k'.answering rest, ps⟩
  rw [answering_eq hslot hlimit]

/-- One operation, with any answers. -/
theorem comes_step {op : PoolOp} (answers : Stream' Answer)
    (h : poolStep ⟨k.answering answers, ps⟩ op = .ok ⟨k', ps'⟩) : Comes ⟨k, ps⟩ [op] k' ps' := by
  intro rest
  obtain ⟨answers', hstep⟩ := poolStep_leads h rest
  exact ⟨answers', run_cons_ok [] hstep⟩

/-! ## 2. Open and close -/

theorem openFile_cases (k : Kernel) :
    k.openFile = (k.asked, -1) ∨
      ∃ n : Nat, k.slot n = none ∧ k.openFile = (k.asked.put n (some k.answers.head.file), (n : Int)) := by
  unfold Kernel.openFile
  split
  · cases hfree : k.lowestFree with
    | none => exact .inl rfl
    | some n =>
      have hclosed := (Kernel.lowestFree_spec hfree).2.1
      exact .inr ⟨n, Option.not_isSome_iff_eq_none.mp hclosed, rfl⟩
  · exact .inl rfl

/-- A file that is opened and closed again leaves no trace. -/
theorem open_close_same (k : Kernel) : (k.openFile.1.close k.openFile.2).1.slot = k.slot ∧
    (k.openFile.1.close k.openFile.2).1.limit = k.limit := by
  obtain hfail | ⟨n, hfree, hopen⟩ := openFile_cases k
  · rw [hfail]
    have hneg : ¬ k.asked.IsOpen (-1) := fun h => absurd (Kernel.isOpen_nonneg h) (by decide)
    rw [Kernel.close, if_neg hneg]
    exact ⟨rfl, rfl⟩
  · rw [hopen]
    have hn : (0 : Int) ≤ n := Int.natCast_nonneg n
    have hin : (k.asked.put n (some k.answers.head.file)).IsOpen n := by
      rw [Kernel.IsOpen, Kernel.put_slot hn, if_pos rfl]
      rfl
    rw [Kernel.close, if_pos hin]
    refine ⟨?_, rfl⟩
    funext m
    dsimp only
    rw [Kernel.put_slot hn, Kernel.put_slot hn]
    by_cases hm : m = n
    · rw [if_pos hm, hm, hfree]
    · rw [if_neg hm, if_neg hm]
      rfl

/-- Where 0 is open, `open` gives a positive number or -1. -/
theorem openFile_positive {k : Kernel} (h0 : k.IsOpen 0) (hpos : ¬ k.openFile.2 > 0) :
    k.openFile = (k.asked, -1) := by
  refine (openFile_cases k).resolve_right fun ⟨n, hfree, hopen⟩ => ?_
  rw [hopen] at hpos
  have hn : n = 0 := by
    dsimp only at hpos
    omega
  rw [hn] at hfree
  rw [Kernel.IsOpen, show k.slot 0 = none from hfree] at h0
  cases h0

/-! ## 3. The kinds of operations -/

/-- The process is no child and handles no signal, its store is valid, and 0 is open. -/
structure Ready (w : World) : Prop where
  parent : Parent w.kids false w
  valid : w.ps.Valid
  zero : w.k.IsOpen 0

/-- Behind the program the pool has come to its table and its store by `ops`, unless the process has
    become a child. -/
def Pooled (ops : List PoolOp) (p : Op Unit) : Prop :=
  ∀ w, Ready w → p.Meets handle (fun _ _ => True) w fun _ u =>
    u.child = true ∨ Comes ⟨w.k, w.ps⟩ ops u.k u.ps

/-- The table and the store are those of `w`, unless the process has become a child. -/
def Still (w u : World) : Prop := u.child = true ∨ u.k = w.k ∧ u.ps = w.ps

theorem still_of_framed {g : Group} {w u u' : World} (hg : g.onTable = false) (hf : Framed g u u')
    (hchild : u.child = true → u'.child = true) (h : Still w u) : Still w u' :=
  h.imp hchild fun ⟨hk, hps⟩ => ⟨(hf.k hg).trans hk, (hf.ps hg).trans hps⟩

theorem still_frames (w : World) :
    Frames [.get, .table, .store, .own] (Still w) fun _ _ => True where
  keep c u r u' hc hI hs := by
    refine still_of_framed ?_ (handle_framed hs) (fun hu => handle_child hu hs) hI
    cases hg : c.group with
    | get | table | store | own =>
      rw [hg] at hc
      cases hc
    | _ => rfl
  meets _ _ _ _ := trivial

theorem Still.comes {w u : World} (h : Still w u) : u.child = true ∨ Comes ⟨w.k, w.ps⟩ [] u.k u.ps := by
  refine h.imp id fun ⟨hk, hps⟩ => ?_
  rw [hk, hps]
  exact comes_refl _

/-- Programs without calls that are about the table. -/
theorem pooled_still (gs : List Group) {p : Op Unit} (hp : p.Only (Call.In gs))
    (hgs : (gs.all fun g => !([.get, .table, .store, .own] : List Group).contains g) = true) :
    Pooled [] p := fun w _ =>
  ((still_frames w).only hp hgs (.inr ⟨rfl, rfl⟩)).post fun _ _ hu => hu.comes

/-- Programs that fork: what a child does to its table does not matter. -/
theorem pooled_forked {gs : List Group} {p : Op Unit} (hp : p.Only (Call.In gs))
    (hgs : (gs.all fun g => !([.get, .table, .store] : List Group).contains g) = true)
    (hown : ∀ w, Ready w → p.Meets handle OwnChildren w fun _ => Parent w.kids false) : Pooled [] p := by
  intro w hw
  have hwithin : p.Within (fun _ => Call.In gs) (fun _ _ _ => ()) () :=
    hp.within (fun _ _ hc => hc) ()
  refine (Prog.meets_of_within (I := fun _ => Still w) (fun _ c u r u' hc hχ hI hs => ?_)
    (fun _ _ _ _ _ _ => trivial) hwithin (hown w hw) (.inr ⟨rfl, rfl⟩)).post
    fun _ u ⟨_, _, hu⟩ => hu.comes
  have hgood := List.all_eq_true.mp hgs c.group (List.contains_iff_mem.mp hc)
  by_cases hchild : u.child = true
  · exact .inl (handle_child hchild hs)
  · refine still_of_framed ?_ (handle_framed hs) (fun hu => handle_child hu hs) hI
    cases hg : c.group with
    | get | table | store =>
      rw [hg] at hgood
      cases hgood
    | own =>
      cases c with
      | preexec | exit | execve | putenv | sleep => exact absurd hχ hchild
      | _ => cases hg
    | _ => rfl

/-- A path is taken first. -/
theorem pooled_path {f : Path → Op Unit} (hf : ∀ path, Pooled ops (f path)) :
    Pooled ops (.call .path f) := fun w hw => by
  refine ⟨trivial, fun path u hs => ?_⟩
  cases hs
  exact hf _ { w with paths := w.paths.tail } ⟨⟨rfl, hw.parent.child, hw.parent.handlers⟩, hw.valid, hw.zero⟩

theorem acquire_get2 {flags : List OpenFlag} {fd : Int}
    (hget : bstgFdstoreGet2 kernel k ps flags = .ok (k', ps', fd)) :
    acquire ⟨k, ps⟩ (.get2 flags) = .ok ⟨k', ps'⟩ := by
  rw [acquire, hget]
  rfl

/-- A descriptor is taken from the store first, and what follows is not about the table. -/
theorem pooled_get (gs : List Group) {flags : List OpenFlag} {f : Int → Op Unit}
    (hf : ∀ fd, (f fd).Only (Call.In gs))
    (hgs : (gs.all fun g => !([.get, .table, .store, .own] : List Group).contains g) = true) :
    Pooled [.acquire (.get2 flags)] (.call (.get2 flags) f) := by
  refine fun w hw => ⟨trivial, fun fd u hs => ?_⟩
  obtain ⟨k, ps, paths, hget, rfl⟩ := World.get2_inv hs
  refine ((still_frames _).only (hf fd) hgs (.inr ⟨rfl, rfl⟩)).post fun _ u hu => hu.imp id ?_
  rintro ⟨hk, hps⟩
  rw [hk, hps]
  exact comes_step w.k.answers (acquire_get2 hget)

theorem pooled_sendfile : Pooled [.sendfile] srcSendfileSendfile := by
  refine fun w hw => ⟨trivial, fun fd w₁ hs₁ => ⟨trivial, fun s w₂ hs₂ => ⟨trivial, fun _ w₃ hs₃ => ?_⟩⟩⟩
  obtain ⟨k₁, ps₁, paths₁, hget₁, rfl⟩ := World.get2_inv hs₁
  obtain ⟨k₂, ps₂, paths₂, hget₂, rfl⟩ := World.get2_inv hs₂
  obtain rfl := onFd_asked hs₃
  refine .inr (comes_step w.k.answers ?_)
  show (acquire ⟨w.k, w.ps⟩ acquireGet >>= _) = _
  rw [acquireGet, acquire_get2 hget₁, exec_bind_ok]
  exact acquire_get2 hget₂

theorem pooled_openAndSet (flags : List OpenFlag) :
    Pooled [.acquire (.openPath flags)] (openAndSet flags) := by
  refine pooled_path fun path => fun w hw => ⟨trivial, fun fd w₁ hs₁ => ⟨trivial, fun _ w₂ hs₂ => ?_⟩⟩
  cases hs₁
  obtain ⟨k, ps, rc, hset, rfl⟩ := World.set_inv hs₂
  refine .inr (comes_step w.k.answers ?_)
  show setAll w.k.openFile.1 w.ps [w.k.openFile.2] = _
  rw [setAll, show bstgFdstoreSet kernel w.k.openFile.1 w.ps w.k.openFile.2 = _ from hset]
  rfl

/-- One end of the pipe is handed to the store. -/
theorem pipeEnd_meets (pfd : Int) (w : World) :
    (pipeEnd pfd).Meets handle (fun _ _ => True) w fun _ u =>
      ∃ r, bstgFdstoreSet kernel w.k w.ps pfd = .ok (u.k, u.ps, r) := by
  have hset : ∀ v : World, v.k = w.k → v.ps = w.ps → Prog.Meets handle (fun _ _ => True)
      (call (.set pfd)) v fun _ u => ∃ r, bstgFdstoreSet kernel w.k w.ps pfd = .ok (u.k, u.ps, r) := by
    refine fun v hk hps => ⟨trivial, fun _ u hs => ?_⟩
    obtain ⟨k, ps, rc, hset, rfl⟩ := World.set_inv hs
    rw [hk, hps] at hset
    exact ⟨rc, hset⟩
  refine ⟨trivial, fun val w₁ hs₁ => ?_⟩
  obtain rfl := onFd_asked hs₁
  show Prog.Meets handle _ (ite (val ≥ 0) _ _) _ _
  split
  · refine ⟨trivial, fun _ w₂ hs₂ => ?_⟩
    obtain rfl := onFd_asked hs₂
    exact hset _ rfl rfl
  · exact hset _ rfl rfl

theorem pooled_pipe : Pooled [.acquire .pipe] srcPipePipe := by
  refine fun w hw => ⟨trivial, fun ends w₁ hs₁ => ?_⟩
  have hs₁ : (w.k.pipe.2, { w with k := w.k.pipe.1 }) = (ends, w₁) := Except.ok.inj hs₁
  obtain ⟨hends, rfl⟩ := Prod.mk.inj hs₁
  cases ends with
  | none =>
    refine .inr (comes_step w.k.answers ((acquire_pipe ⟨w.k, w.ps⟩).trans ?_))
    rw [show Process.k ⟨w.k, w.ps⟩ = w.k from rfl, hends]
  | some ends =>
    show Prog.Meets handle _ (pipeEnd ends.1 >>= fun _ => pipeEnd ends.2) _ _
    refine Prog.meets_bind.mpr ((pipeEnd_meets ends.1 _).post fun _ w₂ ⟨r₁, hfirst⟩ => ?_)
    refine (pipeEnd_meets ends.2 w₂).post fun _ w₃ ⟨r₂, hsecond⟩ => ?_
    refine .inr (comes_step w.k.answers ((acquire_pipe ⟨w.k, w.ps⟩).trans ?_))
    rw [show Process.k ⟨w.k, w.ps⟩ = w.k from rfl, hends]
    dsimp only
    rw [setAll, show bstgFdstoreSet kernel w.k.pipe.1 w.ps ends.1 = _ from hfirst, exec_bind_ok]
    dsimp only
    rw [setAll, hsecond]
    rfl

theorem pooled_closeall : Pooled [.closeall] srcCloseCloseall := by
  refine fun w hw => ⟨trivial, fun rc u hs => ?_⟩
  obtain ⟨k, ps, hclose, rfl⟩ := World.store_inv hs
  refine .inr (comes_step w.k.answers ?_)
  show (bstgFdstoreCloseall kernel w.k w.ps >>= _) = _
  rw [hclose]
  rfl

theorem pooled_fdopendir : Pooled [.fdopendir] srcOpendirFdopendir := by
  refine fun w hw => ⟨trivial, fun fd w₁ hs₁ => ⟨trivial, fun dirp w₂ hs₂ => ?_⟩⟩
  obtain ⟨k, ps, paths, hget, rfl⟩ := World.get2_inv hs₁
  cases hs₂
  have hstep : poolStep ⟨w.k, w.ps⟩ .fdopendir = _ := fdopendir_eq hget
  show Prog.Meets handle _ (ite ((k.fdopendir fd).2 = true) _ _) _ _
  split
  · rename_i hdir
    refine ⟨trivial, fun _ u hs => ?_⟩
    cases hs
    exact .inr (comes_step w.k.answers (hstep.trans (by rw [if_pos hdir])))
  · rename_i hdir
    exact .inr (comes_step w.k.answers (hstep.trans (by rw [if_neg hdir])))

/-- Where `opendir` fails nothing is open that was not. -/
theorem opendir_inv {w w' : World} {path : Path} {dirp : Option Int}
    (hs : handle (.opendir path) w = .ok (dirp, w')) :
    dirp = none ∧ w'.k.slot = w.k.slot ∧ w'.k.limit = w.k.limit ∧ w'.ps = w.ps ∨
      dirp = some w.k.openFile.2 ∧ w' = { w with k := w.k.openFile.1 } := by
  have hs : w.opendir = (dirp, w') := Except.ok.inj hs
  unfold World.opendir World.openPath at hs
  dsimp only at hs
  split at hs
  · rename_i hfail
    cases hs
    obtain hopen | ⟨n, -, hopen⟩ := openFile_cases w.k
    · rw [hopen]
      exact .inl ⟨rfl, rfl, rfl, rfl⟩
    · rw [hopen] at hfail
      exact absurd hfail (by dsimp only; omega)
  · cases hs
    exact .inr ⟨rfl, rfl⟩

theorem pooled_opendir : Pooled [] srcOpendirOpendir := by
  refine pooled_path fun path => fun w hw => ⟨trivial, fun dirp w₁ hs₁ => ?_⟩
  obtain ⟨rfl, hslot, hlimit, hps⟩ | ⟨rfl, rfl⟩ := opendir_inv hs₁
  · refine .inr ?_
    rw [hps]
    exact (comes_refl ⟨w.k, w.ps⟩).same hslot hlimit
  · refine ⟨trivial, fun _ u hs => ?_⟩
    cases hs
    exact .inr ((comes_refl ⟨w.k, w.ps⟩).same (open_close_same w.k).1 (open_close_same w.k).2)

theorem pooled_readdir : Pooled [] srcOpendirReaddir := by
  refine pooled_path fun path => fun w hw => ⟨trivial, fun dup w₁ hs₁ => ?_⟩
  have hf := handle_framed hs₁
  have hk : w₁.k = w.k := hf.k rfl
  have hps : w₁.ps = w.ps := hf.ps rfl
  have hfree : ∀ v : World, v.k.slot = w.k.slot → v.k.limit = w.k.limit → v.ps = w.ps →
      (call (.free dup)).Meets handle (fun _ _ => True) v fun _ u =>
        u.child = true ∨ Comes ⟨w.k, w.ps⟩ [] u.k u.ps := by
    refine fun v hslot hlimit hps => ⟨trivial, fun _ u hs => .inr ?_⟩
    have hf := handle_framed hs
    rw [hf.k rfl, hf.ps rfl, hps]
    exact (comes_refl ⟨w.k, w.ps⟩).same hslot hlimit
  show Prog.Meets handle _ (ite (dup ≠ none) _ _) w₁ _
  split
  · refine ⟨trivial, fun dirp w₂ hs₂ => ?_⟩
    obtain ⟨rfl, hslot, hlimit, hps₂⟩ | ⟨rfl, rfl⟩ := opendir_inv hs₂
    · rw [hk] at hslot hlimit
      exact hfree w₂ hslot hlimit (hps₂.trans hps)
    · refine ⟨trivial, fun _ w₃ hs₃ => ⟨trivial, fun _ w₄ hs₄ => ?_⟩⟩
      cases hs₃
      cases hs₄
      obtain ⟨hslot, hlimit⟩ := open_close_same w₁.k
      rw [hk] at hslot hlimit
      exact hfree _ (hk ▸ hslot) (hk ▸ hlimit) hps
  · refine .inr ?_
    rw [hk, hps]
    exact comes_refl _

/-- The table as `open` of the directory finds it. -/
def World.dotAnswers (w : World) : Stream' Answer :=
  Stream'.cons ⟨w.k.answers.head.ok, w.cwd⟩ w.k.answers.tail

theorem pooled_chdir : Pooled [] srcChdirChdir := by
  refine fun w hw => ⟨trivial, fun cwdfd w₁ hs₁ => ?_⟩
  have hs₁ : ((w.k.answering w.dotAnswers).openFile.2,
      ({ w with k := (w.k.answering w.dotAnswers).openFile.1 } : World)) = (cwdfd, w₁) :=
    Except.ok.inj hs₁
  obtain ⟨rfl, rfl⟩ := Prod.mk.inj hs₁
  show Prog.Meets handle _ (ite ((w.k.answering w.dotAnswers).openFile.2 > 0) _ _) _ _
  split
  · refine ⟨trivial, fun path w₂ hs₂ => ⟨trivial, fun _ w₃ hs₃ => ⟨trivial, fun _ w₄ hs₄ =>
      ⟨trivial, fun _ w₅ hs₅ => ?_⟩⟩⟩⟩
    have hf₃ := handle_framed hs₃
    have hf₄ := handle_framed hs₄
    have hk : w₄.k = (w.k.answering w.dotAnswers).openFile.1 :=
      (hf₄.k rfl).trans ((hf₃.k rfl).trans ((handle_framed hs₂).k rfl))
    have hps : w₄.ps = w.ps := (hf₄.ps rfl).trans ((hf₃.ps rfl).trans ((handle_framed hs₂).ps rfl))
    cases hs₅
    obtain ⟨hslot, hlimit⟩ := open_close_same (w.k.answering w.dotAnswers)
    refine .inr ?_
    dsimp only
    rw [hps, hk]
    exact (comes_refl ⟨w.k, w.ps⟩).same hslot hlimit
  · rename_i hpos
    have hopen := openFile_positive (k := w.k.answering w.dotAnswers) hw.zero hpos
    refine .inr ((comes_refl ⟨w.k, w.ps⟩).same ?_ ?_)
    · exact congrArg (fun r => r.1.slot) hopen
    · exact congrArg (fun r => r.1.limit) hopen

theorem pooled_fchdir : Pooled [.fchdir] srcChdirFchdir := by
  refine fun w hw => ⟨trivial, fun cwdfd w₁ hs₁ => ?_⟩
  have hs₁ : ((w.k.answering w.dotAnswers).openFile.2,
      ({ w with k := (w.k.answering w.dotAnswers).openFile.1 } : World)) = (cwdfd, w₁) :=
    Except.ok.inj hs₁
  obtain ⟨rfl, rfl⟩ := Prod.mk.inj hs₁
  have hstep := fchdir_eq ⟨w.k.answering w.dotAnswers, w.ps⟩
  show Prog.Meets handle _ (ite ((w.k.answering w.dotAnswers).openFile.2 > 0) _ _) _ _
  split
  · rename_i hpos
    refine ⟨trivial, fun fd w₂ hs₂ => ⟨trivial, fun _ w₃ hs₃ => ⟨trivial, fun _ w₄ hs₄ =>
      ⟨trivial, fun _ w₅ hs₅ => ?_⟩⟩⟩⟩
    obtain ⟨k, ps, paths, hget, rfl⟩ := World.get2_inv hs₂
    have hf₃ := handle_framed hs₃
    have hf₄ := handle_framed hs₄
    have hk : w₄.k = k := (hf₄.k rfl).trans (hf₃.k rfl)
    have hps : w₄.ps = ps := (hf₄.ps rfl).trans (hf₃.ps rfl)
    cases hs₅
    refine .inr (comes_step w.dotAnswers (hstep.trans ((if_pos hpos).trans ?_)))
    have hacquire : acquire ⟨(w.k.answering w.dotAnswers).openFile.1, w.ps⟩ acquireGet = .ok ⟨k, ps⟩ :=
      acquire_get2 hget
    dsimp only
    rw [hacquire, exec_bind_ok, hk, hps]
    rfl
  · rename_i hpos
    exact .inr (comes_step w.dotAnswers (hstep.trans (if_neg hpos)))

/-- The answers that the pool is to be given, where `fstat` and `mmap` of copyexe succeed or not. -/
def mapAnswers (k : Kernel) (mapped : Bool) : Stream' Answer :=
  Stream'.cons k.answers.head (Stream'.cons ⟨mapped, 0⟩ k.answers.tail)

/-- `copyexe` of the pool where the file was opened. -/
theorem copyexe_pool {w : World} (flags : List OpenFlag) (hpos : w.k.openFile.2 > 0) (mapped : Bool) :
    poolStep ⟨w.k.answering (mapAnswers w.k mapped), w.ps⟩ (.copyexe flags) =
      if mapped then acquire ⟨(w.k.openFile.1.close w.k.openFile.2).1, w.ps⟩ (.get2 flags)
      else .ok ⟨(w.k.openFile.1.close w.k.openFile.2).1, w.ps⟩ := by
  have hopen : (w.k.answering (mapAnswers w.k mapped)).openFile =
      (w.k.openFile.1.answering (Stream'.cons ⟨mapped, 0⟩ w.k.answers.tail), w.k.openFile.2) :=
    openFile_answering w.k _
  have hasked : (w.k.openFile.1.answering (Stream'.cons ⟨mapped, 0⟩ w.k.answers.tail)).asked =
      w.k.openFile.1 := by
    show w.k.openFile.1.answering w.k.answers.tail = w.k.openFile.1
    rw [← Kernel.openFile_answers w.k]
    rfl
  rw [copyexe_eq]
  dsimp only
  rw [hopen]
  dsimp only
  rw [if_pos hpos, hasked]
  rfl

theorem pooled_copyexe (basedir : Path) (flags : List OpenFlag) :
    Pooled [.copyexe flags] (copyexe basedir flags) := by
  intro w hw
  -- from the first close on, with the mapping in hand
  have hend : ∀ (base : Area) (size : Nat) (v : World), v.k = w.k.openFile.1 → v.ps = w.ps →
      (base ≠ none → w.k.openFile.2 > 0) → Prog.Meets handle (fun _ _ => True) (do
        let _ ← call (.close w.k.openFile.2)
        if base ≠ none then do
          let fd ← call (.get2 flags)
          call (.posixMadvise base size)
          let _ ← call (.onFd (.ftruncate 0) fd)
          let _ ← call (.onFd (.pwrite (.base size) 0) fd)
          let _ ← call (.munmap base size) : Op Unit) v fun _ u =>
        u.child = true ∨ Comes ⟨w.k, w.ps⟩ [.copyexe flags] u.k u.ps := by
    intro base size v hk hps hbase
    refine ⟨trivial, fun rc v₁ hs₁ => ?_⟩
    cases hs₁
    dsimp only
    rw [hk]
    show Prog.Meets handle _ (ite (base ≠ none) _ _) _ _
    split
    · rename_i hmapped
      refine ⟨trivial, fun fd v₂ hs₂ => ?_⟩
      obtain ⟨k, ps, paths, hget, rfl⟩ := World.get2_inv hs₂
      have hrest : (do
          call (.posixMadvise base size)
          let _ ← call (.onFd (.ftruncate 0) fd)
          let _ ← call (.onFd (.pwrite (.base size) 0) fd)
          let _ ← call (.munmap base size) : Op Unit).Only (Call.In [.plain, .memory]) :=
        ⟨rfl, fun _ => ⟨rfl, fun _ => ⟨rfl, fun _ => ⟨rfl, fun _ => trivial⟩⟩⟩⟩
      refine ((still_frames _).only hrest rfl (.inr ⟨rfl, rfl⟩)).post fun _ u hu => hu.imp id ?_
      rintro ⟨hku, hpsu⟩
      rw [hku, hpsu]
      dsimp only at hget
      rw [hps] at hget
      refine comes_step _ ((copyexe_pool flags (hbase hmapped) true).trans ?_)
      exact acquire_get2 hget
    · refine .inr ?_
      dsimp only
      rw [hps]
      by_cases hpos : w.k.openFile.2 > 0
      · exact comes_step _ (copyexe_pool flags hpos false)
      · exact comes_step w.k.answers ((copyexe_eq ⟨w.k, w.ps⟩ flags).trans (if_neg hpos))
  refine ⟨trivial, fun fd w₁ hs₁ => ?_⟩
  cases hs₁
  show Prog.Meets handle _ (ite (w.k.openFile.2 > 0) _ _) _ _
  split
  · rename_i hpos
    refine ⟨trivial, fun st w₂ hs₂ => ?_⟩
    have hf₂ := handle_framed hs₂
    have hk₂ : w₂.k = w.k.openFile.1 := hf₂.k rfl
    have hps₂ : w₂.ps = w.ps := hf₂.ps rfl
    show Prog.Meets handle _ (ite (st.1 = 0) _ _) w₂ _
    split
    · refine ⟨trivial, fun base w₃ hs₃ => ?_⟩
      have hf₃ := handle_framed hs₃
      exact hend base _ w₃ ((hf₃.k rfl).trans hk₂) ((hf₃.ps rfl).trans hps₂) fun _ => hpos
    · exact hend none _ w₂ hk₂ hps₂ fun h => absurd rfl h
  · exact hend none 0 _ rfl rfl fun h => absurd rfl h

/-! ## 4. The table -/

/-- What an operation that takes one descriptor from the store comes to. -/
def gets : List PoolOp := [.acquire acquireGet]

/-- What each operation of the table comes to in the pool. -/
def poolOps : List (List PoolOp) := [
  [.copyexe []], [], [], [], [], [.acquire (.get2 [])], [],
  [], [], [.closeall], gets, [], [],
  gets, gets, gets, gets, gets, gets, gets, gets, gets, gets, gets, gets,
  [], [], gets, gets, gets, gets,
  [.acquire openAppend], [.acquire openAppendtrunc], [.acquire openOsync], [.acquire openRdwr],
  [.acquire openTrunc],
  [.fdopendir], [], [], gets, [], [], [.acquire .pipe], gets, gets, [], [],
  [], [], [.sendfile], gets, [], [], [], [], gets, [],
  gets, gets, gets, gets, gets, gets, gets, gets, [], [], [], [],
  [], gets, gets, gets, gets, gets, gets,
  gets, [], [], [], gets, [], [],
  gets, gets, gets, gets, gets, gets, gets, gets, gets,
  gets, gets,
  [.copyexe [.O_CREAT]], gets, [], gets, gets, gets, [], [.fchdir]]

theorem pooled_onGet (c : FdCall) : Pooled gets (onGet c) :=
  pooled_get [.plain] (fun _ => ⟨rfl, fun _ => trivial⟩) rfl

theorem pooled_onStat (c : Int → FdCall) : Pooled gets (onStat c) :=
  pooled_get [.plain] (fun _ => ⟨rfl, fun _ => ⟨rfl, fun _ => trivial⟩⟩) rfl

theorem pooled_seekWrite (op : SeekOp) : Pooled gets (seekWrite op) :=
  pooled_get [.plain] (fun _ => ⟨rfl, fun _ => ⟨rfl, fun _ => trivial⟩⟩) rfl

theorem pooled_onPathGet (c : PathCall) : Pooled [] (onPathGet c) :=
  pooled_still [.plain] ⟨rfl, fun _ => ⟨rfl, fun _ => trivial⟩⟩ rfl

theorem pooled_onTwoPaths (c : Path → PathCall) : Pooled [] (onTwoPaths c) :=
  pooled_still [.plain] ⟨rfl, fun _ => ⟨rfl, fun _ => ⟨rfl, fun _ => trivial⟩⟩⟩ rfl

theorem pooled_mkhashbang : Pooled [.acquire (.get2 [])] specialMkhashbang :=
  pooled_path fun _ => pooled_get [.plain]
    (fun _ => ⟨rfl, fun _ => ⟨rfl, fun _ => trivial⟩⟩) rfl

theorem pooled_mkhashbang2 : Pooled gets specialMkhashbang2 :=
  pooled_path fun _ => pooled_get [.plain]
    (fun _ => ⟨rfl, fun _ => ⟨rfl, fun _ => trivial⟩⟩) rfl

theorem pooled_mkscript : Pooled gets srcWriteMkscript :=
  pooled_path fun _ => pooled_get [.plain] (fun _ => ⟨rfl, fun _ => trivial⟩) rfl

theorem pooled_fchown : Pooled gets srcChownFchown := by
  obtain ⟨f, hf, hrest⟩ := fchown_rest
  rw [hf]
  exact pooled_get _ hrest rfl

theorem pooled_mapAndRead (pf : Funcs) (flag : MapFlag) : Pooled gets (mapAndRead pf flag) :=
  pooled_get [.plain, .memory, .handler] (fun _ => ⟨rfl, fun _ => ⟨rfl, fun _ =>
    (guardedCopy_only rfl rfl _ _ _).bind fun _ => ⟨rfl, fun _ => trivial⟩⟩⟩) rfl

theorem pooled_mmapFile (pf : Funcs) : Pooled gets (srcMmapFile pf) :=
  pooled_get [.plain, .memory, .handler] (fun _ => ⟨rfl, fun _ => ⟨rfl, fun _ =>
    (guardedCopy_only rfl rfl _ _ _).bind fun _ => ⟨rfl, fun _ => trivial⟩⟩⟩) rfl

theorem pooled_mmapStatd (pf : Funcs) : Pooled gets (srcMmapStatd pf) :=
  pooled_get [.plain, .memory, .handler] (fun _ => ⟨rfl, fun _ => ⟨rfl, fun _ =>
    (guardedCopy_only rfl rfl _ _ _).bind fun _ => ⟨rfl, fun _ => ⟨rfl, fun _ => trivial⟩⟩⟩⟩) rfl

/-- Each operation of the table, in its order. -/
theorem operations_pooled (basedir : Path) (pf : Funcs) :
    ∀ e ∈ (operations basedir pf).zip poolOps, Pooled e.2 e.1.2 := by
  have onFd := pooled_onGet
  have onSt := pooled_onStat
  have seek := pooled_seekWrite
  have path := pooled_onPathGet
  have two := pooled_onTwoPaths
  simp only [operations, poolOps, List.zip_cons_cons, List.zip_nil_right, List.forall_mem_cons]
  exact ⟨pooled_copyexe _ _, pooled_forked exec_only rfl fun _ h => exec_children h.parent,
    pooled_forked gcore_only rfl fun _ h => gcore_children h.parent,
    pooled_forked ldlibrarypath_only rfl fun _ h => ldlibrarypath_children h.parent,
    pooled_forked ldpreload_only rfl fun _ h => ldpreload_children h.parent, pooled_mkhashbang,
    pooled_forked posixSpawn_only rfl fun _ h => posixSpawn_children h.parent,
    path _, path _, pooled_closeall, onFd _,
    pooled_forked dlopen_only rfl fun _ h => dlopen_children h.parent, two _,
    seek _, seek _, seek _, seek _, seek _, seek _, seek _, seek _, seek _, seek _, seek _, seek _,
    path _, path _, pooled_mapAndRead _ _, pooled_mapAndRead _ _, pooled_mmapFile _, pooled_mmapStatd _,
    pooled_openAndSet _, pooled_openAndSet _, pooled_openAndSet _, pooled_openAndSet _,
    pooled_openAndSet _, pooled_fdopendir, pooled_opendir, pooled_readdir,
    onFd _, path _, path _, pooled_pipe, onFd _, onFd _, path _, path _, two _, path _,
    pooled_sendfile, onFd _, path _, path _, path _, two _, onFd _,
    pooled_still (p := srcSyncSync) [.plain] ⟨rfl, fun _ => trivial⟩ rfl,
    onFd _, onFd _, onFd _, onSt _, onSt _, onSt _, onSt _, onFd _, path _, path _, path _, path _,
    path _, onSt _, onSt _, onSt _, onSt _, onSt _, onFd _,
    onFd _, path _, path _, path _, onFd _, path _, path _,
    onSt _, onSt _, onSt _, onSt _, pooled_mkscript, onSt _, onSt _, onSt _, onSt _,
    onFd _, onFd _,
    pooled_copyexe _ _, pooled_mkhashbang2, pooled_still _ (move_only basedir) rfl, pooled_fchown,
    onFd _, onFd _, pooled_chdir, pooled_fchdir, fun _ h => absurd h List.not_mem_nil⟩

/-- What dispatching at `i` comes to. -/
def poolOpsAt (i : Nat) : List PoolOp := poolOps[i]?.getD []

/-! ## 5. Runs -/

section

variable {basedir : Path} {pf : Funcs}

theorem Ready.asked {w : World} (hw : Ready w) : Ready w.asked :=
  ⟨⟨rfl, hw.parent.child, hw.parent.handlers⟩, hw.valid, hw.zero⟩

theorem Ready.announced (pf : Funcs) {w : World} (hw : Ready w) : Ready (w.announced pf) := by
  unfold World.announced
  split
  · exact hw.asked.asked.asked.asked
  · exact hw

theorem announced_table (pf : Funcs) (w : World) :
    (w.announced pf).k = w.k ∧ (w.announced pf).ps = w.ps := by
  unfold World.announced
  split
  · exact ⟨rfl, rfl⟩
  · exact ⟨rfl, rfl⟩

/-- The operation at a place, beside what it comes to. -/
theorem operation_pooled {i : Nat} {path : String} {body : Op Unit}
    (hget : (operations basedir pf)[i]? = some (path, body)) : Pooled (poolOpsAt i) body := by
  have hlength : (operations basedir pf).length = 102 := rfl
  have hlength' : poolOps.length = 102 := rfl
  have hi : i < poolOps.length := by
    rw [hlength', ← hlength]
    exact (List.getElem?_eq_some_iff.mp hget).1
  have hops : poolOps[i]? = some (poolOpsAt i) := by
    rw [poolOpsAt, List.getElem?_eq_getElem hi, Option.getD_some]
  have hzip : ((operations basedir pf).zip poolOps)[i]? = some ((path, body), poolOpsAt i) :=
    List.getElem?_zip_eq_some.mpr ⟨hget, hops⟩
  exact operations_pooled basedir pf _ (List.mem_of_getElem? hzip)

/-- One step of the table. -/
theorem opStep_comes {w w' : World} {i : Nat} (hw : Ready w) (hs : opStep basedir pf w i = .ok w') :
    Ready w' ∧ Comes ⟨w.k, w.ps⟩ (poolOpsAt i) w'.k w'.ps := by
  have hspared : Spared w w' := (bystanders_keeps basedir pf w).step
    ⟨hw.parent, hw.valid, fun _ _ => rfl, fun n hn hb => hb.2 hn, fun _ h => absurd h List.not_mem_nil⟩ hs
  have hzero : Bystander w 0 := ⟨hw.zero, fun h => absurd (hw.valid.pos 0 h) (by decide)⟩
  have hready : Ready w' := by
    refine ⟨⟨rfl, hspared.parent.child, hspared.parent.handlers⟩, hspared.valid, ?_⟩
    rw [Kernel.IsOpen, hspared.aside.same 0 hzero]
    exact hw.zero
  refine ⟨hready, ?_⟩
  rw [opStep_ok, fembotFunc] at hs
  split at hs
  · rename_i path body hget
    obtain ⟨hk, hps⟩ := announced_table pf w
    have hcomes := (operation_pooled hget _ (hw.announced pf)).exec (generatedFunc_exec hs)
    rw [hk, hps] at hcomes
    exact hcomes.resolve_left fun hc => Bool.false_ne_true (hready.parent.child.symm.trans hc)
  · cases hs

theorem run_comes {w w' : World} {ids : List Nat} (hw : Ready w)
    (hrun : run (opStep basedir pf) w ids = .ok w') :
    Comes ⟨w.k, w.ps⟩ (ids.flatMap poolOpsAt) w'.k w'.ps := by
  induction ids generalizing w with
  | nil =>
    cases hrun
    exact comes_refl _
  | cons i ids ih =>
    obtain ⟨w₁, hs, hrest⟩ := run_cons_inv hrun
    obtain ⟨hw₁, hstep⟩ := opStep_comes hw hs
    exact hstep.trans (ih hw₁ hrest)

end

/-- For every run of the table that comes to its end, by a process that is no child, handles no signal
    and has 0 open and a valid store: the pool, with some answers of the system, comes from the same
    descriptor table and store to the same ones, by the operations that `poolOps` gives. -/
theorem pool_simulates (basedir : Path) (pf : Funcs) {w w' : World}
    (hw : w.handlers = defaultHandlers) (hc : w.child = false) (hv : w.ps.Valid) (h0 : w.k.IsOpen 0)
    {ids : List Nat} (hrun : run (opStep basedir pf) w ids = .ok w') (rest : Stream' Answer) :
    ∃ answers, run poolStep ⟨{ w.k with answers := answers }, w.ps⟩ (ids.flatMap poolOpsAt) =
      .ok ⟨{ w'.k with answers := rest }, w'.ps⟩ :=
  run_comes ⟨⟨rfl, hc, hw⟩, hv, h0⟩ hrun rest

/-- A process for which every call succeeds. -/
def openingWorld : World :=
  World.started (Stream'.const ⟨true, 1⟩) (Stream'.const ['a']) (Stream'.const ⟨true, 0, ⟨0, 0⟩⟩)

/-- A file is opened, a pipe made, and the number of a descriptor written. -/
theorem pool_simulates_opening : ∃ w',
    run (opStep "/mnt".toList ⟨0, 0, ⟨none, 0⟩, ⟨none, 0⟩⟩) openingWorld [31, 42, 13] = .ok w' ∧
      ∃ answers, run poolStep ⟨{ openingWorld.k with answers := answers }, openingWorld.ps⟩
        ([31, 42, 13].flatMap poolOpsAt) = .ok ⟨w'.k, w'.ps⟩ := by
  have hok : (run (opStep "/mnt".toList ⟨0, 0, ⟨none, 0⟩, ⟨none, 0⟩⟩) openingWorld
      [31, 42, 13]).isOk = true := by decide +kernel
  cases hrun : run (opStep "/mnt".toList ⟨0, 0, ⟨none, 0⟩, ⟨none, 0⟩⟩) openingWorld [31, 42, 13] with
  | error e =>
    rw [hrun] at hok
    cases hok
  | ok w' =>
    exact ⟨w', rfl, pool_simulates "/mnt".toList _ (w := openingWorld) rfl rfl (fdstoreInit_valid _) rfl
      hrun w'.k.answers⟩

/-- What holds of the processes that the pool reaches holds in every run of the table. -/
theorem tracks_of_run {basedir : Path} {pf : Funcs} {w w' : World} {ids : List Nat} (hw : Ready w)
    (h : Tracks ⟨w.k, w.ps⟩) (hids : 36 ∉ ids) (hrun : run (opStep basedir pf) w ids = .ok w') :
    Tracks ⟨w'.k, w'.ps⟩ := by
  have hops : ∀ op ∈ ids.flatMap poolOpsAt, op ≠ .fdopendir := by
    intro op hop
    obtain ⟨i, hi, hop⟩ := List.mem_flatMap.mp hop
    have hne : i ≠ 36 := fun he => hids (he ▸ hi)
    by_cases hlt : i < 102
    · have htable : ∀ i < 102, i ≠ 36 → ∀ op ∈ poolOpsAt i, op ≠ .fdopendir := by decide
      exact htable i hlt hne op hop
    · rw [poolOpsAt, List.getElem?_eq_none (Nat.le_of_not_lt hlt)] at hop
      cases hop
  obtain ⟨answers, hpool⟩ := run_comes hw hrun w'.k.answers
  have h0 : Tracks ⟨w.k.answering answers, w.ps⟩ := ⟨h.valid, h.live⟩
  have hkeep : ∀ p op p', Tracks p → op ≠ .fdopendir → poolStep p op = .ok p' → Tracks p' :=
    fun p op p' hp hop hs => poolStep_tracks hp (fun he => absurd he hop) hs
  exact (always_of_eachStep h0 hkeep (.of_forall hops)).final hpool

end Fembot
