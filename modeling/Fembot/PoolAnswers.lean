/-
  File:      Fembot/PoolAnswers.lean
  Subject:   The answers that an operation of the pool consumes.

  The table of Kernel.lean carries the answers to all calls to come. A computation on it looks at
  those it consumes and at no others (`poolStep_leads`): from the same entries it can be led to the
  same end with any answers behind.
-/
import Fembot.Liveness

namespace Fembot

open Library

/-! ## 1. Calls -/

/-- The table with other answers to come. -/
def Kernel.answering (k : Kernel) (answers : Stream' Answer) : Kernel := { k with answers := answers }

def Process.answering (p : Process) (answers : Stream' Answer) : Process := ⟨p.k.answering answers, p.ps⟩

/-- Tables are the same but for the answers where their entries are. -/
theorem answering_eq {k k' : Kernel} (hslot : k'.slot = k.slot) (hlimit : k'.limit = k.limit)
    (a : Stream' Answer) : k'.answering a = k.answering a := by
  obtain ⟨slot, nonneg, limit, answers⟩ := k
  obtain ⟨slot', nonneg', limit', answers'⟩ := k'
  cases hslot
  cases hlimit
  rfl

theorem openFile_answering (k : Kernel) (rest : Stream' Answer) :
    (k.answering (Stream'.cons k.answers.head rest)).openFile =
      (k.openFile.1.answering rest, k.openFile.2) := by
  have hfree : (k.answering (Stream'.cons k.answers.head rest)).lowestFree = k.lowestFree := rfl
  unfold Kernel.openFile
  by_cases hok : k.answers.head.ok = true
  · refine (if_pos hok).trans ?_
    rw [if_pos hok, hfree]
    cases k.lowestFree with
    | none => rfl
    | some n => rfl
  · exact (if_neg hok).trans (by rw [if_neg hok]; rfl)

theorem dup2_answering (k : Kernel) (fd newd : Int) (rest : Stream' Answer) :
    (k.answering (Stream'.cons k.answers.head rest)).dup2 fd newd =
      ((k.dup2 fd newd).1.answering rest, (k.dup2 fd newd).2) := by
  unfold Kernel.dup2
  by_cases h : k.answers.head.ok = true ∧ k.IsOpen fd ∧ 0 ≤ newd ∧ newd < k.limit
  · exact (if_pos h).trans (by rw [if_pos h]; rfl)
  · exact (if_neg h).trans (by rw [if_neg h]; rfl)

theorem close_answering (k : Kernel) (fd : Int) (rest : Stream' Answer) :
    (k.answering rest).close fd = ((k.close fd).1.answering rest, (k.close fd).2) := by
  unfold Kernel.close
  by_cases h : k.IsOpen fd
  · exact (if_pos h).trans (by rw [if_pos h]; rfl)
  · exact (if_neg h).trans (by rw [if_neg h])

theorem pipe_answering (k : Kernel) (rest : Stream' Answer) :
    (k.answering (Stream'.cons k.answers.head rest)).pipe = (k.pipe.1.answering rest, k.pipe.2) := by
  have hfree : (k.answering (Stream'.cons k.answers.head rest)).lowestFree = k.lowestFree := rfl
  unfold Kernel.pipe
  by_cases hok : k.answers.head.ok = true
  · refine (if_pos hok).trans ?_
    rw [if_pos hok, hfree]
    cases k.lowestFree with
    | none => rfl
    | some n =>
      have hsecond : ((k.answering (Stream'.cons k.answers.head rest)).asked.put n
          (some (k.answering (Stream'.cons k.answers.head rest)).answers.head.file)).lowestFree =
          (k.asked.put n (some k.answers.head.file)).lowestFree := rfl
      dsimp only
      rw [hsecond]
      cases (k.asked.put n (some k.answers.head.file)).lowestFree with
      | none => rfl
      | some m => rfl
  · exact (if_neg hok).trans (by rw [if_neg hok]; rfl)

/-! ## 2. The store -/

/-- Whatever is to be answered afterwards, some answers lead the computation from `k` to `k'`. -/
def Led {β : Type} (f : Kernel → Exec (Kernel × β)) (k k' : Kernel) (b : β) : Prop :=
  ∀ rest, ∃ answers, f (k.answering answers) = .ok (k'.answering rest, b)

theorem track_led {k k' : Kernel} {ps ps' : Fdstore} {fd r : Int}
    (h : fdstoreTrack k ps fd = .ok (k', ps', r)) :
    Led (fun k => fdstoreTrack k ps fd) k k' (ps', r) := by
  refine fun rest => ⟨rest, ?_⟩
  unfold fdstoreTrack at h ⊢
  dsimp only
  split at h
  · rename_i hpos
    rw [if_pos hpos]
    obtain ⟨fds, hfds, h⟩ := exec_bind_inv h
    rw [hfds]
    cases h
    rfl
  · rename_i hpos
    rw [if_neg hpos]
    cases h
    rfl

/-- What `bstg_fdstore_set` does behind `dup2`. -/
def behindDup2 (ps : Fdstore) (newd fd : Int) (r : Kernel × Int) : Exec (Kernel × Fdstore × Int) :=
  if r.2 ≠ -1 then pure (r.1, ps, newd) else fdstoreTrack r.1 ps fd

theorem set_led {k k' : Kernel} {ps ps' : Fdstore} {fd r : Int}
    (h : bstgFdstoreSet kernel k ps fd = .ok (k', ps', r)) :
    Led (fun k => bstgFdstoreSet kernel k ps fd) k k' (ps', r) := by
  intro rest
  unfold bstgFdstoreSet at h ⊢
  obtain ⟨u, hassert, h⟩ := exec_bind_inv h
  rw [hassert]
  simp only [exec_bind_ok]
  split at h
  · rename_i hmax
    obtain ⟨⟨qs, newd⟩, hraw, h⟩ := exec_bind_inv h
    simp only [hmax, if_true, hraw, exec_bind_ok]
    dsimp only at h
    split at h
    · rename_i hpos
      simp only [hpos, if_true]
      split at h
      · -- the descriptor found is replaced
        rename_i hrc
        cases h
        refine ⟨Stream'.cons k.answers.head rest, ?_⟩
        have hres : behindDup2 ps' r fd ((k.answering (Stream'.cons k.answers.head rest)).dup2 fd r) =
            .ok ((k.dup2 fd r).1.answering rest, ps', r) := by
          rw [dup2_answering k fd r rest]
          exact if_pos hrc
        exact hres
      · rename_i hrc
        obtain ⟨answers, ht⟩ := track_led h rest
        refine ⟨Stream'.cons k.answers.head answers, ?_⟩
        have hres : behindDup2 qs newd fd
            ((k.answering (Stream'.cons k.answers.head answers)).dup2 fd newd) =
            .ok (k'.answering rest, ps', r) := by
          rw [dup2_answering k fd newd answers]
          exact (if_neg hrc).trans ht
        exact hres
    · rename_i hpos
      simp only [hpos, if_false]
      exact track_led h rest
  · rename_i hmax
    simp only [hmax, if_false]
    exact track_led h rest

/-- One round of the loop over the access modes. -/
theorem openLoop_cons (flags modes : List OpenFlag) (omode : OpenFlag) (k : Kernel) (ps : Fdstore) :
    openLoop kernel flags (omode :: modes) k ps =
      if k.openFile.2 > 0 then bstgFdstoreSet kernel k.openFile.1 ps k.openFile.2
      else openLoop kernel flags modes k.openFile.1 ps := rfl

theorem openLoop_led {flags modes : List OpenFlag} {k k' : Kernel} {ps ps' : Fdstore} {r : Int}
    (h : openLoop kernel flags modes k ps = .ok (k', ps', r)) :
    Led (fun k => openLoop kernel flags modes k ps) k k' (ps', r) := by
  induction modes generalizing k with
  | nil =>
    cases h
    exact fun rest => ⟨rest, rfl⟩
  | cons omode modes ih =>
    intro rest
    rw [openLoop_cons] at h
    by_cases hpos : k.openFile.2 > 0
    · rw [if_pos hpos] at h
      obtain ⟨answers, hset⟩ := set_led h rest
      refine ⟨Stream'.cons k.answers.head answers, (openLoop_cons _ _ _ _ _).trans ?_⟩
      rw [openFile_answering]
      exact (if_pos hpos).trans hset
    · rw [if_neg hpos] at h
      obtain ⟨answers, hloop⟩ := ih h rest
      refine ⟨Stream'.cons k.answers.head answers, (openLoop_cons _ _ _ _ _).trans ?_⟩
      rw [openFile_answering]
      exact (if_neg hpos).trans hloop

theorem get2_led {flags : List OpenFlag} {k k' : Kernel} {ps ps' : Fdstore} {r : Int}
    (h : bstgFdstoreGet2 kernel k ps flags = .ok (k', ps', r)) :
    Led (fun k => bstgFdstoreGet2 kernel k ps flags) k k' (ps', r) := by
  intro rest
  unfold bstgFdstoreGet2 at h ⊢
  obtain ⟨⟨qs, fd⟩, hraw, h⟩ := exec_bind_inv h
  simp only [hraw, exec_bind_ok]
  dsimp only at h
  split at h
  · rename_i hpos
    cases h
    exact ⟨rest, by rw [if_pos hpos]; rfl⟩
  · rename_i hpos
    obtain ⟨answers, hloop⟩ := openLoop_led h rest
    exact ⟨answers, by rw [if_neg hpos]; exact hloop⟩

/-! ## 3. The operations -/

/-- The same for a process. -/
def Leads (f : Process → Exec Process) (p p' : Process) : Prop :=
  ∀ rest, ∃ answers, f (p.answering answers) = .ok (p'.answering rest)

theorem setAll_leads {fds : List Int} {p p' : Process} (h : setAll p.k p.ps fds = .ok p') :
    Leads (fun p => setAll p.k p.ps fds) p p' := by
  induction fds generalizing p with
  | nil =>
    cases h
    exact fun rest => ⟨rest, rfl⟩
  | cons fd fds ih =>
    intro rest
    rw [setAll] at h
    obtain ⟨⟨k, ps, r⟩, hset, h⟩ := exec_bind_inv h
    obtain ⟨answers', hrest⟩ := ih (p := ⟨k, ps⟩) h rest
    obtain ⟨answers, hset'⟩ := set_led hset answers'
    refine ⟨answers, ?_⟩
    show setAll (p.k.answering answers) p.ps (fd :: fds) = _
    rw [setAll, show bstgFdstoreSet kernel (p.k.answering answers) p.ps fd = _ from hset']
    exact hrest

theorem acquire_pipe (p : Process) :
    acquire p .pipe =
      match p.k.pipe.2 with
      | none => .ok ⟨p.k.pipe.1, p.ps⟩
      | some ends => setAll p.k.pipe.1 p.ps [ends.1, ends.2] := by
  unfold acquire
  generalize p.k.pipe = r
  obtain ⟨k, ends⟩ := r
  cases ends with
  | none => rfl
  | some ends => rfl

theorem acquire_leads {a : Acquire} {p p' : Process} (h : acquire p a = .ok p') :
    Leads (fun p => acquire p a) p p' := by
  intro rest
  cases a with
  | openPath flags =>
    obtain ⟨answers, hset⟩ := setAll_leads (p := ⟨p.k.openFile.1, p.ps⟩) h rest
    refine ⟨Stream'.cons p.k.answers.head answers, ?_⟩
    show setAll (Kernel.openFile (p.k.answering _)).1 p.ps [(Kernel.openFile (p.k.answering _)).2] = _
    rw [openFile_answering]
    exact hset
  | pipe =>
    rw [acquire_pipe] at h
    cases hends : p.k.pipe.2 with
    | none =>
      rw [hends] at h
      cases h
      refine ⟨Stream'.cons p.k.answers.head rest, (acquire_pipe _).trans ?_⟩
      rw [show (p.answering _).k.pipe = _ from pipe_answering p.k rest, hends]
      rfl
    | some ends =>
      rw [hends] at h
      obtain ⟨answers, hset⟩ := setAll_leads (p := ⟨p.k.pipe.1, p.ps⟩) h rest
      refine ⟨Stream'.cons p.k.answers.head answers, (acquire_pipe _).trans ?_⟩
      rw [show (p.answering _).k.pipe = _ from pipe_answering p.k answers, hends]
      exact hset
  | get2 flags =>
    obtain ⟨⟨k, ps, r⟩, hget, h⟩ := exec_bind_inv h
    cases h
    obtain ⟨answers, hget'⟩ := get2_led hget rest
    refine ⟨answers, ?_⟩
    show (bstgFdstoreGet2 kernel (p.k.answering answers) p.ps flags >>= _) = _
    rw [show bstgFdstoreGet2 kernel (p.k.answering answers) p.ps flags = _ from hget']
    rfl

theorem closeallLoop_answering {ps : Fdstore} {n : Nat} {curr : Int} {k k' : Kernel}
    (h : closeallLoop kernel ps n curr k = .ok k') (rest : Stream' Answer) :
    closeallLoop kernel ps n curr (k.answering rest) = .ok (k'.answering rest) := by
  induction n generalizing curr k with
  | zero =>
    cases h
    rfl
  | succ n ih =>
    rw [closeallLoop] at h ⊢
    obtain ⟨b, hb, h⟩ := exec_bind_inv h
    rw [hb, exec_bind_ok]
    cases b with
    | true =>
      have hclose : (kernel.close (k.answering rest) curr).1 = (k.close curr).1.answering rest :=
        congrArg Prod.fst (close_answering k curr rest)
      rw [if_pos rfl, hclose]
      exact ih h
    | false => exact ih h

theorem closeall_led {k k' : Kernel} {ps ps' : Fdstore} {r : Int}
    (h : bstgFdstoreCloseall kernel k ps = .ok (k', ps', r)) :
    Led (fun k => bstgFdstoreCloseall kernel k ps) k k' (ps', r) := by
  refine fun rest => ⟨rest, ?_⟩
  unfold bstgFdstoreCloseall at h ⊢
  dsimp only
  split at h
  · rename_i hmagic
    rw [if_pos hmagic]
    cases h
    rfl
  · rename_i hmagic
    rw [if_neg hmagic]
    obtain ⟨k₁, hloop, h⟩ := exec_bind_inv h
    rw [closeallLoop_answering hloop rest]
    cases h
    rfl

theorem closeall_leads {p p' : Process} (h : poolStep p .closeall = .ok p') :
    Leads (fun p => poolStep p .closeall) p p' := by
  intro rest
  obtain ⟨⟨k, ps, r⟩, hclose, h⟩ := exec_bind_inv h
  cases h
  obtain ⟨answers, hclose'⟩ := closeall_led hclose rest
  refine ⟨answers, ?_⟩
  show (bstgFdstoreCloseall kernel (p.k.answering answers) p.ps >>= _) = _
  rw [show bstgFdstoreCloseall kernel (p.k.answering answers) p.ps = _ from hclose']
  rfl

/-- src/sendfile.c takes two descriptors from the store, one after the other. -/
theorem sendfile_leads {p p' : Process} (h : poolStep p .sendfile = .ok p') :
    Leads (fun p => poolStep p .sendfile) p p' := by
  intro rest
  obtain ⟨p₁, hfirst, hsecond⟩ := exec_bind_inv h
  obtain ⟨answers', hsecond'⟩ := acquire_leads hsecond rest
  obtain ⟨answers, hfirst'⟩ := acquire_leads hfirst answers'
  refine ⟨answers, ?_⟩
  show (acquire (p.answering answers) acquireGet >>= _) = _
  rw [show acquire (p.answering answers) acquireGet = _ from hfirst']
  exact hsecond'

theorem fdopendir_answering (k : Kernel) (fd : Int) (rest : Stream' Answer) :
    (k.answering (Stream'.cons k.answers.head rest)).fdopendir fd =
      ((k.fdopendir fd).1.answering rest, (k.fdopendir fd).2) := rfl

theorem fdopendir_leads {p p' : Process} (h : poolStep p .fdopendir = .ok p') :
    Leads (fun p => poolStep p .fdopendir) p p' := by
  intro rest
  obtain ⟨⟨k, ps, fd⟩, hget, -⟩ := exec_bind_inv h
  rw [fdopendir_eq hget] at h
  obtain ⟨answers, hget'⟩ := get2_led hget (Stream'.cons k.answers.head rest)
  refine ⟨answers, (fdopendir_eq (p := p.answering answers) hget').trans ?_⟩
  rw [fdopendir_answering]
  cases hdir : (k.fdopendir fd).2 with
  | true =>
    rw [hdir, if_pos rfl] at h
    cases h
    rw [if_pos rfl, close_answering]
    rfl
  | false =>
    rw [hdir, if_neg Bool.false_ne_true] at h
    cases h
    rfl

theorem fchdir_eq (p : Process) :
    poolStep p .fchdir =
      if p.k.openFile.2 > 0 then do
        let q ← acquire ⟨p.k.openFile.1, p.ps⟩ acquireGet
        pure ⟨(q.k.close p.k.openFile.2).1, q.ps⟩
      else pure ⟨p.k.openFile.1, p.ps⟩ := rfl

theorem fchdir_leads {p p' : Process} (h : poolStep p .fchdir = .ok p') :
    Leads (fun p => poolStep p .fchdir) p p' := by
  intro rest
  rw [fchdir_eq] at h
  by_cases hpos : p.k.openFile.2 > 0
  · rw [if_pos hpos] at h
    obtain ⟨q, hget, h⟩ := exec_bind_inv h
    cases h
    obtain ⟨answers, hget'⟩ := acquire_leads hget rest
    refine ⟨Stream'.cons p.k.answers.head answers, (fchdir_eq _).trans ?_⟩
    rw [show (p.answering _).k.openFile = _ from openFile_answering p.k answers]
    refine (if_pos hpos).trans ?_
    rw [show acquire ⟨_, (p.answering _).ps⟩ acquireGet = _ from hget', exec_bind_ok]
    rw [show (q.answering rest).k.close _ = _ from close_answering q.k _ rest]
    rfl
  · rw [if_neg hpos] at h
    cases h
    refine ⟨Stream'.cons p.k.answers.head rest, (fchdir_eq _).trans ?_⟩
    rw [show (p.answering _).k.openFile = _ from openFile_answering p.k rest]
    exact if_neg hpos

theorem copyexe_eq (p : Process) (flags : List OpenFlag) :
    poolStep p (.copyexe flags) =
      if p.k.openFile.2 > 0 then
        if p.k.openFile.1.answers.head.ok then
          acquire ⟨(p.k.openFile.1.asked.close p.k.openFile.2).1, p.ps⟩ (.get2 flags)
        else pure ⟨(p.k.openFile.1.asked.close p.k.openFile.2).1, p.ps⟩
      else pure ⟨(p.k.openFile.1.close p.k.openFile.2).1, p.ps⟩ := by
  unfold poolStep
  by_cases hpos : p.k.openFile.2 > 0
  · simp only [hpos, if_true, Kernel.mapFile]
  · simp only [hpos, if_false, Bool.false_eq_true]

/-- special/copyexe.c, where the open or the mapping fails: nothing is taken from the store. -/
theorem copyexe_unmapped {flags : List OpenFlag} {p p' : Process}
    (hfail : ¬ (p.k.openFile.2 > 0 ∧ p.k.openFile.1.answers.head.ok = true))
    (h : poolStep p (.copyexe flags) = .ok p') :
    Leads (fun p => poolStep p (.copyexe flags)) p p' := by
  intro rest
  rw [copyexe_eq] at h
  by_cases hpos : p.k.openFile.2 > 0
  · have hok : ¬ p.k.openFile.1.answers.head.ok = true := fun hok => hfail ⟨hpos, hok⟩
    rw [if_pos hpos, if_neg hok] at h
    cases h
    refine ⟨Stream'.cons p.k.answers.head (Stream'.cons p.k.openFile.1.answers.head rest),
      (copyexe_eq _ _).trans ?_⟩
    rw [show (p.answering _).k.openFile = _ from openFile_answering p.k _]
    refine (if_pos hpos).trans ((if_neg hok).trans ?_)
    show (pure ⟨((p.k.openFile.1.asked.answering rest).close p.k.openFile.2).1, p.ps⟩ :
      Exec Process) = _
    rw [close_answering]
    rfl
  · rw [if_neg hpos] at h
    cases h
    refine ⟨Stream'.cons p.k.answers.head rest, (copyexe_eq _ _).trans ?_⟩
    rw [show (p.answering _).k.openFile = _ from openFile_answering p.k rest]
    refine (if_neg hpos).trans ?_
    rw [close_answering]
    rfl

theorem copyexe_leads {flags : List OpenFlag} {p p' : Process}
    (h : poolStep p (.copyexe flags) = .ok p') :
    Leads (fun p => poolStep p (.copyexe flags)) p p' := by
  by_cases hmapped : p.k.openFile.2 > 0 ∧ p.k.openFile.1.answers.head.ok = true
  · intro rest
    obtain ⟨hpos, hok⟩ := hmapped
    rw [copyexe_eq, if_pos hpos, if_pos hok] at h
    obtain ⟨answers, hget⟩ := acquire_leads h rest
    refine ⟨Stream'.cons p.k.answers.head (Stream'.cons p.k.openFile.1.answers.head answers),
      (copyexe_eq _ _).trans ?_⟩
    rw [show (p.answering _).k.openFile = _ from openFile_answering p.k _]
    refine (if_pos hpos).trans ((if_pos hok).trans ?_)
    show acquire ⟨((p.k.openFile.1.asked.answering answers).close p.k.openFile.2).1, p.ps⟩ _ = _
    rw [close_answering]
    exact hget
  · exact copyexe_unmapped hmapped h

/-- An operation of the pool looks at no answer but those it consumes. -/
theorem poolStep_leads {op : PoolOp} {p p' : Process} (h : poolStep p op = .ok p') :
    Leads (fun p => poolStep p op) p p' := by
  cases op with
  | acquire a => exact acquire_leads h
  | closeall => exact closeall_leads h
  | sendfile => exact sendfile_leads h
  | fdopendir => exact fdopendir_leads h
  | fchdir => exact fchdir_leads h
  | copyexe flags => exact copyexe_leads h

end Fembot
