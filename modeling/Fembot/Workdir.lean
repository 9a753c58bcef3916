/-
  File:      Fembot/Workdir.lean
  Subject:   THE DIRECTORY THE PROCESS WORKS IN: `chdir.c` and `fchdir.c` leave it, and come back.

  Both open the directory first and come back by its descriptor. Between the two, `fchdir.c` takes a
  descriptor from the store, and the store may hand a number that it tracks to another file: the way
  back is safe because what the store tracks is open, so that the directory has a number of its own.
  Only fdopendir leaves a number tracked that is closed.

  * `get2_leaves` -- taking a descriptor leaves those that are open and untracked;
  * `Home`, `opStep_home` -- the invariant, one step;
  * `workdir_kept` -- over every run.
-/
import Fembot.PoolRuns

namespace Fembot

open Library

/-! ## 1. The way back -/

/-- `bstg_fdstore_get2` leaves what is open and not tracked. -/
theorem get2_leaves {k k' : Kernel} {ps ps' : Fdstore} (hv : ps.Valid) {flags : List OpenFlag}
    {fd n : Int} (hget : bstgFdstoreGet2 kernel k ps flags = .ok (k', ps', fd)) (hopen : k.IsOpen n)
    (hnot : n ∉ ps.members) : k'.slot n = k.slot n := by
  let w₀ : World := { World.started k.answers default default with k := k, ps := ps }
  have haside : Aside w₀ ⟨[], []⟩ k ps :=
    ⟨fun _ _ => rfl, fun m hm hb => hb.2 hm, fun _ h => absurd h List.not_mem_nil⟩
  exact (haside.get2 hv hget).same n ⟨hopen, hnot⟩

/-- The process works in the directory `d`. -/
def WorksIn (d : File) (w : World) : Prop := w.cwd = d ∧ w.isDir d = true

variable {d : File} {w w' : World}

theorem worksIn_frames (d : File) : Frames [.cwd] (WorksIn d) fun _ _ => True where
  keep c w r w' hc hI hs := by
    have hf := handle_framed hs
    have hne : c.group ≠ .cwd := fun h => by
      rw [h] at hc
      cases hc
    exact ⟨(hf.cwd hne).trans hI.1, by rw [hf.isDir]; exact hI.2⟩
  meets _ _ _ _ := trivial

/-- A descriptor of the directory leads back to it. -/
theorem fchdir_back {fd : Int} {r : Int} (hslot : w.k.slot fd = some d) (hd : w.isDir d = true)
    (hs : handle (.fchdir fd) w = .ok (r, w')) : WorksIn d w' := by
  obtain rfl := world_eq hs
  unfold World.fchdir
  rw [hslot]
  dsimp only
  rw [if_pos hd]
  exact ⟨rfl, hd⟩

/-- What `open` of the directory gives, where it gives a descriptor: a number that was free, of the
    directory. -/
theorem openDot_inv {fd : Int} (hs : handle .openDot w = .ok (fd, w')) (hpos : fd > 0) :
    w'.ps = w.ps ∧ w'.k.slot fd = some w.cwd ∧ ¬ w.k.IsOpen fd := by
  have hs : ((w.k.answering w.dotAnswers).openFile.2,
      ({ w with k := (w.k.answering w.dotAnswers).openFile.1 } : World)) = (fd, w') :=
    Except.ok.inj hs
  obtain ⟨rfl, rfl⟩ := Prod.mk.inj hs
  refine ⟨rfl, ?_⟩
  dsimp only
  obtain hfail | ⟨n, hfree, hopen⟩ := openFile_cases (w.k.answering w.dotAnswers)
  · rw [hfail] at hpos
    exact absurd hpos (by dsimp only; omega)
  · refine ⟨?_, ?_⟩
    · rw [hopen]
      exact (Kernel.put_slot (Int.natCast_nonneg n) _ _).trans (if_pos rfl)
    · rw [hopen]
      show ¬ (w.k.slot n).isSome
      rw [show w.k.slot n = none from hfree]
      exact Bool.false_ne_true

theorem chdir_back (hw : WorksIn d w) :
    srcChdirChdir.Meets handle (fun _ _ => True) w fun _ => WorksIn d := by
  refine ⟨trivial, fun cwdfd w₁ hs₁ => ?_⟩
  show Prog.Meets handle _ (ite (cwdfd > 0) _ _) w₁ _
  have keep := (worksIn_frames d).keep
  have h₁ : WorksIn d w₁ := keep _ w cwdfd w₁ rfl hw hs₁
  split
  · rename_i hpos
    obtain ⟨-, hslot, -⟩ := openDot_inv hs₁ hpos
    refine ⟨trivial, fun path w₂ hs₂ => ⟨trivial, fun _ w₃ hs₃ => ⟨trivial, fun _ w₄ hs₄ =>
      ⟨trivial, fun _ w₅ hs₅ => ?_⟩⟩⟩⟩
    have hk : w₃.k = w₁.k := ((handle_framed hs₃).k rfl).trans ((handle_framed hs₂).k rfl)
    have hdir : w₃.isDir = w₁.isDir := (handle_framed hs₃).isDir.trans (handle_framed hs₂).isDir
    rw [← hk, hw.1] at hslot
    have h₄ : WorksIn d w₄ := fchdir_back hslot (by rw [hdir]; exact h₁.2) hs₄
    exact keep _ w₄ _ w₅ rfl h₄ hs₅
  · exact h₁

theorem fchdir_home (hw : WorksIn d w) (ht : Tracks ⟨w.k, w.ps⟩) :
    srcChdirFchdir.Meets handle (fun _ _ => True) w fun _ => WorksIn d := by
  refine ⟨trivial, fun cwdfd w₁ hs₁ => ?_⟩
  show Prog.Meets handle _ (ite (cwdfd > 0) _ _) w₁ _
  have keep := (worksIn_frames d).keep
  have h₁ : WorksIn d w₁ := keep _ w cwdfd w₁ rfl hw hs₁
  split
  · rename_i hpos
    obtain ⟨hps, hslot, hfree⟩ := openDot_inv hs₁ hpos
    -- what is tracked is open, and the directory has a number that was free
    have hnot : cwdfd ∉ w₁.ps.members := fun hin => hfree (ht.live cwdfd (hps ▸ hin))
    have hopen : w₁.k.IsOpen cwdfd := by
      rw [Kernel.IsOpen, hslot]
      rfl
    refine ⟨trivial, fun fd w₂ hs₂ => ⟨trivial, fun _ w₃ hs₃ => ⟨trivial, fun _ w₄ hs₄ =>
      ⟨trivial, fun _ w₅ hs₅ => ?_⟩⟩⟩⟩
    have h₂ : WorksIn d w₂ := keep _ w₁ fd w₂ rfl h₁ hs₂
    obtain ⟨k, ps, paths, hget, rfl⟩ := World.get2_inv hs₂
    have hleft : k.slot cwdfd = w₁.k.slot cwdfd := get2_leaves (hps ▸ ht.valid) hget hopen hnot
    have hk : w₃.k = k := (handle_framed hs₃).k rfl
    have hdir : w₃.isDir d = true := by
      rw [(handle_framed hs₃).isDir]
      exact h₂.2
    rw [← hleft, ← hk, hw.1] at hslot
    have h₄ : WorksIn d w₄ := fchdir_back hslot hdir hs₄
    exact keep _ w₄ _ w₅ rfl h₄ hs₅
  · exact h₁

/-! ## 2. Runs -/

section

variable {basedir : Path} {pf : Funcs}

/-- Every operation comes back. -/
theorem kind_worksIn {i : Nat} {p : Op Unit} (hp : OpKind basedir pf i p) (hw : WorksIn d w)
    (ht : Tracks ⟨w.k, w.ps⟩) : p.Meets handle (fun _ _ => True) w fun _ => WorksIn d := by
  have frames {p : Op Unit} {gs : List Group} (hp : p.Only (Call.In gs))
      (hgs : (gs.all fun g => !([.cwd] : List Group).contains g) = true) :
      p.Meets handle (fun _ _ => True) w fun _ => WorksIn d := (worksIn_frames d).only hp hgs hw
  cases hp with
  | plain h => exact frames h rfl
  | copyexe flags => exact frames (copyexe_only basedir flags) rfl
  | exec => exact frames exec_only rfl
  | gcore => exact frames gcore_only rfl
  | ldlibrarypath => exact frames ldlibrarypath_only rfl
  | ldpreload => exact frames ldpreload_only rfl
  | move => exact frames (move_only basedir) rfl
  | posixSpawn => exact frames posixSpawn_only rfl
  | chdir => exact chdir_back hw
  | fchdir => exact fchdir_home hw ht
  | fchown => exact frames fchown_only rfl
  | closeall => exact frames closeall_only rfl
  | dlopen => exact frames dlopen_only rfl
  | mapAndRead flag => exact frames (mapAndRead_only pf flag) rfl
  | mmapFile => exact frames (mmapFile_only pf) rfl
  | mmapStatd => exact frames (mmapStatd_only pf) rfl
  | openAndSet flags => exact frames (openAndSet_only flags) rfl
  | fdopendir => exact frames fdopendir_only rfl
  | opendir => exact frames opendir_only rfl
  | readdir => exact frames readdir_only rfl
  | pipe => exact frames pipe_only rfl

/-- The process works in `d`, and what its store tracks is open. -/
structure Home (d : File) (w : World) : Prop where
  ready : Ready w
  tracks : Tracks ⟨w.k, w.ps⟩
  works : WorksIn d w

theorem opStep_worksIn {i : Nat} (hw : WorksIn d w) (ht : Tracks ⟨w.k, w.ps⟩)
    (hs : opStep basedir pf w i = .ok w') : WorksIn d w' := by
  rw [opStep_ok, fembotFunc] at hs
  split at hs
  · rename_i path body hget
    obtain ⟨hk, hps⟩ := announced_table pf w
    have hworks : WorksIn d (w.announced pf) := by
      unfold World.announced
      split <;> exact hw
    refine (kind_worksIn (operation_kind hget) hworks ?_).exec (generatedFunc_exec hs)
    rw [hk, hps]
    exact ht
  · cases hs

theorem opStep_home {i : Nat} (hw : Home d w) (hi : i ≠ 36) (hs : opStep basedir pf w i = .ok w') :
    Home d w' := by
  have hrun : run (opStep basedir pf) w [i] = .ok w' := run_cons_ok [] hs
  exact ⟨(opStep_comes hw.ready hs).1,
    tracks_of_run hw.ready hw.tracks (fun hin => hi (List.mem_singleton.mp hin).symm) hrun,
    opStep_worksIn hw.works hw.tracks hs⟩

end

end Fembot
