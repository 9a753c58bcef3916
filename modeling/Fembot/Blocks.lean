/-
  File:      Fembot/Blocks.lean
  Subject:   THE BLOCKS AN OPERATION ALLOCATES: over every run of the table none is freed that is not
             allocated, and exactly one operation leaves blocks behind.

  `special/ldlibrarypath.c` duplicates a path before it forks, and frees it nowhere: each of its calls
  whose `strdup` succeeds leaves one block. Every other operation that comes to its end has freed what
  it allocated; what a child allocates goes with the child.

  * `FreesOwn`, `heap_kept` -- every free is of an allocated block, and the blocks are as before;
  * `ldlibrarypath_heap` -- the one exception, and what it leaves;
  * `heap_accounted` -- over a run: the blocks more are as many as the `strdup` calls of that
    operation that succeeded (`leaked`).
-/
import Fembot.OperationRules

namespace Fembot

open Library

/-! ## 1. One block -/

/-- A block that is freed is allocated. -/
def FreesOwn : Call → World → Prop
  | .free (some b), w => b ∈ w.heap
  | _, _ => True

/-- The blocks, and the one that a call may have given. -/
def heapWith (H : Finset Nat) : Option Nat → Finset Nat
  | none => H
  | some b => insert b H

/-- The block that an allocation gives. -/
def World.freshBlock (w : World) : Option Nat :=
  if w.reply.ok ∧ w.reply.num ∉ w.heap then some w.reply.num else none

theorem alloc_inv {w w' : World} {p : Option Nat}
    (hs : (.ok w.alloc : Except ProcessEnd (Option Nat × World)) = .ok (p, w')) :
    p = w.freshBlock ∧ w'.heap = heapWith w.heap p ∧ ∀ b, p = some b → b ∉ w.heap := by
  obtain rfl := congrArg Prod.fst (Except.ok.inj hs)
  obtain rfl := world_eq hs
  unfold World.alloc World.freshBlock
  split
  · rename_i h
    refine ⟨rfl, rfl, fun b hb => ?_⟩
    cases hb
    exact h.2
  · exact ⟨rfl, rfl, nofun⟩

/-- A block that was allocated is freed: the blocks are those of before. -/
theorem free_meets {H : Finset Nat} {p : Option Nat} {w : World} (hw : w.heap = heapWith H p)
    (hp : ∀ b, p = some b → b ∉ H) :
    (call (.free p)).Meets handle FreesOwn w fun _ w' => w'.heap = H := by
  cases p with
  | none =>
    refine ⟨trivial, fun _ w' hs => ?_⟩
    cases hs
    exact hw
  | some b =>
    have hin : b ∈ w.heap := hw ▸ Finset.mem_insert_self b H
    refine ⟨hin, fun r w' hs => ?_⟩
    have hs : (if b ∈ w.heap then .ok ((), { w with heap := w.heap.erase b }) else .error .badFree :
        Except ProcessEnd (Unit × World)) = .ok (r, w') := hs
    rw [if_pos hin] at hs
    cases hs
    show w.heap.erase b = H
    rw [hw]
    exact Finset.erase_insert (hp b rfl)

theorem heap_frames (H : Finset Nat) : Frames [.block] (fun w => w.heap = H) FreesOwn where
  keep c w r w' hc hI hs := by
    have hne : c.group ≠ .block := fun h => by
      rw [h] at hc
      cases hc
    exact ((handle_framed hs).heap hne).trans hI
  meets c w hc hI := by
    cases c with
    | free p => cases hc
    | _ => trivial

/-! ## 2. The operations that allocate -/

/-- What a child makes of itself frees nothing, and does not come to its end. -/
theorem execChild_frees (token : Path) (w : World) (Q : Unit → World → Prop) :
    Prog.Meets handle FreesOwn (do
      call .preexec
      let _ ← call (.execve token)
      exit 1 : Op Unit) w Q :=
  ⟨trivial, fun _ _ _ => ⟨trivial, fun _ _ _ => ⟨trivial, fun r => nomatch r⟩⟩⟩

theorem putenvBuf_frees {name value : List Char} {f : Op Unit} {Q : Unit → World → Prop}
    (hf : ∀ w, f.Meets handle FreesOwn w Q) (w : World) :
    (putenvBuf name value >>= fun _ => f).Meets handle FreesOwn w Q := by
  refine ⟨trivial, fun buf w₁ _ => Prog.meets_bind.mpr ?_⟩
  show Prog.Meets handle FreesOwn (ite (buf ≠ none) _ _) w₁ _
  split
  · exact ⟨trivial, fun _ w₂ _ => hf w₂⟩
  · exact hf w₁

variable {basedir : Path} {ps : Funcs} {H : Finset Nat} {w : World}

theorem ldlibrarypath_heap (w : World) :
    specialLdlibrarypath.Meets handle FreesOwn w fun _ w' => w'.heap = heapWith w.heap w.freshBlock := by
  refine ⟨trivial, fun token w₁ hs₁ => ⟨trivial, fun path w₂ hs₂ => ⟨trivial, fun dup w₃ hs₃ =>
    ⟨trivial, fun childpid w₄ hs₄ => ?_⟩⟩⟩⟩
  cases hs₁
  cases hs₂
  obtain ⟨rfl, hdup, -⟩ := alloc_inv hs₃
  have h₄ := (heap_frames (heapWith w.heap w.freshBlock)).keep _ w₃ childpid w₄ rfl hdup hs₄
  show Prog.Meets handle FreesOwn (ite (childpid > 0) _ _) w₄ _
  split
  · have hwait : (do let _ ← bstgWaitpidOp childpid 60 : Op Unit).Only
        (Call.In [.plain, .process]) := waited_only rfl rfl childpid 60
    exact (heap_frames _).only hwait rfl h₄
  · show Prog.Meets handle FreesOwn (ite (childpid = 0) _ _) w₄ _
    split
    · have hchild (token : Path) (w : World) (Q : Unit → World → Prop) :
          Prog.Meets handle FreesOwn (do
            call (.putenv "LD_PRELOAD=libfembotisnothere.so.13".toList)
            call .preexec
            let _ ← call (.execve token)
            exit 1 : Op Unit) w Q := ⟨trivial, fun _ w₅ _ => execChild_frees token w₅ Q⟩
      exact putenvBuf_frees (fun w => hchild _ w _) w₄
    · exact h₄

theorem ldpreload_heap (hw : w.heap = H) :
    specialLdpreload.Meets handle FreesOwn w fun _ w' => w'.heap = H := by
  have keep := (heap_frames H).keep
  refine ⟨trivial, fun token w₁ hs₁ => ⟨trivial, fun path w₂ hs₂ =>
    ⟨trivial, fun childpid w₃ hs₃ => ?_⟩⟩⟩
  have h₃ := keep _ w₂ childpid w₃ rfl (keep _ w₁ path w₂ rfl (keep _ w token w₁ rfl hw hs₁) hs₂) hs₃
  show Prog.Meets handle FreesOwn (ite (childpid > 0) _ _) w₃ _
  split
  · have hwait : (do let _ ← bstgWaitpidOp childpid 60 : Op Unit).Only
        (Call.In [.plain, .process]) := waited_only rfl rfl childpid 60
    exact (heap_frames _).only hwait rfl h₃
  · show Prog.Meets handle FreesOwn (ite (childpid = 0) _ _) w₃ _
    split
    · exact putenvBuf_frees (fun w₄ => execChild_frees token w₄ _) w₃
    · exact h₃

theorem move_heap (hw : w.heap = H) :
    (specialMove basedir).Meets handle FreesOwn w fun _ w' => w'.heap = H := by
  subst hw
  refine ⟨trivial, fun path w₁ hs₁ => ⟨trivial, fun orig w₂ hs₂ => ?_⟩⟩
  cases hs₁
  obtain ⟨-, hheap, hnew⟩ := alloc_inv hs₂
  show Prog.Meets handle FreesOwn (ite (orig ≠ none) _ _) w₂ _
  by_cases horig : orig = none
  · subst horig
    exact hheap
  · rw [if_pos horig]
    refine ⟨trivial, fun rc w₃ hs₃ => ?_⟩
    have h₃ := (heap_frames _).keep _ w₂ rc w₃ rfl hheap hs₃
    show Prog.Meets handle FreesOwn (ite (rc = 0) _ _) w₃ _
    split
    · refine ⟨trivial, fun _ w₄ hs₄ => ?_⟩
      obtain rfl := onPath_asked hs₄
      exact free_meets h₃ hnew
    · exact free_meets h₃ hnew

theorem readdir_heap (hw : w.heap = H) :
    srcOpendirReaddir.Meets handle FreesOwn w fun _ w' => w'.heap = H := by
  subst hw
  refine ⟨trivial, fun path w₁ hs₁ => ⟨trivial, fun dup w₂ hs₂ => ?_⟩⟩
  cases hs₁
  obtain ⟨-, hheap, hnew⟩ := alloc_inv hs₂
  show Prog.Meets handle FreesOwn (ite (dup ≠ none) _ _) w₂ _
  by_cases hdup : dup = none
  · subst hdup
    exact hheap
  · rw [if_pos hdup]
    refine ⟨trivial, fun dirp w₃ hs₃ => ?_⟩
    have h₃ := (heap_frames _).keep _ w₂ dirp w₃ rfl hheap hs₃
    cases dirp with
    | none => exact free_meets h₃ hnew
    | some fd =>
      refine ⟨trivial, fun _ w₄ hs₄ => ⟨trivial, fun _ w₅ hs₅ => ?_⟩⟩
      cases hs₄
      cases hs₅
      exact free_meets h₃ hnew

theorem fchown_heap (hw : w.heap = H) :
    srcChownFchown.Meets handle FreesOwn w fun _ w' => w'.heap = H := by
  have keep := (heap_frames H).keep
  refine ⟨trivial, fun fd w₁ hs₁ => ⟨trivial, fun st w₂ hs₂ => ⟨trivial, fun groupids w₃ hs₃ => ?_⟩⟩⟩
  have h₃ := keep _ w₂ groupids w₃ rfl (keep _ w₁ st w₂ rfl (keep _ w fd w₁ rfl hw hs₁) hs₂) hs₃
  -- what follows the allocation, whatever it gave
  have hrest : ∀ (newids : Option Nat) (w : World), w.heap = heapWith H newids →
      (∀ b, newids = some b → b ∉ H) → Prog.Meets handle FreesOwn (if newids ≠ none then do
        let newid ← liftExec
          (fchownLoop (List.replicate groupids.toNat 0) st.2.gid (-1) 0 groupids.toNat)
        let _ ← call (.onFd (.fchown (-1) newid) fd)
        call (.free newids)
      else do
        let newid ← pure (-1)
        let _ ← call (.onFd (.fchown (-1) newid) fd)
        call (.free newids) : Op Unit) w fun _ w' => w'.heap = H := by
    intro newids w hw hnew
    have hend : ∀ (newid : UInt32) (w : World), w.heap = heapWith H newids →
        Prog.Meets handle FreesOwn (do
          let _ ← call (.onFd (.fchown (-1) newid) fd)
          call (.free newids) : Op Unit) w fun _ w' => w'.heap = H := fun newid w hw =>
      ⟨trivial, fun _ w' hs => by
        obtain rfl := onFd_asked hs
        exact free_meets hw hnew⟩
    split
    · obtain ⟨newid, hnewid⟩ := fchownLoop_replicate groupids.toNat st.2.gid
      rw [hnewid]
      exact hend newid w hw
    · exact hend (-1) w hw
  show Prog.Meets handle FreesOwn (ite (groupids > 0) _ _) w₃ _
  split
  · refine ⟨trivial, fun newids w₄ hs₄ => ?_⟩
    obtain ⟨-, hheap, hnew⟩ := alloc_inv hs₄
    rw [h₃] at hheap hnew
    exact hrest newids w₄ hheap hnew
  · exact hrest none w₃ h₃ nofun

/-- Every operation but `special/ldlibrarypath.c` leaves the blocks as they were. -/
theorem heap_kept {i : Nat} (hi : i ≠ 3) {p : Op Unit} (hp : OpKind basedir ps i p)
    (hw : w.heap = H) : p.Meets handle FreesOwn w fun _ w' => w'.heap = H := by
  have frames {p : Op Unit} {gs : List Group} (hp : p.Only (Call.In gs))
      (hgs : (gs.all fun g => !([.block] : List Group).contains g) = true) :
      p.Meets handle FreesOwn w fun _ w' => w'.heap = H := (heap_frames H).only hp hgs hw
  cases hp with
  | plain h => exact frames h rfl
  | copyexe flags => exact frames (copyexe_only basedir flags) rfl
  | exec => exact frames exec_only rfl
  | gcore => exact frames gcore_only rfl
  | ldlibrarypath => exact absurd rfl hi
  | ldpreload => exact ldpreload_heap hw
  | move => exact move_heap hw
  | posixSpawn => exact frames posixSpawn_only rfl
  | chdir => exact frames chdir_only rfl
  | fchdir => exact frames fchdir_only rfl
  | fchown => exact fchown_heap hw
  | closeall => exact frames closeall_only rfl
  | dlopen => exact frames dlopen_only rfl
  | mapAndRead flag => exact frames (mapAndRead_only ps flag) rfl
  | mmapFile => exact frames (mmapFile_only ps) rfl
  | mmapStatd => exact frames (mmapStatd_only ps) rfl
  | openAndSet flags => exact frames (openAndSet_only flags) rfl
  | fdopendir => exact frames fdopendir_only rfl
  | opendir => exact frames opendir_only rfl
  | readdir => exact readdir_heap hw
  | pipe => exact frames pipe_only rfl

/-! ## 3. Runs -/

/-- The block that dispatching at `i` leaves: what the `strdup` of `special/ldlibrarypath.c` gives. -/
def leak (ps : Funcs) (w : World) (i : Nat) : Option Nat :=
  if i = 3 then (w.announced ps).freshBlock else none

/-- How many blocks a run leaves. -/
def leaked (basedir : Path) (ps : Funcs) (w : World) : List Nat → Nat
  | [] => 0
  | i :: ids =>
    match opStep basedir ps w i with
    | .ok w' => (leak ps w i).toList.length + leaked basedir ps w' ids
    | .error _ => 0

theorem announced_heap (ps : Funcs) (w : World) : (w.announced ps).heap = w.heap := by
  unfold World.announced
  split <;> rfl

theorem leak_fresh {i b : Nat} (h : leak ps w i = some b) : b ∉ w.heap := by
  unfold leak World.freshBlock at h
  split at h
  · split at h
    · rename_i hfresh
      cases h
      rw [← announced_heap ps]
      exact hfresh.2
    · cases h
  · cases h

/-- No operation frees what is not allocated. -/
theorem frees_keeps (basedir : Path) (ps : Funcs) : Keeps basedir ps (fun _ => True) FreesOwn where
  func i w _ := by
    by_cases hi : i = 3
    · subst hi
      refine generatedFunc_meets (fun _ _ _ _ _ _ _ => trivial) (fun c w hc _ => ?_)
        (fun w _ => (ldlibrarypath_heap w).post fun _ _ _ => trivial) trivial
      exact (heap_frames w.heap).meets c w (by rw [hc]; rfl) rfl
    · exact ((heap_frames w.heap).fembotFunc rfl (fun _ _ => trivial)
        (fun p u hp hu => heap_kept hi hp hu) rfl).post fun _ _ _ => trivial

/-- What an operation leaves behind it. -/
theorem opStep_heap {w' : World} {i : Nat} (hs : opStep basedir ps w i = .ok w') :
    w'.heap = heapWith w.heap (leak ps w i) := by
  rw [opStep_ok] at hs
  by_cases hi : i = 3
  · subst hi
    have hfunc : fembotFunc basedir ps 3 =
        generatedFunc ps "special/ldlibrarypath.c" specialLdlibrarypath := rfl
    rw [hfunc] at hs
    have hheap := (ldlibrarypath_heap (w.announced ps)).exec (generatedFunc_exec hs)
    rwa [announced_heap] at hheap
  · have hmeets : (fembotFunc basedir ps i).Meets handle FreesOwn w fun _ w' => w'.heap = w.heap :=
      (heap_frames w.heap).fembotFunc rfl (fun _ _ => trivial)
        (fun p u hp hu => heap_kept hi hp hu) rfl
    rw [leak, if_neg hi]
    exact hmeets.exec hs

/-- Each block that is freed is allocated, in every run. The blocks that are more behind a run are as
    many as the calls of `special/ldlibrarypath.c` in it whose `strdup` succeeds. -/
theorem heap_accounted (basedir : Path) (ps : Funcs) (w : World) (ids : List Nat) :
    EachCall basedir ps FreesOwn w ids ∧ run (opStep basedir ps) w ids ≠ .error .badFree ∧
      ∀ t, run (opStep basedir ps) w ids = .ok t →
        w.heap ⊆ t.heap ∧ t.heap.card = w.heap.card + leaked basedir ps w ids := by
  refine ⟨(frees_keeps basedir ps).eachCall trivial ids, fun hrun => ?_, fun t ht => ?_⟩
  · obtain ⟨c, u, hφ, hs⟩ := (frees_keeps basedir ps).run_error trivial hrun
    cases handle_stopped hs with
    | free hb => exact hb hφ
  · induction ids generalizing w with
    | nil =>
      cases ht
      exact ⟨Finset.Subset.refl _, rfl⟩
    | cons i ids ih =>
      obtain ⟨w', hs, hrest⟩ := run_cons_inv ht
      obtain ⟨hsub, hcard⟩ := ih w' hrest
      have hheap := opStep_heap hs
      rw [leaked, hs]
      dsimp only
      cases hleak : leak ps w i with
      | none =>
        rw [hleak] at hheap
        have hheap : w'.heap = w.heap := hheap
        rw [hheap] at hsub hcard
        exact ⟨hsub, hcard.trans (by simp)⟩
      | some b =>
        rw [hleak] at hheap
        have hheap : w'.heap = insert b w.heap := hheap
        have hnew : b ∉ w.heap := leak_fresh hleak
        rw [hheap] at hsub hcard
        rw [Finset.card_insert_of_notMem hnew] at hcard
        refine ⟨(Finset.subset_insert b _).trans hsub, hcard.trans ?_⟩
        rw [Option.toList_some, List.length_singleton]
        omega

end Fembot
