/-
  File:      Fembot/Kernel.lean
  Subject:   The descriptor table of a process, with the POSIX calls on it.

  A descriptor that is open refers to an open file. `open` and `pipe` give the lowest numbers
  that are free, `dup2` makes a number refer to another's file, `close` frees a number. Whether a
  call that could succeed does is an answer from outside (`answers`): files may be missing, calls
  may be interrupted. `kernel` is the table as the system the descriptor store runs on.
-/
import Fembot.Fdstore
import Mathlib.Data.Stream.Init
import Mathlib.Data.List.Range

namespace Fembot

/-! ## 1. The table -/

/-- An open file. -/
abbrev File := Nat

/-- What is decided outside about one call: whether it succeeds, and the file it opens. -/
structure Answer where
  ok : Bool
  file : File
  deriving Inhabited

/-- The table of a process: the file each open descriptor refers to, the number of descriptors the
    process may have, and the answers to the calls to come. -/
structure Kernel where
  slot : Int → Option File
  nonneg : ∀ fd, fd < 0 → slot fd = none
  limit : Nat
  answers : Stream' Answer

namespace Kernel

/-- The descriptor is open. -/
def IsOpen (k : Kernel) (fd : Int) : Prop := (k.slot fd).isSome

instance (k : Kernel) (fd : Int) : Decidable (k.IsOpen fd) :=
  inferInstanceAs (Decidable ((k.slot fd).isSome = true))

/-- The table with another entry at `fd`, and the next answer consumed or not. -/
def put (k : Kernel) (fd : Int) (f : Option File) : Kernel :=
  { k with
    slot := fun n => if n = fd ∧ 0 ≤ fd then f else k.slot n
    nonneg := fun n hn => by
      rw [if_neg fun h => by omega]
      exact k.nonneg n hn }

/-- The table behind a call that consumed its answer. -/
def asked (k : Kernel) : Kernel := { k with answers := k.answers.tail }

/-- The lowest free number, where there is one below the limit. -/
def lowestFree (k : Kernel) : Option Nat := (List.range k.limit).find? fun n => k.slot n = none

/-! ## 2. The calls -/

/-- The `open` call. -/
def openFile (k : Kernel) : Kernel × Int :=
  if k.answers.head.ok then
    match k.lowestFree with
    | some n => (k.asked.put n (some k.answers.head.file), n)
    | none => (k.asked, -1)
  else (k.asked, -1)

/-- The `pipe` call: the two ends, or `none`. -/
def pipe (k : Kernel) : Kernel × Option (Int × Int) :=
  if k.answers.head.ok then
    match k.lowestFree with
    | none => (k.asked, none)
    | some n =>
      let k' := k.asked.put n (some k.answers.head.file)
      match k'.lowestFree with
      | none => (k.asked, none)
      | some m => (k'.put m (some (k.answers.head.file + 1)), some (n, m))
  else (k.asked, none)

/-- The `dup2` call. -/
def dup2 (k : Kernel) (fd newd : Int) : Kernel × Int :=
  if k.answers.head.ok ∧ k.IsOpen fd ∧ 0 ≤ newd ∧ newd < k.limit then
    (k.asked.put newd (k.slot fd), newd)
  else (k.asked, -1)

/-- The `close` call. -/
def close (k : Kernel) (fd : Int) : Kernel × Int :=
  if k.IsOpen fd then (k.put fd none, 0) else (k, -1)

end Kernel

/-- The table as the system under the store. -/
def kernel : Sys Kernel where
  openPath k _ := k.openFile
  dup2 := Kernel.dup2
  close := Kernel.close

/-! ## 3. What each call does to the table -/

namespace Kernel

variable {k : Kernel}

theorem put_slot {fd : Int} (h : 0 ≤ fd) (f : Option File) (n : Int) :
    (k.put fd f).slot n = if n = fd then f else k.slot n := by
  show (if n = fd ∧ 0 ≤ fd then f else k.slot n) = _
  by_cases hn : n = fd
  · rw [if_pos ⟨hn, h⟩, if_pos hn]
  · rw [if_neg fun hc => hn hc.1, if_neg hn]

theorem isOpen_nonneg {fd : Int} (h : k.IsOpen fd) : 0 ≤ fd := by
  by_contra hneg
  rw [IsOpen, k.nonneg fd (by omega)] at h
  cases h

/-- The table `k'` is `k` with `fd` open as well, which it was not. -/
def Opens (k k' : Kernel) (fd : Int) : Prop :=
  0 ≤ fd ∧ ¬ k.IsOpen fd ∧ ∀ n, k'.IsOpen n ↔ k.IsOpen n ∨ n = fd

/-- The open descriptors are the same. -/
def SameOpen (k k' : Kernel) : Prop := ∀ n, k'.IsOpen n ↔ k.IsOpen n

theorem sameOpen_asked (k : Kernel) : k.SameOpen k.asked := fun _ => Iff.rfl

theorem SameOpen.trans {k₁ k₂ k₃ : Kernel} (h : k₁.SameOpen k₂) (h' : k₂.SameOpen k₃) :
    k₁.SameOpen k₃ := fun n => (h' n).trans (h n)

theorem isOpen_put {fd : Int} (h : 0 ≤ fd) (f : File) (n : Int) :
    (k.put fd (some f)).IsOpen n ↔ k.IsOpen n ∨ n = fd := by
  unfold IsOpen
  rw [put_slot h]
  by_cases hn : n = fd
  · simp [hn]
  · simp [hn]

theorem lowestFree_spec {n : Nat} (h : k.lowestFree = some n) :
    n < k.limit ∧ ¬ k.IsOpen n ∧ ∀ m : Nat, m < n → k.IsOpen m := by
  obtain ⟨hn, hlt, hbelow⟩ := List.find?_range_eq_some.mp h
  refine ⟨List.mem_range.mp hlt, ?_, fun m hm => ?_⟩
  · rw [IsOpen, of_decide_eq_true hn]
    exact Bool.false_ne_true
  · have hm := hbelow m hm
    rw [Bool.not_eq_true', decide_eq_false_iff_not] at hm
    exact Option.isSome_iff_ne_none.mpr hm

/-- A call of `open` opens the lowest free number, or fails and leaves the table as it is. -/
theorem openFile_spec (k : Kernel) :
    (k.openFile.2 = -1 ∧ k.SameOpen k.openFile.1) ∨
      (k.Opens k.openFile.1 k.openFile.2 ∧
        ∀ n, 0 ≤ n → n < k.openFile.2 → k.IsOpen n) := by
  unfold openFile
  by_cases hok : k.answers.head.ok
  · rw [if_pos hok]
    cases hfree : k.lowestFree with
    | none => exact .inl ⟨rfl, sameOpen_asked k⟩
    | some n =>
      obtain ⟨-, hclosed, hbelow⟩ := lowestFree_spec hfree
      have hn : (0 : Int) ≤ n := Int.natCast_nonneg n
      refine .inr ⟨⟨hn, hclosed, isOpen_put hn _⟩, fun m hm hlt => ?_⟩
      have := hbelow m.toNat (by
        dsimp only at hlt
        omega)
      rwa [Int.toNat_of_nonneg hm] at this
  · rw [if_neg hok]
    exact .inl ⟨rfl, sameOpen_asked k⟩

/-- A call of `pipe` opens two numbers, or fails and leaves the table as it is. -/
theorem pipe_spec (k : Kernel) :
    (k.pipe.2 = none ∧ k.SameOpen k.pipe.1) ∨
      ∃ n m k₁, k.pipe.2 = some (n, m) ∧ k.Opens k₁ n ∧ k₁.Opens k.pipe.1 m := by
  unfold pipe
  by_cases hok : k.answers.head.ok
  · rw [if_pos hok]
    cases hfree : k.lowestFree with
    | none => exact .inl ⟨rfl, sameOpen_asked k⟩
    | some n =>
      obtain ⟨-, hclosed, -⟩ := lowestFree_spec hfree
      have hn : (0 : Int) ≤ n := Int.natCast_nonneg n
      dsimp only
      cases hfree' : (k.asked.put n (some k.answers.head.file)).lowestFree with
      | none => exact .inl ⟨rfl, sameOpen_asked k⟩
      | some m =>
        obtain ⟨-, hclosed', -⟩ := lowestFree_spec hfree'
        have hm : (0 : Int) ≤ m := Int.natCast_nonneg m
        exact .inr ⟨n, m, _, rfl, ⟨hn, hclosed, isOpen_put hn _⟩, ⟨hm, hclosed', isOpen_put hm _⟩⟩
  · rw [if_neg hok]
    exact .inl ⟨rfl, sameOpen_asked k⟩

/-- A call of `dup2` that succeeds: its source was open, and its target is put to the same file. -/
theorem dup2_done {fd newd : Int} (h : (k.dup2 fd newd).2 ≠ -1) :
    k.IsOpen fd ∧ 0 ≤ newd ∧ (k.dup2 fd newd).1 = k.asked.put newd (k.slot fd) := by
  unfold dup2 at h ⊢
  by_cases hc : k.answers.head.ok ∧ k.IsOpen fd ∧ 0 ≤ newd ∧ newd < k.limit
  · rw [if_pos hc]
    exact ⟨hc.2.1, hc.2.2.1, rfl⟩
  · rw [if_neg hc] at h
    exact absurd rfl h

/-- A call of `dup2` that fails. -/
theorem dup2_refused {fd newd : Int} (h : (k.dup2 fd newd).2 = -1) :
    (k.dup2 fd newd).1 = k.asked := by
  unfold dup2 at h ⊢
  by_cases hc : k.answers.head.ok ∧ k.IsOpen fd ∧ 0 ≤ newd ∧ newd < k.limit
  · rw [if_pos hc] at h
    exact absurd (show newd = -1 from h) (by omega)
  · rw [if_neg hc]

/-- A call of `dup2` that succeeds leaves its target open, and no other number changed; its source
    was open. -/
theorem dup2_ok {fd newd : Int} (h : (k.dup2 fd newd).2 ≠ -1) :
    k.IsOpen fd ∧ ∀ n, (k.dup2 fd newd).1.IsOpen n ↔ k.IsOpen n ∨ n = newd := by
  obtain ⟨hopen, hnn, hput⟩ := dup2_done h
  obtain ⟨f, hf⟩ := Option.isSome_iff_exists.mp hopen
  rw [hput, hf]
  exact ⟨hopen, isOpen_put hnn f⟩

theorem dup2_failed {fd newd : Int} (h : (k.dup2 fd newd).2 = -1) :
    k.SameOpen (k.dup2 fd newd).1 := by
  rw [dup2_refused h]
  exact sameOpen_asked k

theorem close_isOpen (fd n : Int) : (k.close fd).1.IsOpen n ↔ k.IsOpen n ∧ n ≠ fd := by
  unfold close
  by_cases hopen : k.IsOpen fd
  · rw [if_pos hopen]
    unfold IsOpen
    rw [put_slot (isOpen_nonneg hopen)]
    by_cases hn : n = fd
    · simp [hn]
    · simp [hn]
  · rw [if_neg hopen]
    constructor
    · intro h
      refine ⟨h, fun hn => hopen ?_⟩
      rwa [← hn]
    · exact fun h => h.1

/-- Closing in turn closes these numbers and no other. -/
theorem closes_isOpen (fds : List Int) (k : Kernel) (n : Int) :
    (fds.foldl (fun k fd => (k.close fd).1) k).IsOpen n ↔ k.IsOpen n ∧ n ∉ fds := by
  induction fds generalizing k with
  | nil => simp
  | cons fd fds ih =>
    rw [List.foldl_cons, ih, close_isOpen, List.mem_cons, not_or, and_assoc]

end Kernel

end Fembot
