/-
  File:      Fembot/Conservation.lean
  Subject:   DESCRIPTOR CONSERVATION: when closing the store brings back the table a run of
             acquiring operations started from, and when a descriptor is lost.

  * `Owned` -- the invariant: what is open was open at the start or is tracked, and not both;
  * `Lost` -- a descriptor is open that was not and that the store does not track; no acquiring
    operation brings it back (`lost_stays`);
  * `KeepsAll` (Pool.lean) -- the condition on a step: number 0 is not given, and no call of
    `bstg_fdstore_set` replaces a tracked descriptor or runs behind the `fd_set`. A step that
    meets it keeps `Owned`, a step that misses it loses a descriptor or ends in a fault.
-/
import Fembot.Pool

namespace Fembot

open Library

/-- What is open was open in the table `k₀`, or is tracked; and nothing is both. -/
structure Owned (k₀ : Kernel) (p : Process) : Prop where
  tracks : Tracks p
  opens : ∀ n, p.k.IsOpen n ↔ k₀.IsOpen n ∨ n ∈ p.ps.members
  foreign : ∀ n ∈ p.ps.members, ¬ k₀.IsOpen n

/-- A descriptor is open that was not open in `k₀` and is not tracked. -/
def Lost (k₀ : Kernel) (p : Process) : Prop :=
  Tracks p ∧ ∃ n, p.k.IsOpen n ∧ ¬ k₀.IsOpen n ∧ n ∉ p.ps.members

/-- Closing the store leaves open exactly what is open in `k₀`. -/
def Conserved (k₀ : Kernel) (p : Process) : Prop :=
  ∃ k ps rc, bstgFdstoreCloseall kernel p.k p.ps = .ok (k, ps, rc) ∧ k₀.SameOpen k

/-- Every descriptor handed to set in the operation is behind it tracked or closed. -/
def HandedOn (p : Process) (a : Acquire) : Prop :=
  ∀ p', acquire p a = .ok p' → ∀ sc ∈ acquireCalls p a, p'.k.IsOpen sc.fd → sc.fd ∈ p'.ps.members

/-- The run ends, closing the store brings the table back, and no descriptor handed to set is lost
    on the way. -/
def Conserves (k₀ : Kernel) (ps : Fdstore) (ops : List Acquire) : Prop :=
  (∃ p, run acquire (Process.start k₀ ps) ops = .ok p ∧ Conserved k₀ p) ∧
    EachStep acquire (Process.start k₀ ps) ops HandedOn

theorem owned_start (k₀ : Kernel) (ps : Fdstore) : Owned k₀ (Process.start k₀ ps) := by
  refine ⟨tracks_start k₀ ps, fun n => ⟨.inl, fun h => ?_⟩,
    fun n hn => absurd hn (Finset.notMem_empty n)⟩
  rcases h with h | h
  · exact h
  · exact absurd h (Finset.notMem_empty n)

/-- A step that meets the condition keeps everything owned. -/
theorem owned_step {k₀ : Kernel} {p p' : Process} {a : Acquire} (h : Owned k₀ p)
    (hkeep : KeepsAll p a) (hp' : acquire p a = .ok p') : Owned k₀ p' := by
  have hs := (acquire_step h.tracks a).2 p' hp'
  have hgiven := hs.keeps.mp hkeep
  refine ⟨hs.tracks, fun n => ⟨fun hn => ?_, fun hn => ?_⟩, fun n hn => ?_⟩
  · rcases (hs.opens n).mp hn with hn | ⟨hn, h0⟩
    · rcases (h.opens n).mp hn with hn | hn
      · exact .inl hn
      · exact .inr (hs.grows hn)
    · exact .inr (hgiven n hn h0)
  · rcases hn with hn | hn
    · exact (hs.opens n).mpr (.inl ((h.opens n).mpr (.inl hn)))
    · exact hs.tracks.live n hn
  · rcases hs.only n hn with hn | hn
    · exact h.foreign n hn
    · exact fun hn₀ => hn ((h.opens n).mpr (.inl hn₀))

/-- A step that misses the condition and ends loses a descriptor. -/
theorem owned_lose {k₀ : Kernel} {p p' : Process} {a : Acquire} (h : Owned k₀ p)
    (hmiss : ¬ KeepsAll p a) (hp' : acquire p a = .ok p') : Lost k₀ p' := by
  have hs := (acquire_step h.tracks a).2 p' hp'
  rw [hs.keeps] at hmiss
  have hlost : ∃ n ∈ (grab p a).given, 0 ≤ n ∧ n ∉ p'.ps.members := by
    by_contra hall
    exact hmiss fun n hn h0 => by
      by_contra hmem
      exact hall ⟨n, hn, h0, hmem⟩
  obtain ⟨n, hn, h0, hmem⟩ := hlost
  have hnew := (grab_ok h.tracks a).fresh.fresh n hn h0
  refine ⟨hs.tracks, n, (hs.opens n).mpr (.inr ⟨hn, h0⟩), fun hn₀ => ?_, hmem⟩
  exact hnew ((h.opens n).mpr (.inl hn₀))

/-- What is lost stays lost: only numbers that were free are ever handed to the store. -/
theorem lost_stays {k₀ : Kernel} {p p' : Process} {a : Acquire} (h : Lost k₀ p)
    (hp' : acquire p a = .ok p') : Lost k₀ p' := by
  obtain ⟨htracks, n, hopen, hnew, hmem⟩ := h
  have hs := (acquire_step htracks a).2 p' hp'
  refine ⟨hs.tracks, n, (hs.opens n).mpr (.inl hopen), hnew, fun hn => ?_⟩
  rcases hs.only n hn with hn | hn
  · exact hmem hn
  · exact hn hopen

/-- Behind `bstg_fdstore_closeall` is open what was open and not tracked. -/
theorem closeall_isOpen {p : Process} (h : Tracks p) :
    ∃ k ps rc, bstgFdstoreCloseall kernel p.k p.ps = .ok (k, ps, rc) ∧
      ∀ n, k.IsOpen n ↔ p.k.IsOpen n ∧ n ∉ p.ps.members := by
  refine ⟨_, _, _, closeall_spec h.valid p.k, fun n => ?_⟩
  show (List.foldl (fun k fd => (k.close fd).1) p.k (p.ps.members.sort (· ≤ ·))).IsOpen n ↔ _
  rw [Kernel.closes_isOpen, Finset.mem_sort]

theorem Owned.conserved {k₀ : Kernel} {p : Process} (h : Owned k₀ p) : Conserved k₀ p := by
  obtain ⟨k, ps, rc, hclose, hopen⟩ := closeall_isOpen h.tracks
  refine ⟨k, ps, rc, hclose, fun n => ?_⟩
  rw [hopen, h.opens]
  constructor
  · intro hn
    exact hn.1.resolve_right hn.2
  · exact fun hn => ⟨.inl hn, fun hmem => h.foreign n hmem hn⟩

theorem Lost.not_conserved {k₀ : Kernel} {p : Process} (h : Lost k₀ p) : ¬ Conserved k₀ p := by
  obtain ⟨htracks, n, hn, hnew, hmem⟩ := h
  obtain ⟨k, ps, rc, hclose, hopen⟩ := closeall_isOpen htracks
  intro hcons
  obtain ⟨k', ps', rc', hclose', hsame⟩ := hcons
  rw [hclose] at hclose'
  cases hclose'
  exact hnew ((hsame n).mp ((hopen n).mpr ⟨hn, hmem⟩))

theorem setAllCalls_fd {fds : List Int} {k : Kernel} {ps : Fdstore} :
    ∀ sc ∈ setAllCalls k ps fds, sc.fd ∈ fds := by
  induction fds generalizing k ps with
  | nil => exact fun sc hsc => absurd hsc List.not_mem_nil
  | cons fd fds ih =>
    intro sc hsc
    rw [setAllCalls] at hsc
    rcases List.mem_cons.mp hsc with rfl | hsc
    · exact List.mem_cons_self
    · cases hset : bstgFdstoreSet kernel k ps fd with
      | error e =>
        rw [hset] at hsc
        exact absurd hsc List.not_mem_nil
      | ok r =>
        rw [hset] at hsc
        exact List.mem_cons_of_mem _ (ih sc hsc)

/-- Where the condition holds, what was handed on is tracked. -/
theorem handedOn_of_keepsAll {p : Process} {a : Acquire} (h : Tracks p) (hkeep : KeepsAll p a) :
    HandedOn p a := by
  intro p' hp' sc hsc hopen
  have hs := (acquire_step h a).2 p' hp'
  have hgiven := (grab_ok h a).handed _ (setAllCalls_fd sc hsc)
  exact hs.keeps.mp hkeep _ hgiven (Kernel.isOpen_nonneg hopen)

/-- From every table and over every sequence of acquiring operations: the run ends and closing the
    store brings the table back exactly if no step is given number 0, and no call of set in it
    replaces a tracked descriptor or is handed a number without a bit. -/
theorem descriptors_conserved_iff (k₀ : Kernel) (ps : Fdstore) (ops : List Acquire) :
    Conserves k₀ ps ops ↔ EachStep acquire (Process.start k₀ ps) ops KeepsAll := by
  have h0 := owned_start k₀ ps
  have keep : ∀ p a p', Owned k₀ p → KeepsAll p a → acquire p a = .ok p' → Owned k₀ p' :=
    fun _ _ _ h hkeep hp' => owned_step h hkeep hp'
  constructor
  · intro hcons
    obtain ⟨⟨p, hrun, hcons⟩, -⟩ := hcons
    exact eachStep_of_run h0 keep (fun _ _ _ h hmiss hp' => owned_lose h hmiss hp')
      (fun _ _ _ h hp' => lost_stays h hp') hrun fun hlost => hlost.not_conserved hcons
  · intro hall
    obtain ⟨p, hrun, howned⟩ := run_ok_of_eachStep h0 (fun p a h hkeep => by
      obtain ⟨p', hp'⟩ := (acquire_step h.tracks a).1 hkeep
      exact ⟨p', hp', owned_step h hkeep hp'⟩) hall
    exact ⟨⟨p, hrun, howned.conserved⟩,
      EachStep.of_invariant h0 keep (fun p a h hkeep => handedOn_of_keepsAll h.tracks hkeep) hall⟩

/-- The numbers 0 to 11 are open, and every call succeeds. -/
def twelveOpen : Kernel where
  slot fd := if 0 ≤ fd ∧ fd < 12 then some fd.toNat else none
  nonneg fd h := if_neg fun hc => by omega
  limit := 64
  answers := fun _ => ⟨true, 7⟩

/-- The failing run: the first open gives 12, which is tracked; the second gives 13, whose file is
    put under 12, and 13 is open for ever. -/
theorem second_open_lost :
    ¬ Conserves twelveOpen ⟨0, 0, 0, fdZero⟩ [openRdwr, openRdwr] := by
  intro hcons
  obtain ⟨⟨p, hrun, k, ps, rc, hclose, hsame⟩, -⟩ := hcons
  have hlost : ∃ q k', run acquire (Process.start twelveOpen ⟨0, 0, 0, fdZero⟩)
      [openRdwr, openRdwr] = .ok q ∧
      bstgFdstoreCloseall kernel q.k q.ps = .ok (k', (bstgFdstoreReset q.ps)) ∧
      k'.IsOpen 13 := by
    refine ⟨_, _, rfl, rfl, ?_⟩
    decide
  obtain ⟨q, k', hrun', hclose', hopen⟩ := hlost
  rw [hrun] at hrun'
  cases hrun'
  rw [hclose] at hclose'
  cases hclose'
  exact absurd ((hsame 13).mp hopen) (by decide)

end Fembot
