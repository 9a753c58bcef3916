/-
  File:      Fembot/EmptyStore.lean
  Subject:   ONE OPERATION FROM AN EMPTY STORE: what it has opened behind it, the store tracks.

  Over many operations the store loses descriptors: past number 10 it replaces what it tracks, and
  the number it was handed stays open. One operation hands it two at most, so where a number up
  to 10 is free nothing is replaced.

  * `acquire_keeps`, `acquire_low` -- what an acquiring operation opens is tracked, and is low;
  * `poolStep_leaves` -- each operation of the pool, so that closing what is tracked closes all.
-/
import Fembot.Conservation
import Fembot.PoolAnswers
import Fembot.Probing

namespace Fembot

open Library

/-! ## 1. Low numbers -/

/-- A number up to 10 is free. -/
def Low (k : Kernel) : Prop := ∃ m : Int, 0 ≤ m ∧ m ≤ 10 ∧ ¬ k.IsOpen m

theorem Low.same {k k' : Kernel} (h : Low k) (hsame : k.SameOpen k') : Low k' := by
  obtain ⟨m, h0, h10, hfree⟩ := h
  exact ⟨m, h0, h10, fun hopen => hfree ((hsame m).mp hopen)⟩

/-- The lowest free number is as low. -/
theorem Low.lowest {k : Kernel} (h : Low k) {n : Int} (hbelow : ∀ m, 0 ≤ m → m < n → k.IsOpen m) :
    n ≤ 10 := by
  obtain ⟨m, h0, h10, hfree⟩ := h
  by_contra hn
  exact hfree (hbelow m h0 (by omega))

theorem openFile_low {k : Kernel} (h : Low k) : k.openFile.2 ≤ 10 := by
  rcases k.openFile_spec with ⟨hfail, -⟩ | ⟨-, hbelow⟩
  · rw [hfail]
    decide
  · exact h.lowest hbelow

/-- Where 0 is open, a call of `open` that gives no positive number leaves the table. -/
theorem openFile_failed {k : Kernel} (h0 : k.IsOpen 0) (hpos : ¬ k.openFile.2 > 0) :
    k.SameOpen k.openFile.1 := by
  rcases k.openFile_spec with ⟨-, hsame⟩ | ⟨⟨hnn, hfree, -⟩, -⟩
  · exact hsame
  · have hzero : k.openFile.2 = 0 := by omega
    exact absurd h0 (hzero ▸ hfree)

theorem openTries_low {flags modes : List OpenFlag} {k : Kernel} (h0 : k.IsOpen 0) (h : Low k)
    {fd : Int} (hfound : (openTries kernel flags modes k).found = some fd) : fd ≤ 10 := by
  induction modes generalizing k with
  | nil => cases hfound
  | cons omode modes ih =>
    rw [openTries] at hfound
    dsimp only [kernel] at hfound
    split at hfound
    · cases hfound
      exact openFile_low h
    · rename_i hpos
      have hsame := openFile_failed h0 hpos
      exact ih ((hsame 0).mpr h0) (h.same hsame) hfound

theorem pipe_low {k : Kernel} (h : Low k) {n m : Int} (hends : k.pipe.2 = some (n, m)) : n ≤ 10 := by
  unfold Kernel.pipe at hends
  split at hends
  · cases hfree : k.lowestFree with
    | none =>
      rw [hfree] at hends
      cases hends
    | some n' =>
      have hlow : (n' : Int) ≤ 10 := by
        refine h.lowest fun j h0 hj => ?_
        have := (Kernel.lowestFree_spec hfree).2.2 j.toNat (by omega)
        rwa [Int.toNat_of_nonneg h0] at this
      rw [hfree] at hends
      dsimp only at hends
      split at hends
      · cases hends
      · cases hends
        exact hlow
  · cases hends

/-! ## 2. Small stores -/

/-- A store that tracks no number above 10 keeps track of what it is handed. -/
theorem set_small {k k' : Kernel} {ps ps' : Fdstore} {fd r : Int} (hv : ps.Valid) (hmax : ps.max ≤ 10)
    (hset : bstgFdstoreSet kernel k ps fd = .ok (k', ps', r)) :
    (0 < fd → fd ∈ ps'.members) ∧ (fd ≤ 10 → ps'.max ≤ 10) ∧ ps.members ⊆ ps'.members := by
  obtain ⟨count, ⟨h10, -⟩, -, -⟩ | ⟨count, -, -, ⟨hle, rfl⟩ | ⟨hpos, hin, rfl⟩⟩ := set_inv hv hset
  · omega
  · exact ⟨fun hpos => by omega, fun _ => hmax, fun _ hn => hn⟩
  · refine ⟨fun _ => Finset.mem_insert_self _ _, fun hfd => ?_, fun _ hn => Finset.mem_insert_of_mem hn⟩
    rw [tracking_max]
    split
    · exact hfd
    · exact hmax

theorem setAll_small {fds : List Int} {k : Kernel} {ps : Fdstore} {p' : Process} (hv : ps.Valid)
    (hmax : ps.max ≤ 10) (hfds : ∀ fd ∈ fds.dropLast, fd ≤ 10) (hp' : setAll k ps fds = .ok p') :
    (∀ fd ∈ fds, 0 < fd → fd ∈ p'.ps.members) ∧ ((∀ fd ∈ fds, fd ≤ 10) → p'.ps.max ≤ 10) ∧
      ps.members ⊆ p'.ps.members := by
  induction fds generalizing k ps with
  | nil =>
    cases hp'
    exact ⟨fun _ h => absurd h List.not_mem_nil, fun _ => hmax, fun _ hn => hn⟩
  | cons fd fds ih =>
    rw [setAll] at hp'
    obtain ⟨⟨k₁, ps₁, r⟩, hset, hp'⟩ := exec_bind_inv hp'
    obtain ⟨hin, hmax₁, hsub⟩ := set_small hv hmax hset
    have hv₁ := set_valid hv hset
    cases fds with
    | nil =>
      cases hp'
      refine ⟨fun n hn => ?_, fun hall => hmax₁ (hall fd List.mem_cons_self), hsub⟩
      rw [List.mem_singleton.mp hn]
      exact hin
    | cons g fds =>
      have hlow : fd ≤ 10 := hfds fd List.mem_cons_self
      obtain ⟨hrest, hmax₂, hsub₂⟩ := ih hv₁ (hmax₁ hlow)
        (fun n hn => hfds n (List.mem_cons_of_mem _ hn)) hp'
      refine ⟨fun n hn hpos => ?_, fun hall => hmax₂ fun n hn => hall n (List.mem_cons_of_mem _ hn),
        hsub.trans hsub₂⟩
      rcases List.mem_cons.mp hn with rfl | hn
      · exact hsub₂ (hin hpos)
      · exact hrest n hn hpos

/-! ## 3. Acquiring -/

/-- The store tracks open numbers, none above 10, and 0 is open. -/
structure Small (p : Process) : Prop where
  tracks : Tracks p
  max : p.ps.max ≤ 10
  zero : p.k.IsOpen 0

/-- The first of the two ends of a pipe is low; of no other operation are two handed to the store. -/
theorem grab_dropLast {p : Process} {a : Acquire} (hlow : a = .pipe → Low p.k) :
    ∀ fd ∈ (grab p a).fds.dropLast, fd ≤ 10 := by
  intro fd hfd
  cases a with
  | openPath flags => cases hfd
  | pipe =>
    unfold grab at hfd
    dsimp only at hfd
    split at hfd
    · cases hfd
    · rename_i n m hends
      rw [List.mem_singleton.mp hfd]
      exact pipe_low (hlow rfl) (congrArg Prod.snd hends)
  | get2 flags =>
    unfold grab at hfd
    dsimp only at hfd
    split at hfd
    · cases hfd
    · split at hfd
      · cases hfd
      · cases hfound : (openTries kernel flags omodes p.k).found with
        | none =>
          rw [hfound] at hfd
          cases hfd
        | some n =>
          rw [hfound] at hfd
          cases hfd

/-- What `bstg_fdstore_get2` hands to the store is low. -/
theorem grab_get2_low {p : Process} (h0 : p.k.IsOpen 0) (hlow : Low p.k) (flags : List OpenFlag) :
    ∀ fd ∈ (grab p (.get2 flags)).fds, fd ≤ 10 := by
  intro fd hfd
  unfold grab at hfd
  dsimp only at hfd
  split at hfd
  · cases hfd
  · split at hfd
    · cases hfd
    · exact openTries_low h0 hlow (Option.mem_toList.mp hfd)

theorem acquire_small {p p' : Process} (h : Small p) {a : Acquire} (hlow : a = .pipe → Low p.k)
    (hp' : acquire p a = .ok p') :
    KeepsAll p a ∧ ((∀ fd ∈ (grab p a).fds, fd ≤ 10) → p'.ps.max ≤ 10) := by
  have hg := grab_ok h.tracks a
  have hset := hp'
  rw [acquire_eq h.tracks a] at hset
  obtain ⟨count, hps⟩ := hg.store
  obtain ⟨hin, hmax, -⟩ := setAll_small (hps ▸ h.tracks.valid.probed count)
    (by rw [hps]; exact h.max) (grab_dropLast hlow) hset
  refine ⟨((acquire_step h.tracks a).2 p' hp').keeps.mpr fun n hn h0 => ?_, hmax⟩
  have hne : n ≠ 0 := fun hz => hg.fresh.fresh n hn h0 (hz ▸ h.zero)
  have hpos : 0 < n := by omega
  exact hin n (hg.positive n hn hpos) hpos

/-- What is open in `k` is open in `k₀`, or tracked. -/
def Leaves (k₀ k : Kernel) (ps : Fdstore) : Prop := ∀ n, k.IsOpen n → k₀.IsOpen n ∨ n ∈ ps.members

theorem Owned.leaves {k₀ : Kernel} {p : Process} (h : Owned k₀ p) : Leaves k₀ p.k p.ps :=
  fun n hn => (h.opens n).mp hn

/-- Nothing is tracked, and nothing is open but what is open in the table itself. -/
theorem owned_empty {p : Process} (hv : p.ps.Valid) (hempty : p.ps.members = ∅) : Owned p.k p := by
  have hnone : ∀ n, n ∉ p.ps.members := fun n hn => by
    rw [hempty] at hn
    exact Finset.notMem_empty n hn
  exact ⟨⟨hv, fun n hn => absurd hn (hnone n)⟩, fun n => ⟨.inl, fun hn => hn.resolve_right (hnone n)⟩,
    fun n hn => absurd hn (hnone n)⟩

theorem owned_acquire {k₀ : Kernel} {p p' : Process} {a : Acquire} (h : Owned k₀ p) (hs : Small p)
    (hlow : a = .pipe → Low p.k) (hp' : acquire p a = .ok p') : Owned k₀ p' :=
  owned_step h (acquire_small hs hlow hp').1 hp'

/-- The store of a process that tracks nothing is small. -/
theorem small_empty {p : Process} (hv : p.ps.Valid) (hempty : p.ps.members = ∅) (h0 : p.k.IsOpen 0) :
    Small p := by
  refine ⟨(owned_empty hv hempty).tracks, ?_, h0⟩
  rw [hv.max_of_empty hempty]
  decide

/-- Taking one descriptor from a store that tracks nothing. -/
theorem get2_owned {p p' : Process} (hv : p.ps.Valid) (hempty : p.ps.members = ∅) (h0 : p.k.IsOpen 0)
    {flags : List OpenFlag} (hp' : acquire p (.get2 flags) = .ok p') : Owned p.k p' :=
  owned_acquire (a := .get2 flags) (owned_empty hv hempty) (small_empty hv hempty h0)
    (fun h => by cases h) hp'

/-! ## 4. The operations -/

variable {p p' : Process}

theorem sendfile_leaves (hv : p.ps.Valid) (hempty : p.ps.members = ∅) (h0 : p.k.IsOpen 0)
    (hlow : Low p.k) (hp' : poolStep p .sendfile = .ok p') : Leaves p.k p'.k p'.ps := by
  obtain ⟨q, hfirst, hsecond⟩ := exec_bind_inv hp'
  have hq : Owned p.k q := get2_owned hv hempty h0 hfirst
  have hmax : q.ps.max ≤ 10 := (acquire_small (a := .get2 [.O_CREAT]) (small_empty hv hempty h0)
    (fun h => by cases h) hfirst).2 (grab_get2_low h0 hlow _)
  have hsmall : Small q := ⟨hq.tracks, hmax, (hq.opens 0).mpr (.inl h0)⟩
  exact (owned_acquire (a := .get2 [.O_CREAT]) hq hsmall (fun h => by cases h) hsecond).leaves

theorem fdopendir_leaves (hv : p.ps.Valid) (hempty : p.ps.members = ∅) (h0 : p.k.IsOpen 0)
    (hp' : poolStep p .fdopendir = .ok p') : Leaves p.k p'.k p'.ps := by
  obtain ⟨⟨k, ps, fd⟩, hget, -⟩ := exec_bind_inv hp'
  have hacquire : acquire p acquireGet = .ok ⟨k, ps⟩ := by
    show (bstgFdstoreGet2 kernel p.k p.ps _ >>= _) = _
    rw [show bstgFdstoreGet2 kernel p.k p.ps _ = _ from hget]
    rfl
  have hleaves : Leaves p.k k ps := (get2_owned hv hempty h0 hacquire).leaves
  rw [fdopendir_eq hget] at hp'
  split at hp'
  · cases hp'
    refine fun n hn => hleaves n ((fdopendir_sameOpen k fd n).mp ?_)
    exact ((Kernel.close_isOpen fd n).mp hn).1
  · cases hp'
    exact fun n hn => hleaves n ((fdopendir_sameOpen k fd n).mp hn)

theorem fchdir_leaves (hv : p.ps.Valid) (hempty : p.ps.members = ∅) (h0 : p.k.IsOpen 0)
    (hp' : poolStep p .fchdir = .ok p') : Leaves p.k p'.k p'.ps := by
  rw [fchdir_eq] at hp'
  split at hp'
  · obtain ⟨q, hacquire, hp'⟩ := exec_bind_inv hp'
    cases hp'
    have h0' : p.k.openFile.1.IsOpen 0 := ((fresh_open p.k).opens 0).mpr (.inl h0)
    have hq : Owned p.k.openFile.1 q := get2_owned (p := ⟨p.k.openFile.1, p.ps⟩) hv hempty h0' hacquire
    intro n hn
    obtain ⟨hopen, hne⟩ := (Kernel.close_isOpen _ n).mp hn
    refine (hq.leaves n hopen).imp (fun h => ?_) id
    rcases ((fresh_open p.k).opens n).mp h with h | ⟨h, -⟩
    · exact h
    · exact absurd (List.mem_singleton.mp h) hne
  · rename_i hpos
    cases hp'
    exact fun n hn => .inl ((openFile_failed h0 hpos n).mp hn)

/-- A file is closed again. -/
theorem open_close_sameOpen {k k' : Kernel} (h : k.openFile.1.SameOpen k') :
    k.SameOpen (k'.close k.openFile.2).1 := by
  intro n
  rw [Kernel.close_isOpen, h n, (fresh_open k).opens n]
  constructor
  · rintro ⟨hn | ⟨hn, -⟩, hne⟩
    · exact hn
    · exact absurd (List.mem_singleton.mp hn) hne
  · refine fun hn => ⟨.inl hn, fun he => ?_⟩
    exact (fresh_open k).fresh n (he ▸ List.mem_cons_self) (Kernel.isOpen_nonneg hn) hn

theorem copyexe_leaves (hv : p.ps.Valid) (hempty : p.ps.members = ∅) (h0 : p.k.IsOpen 0)
    {flags : List OpenFlag} (hp' : poolStep p (.copyexe flags) = .ok p') : Leaves p.k p'.k p'.ps := by
  rw [copyexe_eq] at hp'
  split at hp'
  · have hsame := open_close_sameOpen (k := p.k) (Kernel.sameOpen_asked _)
    split at hp'
    · have hq := get2_owned (p := ⟨(p.k.openFile.1.asked.close p.k.openFile.2).1, p.ps⟩) hv hempty
        ((hsame 0).mpr h0) hp'
      exact fun n hn => (hq.leaves n hn).imp (hsame n).mp id
    · cases hp'
      exact fun n hn => .inl ((hsame n).mp hn)
  · have hsame := open_close_sameOpen (k := p.k) fun _ => Iff.rfl
    cases hp'
    exact fun n hn => .inl ((hsame n).mp hn)

/-- An operation of the pool on a store that tracks nothing, where 0 is open and a number up to 10 is
    free: what is open behind it was open, or is tracked. -/
theorem poolStep_leaves (hv : p.ps.Valid) (hempty : p.ps.members = ∅) (h0 : p.k.IsOpen 0)
    (hlow : Low p.k) {op : PoolOp} (hp' : poolStep p op = .ok p') : Leaves p.k p'.k p'.ps := by
  cases op with
  | acquire a =>
    exact (owned_acquire (owned_empty hv hempty) (small_empty hv hempty h0) (fun _ => hlow) hp').leaves
  | closeall =>
    obtain ⟨⟨k, ps, r⟩, hclose, hp'⟩ := exec_bind_inv hp'
    cases hp'
    rw [closeall_spec hv] at hclose
    cases hclose
    exact fun n hn => .inl ((Kernel.closes_isOpen _ _ n).mp hn).1
  | sendfile => exact sendfile_leaves hv hempty h0 hlow hp'
  | fdopendir => exact fdopendir_leaves hv hempty h0 hp'
  | fchdir => exact fchdir_leaves hv hempty h0 hp'
  | copyexe flags => exact copyexe_leaves hv hempty h0 hp'

end Fembot
