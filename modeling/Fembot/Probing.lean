/-
  File:      Fembot/Probing.lean
  Subject:   WHEN A SCAN FINDS WHAT IS TRACKED: `bstg_fdstore_getraw` looks at max + 1 successive
             values of its counter modulo max + 1, which are all places, unless the 32 bits of the
             counter wrap in between.

  * `ScanMeets` -- the exact condition: the counter does not wrap within the scan, or the scan
    meets a tracked descriptor on the stretch before the wrap or on the one behind it;
  * `Yields` -- what the store's users rely on: `bstg_fdstore_getraw` hands out a tracked
    descriptor, `bstg_fdstore_get2` opens nothing and `bstg_fdstore_set` does not grow a full
    store for want of one;
  * `store_yields_iff` -- the two agree in every state reached;
  * `lone_store_misses` -- a store that tracks 4 alone, after 858993459 calls of
    `bstg_fdstore_get`.
-/
import Fembot.StoreCalls

namespace Fembot

open Library

/-! ## 1. The places of a scan -/

/-- The counter as the source holds it. -/
def Fdstore.counter (ps : Fdstore) : Nat := ps.count % 2 ^ 32

theorem counter_lt (ps : Fdstore) : ps.counter < 2 ^ 32 := Nat.mod_lt _ (by decide)

/-- Before the counter wraps. -/
theorem probe_before {ps : Fdstore} {i : Nat} (h : ps.counter + i < 2 ^ 32) :
    ps.probe i = ((ps.counter + i) % ps.ring : Nat) := by
  have hmod : (ps.count + i) % 2 ^ 32 = ps.counter + i := by
    unfold Fdstore.counter at h ⊢
    omega
  rw [Fdstore.probe, hmod]

/-- Behind the wrap the places are counted from 0. -/
theorem probe_behind {ps : Fdstore} {i r : Nat} (h : ps.counter + i = r + 2 ^ 32)
    (hr : r < ps.ring) (hring : ps.ring ≤ 2 ^ 32) : ps.probe i = r := by
  have hmod : (ps.count + i) % 2 ^ 32 = r := by
    unfold Fdstore.counter at h
    omega
  rw [Fdstore.probe, hmod, Nat.mod_eq_of_lt hr]

/-- The counter does not wrap within the scan; or a tracked descriptor is among the first places,
    which the scan starts over with behind the wrap, or among those it comes to before. -/
def ScanMeets (ps : Fdstore) : Prop :=
  ps.counter + ps.ring ≤ 2 ^ 32 ∨
    (∃ fd ∈ ps.members, fd.toNat + 2 ^ 32 < ps.counter + ps.ring) ∨
    ∃ i, ps.counter + i < 2 ^ 32 ∧ (((ps.counter + i) % ps.ring : Nat) : Int) ∈ ps.members

theorem Fdstore.Valid.ring_le {ps : Fdstore} (h : ps.Valid) : ps.ring ≤ 2 ^ 32 := by
  have hmax := h.max_lt.2
  have hsize : FD_SETSIZE = 1024 := rfl
  unfold Fdstore.ring
  omega

/-- A store that tracks a descriptor: its scan meets one under that condition and no other. -/
theorem scan_hits_iff {ps : Fdstore} (h : ps.Valid) (hne : ps.members ≠ ∅) :
    (∃ i < ps.ring, ps.probe i ∈ ps.members) ↔ ScanMeets ps := by
  have hlt := counter_lt ps
  have hring := h.ring_le
  constructor
  · intro ⟨i, hi, hmem⟩
    by_cases hwrap : ps.counter + i < 2 ^ 32
    · rw [probe_before hwrap] at hmem
      exact .inr (.inr ⟨i, hwrap, hmem⟩)
    · obtain ⟨r, hr⟩ := Nat.exists_eq_add_of_le (Nat.le_of_not_lt hwrap)
      rw [probe_behind (r := r) (by omega) (by omega) hring] at hmem
      exact .inr (.inl ⟨r, hmem, by rw [Int.toNat_natCast]; omega⟩)
  · rintro (hfit | ⟨fd, hmem, hfd⟩ | ⟨i, hi, hmem⟩)
    · obtain ⟨i, hi, hplace⟩ := exists_probe_top h hne hfit
      refine ⟨i, hi, ?_⟩
      rw [hplace]
      exact h.top_mem hne
    · obtain ⟨i, hi⟩ : ∃ i, ps.counter + i = fd.toNat + 2 ^ 32 :=
        ⟨fd.toNat + 2 ^ 32 - ps.counter, by omega⟩
      refine ⟨i, by omega, ?_⟩
      rw [probe_behind hi (h.toNat_lt_ring hmem) hring, h.toNat_eq hmem]
      exact hmem
    · -- the same place comes within the first round
      have hpos : 0 < ps.ring :=
        Nat.lt_of_le_of_lt (Nat.zero_le _) (h.toNat_lt_ring (h.top_mem hne))
      have hle : i % ps.ring ≤ i := Nat.mod_le i ps.ring
      refine ⟨i % ps.ring, Nat.mod_lt i hpos, ?_⟩
      rw [probe_before (by omega), Nat.add_mod_mod]
      exact hmem

/-! ## 2. What the store yields -/

section

variable {K : Type} (sys : Sys K)

/-- A store that tracks a descriptor hands one out: `bstg_fdstore_getraw` itself,
    `bstg_fdstore_get2` without a call of `open`, whatever that would answer, and
    `bstg_fdstore_set`, which offers it to `dup2` before it tracks another. -/
structure Yields (s : StoreState K) : Prop where
  raw : ∃ count fd, bstgFdstoreGetraw s.ps = .ok (s.ps.probed count, fd) ∧
    (s.ps.members = ∅ → fd = -1) ∧ (s.ps.members ≠ ∅ → fd ∈ s.ps.members)
  opens : s.ps.members ≠ ∅ → ∀ openPath flags, ∃ count, ∃ fd ∈ s.ps.members,
    bstgFdstoreGet2 { sys with openPath := openPath } s.k s.ps flags =
      .ok (s.k, s.ps.probed count, fd)
  replaces : 10 < s.ps.max → ∀ fd, ∃ count, ∃ newd ∈ s.ps.members,
    bstgFdstoreSet sys s.k s.ps fd =
      if (sys.dup2 s.k fd newd).2 ≠ -1 then
        .ok ((sys.dup2 s.k fd newd).1, s.ps.probed count, newd)
      else fdstoreTrack (sys.dup2 s.k fd newd).1 (s.ps.probed count) fd

variable {sys}

/-- Where the scan hits, `bstg_fdstore_get2` returns what it found. -/
theorem get2_of_hit {k : K} {ps : Fdstore} (h : ps.Valid) {count : Nat} {fd : Int}
    (hraw : bstgFdstoreGetraw ps = .ok (ps.probed count, fd)) (hmem : fd ∈ ps.members)
    (flags : List OpenFlag) :
    bstgFdstoreGet2 sys k ps flags = .ok (k, ps.probed count, fd) := by
  rw [bstgFdstoreGet2, hraw, exec_bind_ok]
  exact if_pos (h.pos fd hmem)

/-- Where the scan hits, `bstg_fdstore_set` offers what it found to `dup2`. -/
theorem set_of_hit {k : K} {ps : Fdstore} (h : ps.Valid) {count : Nat} {newd : Int}
    (hraw : bstgFdstoreGetraw ps = .ok (ps.probed count, newd)) (hmem : newd ∈ ps.members)
    (hmax : 10 < ps.max) (fd : Int) :
    bstgFdstoreSet sys k ps fd =
      if (sys.dup2 k fd newd).2 ≠ -1 then .ok ((sys.dup2 k fd newd).1, ps.probed count, newd)
      else fdstoreTrack (sys.dup2 k fd newd).1 (ps.probed count) fd := by
  rw [bstgFdstoreSet, assert_pos h.magic, exec_bind_ok, if_pos hmax, hraw, exec_bind_ok]
  exact if_pos (h.pos newd hmem)

/-- A scan that hits is all that the three rely on. -/
theorem yields_of_hit {s : StoreState K} (h : s.ps.Valid) {count : Nat} {newd : Int}
    (hraw : bstgFdstoreGetraw s.ps = .ok (s.ps.probed count, newd)) (hmem : newd ∈ s.ps.members) :
    Yields sys s := by
  refine ⟨⟨count, newd, hraw, fun hnone => ?_, fun _ => hmem⟩,
    fun _ openPath flags => ⟨count, newd, hmem, get2_of_hit h hraw hmem flags⟩,
    fun hmax fd => ⟨count, newd, hmem, set_of_hit h hraw hmem hmax fd⟩⟩
  rw [hnone] at hmem
  exact absurd hmem (Finset.notMem_empty _)

theorem yields_iff {s : StoreState K} (h : s.ps.Valid) : Yields sys s ↔ ScanMeets s.ps := by
  have hscan := getraw_scan h
  by_cases hne : s.ps.members = ∅
  · -- nothing is tracked, and no place is looked at
    have hring : s.ps.ring = 0 := by simp [Fdstore.ring, h.max_of_empty hne]
    have hlt := counter_lt s.ps
    refine ⟨fun _ => .inl (by omega), fun _ => ⟨?_, fun hne' => absurd hne hne', fun hmax => ?_⟩⟩
    · generalize bstgFdstoreGetraw s.ps = r at hscan
      cases hscan with
      | hit hd => omega
      | miss => exact ⟨_, -1, rfl, fun _ => rfl, fun hne' => absurd hne hne'⟩
    · rw [h.max_of_empty hne] at hmax
      exact absurd hmax (by decide)
  · rw [← scan_hits_iff h hne]
    generalize hraw : bstgFdstoreGetraw s.ps = r at hscan
    cases hscan with
    | @hit d hd hmem =>
      exact ⟨fun _ => ⟨d, hd, hmem⟩, fun _ => yields_of_hit h hraw hmem⟩
    | miss hmiss =>
      constructor
      · intro hy
        obtain ⟨count, fd, hraw', -, hmem⟩ := hy.raw
        rw [hraw] at hraw'
        have hfd : -1 = fd := (Prod.mk.inj (Except.ok.inj hraw')).2
        have hpos := h.pos fd (hmem hne)
        omega
      · intro ⟨i, hi, hmem⟩
        exact absurd hmem (hmiss i hi)

/-! ## 3. Every store reached -/

/-- A call of set, get or get2. -/
def StoreCall.HandsOut : StoreCall → Prop
  | .set _ | .get | .get2 _ => True
  | _ => False

/-- What a call of `bstg_fdstore_set` leaves of the store: the counter behind its probe, which it
    makes where `max` is above 10, and one descriptor more, if it tracks it. -/
theorem set_leaves {k k' : K} {ps ps' : Fdstore} {fd r : Int} (h : ps.Valid)
    (hset : bstgFdstoreSet sys k ps fd = .ok (k', ps', r)) :
    ∃ count, (ps.max ≤ 10 ∧ count = ps.count ∨
        10 < ps.max ∧ ∃ newd, bstgFdstoreGetraw ps = .ok (ps.probed count, newd)) ∧
      (ps' = ps.probed count ∨ 0 < fd ∧ ∃ hfd, ps' = (ps.probed count).tracking fd hfd) := by
  have hprobe : ∀ {k'' count}, NotReplaced sys k ps fd k'' count →
      ps.max ≤ 10 ∧ count = ps.count ∨
        10 < ps.max ∧ ∃ newd, bstgFdstoreGetraw ps = .ok (ps.probed count, newd) := by
    intro k'' count hnot
    cases hnot with
    | small hmax => exact .inl ⟨hmax, rfl⟩
    | missed hmax hraw => exact .inr ⟨hmax, _, hraw⟩
    | failed hmax hraw => exact .inr ⟨hmax, _, hraw⟩
  obtain ⟨count, hrep, -, hps⟩ | ⟨count, hnot, -, hps⟩ := set_inv h hset
  · exact ⟨count, .inr ⟨hrep.1, _, hrep.2.1⟩, .inl hps⟩
  · exact ⟨count, hprobe hnot, hps.imp_left And.right⟩

theorem set_valid {k k' : K} {ps ps' : Fdstore} {fd r : Int} (h : ps.Valid)
    (hset : bstgFdstoreSet sys k ps fd = .ok (k', ps', r)) : ps'.Valid := by
  obtain ⟨count, -, rfl | ⟨hpos, hfd, rfl⟩⟩ := set_leaves h hset
  · exact h.probed _
  · exact (h.probed _).tracking hpos hfd

theorem get2_valid {k k' : K} {ps ps' : Fdstore} {flags : List OpenFlag} {r : Int} (h : ps.Valid)
    (hget : bstgFdstoreGet2 sys k ps flags = .ok (k', ps', r)) : ps'.Valid := by
  obtain ⟨count, -, -, -, rfl⟩ | ⟨count, -, ⟨fd, -, hset⟩ | ⟨-, -, rfl, -⟩⟩ := get2_inv h hget
  · exact h.probed count
  · exact set_valid (h.probed count) hset
  · exact h.probed count

/-- The step lemma: a valid store stays valid, but for `bstg_fdstore_destroy`. -/
theorem storeStep_valid {s s' : StoreState K} {c : StoreCall} (h : s.ps.Valid)
    (hs : storeStep sys s c = .ok s') :
    s'.ps.Valid ∨ c = .destroy ∧ s'.ps.magic ≠ BSTG_FDSTORE_MAGIC := by
  obtain ⟨⟨k', ps', r⟩, hexec, hs⟩ := exec_bind_inv hs
  cases hs
  cases c with
  | init =>
    cases hexec
    exact .inl (fdstoreInit_valid _)
  | set fd => exact .inl (set_valid h hexec)
  | get => exact .inl (get2_valid h hexec)
  | get2 flags => exact .inl (get2_valid h hexec)
  | closeall =>
    rw [StoreCall.exec, closeall_spec h] at hexec
    cases hexec
    exact .inl (fdstoreReset_valid h)
  | destroy =>
    rw [StoreCall.exec, destroy_spec h] at hexec
    cases hexec
    have hmagic : ~~~BSTG_FDSTORE_MAGIC ≠ BSTG_FDSTORE_MAGIC := by decide
    exact .inr ⟨rfl, hmagic⟩

theorem handsOut_valid {s s' : StoreState K} {c : StoreCall} (h : s.ps.Valid) (hc : c.HandsOut)
    (hs : storeStep sys s c = .ok s') : s'.ps.Valid := by
  rcases storeStep_valid h hs with hvalid | ⟨rfl, -⟩
  · exact hvalid
  · exact hc.elim

/-- Every store that a run of such calls reaches is valid. -/
theorem valid_of_calls {k : K} {ps : Fdstore} {calls : List StoreCall}
    (hcalls : ∀ c ∈ calls, c.HandsOut) :
    Always (storeStep sys) (storeStart k ps) calls fun s => s.ps.Valid :=
  always_of_eachStep (fdstoreInit_valid ps) (fun _ _ _ => handsOut_valid) (.of_forall hcalls)

/-- In every state that set, get and get2 reach, over any system: the store yields a descriptor it
    tracks exactly when the scan meets one. -/
theorem store_yields_iff (sys : Sys K) (k : K) (ps : Fdstore) (calls : List StoreCall)
    (hcalls : ∀ c ∈ calls, c.HandsOut) :
    Always (storeStep sys) (storeStart k ps) calls fun s => (Yields sys s ↔ ScanMeets s.ps) :=
  (valid_of_calls hcalls).imp fun _ => yields_iff

end

/-! ## 4. A scan that misses -/

/-- A system that lets every call succeed. -/
def obliging : Sys Unit := ⟨fun k _ => (k, 5), fun k _ newd => (k, newd), fun k _ => (k, 0)⟩

/-- A call that opens descriptor 5, and one that is handed it. -/
theorem store_yields_iff_run :
    Always (storeStep obliging) (storeStart () ⟨0, 0, 0, fdZero⟩) [.get, .get]
      fun s => (Yields obliging s ↔ ScanMeets s.ps) :=
  store_yields_iff obliging () ⟨0, 0, 0, fdZero⟩ [.get, .get] (by simp [StoreCall.HandsOut])

/-- The store that tracks 4 alone. -/
def loneStore (count : Nat) : Fdstore :=
  ((bstgFdstoreInit ⟨0, 0, 0, fdZero⟩).1.tracking 4 (by decide)).probed count

theorem loneStore_valid (count : Nat) : (loneStore count).Valid :=
  ((fdstoreInit_valid ⟨0, 0, 0, fdZero⟩).tracking (by decide) (by decide)).probed count

@[simp] theorem loneStore_members (count : Nat) : (loneStore count).members = {4} := rfl

@[simp] theorem loneStore_ring (count : Nat) : (loneStore count).ring = 5 := rfl

@[simp] theorem loneStore_count (count : Nat) : (loneStore count).count = count := rfl

@[simp] theorem loneStore_probed (c d : Nat) : (loneStore c).probed d = loneStore d := rfl

theorem loneStore_probe (c i : Nat) : (loneStore c).probe i = ((c + i) % 2 ^ 32 % 5 : Nat) := rfl

/-- The scan goes around once. -/
theorem lone_get {j : Nat} (hj : 5 * j + 5 ≤ 2 ^ 32) :
    storeStep obliging ⟨(), loneStore (5 * j), 4⟩ .get = .ok ⟨(), loneStore (5 * (j + 1)), 4⟩ := by
  have hplace : ∀ i < 5, (loneStore (5 * j)).probe i = i := by
    intro i hi
    have hlt : 5 * j + i < 2 ^ 32 := by omega
    rw [loneStore_probe, Nat.mod_eq_of_lt hlt, Nat.mul_add_mod, Nat.mod_eq_of_lt hi]
  have hscan := getraw_scan (loneStore_valid (5 * j))
  generalize hraw : bstgFdstoreGetraw (loneStore (5 * j)) = r at hscan
  cases hscan with
  | @hit d hd hmem =>
    rw [loneStore_ring] at hd
    have hd' : d = 4 := by
      rw [hplace d hd, loneStore_members, Finset.mem_singleton] at hmem
      omega
    subst hd'
    rw [hplace 4 hd, loneStore_count, loneStore_probed] at hraw
    refine storeStep_ok (r := ((), loneStore (5 * (j + 1)), 4)) ?_
    show bstgFdstoreGet2 obliging () (loneStore (5 * j)) [.O_CREAT] = _
    rw [bstgFdstoreGet2, hraw, exec_bind_ok, Nat.mul_succ]
    exact if_pos (by decide)
  | miss hmiss =>
    rw [loneStore_ring] at hmiss
    have hfour := hmiss 4 (by decide)
    rw [hplace 4 (by decide), loneStore_members] at hfour
    exact absurd (Finset.mem_singleton.mpr rfl) hfour

theorem lone_gets (m : Nat) {j : Nat} (hm : 5 * (j + m) ≤ 2 ^ 32) :
    run (storeStep obliging) ⟨(), loneStore (5 * j), 4⟩ (List.replicate m .get) =
      .ok ⟨(), loneStore (5 * (j + m)), 4⟩ := by
  induction m generalizing j with
  | zero => rfl
  | succ m ih =>
    rw [List.replicate_succ, run_cons_ok _ (lone_get (by omega)), ih (by omega), Nat.add_assoc,
      Nat.add_comm 1 m]

/-- The failing run: 4 is tracked and handed out 858993459 times, and the next scan wraps behind its
    first place. It looks at 0, 0, 1, 2 and 3. -/
theorem lone_store_misses :
    run (storeStep obliging) (storeStart () ⟨0, 0, 0, fdZero⟩)
        (.set 4 :: List.replicate 858993459 .get) = .ok ⟨(), loneStore 4294967295, 4⟩ ∧
      (loneStore 4294967295).members = {4} ∧
      bstgFdstoreGetraw (loneStore 4294967295) = .ok (loneStore 4294967300, -1) ∧
      ¬ Yields obliging ⟨(), loneStore 4294967295, 4⟩ := by
  have hset : storeStep obliging (storeStart () ⟨0, 0, 0, fdZero⟩) (.set 4) =
      .ok ⟨(), loneStore (5 * 0), 4⟩ := rfl
  have hplaces : ∀ i < 5, (loneStore 4294967295).probe i ∉ (loneStore 4294967295).members := by
    intro i hi
    rw [loneStore_members, Finset.mem_singleton, loneStore_probe]
    rcases Nat.eq_zero_or_pos i with rfl | hpos
    · decide
    · have hwrap : (4294967295 + i) % 2 ^ 32 = i - 1 := by omega
      rw [hwrap]
      omega
  have hraw : bstgFdstoreGetraw (loneStore 4294967295) = .ok (loneStore 4294967300, -1) := by
    have hscan := getraw_scan (loneStore_valid 4294967295)
    generalize bstgFdstoreGetraw (loneStore 4294967295) = r at hscan
    cases hscan with
    | hit hd hmem => exact absurd hmem (hplaces _ hd)
    | miss => rfl
  refine ⟨?_, loneStore_members _, hraw, fun hy => ?_⟩
  · rw [run_cons_ok _ hset]
    exact lone_gets 858993459 (by decide)
  · obtain ⟨count, fd, hraw', -, hmem⟩ := hy.raw
    have heq := hraw.symm.trans hraw'
    have hfd : -1 = fd := (Prod.mk.inj (Except.ok.inj heq)).2
    have hfour := Finset.mem_singleton.mp (hmem (Finset.singleton_ne_empty 4))
    omega

end Fembot
