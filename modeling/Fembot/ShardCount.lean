/-
  File:      Fembot/ShardCount.lean
  Subject:   HOW MANY SHARDS mkpax WRITES, for every length and every `-J`, and where its
             arithmetic gives way.

  With c = number / J the rounds cut windows of c elements until fewer than two of them would be
  left: number / c windows, which are J only while number % J < c. The test of the source adds 2c
  to `base` in 32 bits. Where that sum wraps at the last of the windows, the remainder is not
  taken in, and what is left of the list is refused by `bstg_flist_set` a round later, behind the
  archives already written. `CutTo` is the place the loop has come to.
-/
import Fembot.FlistUsable
import Fembot.Sharding

namespace Fembot

open Library

/-! ## 1. The windows -/

/-- The windows of `k` shards of `c` elements, the last of which ends at `m`. -/
def cutWindows (m c k : Nat) : List (Nat × Nat) :=
  (List.range k).map fun i => (i * c, if i + 1 = k then m else (i + 1) * c)

theorem cutWindows_snoc (m c k : Nat) :
    cutWindows (k * c) c k ++ [(k * c, m)] = cutWindows m c (k + 1) := by
  rw [cutWindows, cutWindows, List.range_succ, List.map_append, List.map_singleton, if_pos rfl]
  refine congrArg (· ++ [(k * c, m)]) (List.map_congr_left fun i hi => ?_)
  rw [if_neg (Nat.ne_of_lt (Nat.succ_lt_succ (List.mem_range.mp hi)))]
  by_cases hlast : i + 1 = k
  · rw [if_pos hlast, ← hlast]
  · rw [if_neg hlast]

/-- The windows tell how many they are and where the last one ends. -/
theorem cutWindows_inj {m m' c k k' : Nat} (h : cutWindows m c k = cutWindows m' c k')
    (hk : 0 < k) : k = k' ∧ m = m' := by
  have hlen := congrArg List.length h
  rw [cutWindows, cutWindows, List.length_map, List.length_map, List.length_range,
    List.length_range] at hlen
  subst hlen
  obtain ⟨k, rfl⟩ := Nat.exists_eq_add_one_of_ne_zero (Nat.ne_of_gt hk)
  rw [← cutWindows_snoc, ← cutWindows_snoc] at h
  have hlast := List.append_inj_right' h rfl
  exact ⟨rfl, (Prod.mk.inj (List.cons.inj hlast).1).2⟩

/-- Where the loop can stand with `k` windows set: `n / c` of them are all it sets, and the last
    of these ends at the end of the list, unless the sum of the test has wrapped there. -/
inductive CutTo (n c : Nat) : Nat → Nat → Prop
  | even {k : Nat} (hk : k < n / c) : CutTo n c k (k * c)
  | wrapped (hwrap : 2 ^ 32 ≤ (n / c + 1) * c) : CutTo n c (n / c) (n / c * c)
  | closed (hfit : (n / c + 1) * c < 2 ^ 32) : CutTo n c (n / c) n

/-- At the end of the list all windows are set, and the test has not wrapped unless nothing was
    left to take in. -/
theorem CutTo.at_end {n c k m : Nat} (hc : 0 < c) (h : CutTo n c k m) (hm : m = n) :
    k = n / c ∧ (n / c * c = n ∨ (n / c + 1) * c < 2 ^ 32) := by
  cases h with
  | even hk =>
    have hlt := Nat.mul_lt_mul_of_pos_right hk hc
    have hle := Nat.div_mul_le_self n c
    omega
  | wrapped => exact ⟨rfl, .inl hm⟩
  | closed hfit => exact ⟨rfl, .inr hfit⟩

/-- No window ends behind the list. -/
theorem CutTo.le {n c k m : Nat} (h : CutTo n c k m) : m ≤ n := by
  have hle := Nat.div_mul_le_self n c
  cases h with
  | even hk => exact Nat.le_trans (Nat.mul_le_mul_right c (Nat.le_of_lt hk)) hle
  | wrapped => exact hle
  | closed => exact Nat.le_refl n

/-! ## 2. One round -/

/-- Where the sum of the test wraps, the next shard is no larger than the others. -/
theorem shardCount_wrapped {number optJ base : UInt32}
    (hwrap : 2 ^ 32 ≤ base.toNat + number.toNat / optJ.toNat + number.toNat / optJ.toNat)
    (hle : base.toNat + number.toNat / optJ.toNat + number.toNat / optJ.toNat ≤
      2 ^ 32 + number.toNat) :
    shardCount number optJ base = number / optJ := by
  have hn := number.toNat_lt
  have hsum : (base + number / optJ + number / optJ).toNat =
      base.toNat + number.toNat / optJ.toNat + number.toNat / optJ.toNat - 2 ^ 32 := by
    rw [UInt32.toNat_add, UInt32.toNat_add, UInt32.toNat_div]
    omega
  refine if_neg fun hgt => ?_
  rw [gt_iff_lt, UInt32.lt_iff_toNat_lt, hsum] at hgt
  omega

/-- The number of items in the round behind `k` windows: `c`, or in the last round all that remain,
    unless the sum of the test wraps. -/
theorem shardCount_at {number optJ base : UInt32} {c k : Nat}
    (hc : number.toNat / optJ.toNat = c) (hbase : base < number) (hk : k < number.toNat / c)
    (hm : base.toNat = k * c) :
    (shardCount number optJ base).toNat =
      if k + 1 = number.toNat / c ∧ (k + 2) * c < 2 ^ 32 then number.toNat - base.toNat else c := by
  have hn := number.toNat_lt
  have hcn : c ≤ number.toNat := hc ▸ Nat.div_le_self _ _
  have hq : (k + 1) * c ≤ number.toNat :=
    Nat.le_trans (Nat.mul_le_mul_right c hk) (Nat.div_mul_le_self _ _)
  have hsum : base.toNat + number.toNat / optJ.toNat + number.toNat / optJ.toNat = (k + 2) * c := by
    rw [hc, hm, Nat.add_mul, Nat.two_mul, Nat.add_assoc]
  have hlast : (k + 2) * c = (k + 1) * c + c := Nat.succ_mul (k + 1) c
  by_cases hfit : (k + 2) * c < 2 ^ 32
  · -- the test is exact: it finds the round that leaves fewer than `c` items behind it
    rw [shardCount_toNat hbase (by omega), hsum, hc]
    by_cases hend : k + 1 = number.toNat / c
    · have hpos : 0 < c := by
        refine Nat.pos_of_ne_zero fun h0 => ?_
        rw [h0, Nat.div_zero] at hk
        exact Nat.not_lt_zero _ hk
      have hgt : (k + 2) * c > number.toNat := by
        have h := Nat.lt_mul_div_succ number.toNat hpos
        rwa [← hend, Nat.mul_comm] at h
      rw [if_pos hgt, if_pos ⟨hend, hfit⟩]
    · have hle : (k + 2) * c ≤ number.toNat :=
        Nat.le_trans (Nat.mul_le_mul_right c (show k + 2 ≤ number.toNat / c by omega))
          (Nat.div_mul_le_self _ _)
      rw [if_neg (Nat.not_lt.mpr hle), if_neg fun h => hend h.1]
  · rw [shardCount_wrapped (by omega) (by omega), UInt32.toNat_div, hc, if_neg fun h => hfit h.2]

/-- What a round does before the end of the list: it sets the next window, or, behind a test that
    has wrapped, it comes to a window that does not lie in the list. -/
theorem CutTo.step {number optJ base : UInt32} {c k : Nat} (hc : number.toNat / optJ.toNat = c)
    (hJ : 1 ≤ optJ.toNat) (hJn : optJ.toNat ≤ number.toNat)
    (h : CutTo number.toNat c k base.toNat) (hbase : base < number) {upper : UInt32}
    (hupper : upper = base + shardCount number optJ base) :
    base.toNat = k * c ∧
      ((base < upper ∧ upper ≤ number ∧ CutTo number.toNat c (k + 1) upper.toNat) ∨
        (¬ (base < upper ∧ upper ≤ number) ∧ k = number.toNat / c ∧
          2 ^ 32 ≤ (number.toNat / c + 1) * c)) := by
  have hn := number.toNat_lt
  have hb := UInt32.lt_iff_toNat_lt.mp hbase
  have hpos : 0 < c := hc ▸ Nat.div_pos hJn (by omega)
  rw [UInt32.lt_iff_toNat_lt, UInt32.le_iff_toNat_le]
  generalize hm : base.toNat = m at *
  cases h with
  | @even k hk =>
    refine ⟨rfl, .inl ?_⟩
    have hcount := shardCount_at hc hbase hk hm
    have hnext : (k + 1) * c = k * c + c := Nat.succ_mul k c
    have hwithin : (k + 1) * c ≤ number.toNat :=
      Nat.le_trans (Nat.mul_le_mul_right c hk) (Nat.div_mul_le_self _ _)
    have hadd : upper.toNat = k * c + (shardCount number optJ base).toNat := by
      rw [hupper, toNat_add_of_lt, hm]
      rw [hcount]
      split <;> omega
    by_cases hend : k + 1 = number.toNat / c ∧ (k + 2) * c < 2 ^ 32
    · rw [hcount, if_pos hend, hm] at hadd
      have hm' : upper.toNat = number.toNat := by omega
      rw [hm', hend.1]
      refine ⟨hb, Nat.le_refl _, .closed ?_⟩
      rw [← hend.1]
      exact hend.2
    · rw [hcount, if_neg hend, ← hnext] at hadd
      rw [hadd]
      refine ⟨by omega, hwithin, ?_⟩
      by_cases hlast : k + 1 = number.toNat / c
      · rw [hlast]
        refine .wrapped (Nat.le_of_not_lt fun hfit => hend ⟨hlast, ?_⟩)
        rw [← hlast] at hfit
        exact hfit
      · exact .even (by omega)
  | wrapped hwrap =>
    refine ⟨rfl, .inr ⟨fun hset => ?_, rfl, hwrap⟩⟩
    -- fewer than `c` items remain, so that two times `c` are no more than the list has
    have hJ2 : 2 * c ≤ number.toNat := by
      have hJc : optJ.toNat * c ≤ number.toNat := hc ▸ Nat.mul_div_le _ _
      refine Nat.le_trans (Nat.mul_le_mul_right c (Nat.lt_of_le_of_ne hJ fun h1 => ?_)) hJc
      rw [← h1, Nat.div_one] at hc
      rw [hc, Nat.div_self hpos, Nat.one_mul] at hb
      exact Nat.lt_irrefl c hb
    have hnext : (number.toNat / c + 1) * c = number.toNat / c * c + c := Nat.succ_mul _ _
    have hcount : shardCount number optJ base = number / optJ :=
      shardCount_wrapped (by rw [hm, hc]; omega) (by rw [hm, hc]; omega)
    have hadd : upper.toNat = (number.toNat / c * c + c) % 2 ^ 32 := by
      rw [hupper, hcount, UInt32.toNat_add, UInt32.toNat_div, hm, hc]
    rw [hadd] at hset
    omega
  | closed => omega

/-! ## 3. The loop -/

/-- The windows for which an archive was written: those `bstg_flist_set` returned 0 for. -/
def writtenWindows (s : ShardState) : List (Nat × Nat) :=
  (s.shards.filter fun sh => sh.rc = 0).map Shard.window

theorem writtenWindows_of_returned {s : ShardState} (h : ∀ sh ∈ s.shards, sh.rc = 0) :
    writtenWindows s = s.shards.map Shard.window := by
  rw [writtenWindows, List.filter_eq_self.mpr fun sh hsh => decide_eq_true (h sh hsh)]

/-- Before a round: the list is `flist` but for its window, and `k` windows are cut up to `base`. -/
structure Counting (flist : Flist) (c k : Nat) (s : ShardState) : Prop where
  list : ∃ lower upper, s.flist = flist.windowed lower upper
  windows : s.shards.map Shard.window = cutWindows s.base.toNat c k
  returned : ∀ sh ∈ s.shards, sh.rc = 0
  place : CutTo flist.number.toNat c k s.base.toNat

/-- What stops the loop: an id off the table, or the window `bstg_flist_set` refuses behind a test
    that has wrapped. -/
inductive Halt (NFUNCS : Nat) (ids : List UInt32) (c : Nat) (s : ShardState) : Fault → Prop
  | off (hoff : ∃ id ∈ ids, NFUNCS ≤ id.toNat) : Halt NFUNCS ids c s .assertion
  | refused (hw : writtenWindows s = cutWindows (ids.length / c * c) c (ids.length / c))
      (hne : ids.length / c * c ≠ ids.length) (hwrap : 2 ^ 32 ≤ (ids.length / c + 1) * c) :
      Halt NFUNCS ids c s (.errx 1)

/-- What holds where the loop ends. -/
structure Ended (n c : Nat) (s : ShardState) : Prop where
  windows : writtenWindows s = cutWindows n c (n / c)
  fits : n / c * c = n ∨ (n / c + 1) * c < 2 ^ 32

section

variable {NFUNCS : Nat} {externalize : List UInt64 → List UInt8} {flist : Flist} {optJ : UInt32}

/-- A round whose window is empty or does not lie in the list is stopped before it writes. -/
theorem shardBody_refused (farg : Option (List Char)) (hJ : optJ ≠ 0) {s : ShardState}
    {upper : UInt32} (hupper : upper = s.base + shardCount s.flist.number optJ s.base)
    (h : ¬ (s.base < upper ∧ upper ≤ s.flist.number)) :
    shardBody NFUNCS externalize optJ farg s =
      ⟨{ s with shards := s.shards ++ [⟨s.base, upper, 1, [], [], []⟩] }, some (.errx 1)⟩ := by
  have hset : bstgFlistSet s.flist s.base upper = (s.flist, 1) := by
    rw [flistSet_spec, if_neg h]
  rw [hupper] at hset ⊢
  unfold shardCount at hset ⊢
  unfold shardBody
  simp only [hJ, if_false, hset, if_neg (show ¬ (1 : Int) = 0 by decide)]

theorem shardBody_counts (farg : Option (List Char)) {c k : Nat}
    (hc : flist.number.toNat / optJ.toNat = c)
    (hcells : flist.number.toNat ≤ flist.pindex.length)
    (hJ : 1 ≤ optJ.toNat) (hJn : optJ.toNat ≤ flist.number.toNat) {s : ShardState}
    (h : Counting flist c k s) (hbase : s.base < s.flist.number) :
    (shardBody NFUNCS externalize optJ farg s).Meets
      (fun s' => (∃ k, Counting flist c k s') ∧
        flist.number.toNat - s'.base.toNat < flist.number.toNat - s.base.toNat)
      (Halt NFUNCS (flist.pindex.take flist.number.toNat) c) := by
  have hlen : (flist.pindex.take flist.number.toNat).length = flist.number.toNat := by
    rw [List.length_take]
    exact Nat.min_eq_left hcells
  obtain ⟨hnumber, hindex⟩ := Flist.same_of_windowed h.list
  have hb := UInt32.lt_iff_toNat_lt.mp hbase
  obtain ⟨hm, hstep⟩ := h.place.step hc hJ hJn (hnumber ▸ hbase) rfl
  rw [← hnumber] at hstep
  rcases hstep with ⟨h1, h2, hplace⟩ | ⟨hset, hk, hwrap⟩
  · have h2' := UInt32.le_iff_toNat_le.mp h2
    have hcells' : s.flist.number.toNat ≤ s.flist.pindex.length := by
      rw [hnumber, hindex]
      exact hcells
    refine (shardBody_ok farg (optJ_ne_zero hJ) rfl h1 h2 hcells').imp (fun s' hs' => ?_)
      fun s' e hs' => ?_
    · obtain ⟨hb', sh, hr⟩ := hs'
      have hlt := UInt32.lt_iff_toNat_lt.mp h1
      rw [hnumber] at h2' hlt hplace
      rw [hb', hnumber]
      have hwindows : s'.shards.map Shard.window = cutWindows s'.base.toNat c (k + 1) := by
        rw [hr.windows, h.windows, hm, hb', cutWindows_snoc, hnumber]
      refine ⟨⟨k + 1, hr.list_windowed h.list, hwindows,
        hr.forall_shards h.returned hr.written.1, ?_⟩, by omega⟩
      rw [hb', hnumber]
      exact hplace
    · obtain ⟨rfl, sh, hr, id, hid, hoff⟩ := hs'
      have hmem := hr.mem_take h2 id hid
      rw [hindex, hnumber] at hmem
      exact .off ⟨id, hmem, hoff⟩
  · rw [shardBody_refused farg (optJ_ne_zero hJ) rfl hset]
    rw [hk] at hm
    rw [hnumber] at hwrap hm hb
    refine meets_stop (.refused ?_ ?_ ?_)
    · rw [writtenWindows, List.filter_append, List.filter_cons_of_neg (by simp),
        List.filter_nil, List.append_nil, hlen,
        List.filter_eq_self.mpr fun sh hsh => decide_eq_true (h.returned sh hsh), h.windows, hm, hk,
        hnumber]
    · rw [hlen]
      omega
    · rw [hlen]
      exact hwrap

/-- The loop sets `n / c` windows, and ends unless one of the two stops it. -/
theorem shardLoop_counts (farg : Option (List Char)) {c : Nat}
    (hc : flist.number.toNat / optJ.toNat = c)
    (hcells : flist.number.toNat ≤ flist.pindex.length)
    (hJ : 1 ≤ optJ.toNat) (hJn : optJ.toNat ≤ flist.number.toNat) (words : Stream' UInt32) :
    (shardLoop NFUNCS externalize optJ farg ⟨flist, words, 0, []⟩).Meets
      (Ended flist.number.toNat c) (Halt NFUNCS (flist.pindex.take flist.number.toNat) c) := by
  have hpos : 0 < c := hc ▸ Nat.div_pos hJn (by omega)
  have hcn : c ≤ flist.number.toNat := hc ▸ Nat.div_le_self _ _
  have hstart : Counting flist c 0 ⟨flist, words, 0, []⟩ := by
    have hplace : CutTo flist.number.toNat c 0 (0 * c) := .even (Nat.div_pos hcn hpos)
    rw [Nat.zero_mul] at hplace
    exact ⟨⟨_, _, rfl⟩, rfl, fun sh hsh => absurd hsh List.not_mem_nil, hplace⟩
  refine (whileLoop_meets (I := fun s => ∃ k, Counting flist c k s)
    (fun s => flist.number.toNat - s.base.toNat) (fun s hs hcond => ?_) ⟨0, hstart⟩ ?_).imp
    (fun s hs => ?_) fun _ _ he => he
  · obtain ⟨k, hs⟩ := hs
    exact shardBody_counts farg hc hcells hJ hJn hs (of_decide_eq_true hcond)
  · show flist.number.toNat - 0 < flist.number.toNat + 1
    omega
  · obtain ⟨⟨k, hs⟩, hend⟩ := hs
    obtain ⟨lower, upper, hlist⟩ := hs.list
    have hge := of_decide_eq_false hend
    rw [UInt32.not_lt, UInt32.le_iff_toNat_le, hlist] at hge
    have hbase := Nat.le_antisymm hs.place.le hge
    obtain ⟨hk, hfits⟩ := hs.place.at_end hpos hbase
    refine ⟨?_, hfits⟩
    rw [writtenWindows_of_returned hs.returned, hs.windows, hbase, hk]

/-- The shards of a shuffled list, for a `-J` between 1 and its length. -/
theorem writeShards_counts (NFUNCS : Nat) (externalize : List UInt64 → List UInt8)
    (farg : Option (List Char)) {ids : List UInt32} (hlist : flist.Holds ids) {c : Nat}
    (hc : ids.length / optJ.toNat = c) (hJ : 1 ≤ optJ.toNat) (hJn : optJ.toNat ≤ ids.length)
    (words : Stream' UInt32) :
    (writeShards NFUNCS externalize optJ farg flist words).Meets
      (Ended ids.length c) (Halt NFUNCS ids c) := by
  obtain ⟨shuffled, words', heq, hnumber, hcells, hperm⟩ :=
    writeShards_eq NFUNCS externalize optJ farg hlist words
  rw [heq]
  rw [← hnumber] at hc hcells hJn hperm ⊢
  refine (shardLoop_counts farg hc hcells hJ hJn words').imp (fun s hs => hs) fun s e he => ?_
  cases he with
  | off hoff =>
    obtain ⟨id, hid, hoff⟩ := hoff
    exact .off ⟨id, hperm.mem_iff.mp hid, hoff⟩
  | refused hw hne hwrap =>
    rw [hperm.length_eq] at hw hne hwrap
    exact .refused hw hne hwrap

/-- With all ids in the table, the assertion of `write_archive` does not stop mkpax. -/
theorem not_off {ids : List UInt32} {c : Nat} {r : Reached ShardState Fault}
    (h : r.Meets (Ended ids.length c) (Halt NFUNCS ids c))
    (htable : ∀ id ∈ ids, id.toNat < NFUNCS) : r.stopped ≠ some .assertion := by
  intro hstop
  cases h.2 _ hstop with
  | off hoff =>
    obtain ⟨id, hid, hoff⟩ := hoff
    exact absurd (htable id hid) (Nat.not_lt.mpr hoff)

/-- Where the assertion does not stop mkpax, the loop ends, or the window behind the wrap is
    refused. -/
theorem ended_or_refused {ids : List UInt32} {c : Nat} {r : Reached ShardState Fault}
    (h : r.Meets (Ended ids.length c) (Halt NFUNCS ids c)) (hstop : r.stopped ≠ some .assertion) :
    (r.stopped = none ∧ Ended ids.length c r.state) ∨
      (r.stopped = some (.errx 1) ∧
        writtenWindows r.state = cutWindows (ids.length / c * c) c (ids.length / c) ∧
        ids.length / c * c ≠ ids.length ∧ 2 ^ 32 ≤ (ids.length / c + 1) * c) := by
  cases hend : r.stopped with
  | none => exact .inl ⟨rfl, h.1 hend⟩
  | some e =>
    cases h.2 e hend with
    | off => exact absurd hend hstop
    | refused hw hne hwrap => exact .inr ⟨rfl, hw, hne, hwrap⟩

/-- A round that stops mkpax is the last: on a list that is not empty, the first. -/
theorem shardLoop_stopped {farg : Option (List Char)} {words : Stream' UInt32}
    (hpos : 0 < flist.number.toNat) {t : ShardState} {e : Fault}
    (hbody : shardBody NFUNCS externalize optJ farg ⟨flist, words, 0, []⟩ = ⟨t, some e⟩) :
    shardLoop NFUNCS externalize optJ farg ⟨flist, words, 0, []⟩ = ⟨t, some e⟩ :=
  whileLoop_stopped (decide_eq_true (UInt32.lt_iff_toNat_lt.mpr hpos)) hbody

/-- A `-J` larger than the list: the first window is empty, and nothing is written. -/
theorem writeShards_many (NFUNCS : Nat) (externalize : List UInt64 → List UInt8)
    (farg : Option (List Char)) {ids : List UInt32} (hlist : flist.Holds ids)
    (hids : 0 < ids.length) (hJ : ids.length < optJ.toNat) (words : Stream' UInt32) :
    (writeShards NFUNCS externalize optJ farg flist words).stopped = some (.errx 1) ∧
      writtenWindows (writeShards NFUNCS externalize optJ farg flist words).state = [] := by
  obtain ⟨shuffled, words', heq, hnumber, -, -⟩ :=
    writeShards_eq NFUNCS externalize optJ farg hlist words
  have hJ0 : optJ ≠ 0 := by
    intro h0
    rw [h0] at hJ
    exact absurd hJ (Nat.not_lt_zero _)
  have hcount : shardCount shuffled.number optJ 0 = 0 := by
    have hdiv : shuffled.number / optJ = 0 := by
      rw [← UInt32.toNat_inj, UInt32.toNat_div, hnumber]
      exact Nat.div_eq_of_lt hJ
    rw [shardCount, hdiv]
    exact if_neg (UInt32.not_lt.mpr UInt32.zero_le)
  have hempty : ¬ ((0 : UInt32) < 0 + shardCount shuffled.number optJ 0 ∧
      0 + shardCount shuffled.number optJ 0 ≤ shuffled.number) := by
    rw [hcount]
    exact fun h => absurd h.1 (by decide)
  rw [heq, shardLoop_stopped (hnumber ▸ hids) (shardBody_refused farg hJ0 rfl hempty)]
  exact ⟨rfl, rfl⟩

/-- A `-J` of 0: the first round divides by it, unless there is none. -/
theorem writeShards_zero (NFUNCS : Nat) (externalize : List UInt64 → List UInt8)
    (farg : Option (List Char)) {ids : List UInt32} (hlist : flist.Holds ids)
    (hids : 0 < ids.length) (words : Stream' UInt32) :
    (writeShards NFUNCS externalize 0 farg flist words).stopped = some .divisionByZero := by
  obtain ⟨shuffled, words', heq, hnumber, -, -⟩ :=
    writeShards_eq NFUNCS externalize 0 farg hlist words
  rw [heq, shardLoop_stopped (hnumber ▸ hids) (if_pos rfl)]

/-- The empty list: no round at all. -/
theorem writeShards_empty (NFUNCS : Nat) (externalize : List UInt64 → List UInt8)
    (farg : Option (List Char)) (hlist : flist.Holds []) (words : Stream' UInt32) :
    (writeShards NFUNCS externalize optJ farg flist words).stopped = none := by
  obtain ⟨shuffled, words', heq, hnumber, -, -⟩ :=
    writeShards_eq NFUNCS externalize optJ farg hlist words
  have hcond : decide ((0 : UInt32) < shuffled.number) = false := by
    rw [decide_eq_false_iff_not, UInt32.lt_iff_toNat_lt, hnumber]
    exact Nat.lt_irrefl 0
  have hloop : shardLoop NFUNCS externalize optJ farg ⟨shuffled, words', 0, []⟩ =
      ⟨⟨shuffled, words', 0, []⟩, none⟩ := whileLoop_done hcond
  rw [heq, hloop]

end

/-! ## 4. Exactly `J` shards -/

/-- One archive for each of the `J` shards: n / J elements each, and the last to the end. -/
def ExactShards (n J : Nat) (s : ShardState) : Prop := writtenWindows s = cutWindows n (n / J) J

instance (n J : Nat) (s : ShardState) : Decidable (ExactShards n J s) :=
  inferInstanceAs (Decidable (_ = _))

/-- There are `J` windows of n / J elements exactly when the remainder is smaller than one. -/
theorem div_div_eq_iff {n J : Nat} (hJ : 1 ≤ J) (hJn : J ≤ n) :
    n / (n / J) = J ↔ n % J < n / J := by
  have hc : 0 < n / J := Nat.div_pos hJn hJ
  have hsplit : n / (n / J) = J + n % J / (n / J) := by
    have h := Nat.mul_add_div hc J (n % J)
    rwa [Nat.mul_comm, Nat.div_add_mod] at h
  rw [hsplit, Nat.add_eq_left, Nat.div_eq_zero_iff]
  omega

/-- For every list and every `-J` from 1 to its length, mkpax writes exactly `J` shards where it is
    not stopped by an id off the table, if and only if the remainder is smaller than a shard and the
    sum that looks two shards ahead does not wrap before a remainder is taken in. -/
theorem exact_shards_iff (NFUNCS : Nat) (externalize : List UInt64 → List UInt8) (flist : Flist)
    (ids : List UInt32) (hlist : flist.Holds ids) (optJ : UInt32) (hJ : 1 ≤ optJ.toNat)
    (hJn : optJ.toNat ≤ ids.length) (farg : Option (List Char)) (words : Stream' UInt32) :
    let r := writeShards NFUNCS externalize optJ farg flist words
    let n := ids.length
    let J := optJ.toNat
    ((∀ id ∈ ids, id.toNat < NFUNCS) → r.stopped ≠ some .assertion) ∧
      (r.stopped ≠ some .assertion →
        (ExactShards n J r.state ↔
          n % J < n / J ∧ (n % J = 0 ∨ (J + 1) * (n / J) < 2 ^ 32))) := by
  intro r n J
  have hmeets := writeShards_counts NFUNCS externalize farg hlist rfl hJ hJn words
  have hr : writeShards NFUNCS externalize optJ farg flist words = r := rfl
  rw [hr] at hmeets
  clear_value r
  have hc : 0 < n / J := Nat.div_pos hJn hJ
  have hq : 0 < n / (n / J) := Nat.div_pos (Nat.div_le_self _ _) hc
  have hdvd : n % J = 0 ↔ J * (n / J) = n := by
    have h := Nat.div_add_mod n J
    omega
  rw [← div_div_eq_iff hJ hJn, hdvd]
  refine ⟨not_off hmeets, fun hstop => ?_⟩
  rcases ended_or_refused hmeets hstop with ⟨-, hw, hfits⟩ | ⟨-, hw, hne, hwrap⟩
  · rw [ExactShards, hw]
    constructor
    · intro h
      obtain ⟨hJ', -⟩ := cutWindows_inj h hq
      rw [hJ'] at hfits
      exact ⟨hJ', hfits⟩
    · intro ⟨hJ', _⟩
      rw [hJ']
  · rw [ExactShards, hw]
    constructor
    · intro h
      exact absurd (cutWindows_inj h hq).2 hne
    · intro ⟨hJ', hfits⟩
      rw [hJ'] at hne hwrap
      rcases hfits with hfits | hfits
      · exact absurd hfits hne
      · exact absurd hfits (Nat.not_lt.mpr hwrap)

theorem range_in_table (n : UInt32) :
    ∀ id ∈ (List.range n.toNat).map UInt32.ofNat, id.toNat < n.toNat := by
  intro id hid
  obtain ⟨i, hi, rfl⟩ := List.mem_map.mp hid
  rw [UInt32.toNat_ofNat']
  exact Nat.lt_of_le_of_lt (Nat.mod_le _ _) (List.mem_range.mp hi)

/-- Five operations in two shards, of two and of three. -/
theorem exact_shards_iff_run :
    ExactShards 5 2 (writeShards 5 plistExternalize 2 none (bstgFlistInit ⟨0, [], 0, 0, 0⟩ 5 true).1
      fun n => UInt32.ofNat n).state := by
  obtain ⟨htable, hexact⟩ := exact_shards_iff 5 plistExternalize _ _
    (flistInit_holds ⟨0, [], 0, 0, 0⟩ 5) 2 (by decide) (by decide) none fun n => UInt32.ofNat n
  exact (hexact (htable (range_in_table 5))).mpr (by decide)

/-- The failing pair: five operations in three shards make five of one operation each. -/
theorem five_in_three_fails :
    writtenWindows (writeShards 5 plistExternalize 3 none
        (bstgFlistInit ⟨0, [], 0, 0, 0⟩ 5 true).1 fun n => UInt32.ofNat n).state =
      cutWindows 5 1 5 ∧
    ¬ ExactShards 5 3 (writeShards 5 plistExternalize 3 none
        (bstgFlistInit ⟨0, [], 0, 0, 0⟩ 5 true).1 fun n => UInt32.ofNat n).state := by
  have hmeets : (writeShards 5 plistExternalize 3 none (bstgFlistInit ⟨0, [], 0, 0, 0⟩ 5 true).1
      fun n => UInt32.ofNat n).Meets (Ended ((List.range 5).map UInt32.ofNat).length 1)
        (Halt 5 ((List.range 5).map UInt32.ofNat) 1) :=
    writeShards_counts 5 plistExternalize none (flistInit_holds ⟨0, [], 0, 0, 0⟩ 5) rfl (by decide)
      (by decide) fun n => UInt32.ofNat n
  generalize writeShards 5 plistExternalize 3 none (bstgFlistInit ⟨0, [], 0, 0, 0⟩ 5 true).1
    (fun n => UInt32.ofNat n) = r at hmeets ⊢
  have hw : writtenWindows r.state = cutWindows 5 1 5 := by
    rcases ended_or_refused hmeets (not_off hmeets (range_in_table 5)) with
      ⟨-, hw, -⟩ | ⟨-, -, hne, -⟩
    · exact hw
    · exact absurd (by decide) hne
  refine ⟨hw, ?_⟩
  rw [ExactShards, hw]
  decide

/-! ## 5. The arithmetic guarded -/

/-- The list as `main` has it before it is shuffled: initialised, and read by an import that
    returned 0 if there is a `-S`. In `main` no calls come before that import. -/
inductive Given : Flist → Prop
  | initialised (old : Flist) (n : UInt32) : Given (bstgFlistInit old n true).1
  | imported {old before ps : Flist} {n : UInt32} {calls : List FlistCall} {optS : List Char}
      (hrun : run flistNext (bstgFlistInit old n true).1 calls = .ok before)
      (h : bstgFlistImport before optS = .ok (ps, 0)) : Given ps

theorem Given.holds {flist : Flist} (h : Given flist) :
    flist.Holds (flist.pindex.take flist.number.toNat) := by
  cases h with
  | initialised old n =>
    have h := flistInit_holds old n
    rw [flistInit_ok, List.take_of_length_le (by simp)]
    rwa [flistInit_ok] at h
  | imported hrun himp =>
    have hkept := kept_of_run hrun
    exact flistImport_holds hkept.magic hkept.sized.2 hkept.sized.1 himp

/-- The loop does not divide by zero, it ends, and where `bstg_flist_set` refuses a window no
    archive has been written. -/
structure Guarded (r : Reached ShardState Fault) : Prop where
  divides : r.stopped ≠ some .divisionByZero
  ends : r.stopped ≠ some .outOfFuel
  clean : ∀ code, r.stopped = some (.errx code) → writtenWindows r.state = []

/-- The list is empty; or there are shards, and there are more of them than operations, or nothing
    is left behind the windows of n / J, or the sum of the test does not wrap at the last. -/
def ShardsFit (n J : Nat) : Prop :=
  n = 0 ∨ J ≠ 0 ∧
    (n < J ∨ n / (n / J) * (n / J) = n ∨ (n / (n / J) + 1) * (n / J) < 2 ^ 32)

instance (n J : Nat) : Decidable (ShardsFit n J) :=
  inferInstanceAs (Decidable (_ ∨ _ ∧ (_ ∨ _ ∨ _)))

theorem guarded_of_ended {r : Reached ShardState Fault} (h : r.stopped = none) : Guarded r := by
  refine ⟨?_, ?_, fun code => ?_⟩ <;> rw [h] <;> exact nofun

theorem guarded_of_clean {r : Reached ShardState Fault} (h : r.stopped = some (.errx 1))
    (hw : writtenWindows r.state = []) : Guarded r := by
  refine ⟨?_, ?_, fun _ _ => hw⟩ <;> rw [h] <;> exact nofun

/-- The loop of windows of `c` elements is guarded exactly when the sum of the test does not wrap
    at the last of them, or nothing is left behind it. -/
theorem guarded_iff_fits {NFUNCS c : Nat} {ids : List UInt32} {r : Reached ShardState Fault}
    (hc : 0 < c) (hcn : c ≤ ids.length) (h : r.Meets (Ended ids.length c) (Halt NFUNCS ids c))
    (hstop : r.stopped ≠ some .assertion) :
    Guarded r ↔ ids.length / c * c = ids.length ∨ (ids.length / c + 1) * c < 2 ^ 32 := by
  rcases ended_or_refused h hstop with ⟨hend, -, hfits⟩ | ⟨hend, hw, hne, hwrap⟩
  · exact ⟨fun _ => hfits, fun _ => guarded_of_ended hend⟩
  · constructor
    · -- the archives are written before the window is refused
      intro hg
      have hq : 0 < ids.length / c := Nat.div_pos hcn hc
      have hnone : cutWindows _ _ _ = cutWindows 0 c 0 := hw.symm.trans (hg.clean 1 hend)
      exact absurd (cutWindows_inj hnone hq).1 (Nat.ne_of_gt hq)
    · rintro (h | h)
      · exact absurd h hne
      · exact absurd h (Nat.not_lt.mpr hwrap)

/-- For every argument `-J` takes and every list `main` can have: where mkpax is not stopped by an
    id off the table, its arithmetic is guarded exactly when the shards fit. -/
theorem sharding_guarded_iff (NFUNCS : Nat) (externalize : List UInt64 → List UInt8)
    (farg : Option (List Char)) (optarg : List Char) (flist : Flist) (hlist : Given flist)
    (words : Stream' UInt32) :
    ∀ optJ ∈ parseJ optarg,
      let r := writeShards NFUNCS externalize optJ farg flist words
      ((∀ id ∈ flist.pindex.take flist.number.toNat, id.toNat < NFUNCS) →
          r.stopped ≠ some .assertion) ∧
        (r.stopped ≠ some .assertion →
          (Guarded r ↔ ShardsFit flist.number.toNat optJ.toNat)) := by
  intro optJ _ r
  have hholds := hlist.holds
  generalize flist.pindex.take flist.number.toNat = ids at hholds ⊢
  rw [hholds.number]
  rcases Nat.eq_zero_or_pos ids.length with hzero | hpos
  · -- no operation, no round
    rw [List.eq_nil_of_length_eq_zero hzero] at hholds ⊢
    have hend : r.stopped = none := writeShards_empty NFUNCS externalize farg hholds words
    rw [hend]
    exact ⟨fun _ => nofun, fun _ => ⟨fun _ => .inl rfl, fun _ => guarded_of_ended hend⟩⟩
  have hne : ids.length ≠ 0 := Nat.ne_of_gt hpos
  by_cases hJ0 : optJ = 0
  · subst hJ0
    have hend : r.stopped = some .divisionByZero :=
      writeShards_zero NFUNCS externalize farg hholds hpos words
    rw [hend]
    exact ⟨fun _ => nofun, fun _ => ⟨fun hg => absurd hend hg.divides,
      fun hfit => absurd rfl (hfit.resolve_left hne).1⟩⟩
  have hJ0' : optJ.toNat ≠ 0 := fun h => hJ0 (UInt32.toNat_inj.mp h)
  by_cases hmany : ids.length < optJ.toNat
  · obtain ⟨hend, hw⟩ := writeShards_many NFUNCS externalize farg hholds hpos hmany words
    have hend' : r.stopped = some (.errx 1) := hend
    rw [hend']
    exact ⟨fun _ => nofun, fun _ => ⟨fun _ => .inr ⟨hJ0', .inl hmany⟩,
      fun _ => guarded_of_clean hend hw⟩⟩
  have hJn := Nat.le_of_not_lt hmany
  have hJ1 : 1 ≤ optJ.toNat := Nat.one_le_iff_ne_zero.mpr hJ0'
  have hmeets : r.Meets _ _ := writeShards_counts NFUNCS externalize farg hholds rfl hJ1 hJn words
  clear_value r
  refine ⟨not_off hmeets, fun hstop => ?_⟩
  rw [guarded_iff_fits (Nat.div_pos hJn hJ1) (Nat.div_le_self _ _) hmeets hstop]
  exact ⟨fun h => .inr ⟨hJ0', .inr h⟩,
    fun h => ((h.resolve_left hne).2).resolve_left (Nat.not_lt.mpr hJn)⟩

/-- Five shards of a list of three: refused before anything is written. -/
theorem sharding_guarded_iff_run :
    Guarded (writeShards 102 plistExternalize 5 none (bstgFlistInit ⟨0, [], 0, 0, 0⟩ 3 true).1
      fun n => UInt32.ofNat n) := by
  obtain ⟨htable, hguard⟩ := sharding_guarded_iff 102 plistExternalize none ['5'] _
    (.initialised ⟨0, [], 0, 0, 0⟩ 3) (fun n => UInt32.ofNat n) 5 rfl
  refine (hguard (htable fun id hid => ?_)).mpr (by decide)
  have hlt := range_in_table 3 id (List.mem_of_mem_take hid)
  exact Nat.lt_trans hlt (by decide)

/-- The failing arguments: zero, the empty string, and a number that is zero in 32 bits, on the
    list mkpax starts with. -/
theorem zero_shards_fail :
    parseJ ['0'] = some 0 ∧ parseJ [] = some 0 ∧
      parseJ ['4', '2', '9', '4', '9', '6', '7', '2', '9', '6'] = some 0 ∧
      (writeShards 102 plistExternalize 0 none (bstgFlistInit ⟨0, [], 0, 0, 0⟩ 102 true).1
        fun _ => 0).stopped = some .divisionByZero ∧
      ¬ Guarded (writeShards 102 plistExternalize 0 none
        (bstgFlistInit ⟨0, [], 0, 0, 0⟩ 102 true).1 fun _ => 0) := by
  have hend := writeShards_zero 102 plistExternalize none (flistInit_holds ⟨0, [], 0, 0, 0⟩ 102)
    (by decide) fun _ => 0
  exact ⟨rfl, rfl, rfl, hend, fun hg => hg.divides hend⟩

end Fembot
