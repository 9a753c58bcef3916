/-
  File:      Fembot/Sharding.lean
  Subject:   THE SHARDS: the loop of mkpax's `main` cuts the shuffled list into windows that tile
             it, and no operation can be drawn into two archives.

  With c = number / J the invariant of the loop is `Cut`: the windows set so far tile the list up
  to `base`, and either `base` has reached the end, or all of them have c elements and at least c
  elements remain. The test of the source looks two shards ahead; it takes the remainder as soon
  as fewer than c elements would be left behind the shard. What ends the loop early is only
  `write_archive`, whose `assert(id < NFUNCS)` stops mkpax at an id the table does not have.
-/
import Fembot.Mkpax
import Fembot.Plist
import Fembot.ImportOutcome
import Fembot.Library.Tiling

namespace Fembot

open Library

/-! ## 1. The list and its windows -/

/-- The list is initialised and holds `ids`. -/
structure Flist.Holds (flist : Flist) (ids : List UInt32) : Prop where
  magic : flist.magic = BSTG_FLIST_MAGIC
  number : flist.number.toNat = ids.length
  cells : flist.pindex.take ids.length = ids

/-- The cells it holds have been allocated. -/
theorem Flist.Holds.length_le {flist : Flist} {ids : List UInt32} (h : flist.Holds ids) :
    ids.length ≤ flist.pindex.length :=
  (List.prefix_iff_eq_take.mpr h.cells.symm).length_le

/-- The list of `bstg_flist_init` holds 0 .. n-1. -/
theorem flistInit_holds (ps : Flist) (n : UInt32) :
    (bstgFlistInit ps n true).1.Holds ((List.range n.toNat).map UInt32.ofNat) := by
  refine ⟨rfl, ?_, ?_⟩
  · simp [flistInit_ok]
  · rw [flistInit_ok, List.take_length]

/-- A list whose import returned 0 holds what its first `number` cells say. -/
theorem flistImport_holds {ps ps' : Flist} {options : List Char} (hm : ps.magic = BSTG_FLIST_MAGIC)
    (hlen : ps.pindex.length < 2 ^ 32) (hn : ps.number.toNat ≤ ps.pindex.length)
    (h : bstgFlistImport ps options = .ok (ps', 0)) :
    ps'.Holds (ps'.pindex.take ps'.number.toNat) := by
  obtain ⟨cells, count, rfl, hcells, hcount, -⟩ := flistImport_opened hm ⟨hn, hlen⟩ h
  have hl : (cells.take count.toNat).length = count.toNat := by
    rw [List.length_take]
    omega
  refine ⟨hm, hl.symm, ?_⟩
  show cells.take (cells.take count.toNat).length = cells.take count.toNat
  rw [hl]

/-- The list with another window. -/
def Flist.windowed (flist : Flist) (lower upper : UInt32) : Flist :=
  { flist with lower := lower, upper := upper }

theorem Flist.same_of_windowed {flist flist' : Flist}
    (h : ∃ lower upper, flist' = flist.windowed lower upper) :
    flist'.number = flist.number ∧ flist'.pindex = flist.pindex := by
  obtain ⟨lower, upper, rfl⟩ := h
  exact ⟨rfl, rfl⟩

/-- The ends of the window. -/
def Shard.window (sh : Shard) : Nat × Nat := (sh.lower.toNat, sh.upper.toNat)

/-- The operation `id` can be drawn into the shard's archive: for some random word
    `bstg_flist_get` returns it while the shard's window is set. -/
def Shard.Draws (flist : Flist) (sh : Shard) (id : UInt32) : Prop :=
  ∃ word, bstgFlistGet (flist.windowed sh.lower sh.upper) word = .ok id.toInt32

/-- The windows `ws` tile the list up to `m`; all but the last have `c` elements, and the last has
    at least `c` and fewer than `2 * c`. -/
structure Windows (n c : Nat) (ws : List (Nat × Nat)) (m : Nat) : Prop where
  tiles : Tiles 0 ws m
  within : m ≤ n
  even : ∀ w ∈ ws.dropLast, w.2 - w.1 = c
  last : ∀ w ∈ ws.getLast?, c ≤ w.2 - w.1 ∧ w.2 - w.1 < 2 * c

/-- The invariant of the loop: as `Windows`, and while elements remain there are at least `c` of
    them and no window is larger. -/
structure Cut (n c : Nat) (ws : List (Nat × Nat)) (base : Nat) : Prop
    extends Windows n c ws base where
  remain : base < n → base + c ≤ n ∧ ∀ w ∈ ws, w.2 - w.1 = c

/-- One round: the next window has `c` elements, or all that remain. -/
theorem Cut.step {n c base : Nat} {ws : List (Nat × Nat)} (h : Cut n c ws base) (hc : 0 < c)
    (hbase : base < n) :
    Cut n c (ws ++ [(base, base + if base + c + c > n then n - base else c)])
      (base + if base + c + c > n then n - base else c) := by
  obtain ⟨hrem, hall⟩ := h.remain hbase
  have hlast : ∀ (count : Nat) (w : Nat × Nat),
      w ∈ (ws ++ [(base, base + count)]).getLast? → w.2 - w.1 = count := by
    intro count w hw
    rw [List.getLast?_concat, Option.mem_some_iff] at hw
    rw [← hw]
    show base + count - base = count
    omega
  by_cases htest : base + c + c > n
  · -- the remainder goes into this shard
    rw [if_pos htest]
    refine ⟨⟨h.tiles.snoc (by omega), by omega, ?_, fun w hw => ?_⟩, fun hlt => by omega⟩
    · rw [List.dropLast_concat]
      exact hall
    · rw [hlast _ w hw]
      omega
  · rw [if_neg htest]
    refine ⟨⟨h.tiles.snoc (by omega), by omega, ?_, fun w hw => ?_⟩, fun _ => ⟨by omega, ?_⟩⟩
    · rw [List.dropLast_concat]
      exact hall
    · rw [hlast _ w hw]
      omega
    · intro w hw
      rcases List.mem_append.mp hw with hw | hw
      · exact hall w hw
      · rw [List.mem_singleton.mp hw]
        show base + c - base = c
        omega

/-- A window's ids are those that can be drawn from it. -/
theorem draws_iff {flist : Flist} {sh : Shard} (h1 : sh.lower < sh.upper)
    (h2 : sh.upper.toNat ≤ flist.pindex.length) (id : UInt32) :
    sh.Draws flist id ↔ id ∈ slice flist.pindex sh.lower.toNat sh.upper.toNat := by
  have hw : WindowOk (flist.windowed sh.lower sh.upper) := ⟨h1, h2⟩
  constructor
  · intro hd
    obtain ⟨word, hget⟩ := hd
    obtain ⟨v, hv, hget'⟩ := flistGet_mem hw.1 hw.2 word
    rw [hget] at hget'
    have hid : id.toInt32.toUInt32 = v.toInt32.toUInt32 :=
      congrArg Int32.toUInt32 (Except.ok.inj hget')
    rw [UInt32.toUInt32_toInt32, UInt32.toUInt32_toInt32] at hid
    rw [hid]
    exact hv
  · intro hid
    obtain ⟨i, hlo, hhi, hcell⟩ := mem_slice hid
    -- the word that names the cell is its distance from the lower end
    have hi := sh.upper.toNat_lt
    have hword : (UInt32.ofNat (i - sh.lower.toNat)).toNat = i - sh.lower.toNat := by
      rw [UInt32.toNat_ofNat']
      exact Nat.mod_eq_of_lt (by omega)
    refine ⟨UInt32.ofNat (i - sh.lower.toNat), ?_⟩
    obtain ⟨v, hv, hget⟩ := flistGet_spec hw.1 hw.2 (UInt32.ofNat (i - sh.lower.toNat))
    have hindex : sh.lower.toNat + (i - sh.lower.toNat) % (sh.upper.toNat - sh.lower.toNat) = i := by
      rw [Nat.mod_eq_of_lt (by omega)]
      omega
    simp only [Flist.windowed, hword, hindex, hcell, Option.some.injEq] at hv
    rw [hv]
    exact hget

/-! ## 2. One round of the loop -/

/-- The ids of the shard's window. -/
def Shard.pool (flist : Flist) (sh : Shard) : List UInt32 :=
  slice flist.pindex sh.lower.toNat sh.upper.toNat

/-- What holds of each call of `bstg_flist_set` and of the archive written behind it. -/
def Shard.Written (flist : Flist) (sh : Shard) : Prop :=
  sh.rc = 0 ∧ ∀ id ∈ sh.drawn, id ∈ sh.pool flist

/-- Before a round: the list is `flist` but for its window, and the shards are cut up to `base`. -/
structure Sharding (flist : Flist) (c : Nat) (s : ShardState) : Prop where
  list : ∃ lower upper, s.flist = flist.windowed lower upper
  cut : Cut flist.number.toNat c (s.shards.map Shard.window) s.base.toNat
  written : ∀ sh ∈ s.shards, sh.Written flist

/-- Where the loop is stopped: the windows up to there are as in every run, and the last archive
    drew an id the table does not have. -/
structure Stopped (NFUNCS : Nat) (flist : Flist) (c : Nat) (s : ShardState) (e : Fault) : Prop where
  fault : e = .assertion
  list : ∃ lower upper, s.flist = flist.windowed lower upper
  windows : ∃ m, Windows flist.number.toNat c (s.shards.map Shard.window) m
  written : ∀ sh ∈ s.shards, sh.Written flist
  off : ∃ sh ∈ s.shards.getLast?, ∃ id ∈ sh.drawn, NFUNCS ≤ id.toNat

/-- The number of items the next round puts in its shard. -/
def shardCount (number optJ base : UInt32) : UInt32 :=
  if base + number / optJ + number / optJ > number then number - base else number / optJ

/-- The number of items of the next shard, where the sum of the test does not wrap. -/
theorem shardCount_toNat {number optJ base : UInt32} (hbase : base < number)
    (hsum : base.toNat + number.toNat / optJ.toNat + number.toNat / optJ.toNat < 2 ^ 32) :
    (shardCount number optJ base).toNat =
      if base.toNat + number.toNat / optJ.toNat + number.toNat / optJ.toNat > number.toNat
        then number.toNat - base.toNat else number.toNat / optJ.toNat := by
  have hdiv : (number / optJ).toNat = number.toNat / optJ.toNat := UInt32.toNat_div _ _
  have hsum' : (base + number / optJ + number / optJ).toNat =
      base.toNat + number.toNat / optJ.toNat + number.toNat / optJ.toNat := by
    rw [UInt32.toNat_add, UInt32.toNat_add, hdiv]
    omega
  unfold shardCount
  by_cases h : base + number / optJ + number / optJ > number
  · have h' := UInt32.lt_iff_toNat_lt.mp h
    rw [hsum'] at h'
    rw [if_pos h, if_pos h', UInt32.toNat_sub_of_le _ _ (UInt32.le_of_lt hbase)]
  · have h' : ¬ base.toNat + number.toNat / optJ.toNat + number.toNat / optJ.toNat >
        number.toNat := by
      intro hgt
      refine h (UInt32.lt_iff_toNat_lt.mpr ?_)
      rw [hsum']
      exact hgt
    rw [if_neg h, if_neg h', hdiv]

/-- The round from `s` to `s'` has set the window of the next `count` cells, and `sh` is the shard
    it left. -/
structure ShardRound (s : ShardState) (count : UInt32) (sh : Shard) (s' : ShardState) : Prop where
  list : s'.flist = s.flist.windowed s.base (s.base + count)
  shards : s'.shards = s.shards ++ [sh]
  window : sh.window = (s.base.toNat, (s.base + count).toNat)
  written : sh.Written s.flist

/-- A round changes nothing of the list but its window. -/
theorem ShardRound.list_windowed {flist : Flist} {s s' : ShardState} {count : UInt32} {sh : Shard}
    (hr : ShardRound s count sh s') (hlist : ∃ lower upper, s.flist = flist.windowed lower upper) :
    ∃ lower upper, s'.flist = flist.windowed lower upper := by
  obtain ⟨lower, upper, hlist⟩ := hlist
  exact ⟨_, _, by rw [hr.list, hlist]; rfl⟩

/-- The ids drawn in a round are ids of the list. -/
theorem ShardRound.mem_take {s s' : ShardState} {count : UInt32} {sh : Shard}
    (hr : ShardRound s count sh s') (h : s.base + count ≤ s.flist.number) :
    ∀ id ∈ sh.drawn, id ∈ s.flist.pindex.take s.flist.number.toNat := by
  intro id hid
  have hupper : sh.upper.toNat = (s.base + count).toNat := (Prod.mk.inj hr.window).2
  refine mem_take_of_slice (hr.written.2 id hid) ?_
  rw [hupper]
  exact UInt32.le_iff_toNat_le.mp h

theorem ShardRound.windows {s s' : ShardState} {count : UInt32} {sh : Shard}
    (hr : ShardRound s count sh s') : s'.shards.map Shard.window =
      s.shards.map Shard.window ++ [(s.base.toNat, (s.base + count).toNat)] := by
  rw [hr.shards, List.map_append, List.map_singleton, hr.window]

/-- What holds of the shards before the round and of the one it leaves holds behind it. -/
theorem ShardRound.forall_shards {P : Shard → Prop} {s s' : ShardState} {count : UInt32}
    {sh : Shard} (hr : ShardRound s count sh s') (h : ∀ t ∈ s.shards, P t) (hsh : P sh) :
    ∀ t ∈ s'.shards, P t := by
  intro t ht
  rw [hr.shards] at ht
  rcases List.mem_append.mp ht with ht | ht
  · exact h t ht
  · rw [List.mem_singleton.mp ht]
    exact hsh

section

variable {NFUNCS : Nat} {externalize : List UInt64 → List UInt8} {flist : Flist} {optJ : UInt32}

/-- A round whose window is not empty and within the list sets it and writes its archive; only an
    id off the table stops it. -/
theorem shardBody_ok (farg : Option (List Char)) (hJ : optJ ≠ 0) {s : ShardState} {count : UInt32}
    (hcount : shardCount s.flist.number optJ s.base = count) (h1 : s.base < s.base + count)
    (h2 : s.base + count ≤ s.flist.number)
    (hcells : s.flist.number.toNat ≤ s.flist.pindex.length) :
    (shardBody NFUNCS externalize optJ farg s).Meets
      (fun s' => s'.base = s.base + count ∧ ∃ sh, ShardRound s count sh s')
      (fun s' e => e = .assertion ∧ ∃ sh, ShardRound s count sh s' ∧
        ∃ id ∈ sh.drawn, NFUNCS ≤ id.toNat) := by
  have hset : bstgFlistSet s.flist s.base (s.base + count) =
      (s.flist.windowed s.base (s.base + count), 0) := by
    rw [flistSet_spec, if_pos ⟨h1, h2⟩]
    rfl
  unfold shardCount at hcount
  unfold shardBody
  simp only [hJ, if_false, hcount, hset, if_true]
  -- the archive written while the window is set
  have hwindow : WindowOk (s.flist.windowed s.base (s.base + count)) :=
    ⟨h1, Nat.le_trans (UInt32.le_iff_toNat_le.mp h2) hcells⟩
  have hw := writeArchive_meets NFUNCS externalize hwindow s.words
  generalize writeArchive NFUNCS externalize (s.flist.windowed s.base (s.base + count)) s.words = w
    at hw ⊢
  cases hstop : w.stopped with
  | none =>
    exact meets_ok ⟨rfl, _, rfl, rfl, rfl, rfl, fun id hid => ((hw.1 hstop).drawn id hid).1⟩
  | some e =>
    obtain ⟨he, hdrawn, hoff⟩ := hw.2 e hstop
    exact meets_stop ⟨he, _, ⟨rfl, rfl, rfl, rfl, hdrawn⟩, hoff⟩

theorem optJ_ne_zero (hJ : 1 ≤ optJ.toNat) : optJ ≠ 0 := by
  rintro rfl
  exact absurd hJ (by decide)

/-- The next window: it is not empty and within the list, and the windows are cut on. -/
theorem shardCut_ok (hn : flist.number.toNat < 2 ^ 30)
    (hJ : 1 ≤ optJ.toNat) (hJn : optJ.toNat ≤ flist.number.toNat) {s : ShardState}
    (h : Sharding flist (flist.number.toNat / optJ.toNat) s) (hbase : s.base < flist.number)
    {count : UInt32} (hcount : shardCount flist.number optJ s.base = count) :
    s.base < s.base + count ∧ Cut flist.number.toNat (flist.number.toNat / optJ.toNat)
      (s.shards.map Shard.window ++ [(s.base.toNat, (s.base + count).toNat)])
      (s.base + count).toNat := by
  have hc : 0 < flist.number.toNat / optJ.toNat := Nat.div_pos hJn (by omega)
  have hle : flist.number.toNat / optJ.toNat ≤ flist.number.toNat := Nat.div_le_self _ _
  have hb := UInt32.lt_iff_toNat_lt.mp hbase
  have hstep := h.cut.step hc hb
  rw [← shardCount_toNat hbase (by omega), hcount] at hstep
  have hwithin := hstep.within
  have hupper : (s.base + count).toNat = s.base.toNat + count.toNat :=
    toNat_add_of_lt (by omega)
  rw [← hupper] at hstep
  obtain ⟨-, hlt, -⟩ := hstep.tiles.bounds (s.base.toNat, (s.base + count).toNat)
    (List.mem_append_right _ List.mem_cons_self)
  exact ⟨UInt32.lt_iff_toNat_lt.mpr hlt, hstep⟩

theorem shardBody_meets (farg : Option (List Char)) (hn : flist.number.toNat < 2 ^ 30)
    (hcells : flist.number.toNat ≤ flist.pindex.length)
    (hJ : 1 ≤ optJ.toNat) (hJn : optJ.toNat ≤ flist.number.toNat) {s : ShardState}
    (h : Sharding flist (flist.number.toNat / optJ.toNat) s) (hbase : s.base < s.flist.number) :
    (shardBody NFUNCS externalize optJ farg s).Meets
      (fun s' => Sharding flist (flist.number.toNat / optJ.toNat) s' ∧
        flist.number.toNat - s'.base.toNat < flist.number.toNat - s.base.toNat)
      (Stopped NFUNCS flist (flist.number.toNat / optJ.toNat)) := by
  obtain ⟨hnumber, hindex⟩ := Flist.same_of_windowed h.list
  generalize hcount : shardCount s.flist.number optJ s.base = count
  obtain ⟨h1, hcut⟩ := shardCut_ok hn hJ hJn h (hnumber ▸ hbase) (hnumber ▸ hcount)
  -- what the round leaves is cut on, whether it stops or not
  have hround : ∀ {sh s'}, ShardRound s count sh s' →
      (∃ lower upper, s'.flist = flist.windowed lower upper) ∧
      Cut flist.number.toNat (flist.number.toNat / optJ.toNat) (s'.shards.map Shard.window)
        (s.base + count).toNat ∧ ∀ t ∈ s'.shards, t.Written flist := by
    intro sh s' hr
    refine ⟨hr.list_windowed h.list, hr.windows ▸ hcut, hr.forall_shards h.written ?_⟩
    have hwritten := hr.written
    rwa [Shard.Written, Shard.pool, hindex] at hwritten
  refine (shardBody_ok farg (optJ_ne_zero hJ) hcount h1 ?_ ?_).imp (fun s' hs' => ?_)
    fun s' e hs' => ?_
  · rw [hnumber]
    exact UInt32.le_iff_toNat_le.mpr hcut.within
  · rw [hnumber, hindex]
    exact hcells
  · obtain ⟨hb, sh, hr⟩ := hs'
    obtain ⟨hl, hc, hw⟩ := hround hr
    have hlt := UInt32.lt_iff_toNat_lt.mp h1
    have hwithin := hcut.within
    rw [hb]
    exact ⟨⟨hl, hb ▸ hc, hw⟩, by omega⟩
  · obtain ⟨he, sh, hr, hoff⟩ := hs'
    obtain ⟨hl, hc, hw⟩ := hround hr
    refine ⟨he, hl, ⟨_, hc.toWindows⟩, hw, sh, ?_, hoff⟩
    rw [hr.shards]
    exact List.getLast?_concat

/-- The loop runs to the end of the list or to an id off the table. -/
theorem shardLoop_meets (flist : Flist) (farg : Option (List Char))
    (hn : flist.number.toNat < 2 ^ 30) (hcells : flist.number.toNat ≤ flist.pindex.length)
    (hJ : 1 ≤ optJ.toNat) (hJn : optJ.toNat ≤ flist.number.toNat) (words : Stream' UInt32) :
    (shardLoop NFUNCS externalize optJ farg ⟨flist, words, 0, []⟩).Meets
      (fun s => Sharding flist (flist.number.toNat / optJ.toNat) s ∧
        s.base.toNat = flist.number.toNat)
      (Stopped NFUNCS flist (flist.number.toNat / optJ.toNat)) := by
  have hstart : Sharding flist (flist.number.toNat / optJ.toNat) ⟨flist, words, 0, []⟩ := by
    refine ⟨⟨_, _, rfl⟩, ⟨⟨Tiles.nil 0, Nat.zero_le _, ?_, ?_⟩, fun _ => ⟨?_, ?_⟩⟩, ?_⟩
    · exact fun w hw => absurd hw List.not_mem_nil
    · exact fun w hw => nomatch hw
    · show 0 + flist.number.toNat / optJ.toNat ≤ flist.number.toNat
      rw [Nat.zero_add]
      exact Nat.div_le_self _ _
    · exact fun w hw => absurd hw List.not_mem_nil
    · exact fun sh hsh => absurd hsh List.not_mem_nil
  refine (whileLoop_meets (I := Sharding flist (flist.number.toNat / optJ.toNat))
    (fun s => flist.number.toNat - s.base.toNat) (fun s hs hc => ?_) hstart ?_).imp
    (fun s hs => ⟨hs.1, ?_⟩) fun _ _ he => he
  · exact shardBody_meets farg hn hcells hJ hJn hs (of_decide_eq_true hc)
  · show flist.number.toNat - 0 < flist.number.toNat + 1
    omega
  · obtain ⟨⟨⟨lower, upper, hlist⟩, hcut, -⟩, hend⟩ := hs
    have hge := of_decide_eq_false hend
    rw [UInt32.not_lt, UInt32.le_iff_toNat_le, hlist] at hge
    exact Nat.le_antisymm hcut.within hge

/-- The list is shuffled, and the loop runs on what the shuffle left. -/
theorem writeShards_eq (NFUNCS : Nat) (externalize : List UInt64 → List UInt8) (optJ : UInt32)
    (farg : Option (List Char)) {ids : List UInt32} (hlist : flist.Holds ids)
    (words : Stream' UInt32) :
    ∃ (shuffled : Flist) (words' : Stream' UInt32),
      writeShards NFUNCS externalize optJ farg flist words =
        shardLoop NFUNCS externalize optJ farg ⟨shuffled, words', 0, []⟩ ∧
      shuffled.number.toNat = ids.length ∧ ids.length ≤ shuffled.pindex.length ∧
      (shuffled.pindex.take ids.length).Perm ids := by
  have hcells := hlist.length_le
  obtain ⟨pindex, hshuffle, hperm⟩ := flistShuffle_spec words hlist.magic (hlist.number ▸ hcells)
  refine ⟨{ flist with pindex := pindex }, words.drop (flist.number.toNat - 1), ?_,
    hlist.number, ?_, ?_⟩
  · simp only [writeShards, hshuffle, if_true]
  · rw [hperm.length_eq]
    exact hcells
  · have h := hperm.1
    rwa [hlist.number, hlist.cells] at h

theorem writeShards_meets (NFUNCS : Nat) (externalize : List UInt64 → List UInt8)
    (farg : Option (List Char)) {ids : List UInt32} (hlist : flist.Holds ids)
    (hn : ids.length < 2 ^ 30) (hJ : 1 ≤ optJ.toNat) (hJn : optJ.toNat ≤ ids.length)
    (words : Stream' UInt32) :
    ∃ shuffled : Flist, shuffled.number.toNat = ids.length ∧
      ids.length ≤ shuffled.pindex.length ∧ (shuffled.pindex.take ids.length).Perm ids ∧
      (writeShards NFUNCS externalize optJ farg flist words).Meets
        (fun s => Sharding shuffled (ids.length / optJ.toNat) s ∧ s.base.toNat = ids.length)
        (Stopped NFUNCS shuffled (ids.length / optJ.toNat)) := by
  obtain ⟨shuffled, words', heq, hnumber, hcells, hperm⟩ :=
    writeShards_eq NFUNCS externalize optJ farg hlist words
  refine ⟨shuffled, hnumber, hcells, hperm, ?_⟩
  rw [← hnumber] at hcells hn hJn ⊢
  rw [heq]
  exact shardLoop_meets shuffled farg hn hcells hJ hJn words'

end

/-! ## 3. The partition -/

/-- How the archives share out the operations of the list `ids`, whose windows are to hold `c`
    operations, where the loop was left in `r`. -/
structure Sharded (NFUNCS : Nat) (ids : List UInt32) (c : Nat) (r : Reached ShardState Fault) :
    Prop where
  shuffled : (r.state.flist.pindex.take ids.length).Perm ids
  returns : ∀ sh ∈ r.state.shards, sh.rc = 0
  windows : ∃ m, Windows ids.length c (r.state.shards.map Shard.window) m ∧
    (r.stopped = none → m = ids.length)
  drawn : ∀ sh ∈ r.state.shards, ∀ id ∈ sh.drawn, id ∈ sh.pool r.state.flist
  disjoint : (r.state.shards.map (Shard.pool r.state.flist)).Pairwise List.Disjoint
  union : r.stopped = none → (r.state.shards.map (Shard.pool r.state.flist)).flatten.Perm ids
  once : r.stopped = none → ∀ id ∈ ids, ∃! k : Nat, ∃ sh : Shard,
    r.state.shards[k]? = some sh ∧ sh.Draws r.state.flist id
  stops : ∀ e, r.stopped = some e → e = .assertion ∧
    ∃ sh ∈ r.state.shards.getLast?, ∃ id ∈ sh.drawn, NFUNCS ≤ id.toNat

/-- The archives share out all the operations of the list: the loop ends, no call of `bstg_flist_set`
    fails, the windows cut the list from its start to its end, no id is drawn from outside its window,
    and each operation belongs to one archive and can be drawn into no other. -/
structure Partitioned (ids : List UInt32) (c : Nat) (r : Reached ShardState Fault) : Prop where
  ends : r.stopped = none
  shuffled : (r.state.flist.pindex.take ids.length).Perm ids
  returns : ∀ sh ∈ r.state.shards, sh.rc = 0
  windows : Windows ids.length c (r.state.shards.map Shard.window) ids.length
  drawn : ∀ sh ∈ r.state.shards, ∀ id ∈ sh.drawn, id ∈ sh.pool r.state.flist
  disjoint : (r.state.shards.map (Shard.pool r.state.flist)).Pairwise List.Disjoint
  union : (r.state.shards.map (Shard.pool r.state.flist)).flatten.Perm ids
  once : ∀ id ∈ ids, ∃! k : Nat, ∃ sh : Shard,
    r.state.shards[k]? = some sh ∧ sh.Draws r.state.flist id

theorem Sharded.partitioned {NFUNCS c : Nat} {ids : List UInt32} {r : Reached ShardState Fault}
    (h : Sharded NFUNCS ids c r) (hstop : r.stopped = none) : Partitioned ids c r := by
  obtain ⟨m, hwindows, hm⟩ := h.windows
  rw [hm hstop] at hwindows
  exact ⟨hstop, h.shuffled, h.returns, hwindows, h.drawn, h.disjoint, h.union hstop, h.once hstop⟩

/-- The pools of windows that tile the list, as the slices of its cells. -/
theorem pools_eq (flist : Flist) {shards : List Shard} {m n : Nat}
    (h : Tiles 0 (shards.map Shard.window) m) (hm : m ≤ n) :
    shards.map (Shard.pool flist) = slices (flist.pindex.take n) (shards.map Shard.window) := by
  rw [slices, List.map_map]
  refine List.map_congr_left fun sh hsh => ?_
  obtain ⟨-, -, hle⟩ := h.bounds sh.window (List.mem_map_of_mem hsh)
  exact (slice_take (Nat.le_trans hle hm)).symm

/-- What a window of the list holds, the list holds. -/
theorem mem_of_pool {flist : Flist} {shards : List Shard} {m n : Nat}
    (h : Tiles 0 (shards.map Shard.window) m) (hm : m ≤ n) {sh : Shard} (hsh : sh ∈ shards)
    {id : UInt32} (hid : id ∈ sh.pool flist) : id ∈ flist.pindex.take n := by
  obtain ⟨-, -, hle⟩ := h.bounds sh.window (List.mem_map_of_mem hsh)
  exact mem_take_of_slice hid (Nat.le_trans hle hm)

/-- Where the windows tile a list without duplicates, each of its operations can be drawn into
    exactly one archive. -/
theorem draws_once {flist : Flist} {shards : List Shard} {n : Nat}
    (h : Tiles 0 (shards.map Shard.window) n) (hcells : n ≤ flist.pindex.length)
    (hnodup : (flist.pindex.take n).Nodup) {id : UInt32} (hid : id ∈ flist.pindex.take n) :
    ∃! k : Nat, ∃ sh : Shard, shards[k]? = some sh ∧ sh.Draws flist id := by
  have hdraws : ∀ sh ∈ shards, (sh.Draws flist id ↔
      id ∈ slice (flist.pindex.take n) sh.window.1 sh.window.2) := by
    intro sh hsh
    obtain ⟨-, hlt, hle⟩ := h.bounds sh.window (List.mem_map_of_mem hsh)
    rw [slice_take hle]
    exact draws_iff (UInt32.lt_iff_toNat_lt.mpr hlt) (Nat.le_trans hle hcells) id
  have hmem : id ∈ slice (flist.pindex.take n) 0 n := by
    rw [slice_zero, List.take_take, Nat.min_self]
    exact hid
  obtain ⟨k, ⟨w, hk, hv⟩, huniq⟩ := h.exists_unique hnodup hmem
  rw [List.getElem?_map] at hk
  obtain ⟨sh, hsh, rfl⟩ := Option.map_eq_some_iff.mp hk
  refine ⟨k, ⟨sh, hsh, (hdraws sh (List.mem_of_getElem? hsh)).mpr hv⟩, ?_⟩
  intro k' hk'
  obtain ⟨sh', hsh', hd'⟩ := hk'
  refine huniq k' ⟨sh'.window, ?_, (hdraws sh' (List.mem_of_getElem? hsh')).mp hd'⟩
  rw [List.getElem?_map, hsh']
  rfl

/-- For every duplicate-free list of 1 to 2^30 - 1 operations, every number of shards up to its
    length and all random words: the archives share out the operations, up to the first id drawn
    that the table does not have; and if it has them all, to the end of the list. -/
theorem shards_partition (NFUNCS : Nat) (externalize : List UInt64 → List UInt8) (flist : Flist)
    (ids : List UInt32) (hlist : flist.Holds ids) (hnodup : ids.Nodup) (hn : ids.length < 2 ^ 30)
    (optJ : UInt32) (hJ : 1 ≤ optJ.toNat) (hJn : optJ.toNat ≤ ids.length)
    (farg : Option (List Char)) (words : Stream' UInt32) :
    let r := writeShards NFUNCS externalize optJ farg flist words
    Sharded NFUNCS ids (ids.length / optJ.toNat) r ∧
      ((∀ id ∈ ids, id.toNat < NFUNCS) → r.stopped = none) := by
  obtain ⟨shuffled, hnumber, hcells, hperm, hmeets⟩ := writeShards_meets NFUNCS externalize
    farg hlist hn hJ hJn words
  generalize writeShards NFUNCS externalize optJ farg flist words = r at hmeets
  -- what holds wherever the loop was left
  have hcut : (∃ lower upper, r.state.flist = shuffled.windowed lower upper) ∧
      (∃ m, Windows ids.length (ids.length / optJ.toNat) (r.state.shards.map Shard.window) m ∧
        (r.stopped = none → m = ids.length)) ∧
      ∀ sh ∈ r.state.shards, sh.Written shuffled := by
    cases hstop : r.stopped with
    | none =>
      obtain ⟨⟨hlist', hcut, hwritten⟩, hend⟩ := hmeets.1 hstop
      rw [hnumber] at hcut
      exact ⟨hlist', ⟨_, hcut.toWindows, fun _ => hend⟩, hwritten⟩
    | some e =>
      obtain ⟨-, hlist', ⟨m, hw⟩, hwritten, -⟩ := hmeets.2 e hstop
      rw [hnumber] at hw
      exact ⟨hlist', ⟨m, hw, fun h => nomatch h⟩, hwritten⟩
  obtain ⟨⟨lower, upper, hfl⟩, ⟨m, hw, hm⟩, hwritten⟩ := hcut
  have hindex : r.state.flist.pindex = shuffled.pindex := by
    rw [hfl]
    rfl
  have hpool : ∀ sh : Shard, sh.pool shuffled = sh.pool r.state.flist := by
    intro sh
    rw [Shard.pool, Shard.pool, hindex]
  rw [← hindex] at hperm hcells
  have hnd : (r.state.flist.pindex.take ids.length).Nodup := hperm.nodup_iff.mpr hnodup
  have hpools := pools_eq r.state.flist hw.tiles hw.within
  refine ⟨⟨hperm, fun sh hsh => (hwritten sh hsh).1, ⟨m, hw, hm⟩, ?_, ?_, ?_, ?_, ?_⟩, ?_⟩
  · intro sh hsh
    rw [← hpool]
    exact (hwritten sh hsh).2
  · rw [hpools]
    exact hw.tiles.pairwise_disjoint hnd
  · intro hstop
    rw [hpools, hw.tiles.flatten_slices, hm hstop, slice_zero, List.take_take, Nat.min_self]
    exact hperm
  · intro hstop id hid
    have htiles := hw.tiles
    rw [hm hstop] at htiles
    exact draws_once htiles hcells hnd (hperm.mem_iff.mpr hid)
  · exact fun e hstop => ⟨(hmeets.2 e hstop).fault, (hmeets.2 e hstop).off⟩
  · intro htable
    cases hstop : r.stopped with
    | none => rfl
    | some e =>
      obtain ⟨sh, hsh, id, hid, hoff⟩ := (hmeets.2 e hstop).off
      have hmem := (hwritten sh (List.mem_of_getLast? hsh)).2 id hid
      rw [hpool] at hmem
      have hin := mem_of_pool hw.tiles hw.within (List.mem_of_getLast? hsh) hmem
      exact absurd (htable id (hperm.mem_iff.mp hin)) (Nat.not_lt.mpr hoff)

/-- The list `mkpax -S 500,501` reads: both numbers, in a table of 102 operations. -/
def unknownIds : Flist :=
  ⟨BSTG_FLIST_MAGIC, 500 :: 501 :: ((List.range 102).map UInt32.ofNat).drop 2, 2, 0, 2⟩

/-- The windows of a list of two numbers the table does not have do not reach its end: the first
    draw stops mkpax. -/
theorem unknown_ids_stop :
    bstgFlistImport (bstgFlistInit ⟨0, [], 0, 0, 0⟩ 102 true).1 "500,501".toList =
        .ok (unknownIds, 0) ∧
      unknownIds.Holds [500, 501] ∧ [(500 : UInt32), 501].Nodup ∧
      (writeShards 102 plistExternalize 2 none unknownIds fun _ => 0).stopped = some .assertion ∧
      ¬ Tiles 0 ((writeShards 102 plistExternalize 2 none unknownIds fun _ => 0).state.shards.map
        Shard.window) 2 ∧
      ¬ Partitioned [500, 501] 1 (writeShards 102 plistExternalize 2 none unknownIds fun _ => 0) := by
  have hwindows : (writeShards 102 plistExternalize 2 none unknownIds fun _ => 0).state.shards.map
      Shard.window = [(0, 1)] := by decide +kernel
  have hstop : (writeShards 102 plistExternalize 2 none unknownIds fun _ => 0).stopped =
      some .assertion := by decide +kernel
  refine ⟨by decide +kernel, ⟨by decide, by decide, by decide⟩, by decide, hstop, ?_,
    fun h => nomatch hstop.symm.trans h.ends⟩
  rw [hwindows]
  intro h
  cases h with
  | cons _ hrest => cases hrest

end Fembot
