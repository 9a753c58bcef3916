/-
  File:      Fembot/IdTable.lean
  Subject:   WHEN THE ASSERTION OF `write_archive` HOLDS: every id drawn for an archive has an entry
             in the table of operations, for every `-S` string, every `-J` and all random words.

  * `DrawsFrom` -- ids come from the list, whatever the windows are;
  * `exists_words` -- every ordering of the list is made by some random words, and the word behind
    them can be 0: any element of the list can come to be drawn first;
  * `shards_partition_iff` -- so the archives share out the whole list exactly when the table has it;
  * `ids_in_table_iff` -- and the ids are safe exactly when those of the list are, which the import
    does not see to (`five_hundred_aborts`).
-/
import Fembot.ImportGrammar
import Fembot.ShardCount
import Fembot.Shuffle

namespace Fembot

open Library

/-! ## 1. Where the ids come from -/

/-- The list is `flist` but for its window, and every id drawn is one of it. -/
structure DrawsFrom (flist : Flist) (s : ShardState) : Prop where
  list : ∃ lower upper, s.flist = flist.windowed lower upper
  drawn : ∀ sh ∈ s.shards, ∀ id ∈ sh.drawn, id ∈ flist.pindex.take flist.number.toNat

section

variable {NFUNCS : Nat} {externalize : List UInt64 → List UInt8} {flist : Flist} {optJ : UInt32}

/-- The step lemma: a round draws from the list, whether it is stopped or not. -/
theorem shardBody_draws (farg : Option (List Char)) (hJ : optJ ≠ 0)
    (hcells : flist.number.toNat ≤ flist.pindex.length) {s : ShardState} (h : DrawsFrom flist s) :
    DrawsFrom flist (shardBody NFUNCS externalize optJ farg s).state := by
  obtain ⟨hnumber, hindex⟩ := Flist.same_of_windowed h.list
  generalize hcount : shardCount s.flist.number optJ s.base = count
  by_cases hset : s.base < s.base + count ∧ s.base + count ≤ s.flist.number
  · have hround : ∀ {sh s'}, ShardRound s count sh s' → DrawsFrom flist s' := by
      intro sh s' hr
      refine ⟨hr.list_windowed h.list, hr.forall_shards h.drawn fun id hid => ?_⟩
      have hmem := hr.mem_take hset.2 id hid
      rwa [hindex, hnumber] at hmem
    have hmeets : (shardBody NFUNCS externalize optJ farg s).Meets _ _ :=
      shardBody_ok farg hJ hcount hset.1 hset.2 (by rw [hnumber, hindex]; exact hcells)
    cases hstop : (shardBody NFUNCS externalize optJ farg s).stopped with
    | none =>
      obtain ⟨-, sh, hr⟩ := hmeets.1 hstop
      exact hround hr
    | some e =>
      obtain ⟨-, sh, hr, -⟩ := hmeets.2 e hstop
      exact hround hr
  · rw [shardBody_refused farg hJ (by rw [hcount]) hset]
    refine ⟨h.list, fun sh hsh id hid => ?_⟩
    rcases List.mem_append.mp hsh with hsh | hsh
    · exact h.drawn sh hsh id hid
    · rw [List.mem_singleton.mp hsh] at hid
      exact absurd hid List.not_mem_nil

/-- Every id drawn is one of the list. -/
theorem writeShards_draws (NFUNCS : Nat) (externalize : List UInt64 → List UInt8)
    (farg : Option (List Char)) {ids : List UInt32} (hlist : flist.Holds ids) (hJ : optJ ≠ 0)
    (words : Stream' UInt32) :
    ∀ sh ∈ (writeShards NFUNCS externalize optJ farg flist words).state.shards,
      ∀ id ∈ sh.drawn, id ∈ ids := by
  obtain ⟨shuffled, words', heq, hnumber, hcells, hperm⟩ :=
    writeShards_eq NFUNCS externalize optJ farg hlist words
  rw [heq]
  rw [← hnumber] at hcells hperm
  have hstart : DrawsFrom shuffled ⟨shuffled, words', 0, []⟩ :=
    ⟨⟨_, _, rfl⟩, fun sh hsh => absurd hsh List.not_mem_nil⟩
  have hend : DrawsFrom shuffled
      (shardLoop NFUNCS externalize optJ farg ⟨shuffled, words', 0, []⟩).state :=
    whileLoop_keeps (fun s hs _ => shardBody_draws farg hJ hcells hs) hstart
  intro sh hsh id hid
  exact hperm.mem_iff.mp (hend.drawn sh hsh id hid)

end

/-! ## 2. Which id is drawn first -/

/-- The words that make the choices `v`, with 0 behind them. -/
def choiceWords {n : Nat} (v : Choices n) : Stream' UInt32 := fun i => UInt32.ofNat (v.at (n - i))

theorem shuffleChoice_words {n k : Nat} (v : Choices n) (hn : n < 2 ^ 32) (h2 : 2 ≤ k)
    (hk : k ≤ n) : shuffleChoice n (choiceWords v) k = v.at k := by
  have hlt := v.inRange k h2 hk
  show (UInt32.ofNat (v.at (n - (n - k)))).toNat % k = v.at k
  have hword : v.at k % 2 ^ 32 = v.at k := Nat.mod_eq_of_lt (by omega)
  rw [Nat.sub_sub_self hk, UInt32.toNat_ofNat', hword, Nat.mod_eq_of_lt hlt]

/-- For every place of the list there are words that shuffle its element to the front, and draw the
    first element next. -/
theorem exists_words {n p : Nat} (hp : p < n) (hn : n < 2 ^ 32) :
    ∃ words : Stream' UInt32, swaps (shuffleChoice n words) n 0 = p ∧
      (words.drop (n - 1)).head = 0 := by
  have hpos : 0 < n := Nat.lt_of_le_of_lt (Nat.zero_le p) hp
  obtain ⟨v, hv⟩ := (fisherYates_bijective n).2 (Equiv.swap ⟨0, hpos⟩ ⟨p, hp⟩)
  refine ⟨choiceWords v, ?_, ?_⟩
  · have hswaps : swaps (shuffleChoice n (choiceWords v)) n = swaps v.at n :=
      swaps_congr fun k h2 hk => shuffleChoice_words v hn h2 hk
    rw [hswaps]
    have hfront := congrArg (fun σ : Equiv.Perm (Fin n) => (σ ⟨0, hpos⟩).val) hv
    rwa [Equiv.swap_apply_left] at hfront
  · -- there is no choice for a single cell
    have hnone : v.at 1 = 0 := dif_neg fun h => absurd (Finset.mem_Icc.mp h).1 (by decide)
    rw [Stream'.head_drop]
    show UInt32.ofNat (v.at (n - (n - 1))) = 0
    rw [Nat.sub_sub_self hpos, hnone]
    rfl

section

variable {NFUNCS : Nat} {flist : Flist} {id : UInt32}

/-- An id off the table, drawn first, stops the archive. -/
theorem writeArchive_stopped (externalize : List UInt64 → List UInt8) {words : Stream' UInt32}
    (hget : bstgFlistGet flist words.head = .ok id.toInt32) (hid : NFUNCS ≤ id.toNat) :
    ∃ t, writeArchive NFUNCS externalize flist words = ⟨t, some .assertion⟩ := by
  have hdraw : drawOp NFUNCS flist 0 ⟨words, [], [], []⟩ =
      ⟨⟨words.tail, [], [id], []⟩, some .assertion⟩ := by
    unfold drawOp
    simp only [hget, UInt32.toUInt32_toInt32, if_neg (Nat.not_lt.mpr hid)]
    rfl
  have hentry : writeEntry NFUNCS externalize flist 0 ⟨words, [], [], []⟩ =
      ⟨⟨words.tail, [], [id], []⟩, some .assertion⟩ := by
    rw [writeEntry, forLoop_stopped hdraw]
    rfl
  exact ⟨_, forLoop_stopped hentry⟩

/-- An archive that is stopped stops the round. -/
theorem shardBody_stopped {externalize : List UInt64 → List UInt8} {optJ : UInt32}
    (farg : Option (List Char)) (hJ : optJ ≠ 0) {s : ShardState} {count : UInt32}
    (hcount : shardCount s.flist.number optJ s.base = count) (h1 : s.base < s.base + count)
    (h2 : s.base + count ≤ s.flist.number) {t : WriteState} {e : Fault}
    (hw : writeArchive NFUNCS externalize (s.flist.windowed s.base (s.base + count)) s.words =
      ⟨t, some e⟩) :
    ∃ s', shardBody NFUNCS externalize optJ farg s = ⟨s', some e⟩ := by
  have hset : bstgFlistSet s.flist s.base (s.base + count) =
      (s.flist.windowed s.base (s.base + count), 0) := by
    rw [flistSet_spec, if_pos ⟨h1, h2⟩]
    rfl
  unfold shardCount at hcount
  unfold shardBody
  simp only [hJ, if_false, hcount, hset, if_true, hw]
  exact ⟨_, rfl⟩

/-- The shuffle brings any element to the front for some words. -/
theorem shuffle_to_front {ids : List UInt32} (hlist : flist.Holds ids) (hid : id ∈ ids) :
    ∃ (words words' : Stream' UInt32) (shuffled : Flist),
      bstgFlistShuffle flist words = .ok (shuffled, words', 0) ∧ words'.head = 0 ∧
        shuffled.number = flist.number ∧ shuffled.pindex.length = flist.pindex.length ∧
        shuffled.pindex[0]? = some id := by
  obtain ⟨p, hp, hget⟩ := List.getElem_of_mem hid
  have hn : ids.length < 2 ^ 32 := hlist.number ▸ flist.number.toNat_lt
  obtain ⟨words, hfront, hzero⟩ := exists_words hp hn
  have hcells : flist.number.toNat ≤ flist.pindex.length := hlist.number ▸ hlist.length_le
  obtain ⟨pindex, hshuffle, hperm⟩ := flistShuffle_spec words hlist.magic hcells
  obtain ⟨pindex', hloop, hreads⟩ := shuffleLoop_reads flist.number.toNat flist.pindex words hcells
  have hsame : pindex' = pindex := by
    simp only [bstgFlistShuffle, assert_pos hlist.magic, hloop, exec_bind_ok, exec_pure] at hshuffle
    exact congrArg Flist.pindex (Prod.mk.inj (Except.ok.inj hshuffle)).1
  subst hsame
  rw [hlist.number] at hshuffle hreads
  refine ⟨words, _, _, hshuffle, hzero, rfl, hperm.length_eq, ?_⟩
  show pindex'[0]? = some id
  rw [hreads 0, hfront, ← List.getElem?_take_of_lt hp, hlist.cells, List.getElem?_eq_getElem hp,
    hget]

/-- The first window is not empty, and within the list. -/
theorem first_window {number optJ : UInt32} (hJ : 1 ≤ optJ.toNat)
    (hJn : optJ.toNat ≤ number.toNat) :
    (0 : UInt32) < 0 + shardCount number optJ 0 ∧ 0 + shardCount number optJ 0 ≤ number := by
  have hpos : (0 : UInt32).toNat < number.toNat := Nat.lt_of_lt_of_le hJ hJn
  have hc : 0 < number.toNat / (number.toNat / optJ.toNat) :=
    Nat.div_pos (Nat.div_le_self _ _) (Nat.div_pos hJn hJ)
  have hplace : CutTo number.toNat (number.toNat / optJ.toNat) 0 (0 : UInt32).toNat := by
    have heven := CutTo.even (c := number.toNat / optJ.toNat) hc
    rwa [Nat.zero_mul] at heven
  obtain ⟨-, ⟨h1, h2, -⟩ | ⟨-, hk, -⟩⟩ := hplace.step rfl hJ hJn
    (UInt32.lt_iff_toNat_lt.mpr hpos) rfl
  · exact ⟨h1, h2⟩
  · exact absurd hk (Nat.ne_of_lt hc)

/-- The index 0 draws the first id of a window that starts with the list. -/
theorem flistGet_first {upper : UInt32} (h : 0 < upper)
    (hcells : upper.toNat ≤ flist.pindex.length) (hfirst : flist.pindex[0]? = some id) :
    bstgFlistGet (flist.windowed 0 upper) 0 = .ok id.toInt32 := by
  have hlt : (flist.windowed 0 upper).lower < (flist.windowed 0 upper).upper := h
  obtain ⟨v, hv, hget⟩ := flistGet_spec hlt hcells 0
  have hv : flist.pindex[0]? = some v := by simpa [Flist.windowed] using hv
  rw [hfirst] at hv
  cases hv
  exact hget

/-- Any id of the list that is off the table stops mkpax for some words. -/
theorem exists_assertion (externalize : List UInt64 → List UInt8) (farg : Option (List Char))
    {ids : List UInt32} (hlist : flist.Holds ids) {optJ : UInt32} (hJ : 1 ≤ optJ.toNat)
    (hJn : optJ.toNat ≤ ids.length) (hid : id ∈ ids) (hoff : NFUNCS ≤ id.toNat) :
    ∃ words, (writeShards NFUNCS externalize optJ farg flist words).stopped = some .assertion := by
  obtain ⟨words, words', shuffled, hshuffle, hzero, hnumber, hlen, hfirst⟩ :=
    shuffle_to_front hlist hid
  have hn : shuffled.number.toNat = ids.length := by rw [hnumber, hlist.number]
  have hpos : 0 < shuffled.number.toNat := by omega
  -- the first window starts with the id, and the first word behind the shuffle draws it
  obtain ⟨h1, h2⟩ := first_window hJ (hn ▸ hJn)
  have hwindow : (0 + shardCount shuffled.number optJ 0).toNat ≤ shuffled.pindex.length := by
    have hle := UInt32.le_iff_toNat_le.mp h2
    have hcells := hlist.length_le
    omega
  have hget : bstgFlistGet (shuffled.windowed 0 (0 + shardCount shuffled.number optJ 0))
      words'.head = .ok id.toInt32 := by
    rw [hzero]
    exact flistGet_first h1 hwindow hfirst
  obtain ⟨t, hw⟩ := writeArchive_stopped externalize hget hoff
  obtain ⟨s', hbody⟩ := shardBody_stopped (s := ⟨shuffled, words', 0, []⟩) farg (optJ_ne_zero hJ) rfl
    h1 h2 hw
  refine ⟨words, ?_⟩
  have hstopped := shardLoop_stopped hpos hbody
  simp only [writeShards, hshuffle, if_true]
  rw [hstopped]

end

/-- For every duplicate-free list of 1 to 2^30 - 1 operations and every number of shards up to its
    length: over all random words the archives share out all the operations, if and only if the table
    has each of them. -/
theorem shards_partition_iff (NFUNCS : Nat) (externalize : List UInt64 → List UInt8) (flist : Flist)
    (ids : List UInt32) (hlist : flist.Holds ids) (hnodup : ids.Nodup) (hn : ids.length < 2 ^ 30)
    (optJ : UInt32) (hJ : 1 ≤ optJ.toNat) (hJn : optJ.toNat ≤ ids.length)
    (farg : Option (List Char)) :
    (∀ words, Partitioned ids (ids.length / optJ.toNat)
        (writeShards NFUNCS externalize optJ farg flist words)) ↔
      ∀ id ∈ ids, id.toNat < NFUNCS := by
  constructor
  · intro hwords id hid
    by_contra hoff
    obtain ⟨words, hstop⟩ :=
      exists_assertion externalize farg hlist hJ hJn hid (Nat.le_of_not_lt hoff)
    exact nomatch hstop.symm.trans (hwords words).ends
  · intro htable words
    obtain ⟨hsharded, hends⟩ :=
      shards_partition NFUNCS externalize flist ids hlist hnodup hn optJ hJ hJn farg words
    exact hsharded.partitioned (hends htable)

/-- The default list of five operations, cut for two shards into windows of two and of three. -/
theorem shards_partition_iff_run :
    Partitioned ((List.range 5).map UInt32.ofNat) 2
      (writeShards 5 plistExternalize 2 none (bstgFlistInit ⟨0, [], 0, 0, 0⟩ 5 true).1
        fun n => UInt32.ofNat n) := by
  refine (shards_partition_iff 5 plistExternalize _ ((List.range 5).map UInt32.ofNat)
    (flistInit_holds ⟨0, [], 0, 0, 0⟩ 5) (by decide) (by decide) 2 (by decide) (by decide) none).mpr ?_ _
  intro id hid
  obtain ⟨i, hi, rfl⟩ := List.mem_map.mp hid
  rw [List.mem_range] at hi
  rw [UInt32.toNat_ofNat']
  exact Nat.lt_of_le_of_lt (Nat.mod_le _ _) hi

/-! ## 3. The list of `-S` -/

/-- No id that is drawn fails the assertion: mkpax is not aborted, and every id drawn has an entry in
    the table. -/
def InTable (NFUNCS : Nat) (r : Reached ShardState Fault) : Prop :=
  r.stopped ≠ some .assertion ∧ ∀ sh ∈ r.state.shards, ∀ id ∈ sh.drawn, id.toNat < NFUNCS

/-- The list that mkpax reads from `-S` holds what the import stores for the numerals. -/
theorem import_holds {old flist : Flist} {n : UInt32} {optS : List Char}
    (h : bstgFlistImport (bstgFlistInit old n true).1 optS = .ok (flist, 0)) :
    flist.Holds ((items optS).1.map numeralCell) := by
  have hkept := flistInit_kept old n
  by_cases hne : optS = []
  · subst hne
    rw [flistImport_empty hkept.magic] at h
    cases h
    exact ⟨rfl, rfl, rfl⟩
  obtain ⟨⟨-, hfit, -⟩, rfl⟩ := endsWithin_of_import hkept.magic hkept.sized hne h
  refine ⟨hkept.magic, ?_, ?_⟩
  · rw [List.length_map]
    show (UInt32.ofNat (items optS).1.length).toNat = (items optS).1.length
    have hn := (bstgFlistInit old n true).1.number.toNat_lt
    rw [UInt32.toNat_ofNat', Nat.mod_eq_of_lt (by omega)]
  · exact take_overwrite _ _

/-- For every `-S` that the import accepts, every `-J` that yields shards, and wherever the archives
    go: over all random words no id fails the assertion, if and only if what is stored for each
    numeral of `-S` is below NFUNCS. -/
theorem ids_in_table_iff (NFUNCS : UInt32) (externalize : List UInt64 → List UInt8) (old : Flist)
    (optS : List Char) {flist : Flist}
    (himp : bstgFlistImport (bstgFlistInit old NFUNCS true).1 optS = .ok (flist, 0))
    (optJ : UInt32) (hJ : 1 ≤ optJ.toNat) (hJn : optJ.toNat ≤ flist.number.toNat)
    (farg : Option (List Char)) :
    (∀ words, InTable NFUNCS.toNat
        (writeShards NFUNCS.toNat externalize optJ farg flist words)) ↔
      ∀ ds ∈ (items optS).1, (numeralCell ds).toNat < NFUNCS.toNat := by
  have hholds := import_holds himp
  have hJn' : optJ.toNat ≤ ((items optS).1.map numeralCell).length := hholds.number ▸ hJn
  have hstored : (∀ ds ∈ (items optS).1, (numeralCell ds).toNat < NFUNCS.toNat) ↔
      ∀ id ∈ (items optS).1.map numeralCell, id.toNat < NFUNCS.toNat :=
    (List.forall_mem_map (P := fun id : UInt32 => id.toNat < NFUNCS.toNat)).symm
  rw [hstored]
  constructor
  · intro hwords id hid
    by_contra hoff
    obtain ⟨words, hstop⟩ :=
      exists_assertion externalize farg hholds hJ hJn' hid (Nat.le_of_not_lt hoff)
    exact (hwords words).1 hstop
  · intro htable words
    refine ⟨?_, fun sh hsh id hid => htable id ?_⟩
    · exact not_off (writeShards_counts NFUNCS.toNat externalize farg hholds rfl hJ hJn' words)
        htable
    · exact writeShards_draws NFUNCS.toNat externalize farg hholds (optJ_ne_zero hJ) words sh hsh id
        hid

/-- The list of one number that mkpax reads with a table of 102 operations. -/
def loneId (id : UInt32) : Flist :=
  ⟨BSTG_FLIST_MAGIC, id :: ((List.range 102).map UInt32.ofNat).tail, 1, 0, 1⟩

/-- `mkpax -S 101`: the last operation of the table. -/
theorem ids_in_table_iff_run :
    (∀ words, InTable 102 (writeShards 102 plistExternalize 1 none (loneId 101) words)) ↔
      ∀ ds ∈ (items ['1', '0', '1']).1, (numeralCell ds).toNat < 102 :=
  ids_in_table_iff 102 plistExternalize ⟨0, [], 0, 0, 0⟩ ['1', '0', '1'] (by decide +kernel) 1
    (by decide) (by decide) none

/-- The failing string: `mkpax -S 500`. The import returns 0, and the first id drawn aborts mkpax,
    which has opened its archive by then. -/
theorem five_hundred_aborts :
    bstgFlistImport (bstgFlistInit ⟨0, [], 0, 0, 0⟩ 102 true).1 ['5', '0', '0'] =
        .ok (loneId 500, 0) ∧
      (writeShards 102 plistExternalize 1 none (loneId 500) fun _ => 0).stopped =
        some .assertion ∧
      ¬ InTable 102 (writeShards 102 plistExternalize 1 none (loneId 500) fun _ => 0) := by
  have hstop : (writeShards 102 plistExternalize 1 none (loneId 500) fun _ => 0).stopped =
      some .assertion := by decide +kernel
  exact ⟨by decide +kernel, hstop, fun h => h.1 hstop⟩

end Fembot
