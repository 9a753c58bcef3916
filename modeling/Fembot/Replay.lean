/-
  File:      Fembot/Replay.lean
  Subject:   THE REPLAY OF ARCHIVES AS RUNS OF THE TABLE: what the children of clodagh do.

  Archive.lean and Clodagh.lean read entries and leave open what an operation does; Operations.lean
  has the operations. Here the two meet: whatever the archives hold, a child goes through a run of the
  table, so that what holds over every run holds in every child; and the archives that mkpax makes of
  a list are the runs over the ids drawn for them.

  * `dispatched`, `replayArchive_eq` -- the indices an archive stands for, and its replay;
  * `replayLoop_runs`, `children_run` -- the loop over the operands, and every child of `main`;
  * `replay_lots`, `writeShards_whole` -- an archive of ids of the table, and the archives of mkpax;
  * `shards_replayed` -- from the list of operations to the runs.
-/
import Fembot.Bystanders
import Fembot.Clodagh
import Fembot.IdTable
import Fembot.Mappings
import Fembot.RoundTrip

namespace Fembot

open Library

/-! ## 1. One archive -/

/-- The indices that a child dispatches at for the entries, up to one that holds no array, and the
    buffer behind them where there is none. -/
def dispatched (NFUNCS : Nat) (internalize : List UInt8 → Option (List UInt64)) :
    List UInt8 → List EntryRead → List Nat × Option (List UInt8)
  | buf, [] => ([], some buf)
  | buf, r :: entries =>
    match internalize (handed buf r) with
    | none => ([], none)
    | some ops =>
      let rest := dispatched NFUNCS internalize (handed buf r) entries
      (ops.map (dispatchIndex NFUNCS) ++ rest.1, rest.2)

/-- The operations as a step. -/
def Env.step {W : Type} (env : Env W) (world : W) (i : Nat) : Exec W := env.operate i world

section

variable {W : Type} {NFUNCS : Nat} {env : Env W}

theorem foldlM_operate (ids : List Nat) (world : W) :
    ids.foldlM (fun world i => env.operate i world) world = run env.step world ids := by
  induction ids generalizing world with
  | nil => rfl
  | cons i ids ih =>
    rw [List.foldlM_cons]
    cases hstep : env.operate i world with
    | error e => rw [run_cons_error ids hstep, exec_bind_error]
    | ok world' =>
      rw [run_cons_ok ids hstep, exec_bind_ok]
      exact ih world'

/-- One entry. -/
theorem replayEntry_eq (s : ChildState W) (r : EntryRead) :
    replayEntry NFUNCS env s r =
      match env.internalize (handed s.buf r) with
      | none => .error (.errx 1)
      | some ops =>
        (run env.step s.world (ops.map (dispatchIndex NFUNCS))).map fun world =>
          { s with buf := handed s.buf r, world := world } := by
  rw [replayEntry, readEntry_eq]
  cases env.internalize (handed s.buf r) with
  | none => rfl
  | some ops =>
    simp only [exec_bind_ok, List.nil_append, foldlM_operate]
    cases run env.step s.world (ops.map (dispatchIndex NFUNCS)) with
    | error e => rfl
    | ok world => rfl

/-- The replay is the run over these indices, which an entry that holds no array ends. -/
theorem replayArchive_eq (s : ChildState W) (entries : List EntryRead) :
    replayArchive NFUNCS env s entries =
      match run env.step s.world (dispatched NFUNCS env.internalize s.buf entries).1 with
      | .error e => .error e
      | .ok world =>
        match (dispatched NFUNCS env.internalize s.buf entries).2 with
        | none => .error (.errx 1)
        | some buf => .ok { s with buf := buf, world := world } := by
  induction entries generalizing s with
  | nil => rfl
  | cons r entries ih =>
    have hstep : replayEntry NFUNCS env s r = _ := replayEntry_eq s r
    rw [dispatched]
    cases hread : env.internalize (handed s.buf r) with
    | none =>
      rw [hread] at hstep
      exact run_cons_error entries hstep
    | some ops =>
      rw [hread] at hstep
      dsimp only at hstep ⊢
      cases hrun : run env.step s.world (ops.map (dispatchIndex NFUNCS)) with
      | error e =>
        rw [hrun] at hstep
        rw [run_append_error _ hrun]
        exact run_cons_error entries hstep
      | ok world =>
        rw [hrun] at hstep
        rw [run_append_ok _ hrun]
        exact (run_cons_ok entries hstep).trans (ih _)

theorem replayArchive_ran {s s' : ChildState W} {entries : List EntryRead}
    (h : replayArchive NFUNCS env s entries = .ok s') :
    run env.step s.world (dispatched NFUNCS env.internalize s.buf entries).1 = .ok s'.world := by
  rw [replayArchive_eq] at h
  cases hrun : run env.step s.world (dispatched NFUNCS env.internalize s.buf entries).1 with
  | error e =>
    rw [hrun] at h
    cases h
  | ok world =>
    rw [hrun] at h
    dsimp only at h
    split at h
    · cases h
    · cases h
      rfl

theorem dispatched_lt (hN : 0 < NFUNCS) (internalize : List UInt8 → Option (List UInt64))
    (buf : List UInt8) (entries : List EntryRead) :
    ∀ i ∈ (dispatched NFUNCS internalize buf entries).1, i < NFUNCS := by
  induction entries generalizing buf with
  | nil => exact fun i hi => absurd hi List.not_mem_nil
  | cons r entries ih =>
    intro i hi
    rw [dispatched] at hi
    split at hi
    · exact absurd hi List.not_mem_nil
    · rename_i ops hops
      rcases List.mem_append.mp hi with hi | hi
      · obtain ⟨v, -, rfl⟩ := List.mem_map.mp hi
        exact Nat.mod_lt _ hN
      · exact ih _ i hi

/-! ## 2. The operands -/

/-- Where the loop over the operands has come to, a run over indices of the table comes to. -/
theorem replayLoop_runs (hN : 0 < NFUNCS) (x : Nat) (argv : List (Option Word)) (s : ChildState W) :
    ∃ ids, (∀ i ∈ ids, i < NFUNCS) ∧
      run env.step s.world ids = .ok (replayLoop NFUNCS env x argv s).state.world := by
  have hnone : ∀ t : Reached (ChildState W) Fault, t.state.world = s.world →
      ∃ ids, (∀ i ∈ ids, i < NFUNCS) ∧ run env.step s.world ids = .ok t.state.world := fun t ht =>
    ⟨[], fun i hi => absurd hi List.not_mem_nil, congrArg Except.ok ht.symm⟩
  induction argv generalizing s with
  | nil => exact hnone _ rfl
  | cons prev argv ih =>
    cases prev with
    | none => exact hnone _ rfl
    | some prev =>
      cases argv with
      | nil => exact hnone _ rfl
      | cons name rest =>
        cases hopen : env.files x s.opened.length name with
        | none =>
          refine hnone _ ?_
          rw [replayLoop, hopen]
          rfl
        | some entries =>
          cases hreplay : replayArchive NFUNCS env (s.opening name) entries with
          | error e =>
            rw [replayLoop_ended hopen hreplay]
            exact hnone ⟨s.opening name, some e⟩ rfl
          | ok s' =>
            rw [replayLoop_next hopen hreplay]
            have hran := replayArchive_ran hreplay
            obtain ⟨ids, hids, hrun⟩ := ih s' fun t ht =>
              ⟨[], fun i hi => absurd hi List.not_mem_nil, congrArg Except.ok ht.symm⟩
            refine ⟨_ ++ ids, fun i hi => ?_, (run_append_ok ids hran).trans hrun⟩
            exact (List.mem_append.mp hi).elim (dispatched_lt hN _ _ _ i) (hids i)

end

/-! ## 3. The children of clodagh -/

/-- The operations of the environment are those of the table: a step that comes to its end comes to
    the same process. -/
def Operates (basedir : Path) (pf : Funcs) (env : Env World) : Prop :=
  ∀ i w w', env.operate i w = .ok w' ↔ opStep basedir pf w i = .ok w'

theorem Operates.run_iff {basedir : Path} {pf : Funcs} {env : Env World} (h : Operates basedir pf env)
    {w w' : World} {ids : List Nat} :
    run env.step w ids = .ok w' ↔ run (opStep basedir pf) w ids = .ok w' := by
  induction ids generalizing w with
  | nil =>
    constructor
    · intro hrun
      cases hrun
      rfl
    · intro hrun
      cases hrun
      rfl
  | cons i ids ih =>
    constructor
    · intro hrun
      obtain ⟨w₁, hstep, hrest⟩ := run_cons_inv hrun
      rw [run_cons_ok ids ((h i w w₁).mp hstep)]
      exact ih.mp hrest
    · intro hrun
      obtain ⟨w₁, hstep, hrest⟩ := run_cons_inv hrun
      exact (run_cons_ok ids ((h i w w₁).mpr hstep)).trans (ih.mpr hrest)

/-- Every child of `main`, whatever its operands and what they hold: it has come through a run over
    indices of the table. So the mappings of the record, the signal handlers and the children are those
    that it began with, and the descriptors that the store did not track have their files. -/
theorem children_run (basedir : Path) (pf : Funcs) (env : Env World) (henv : Operates basedir pf env)
    (prog : Word) (words : List Word) {flags : Flags} {optind : Nat}
    (hopts : getopts words 1 ⟨false, false⟩ = some (flags, optind))
    {children : List (Nat × Reached (ChildState World) Fault)}
    (hmain : clodaghMain 102 env prog words = .forked children) {x : Nat}
    {child : Reached (ChildState World) Fault} (hchild : (x, child) ∈ children) {m₀ : Memory}
    (hm : Mapped pf m₀ (env.world flags.verbose x).mem)
    (hw : (env.world flags.verbose x).handlers = defaultHandlers)
    (hc : (env.world flags.verbose x).child = false) (hv : (env.world flags.verbose x).ps.Valid) :
    let w := env.world flags.verbose x
    let t := child.state.world
    (∃ ids, (∀ i ∈ ids, i < 102) ∧ run (opStep basedir pf) w ids = .ok t) ∧
      t.mem = w.mem ∧ t.handlers = defaultHandlers ∧ t.kids = w.kids ∧
      ∀ n, Bystander w n → t.k.slot n = w.k.slot n := by
  obtain ⟨buf, argv, rfl⟩ : ∃ buf argv, child =
      replayLoop 102 env x argv (childStart env flags buf x) := by
    rw [clodaghMain, hopts] at hmain
    dsimp only at hmain
    split at hmain
    · cases hmain
    split at hmain
    · split at hmain
      · cases hmain
      · rename_i buf hbuf
        cases hmain
        obtain ⟨y, -, hy⟩ := List.mem_map.mp hchild
        obtain ⟨rfl, rfl⟩ := Prod.mk.inj hy
        exact ⟨buf, _, rfl⟩
    · cases hmain
  intro w t
  obtain ⟨ids, hids, hrun⟩ : ∃ ids, (∀ i ∈ ids, i < 102) ∧ run env.step w ids = .ok t :=
    replayLoop_runs (by decide) x argv (childStart env flags buf x)
  have hrun : run (opStep basedir pf) w ids = .ok t := henv.run_iff.mp hrun
  have hsettled := ((settled_keeps hm).always ⟨rfl, hw, hv⟩ ids).final hrun
  have hspared : Spared w t := ((bystanders_keeps basedir pf w).always
    ⟨⟨rfl, hc, hw⟩, hv, fun _ _ => rfl, fun n hn hb => hb.2 hn,
      fun _ hfd => absurd hfd List.not_mem_nil⟩ ids).final hrun
  exact ⟨⟨ids, hids, hrun⟩, hsettled.mem, hsettled.handlers, hspared.parent.kids, hspared.aside.same⟩

/-- A record whose mappings are the first two pages. -/
def twoPages : Funcs := ⟨BSTG_FUNCS_MAGIC, 0, ⟨some 0, 4096⟩, ⟨some 1, 4096⟩⟩

/-- A system on which everything succeeds, one child is forked, and there is one archive `a`, with one
    entry. -/
def oneArchive : Env World where
  initOk := true
  buf := some []
  forks := fun x => x = 0
  world := fun _ _ =>
    { mappingWorld with
      mem := (Memory.put (fun _ => none) 0 1 (some .PROT_READ)).put 1 1 (some .PROT_WRITE) }
  files := fun _ _ name =>
    if name = some ['a'] then some [⟨⟨['0'], plistExternalize [31, 7]⟩, fun _ => 0⟩] else none
  internalize := plistInternalize
  operate := fun i w => (opStep "/mnt".toList twoPages w i).mapError fun _ => .errx 1

theorem oneArchive_operates : Operates "/mnt".toList twoPages oneArchive := by
  intro i w w'
  show (opStep "/mnt".toList twoPages w i).mapError _ = .ok w' ↔ _
  cases opStep "/mnt".toList twoPages w i with
  | error e =>
    constructor
    · intro h
      cases h
    · intro h
      cases h
  | ok t =>
    constructor
    · intro h
      cases h
      rfl
    · intro h
      cases h
      rfl

/-- The child of `clodagh a`. -/
example :
    let w := oneArchive.world false 0
    let t := (replayLoop 102 oneArchive 0 [some ['c'], some ['a'], none]
      (childStart oneArchive ⟨false, false⟩ [] 0)).state.world
    (∃ ids, (∀ i ∈ ids, i < 102) ∧ run (opStep "/mnt".toList twoPages) w ids = .ok t) ∧
      t.mem = w.mem ∧ t.handlers = defaultHandlers ∧ t.kids = w.kids ∧
      ∀ n, Bystander w n → t.k.slot n = w.k.slot n := by
  have hmapped : Mapped twoPages (fun _ => none) (oneArchive.world false 0).mem := by
    refine ⟨rfl, rfl, by decide, 0, 1, rfl, rfl, fun _ _ => rfl, fun i hi => ?_, rfl⟩
    have hone : pages twoPages.pattern.len = 1 := by decide
    rw [hone]
    exact if_neg fun h => by omega
  have hopts : getopts [['a']] 1 ⟨false, false⟩ = some (⟨false, false⟩, 1) := rfl
  have hmain : clodaghMain 102 oneArchive ['c'] [['a']] = .forked [(0, replayLoop 102 oneArchive 0
      [some ['c'], some ['a'], none] (childStart oneArchive ⟨false, false⟩ [] 0))] := rfl
  exact children_run "/mnt".toList twoPages oneArchive oneArchive_operates ['c'] [['a']] hopts hmain
    List.mem_cons_self hmapped rfl rfl (fdstoreInit_valid _)

/-! ## 4. What mkpax wrote -/

/-- An archive that can be read to its end stands for the indices of `childReplay`. -/
theorem dispatched_of_childReplay {NFUNCS : Nat} {internalize : List UInt8 → Option (List UInt64)}
    {buf : List UInt8} {entries : List EntryRead} {ids : List Nat}
    (h : childReplay NFUNCS internalize buf entries = .ok ids) :
    ∃ buf', dispatched NFUNCS internalize buf entries = (ids, some buf') := by
  let recording : Env (List Nat) :=
    ⟨true, some buf, fun _ => true, fun _ _ => [], fun _ _ _ => none, internalize,
      fun i world => .ok (world ++ [i])⟩
  have hrecords : Records recording := fun _ _ => rfl
  have hreplay : _ = childReplay NFUNCS internalize buf entries :=
    replayArchive_dispatches NFUNCS hrecords [] buf entries
  rw [replayArchive_eq, ← foldlM_operate, records_foldlM hrecords, h] at hreplay
  dsimp only [recording] at hreplay
  cases hdispatched : dispatched NFUNCS internalize buf entries with
  | mk read left =>
    rw [hdispatched] at hreplay
    cases left with
    | none => cases hreplay
    | some buf' =>
      cases hreplay
      exact ⟨buf', rfl⟩

/-- A child that replays an archive whose entries are lots of ids of the table: it comes to the process
    that the run over the ids comes to, and to its end only if that run does. -/
theorem replay_lots {basedir : Path} {pf : Funcs} {env : Env World} (henv : Operates basedir pf env)
    {externalize : List UInt64 → List UInt8}
    (hcodec : ∀ numbers rest, env.internalize (externalize numbers ++ rest) = some numbers)
    {flist : Flist} {lots : List (List UInt32)} (hdrawn : Drawn 102 flist lots.flatten)
    {archive : List EntryRead}
    (hdata : (archive.map (·.entry)).map (·.data) = lots.map fun ids => externalize (widen ids))
    (s : ChildState World) (w' : World) :
    (replayArchive 102 env s archive).map (·.world) = .ok w' ↔
      run (opStep basedir pf) s.world (lots.flatten.map UInt32.toNat) = .ok w' := by
  have harrays : (lots.map widen).flatten = widen lots.flatten := by
    simp only [widen, List.map_flatten]
    rfl
  have hread : childReplay 102 env.internalize s.buf archive = _ :=
    readEntries_of_arrays (arrays_of_lots hcodec hdata) s.buf
  rw [harrays, dispatchIndex_widen hdrawn] at hread
  obtain ⟨buf, hdispatched⟩ := dispatched_of_childReplay hread
  rw [replayArchive_eq, hdispatched, ← henv.run_iff]
  dsimp only
  cases run env.step s.world (lots.flatten.map UInt32.toNat) with
  | error e =>
    constructor
    · intro h
      cases h
    · intro h
      cases h
  | ok world =>
    constructor
    · intro h
      cases h
      rfl
    · intro h
      cases h
      rfl

/-- The archive of the shard is all there: it holds the ids drawn, in lots, and the table has them. -/
def Shard.Whole (NFUNCS : Nat) (externalize : List UInt64 → List UInt8) (sh : Shard) : Prop :=
  ∃ (flist : Flist) (lots : List (List UInt32)), Drawn NFUNCS flist lots.flatten ∧
    sh.drawn = lots.flatten ∧
    sh.archive.map (·.data) = lots.map fun ids => externalize (widen ids)

section

variable {NFUNCS : Nat} {externalize : List UInt64 → List UInt8} {flist : Flist} {optJ : UInt32}

/-- A round that is not stopped: the shard it adds has the window it has set, the name for that window
    and the archive, which is written to its end. -/
theorem shardBody_ended (farg : Option (List Char)) {s : ShardState}
    (hend : (shardBody NFUNCS externalize optJ farg s).stopped = none) :
    ∃ upper, s.base < upper ∧ upper ≤ s.flist.number ∧
      (writeArchive NFUNCS externalize (s.flist.windowed s.base upper) s.words).stopped = none ∧
      (shardBody NFUNCS externalize optJ farg s).state.shards = s.shards ++
        [⟨s.base, upper, 0, shardName farg optJ s.base,
          (writeArchive NFUNCS externalize (s.flist.windowed s.base upper) s.words).state.drawn,
          (writeArchive NFUNCS externalize (s.flist.windowed s.base upper) s.words).state.archive⟩] := by
  by_cases hJ : optJ = 0
  · rw [shardBody, if_pos hJ] at hend
    cases hend
  generalize hcount : shardCount s.flist.number optJ s.base = count
  by_cases hset : s.base < s.base + count ∧ s.base + count ≤ s.flist.number
  · have hok : bstgFlistSet s.flist s.base (s.base + count) =
        (s.flist.windowed s.base (s.base + count), 0) := by
      rw [flistSet_spec, if_pos hset]
      rfl
    unfold shardCount at hcount
    refine ⟨s.base + count, hset.1, hset.2, ?_⟩
    unfold shardBody at hend ⊢
    simp only [hJ, if_false, hcount, hok, if_true] at hend ⊢
    generalize writeArchive NFUNCS externalize (s.flist.windowed s.base (s.base + count)) s.words = w
      at hend ⊢
    cases hstop : w.stopped with
    | some e =>
      rw [hstop] at hend
      cases hend
    | none => exact ⟨rfl, rfl⟩
  · rw [shardBody_refused farg hJ (by rw [hcount]) hset] at hend
    cases hend

/-- It leaves a whole archive. -/
theorem shardBody_whole (farg : Option (List Char)) {s : ShardState}
    (hcells : s.flist.number.toNat ≤ s.flist.pindex.length)
    (h : ∀ sh ∈ s.shards, sh.Whole NFUNCS externalize)
    (hend : (shardBody NFUNCS externalize optJ farg s).stopped = none) :
    ∀ sh ∈ (shardBody NFUNCS externalize optJ farg s).state.shards, sh.Whole NFUNCS externalize := by
  obtain ⟨upper, hlt, hle, hwritten, hshards⟩ := shardBody_ended farg hend
  have hwindow : WindowOk (s.flist.windowed s.base upper) :=
    ⟨hlt, Nat.le_trans (UInt32.le_iff_toNat_le.mp hle) hcells⟩
  have hwrote := (writeArchive_meets NFUNCS externalize hwindow s.words).1 hwritten
  obtain ⟨lots, -, -, hflat, hdata⟩ := hwrote.lots
  intro sh hsh
  rw [hshards] at hsh
  rcases List.mem_append.mp hsh with hsh | hsh
  · exact h sh hsh
  · rw [List.mem_singleton.mp hsh]
    exact ⟨_, lots, hflat ▸ hwrote.drawn, hflat, hdata⟩

/-- Where mkpax comes to the end of its list, all archives are whole. -/
theorem writeShards_whole (farg : Option (List Char)) {ids : List UInt32} (hlist : flist.Holds ids)
    (hJ : optJ ≠ 0) (words : Stream' UInt32)
    (hend : (writeShards NFUNCS externalize optJ farg flist words).stopped = none) :
    ∀ sh ∈ (writeShards NFUNCS externalize optJ farg flist words).state.shards,
      sh.Whole NFUNCS externalize := by
  obtain ⟨shuffled, words', heq, hnumber, hcells, -⟩ :=
    writeShards_eq NFUNCS externalize optJ farg hlist words
  rw [heq] at hend ⊢
  rw [← hnumber] at hcells
  have hstart : DrawsFrom shuffled ⟨shuffled, words', 0, []⟩ ∧
      ∀ sh ∈ ([] : List Shard), sh.Whole NFUNCS externalize :=
    ⟨⟨⟨_, _, rfl⟩, fun sh hsh => absurd hsh List.not_mem_nil⟩, fun sh hsh => absurd hsh List.not_mem_nil⟩
  refine (whileLoop_through (I := fun s => DrawsFrom shuffled s ∧
    ∀ sh ∈ s.shards, sh.Whole NFUNCS externalize) (fun s hs hstop => ?_) hstart hend).2
  obtain ⟨hn, hindex⟩ := Flist.same_of_windowed hs.1.list
  exact ⟨shardBody_draws farg hJ hcells hs.1,
    shardBody_whole farg (by rw [hn, hindex]; exact hcells) hs.2 hstop⟩

/-- With ids of the table only, mkpax comes to the end of its list, and no id is in two archives. -/
theorem writeShards_disjoint (farg : Option (List Char)) {ids : List UInt32}
    (hlist : flist.Holds ids) (hnodup : ids.Nodup) (hn : ids.length < 2 ^ 30) (hJ : 1 ≤ optJ.toNat)
    (hJn : optJ.toNat ≤ ids.length) (htable : ∀ id ∈ ids, id.toNat < NFUNCS)
    (words : Stream' UInt32) :
    (writeShards NFUNCS externalize optJ farg flist words).stopped = none ∧
      ((writeShards NFUNCS externalize optJ farg flist words).state.shards.map
        (·.drawn)).Pairwise List.Disjoint := by
  obtain ⟨hsharded, hends⟩ :=
    shards_partition NFUNCS externalize flist ids hlist hnodup hn optJ hJ hJn farg words
  refine ⟨hends htable, ?_⟩
  have hpools := hsharded.disjoint
  rw [List.pairwise_map] at hpools ⊢
  refine hpools.imp_of_mem fun hsh hsh' hdisjoint id hid hid' => ?_
  exact hdisjoint (hsharded.drawn _ hsh id hid) (hsharded.drawn _ hsh' id hid')

end

end Fembot
