/-
  File:      Fembot/Mkpax.lean
  Subject:   The writer of operation archives (`src/clodagh/mkpax.c`): `write_archive`, and the
             loop of `main` that cuts the shuffled list into shards.

  Both are loops that an `assert` or `errx` may end early; what was drawn and set up to there
  stays in the state. The table size `NFUNCS` is a parameter, as is proplib's
  `prop_array_externalize`, which gives the text of an array without its final NUL. Allocation
  and output succeed.
-/
import Fembot.Flist
import Fembot.Archive
import Fembot.Library.Loop

namespace Fembot

open Library

/-! ## 1. One archive -/

/-- `prop_array_set`: the element at an existing index is replaced, at index `count` one is
    appended, and behind that the call fails. -/
def propArraySet (ops : List UInt64) (x : Nat) (op : UInt64) : Option (List UInt64) :=
  if x < ops.length then some (ops.set x op)
  else if x = ops.length then some (ops ++ [op])
  else none

/-- The path name of entry `i`: `"%08X"`. -/
def entryPathname (i : Nat) : List Char :=
  ((Nat.toDigits 16 i).map Char.toUpper).leftpad 8 '0'

/-- The state of `write_archive`: the words `arc4random` has yet to give, the one property array
    all entries are made from, the ids drawn so far, and the entries written so far. -/
structure WriteState where
  words : Stream' UInt32
  ops : List UInt64
  drawn : List UInt32
  archive : List Entry

/-- The body of the inner loop: draw one id, and put it at index `x` of the array. -/
def drawOp (NFUNCS : Nat) (flist : Flist) (x : Nat) (s : WriteState) : Reached WriteState Fault :=
  match bstgFlistGet flist s.words.head with
  | .error e => ⟨s, some e⟩
  | .ok v =>
    let id : UInt32 := v.toUInt32
    let s := { s with words := s.words.tail, drawn := s.drawn ++ [id] }
    if id.toNat < NFUNCS then
      match propArraySet s.ops x id.toUInt64 with
      | some ops => ⟨{ s with ops := ops }, none⟩
      | none => ⟨s, some (.errx 1)⟩
    else ⟨s, some .assertion⟩

/-- The body of the outer loop: the array is filled, externalised and written as entry `i`. -/
def writeEntry (NFUNCS : Nat) (externalize : List UInt64 → List UInt8) (flist : Flist) (i : Nat)
    (s : WriteState) : Reached WriteState Fault :=
  (forLoop (drawOp NFUNCS flist) 0 2048 s).andThen fun s =>
    let xml := externalize s.ops
    ⟨{ s with archive := s.archive ++ [⟨entryPathname i, xml⟩] }, none⟩

/-- `write_archive`. -/
def writeArchive (NFUNCS : Nat) (externalize : List UInt64 → List UInt8) (flist : Flist)
    (words : Stream' UInt32) : Reached WriteState Fault :=
  forLoop (writeEntry NFUNCS externalize flist) 0 4096 ⟨words, [], [], []⟩

/-! ## 2. The shards -/

/-- One call of `bstg_flist_set` by `main`, with what it returned, and the archive written while
    that window is set. -/
structure Shard where
  lower : UInt32
  upper : UInt32
  rc : Int
  outname : List Char
  drawn : List UInt32
  archive : List Entry

structure ShardState where
  flist : Flist
  words : Stream' UInt32
  base : UInt32
  shards : List Shard

/-- The name of the archive: the given one for a single shard, else `"./%d.tar.gz"` of `base`. -/
def shardName (farg : Option (List Char)) (optJ base : UInt32) : List Char :=
  if optJ = 1 then farg.getD "/dev/fd/1".toList
  else "./".toList ++ (toString base.toInt32.toInt).toList ++ ".tar.gz".toList

/-- The body of the loop of `main`. -/
def shardBody (NFUNCS : Nat) (externalize : List UInt64 → List UInt8) (optJ : UInt32)
    (farg : Option (List Char)) (s : ShardState) : Reached ShardState Fault :=
  if optJ = 0 then ⟨s, some .divisionByZero⟩
  else
    -- the number of items we will put in the shard
    let count := s.flist.number / optJ
    -- put any remainders in the last shard
    let count := if s.base + count + count > s.flist.number then s.flist.number - s.base else count
    let upper := s.base + count
    let (flist, rc) := bstgFlistSet s.flist s.base upper
    if rc = 0 then
      let outname := shardName farg optJ s.base
      let w := writeArchive NFUNCS externalize flist s.words
      let shard := ⟨s.base, upper, rc, outname, w.state.drawn, w.state.archive⟩
      let s := { s with flist := flist, words := w.state.words, shards := s.shards ++ [shard] }
      match w.stopped with
      | none => ⟨{ s with base := upper }, none⟩
      | some e => ⟨s, some e⟩
    else ⟨{ s with shards := s.shards ++ [⟨s.base, upper, rc, [], [], []⟩] }, some (.errx 1)⟩

/-- The loop of `main`, while `base < flist.number`. Every round sets a window that is not empty,
    which is where the bound on the rounds comes from. -/
def shardLoop (NFUNCS : Nat) (externalize : List UInt64 → List UInt8) (optJ : UInt32)
    (farg : Option (List Char)) (s : ShardState) : Reached ShardState Fault :=
  whileLoop (fun s => s.base < s.flist.number) (shardBody NFUNCS externalize optJ farg) .outOfFuel
    (s.flist.number.toNat + 1) s

/-- What `main` does for `-c` once the list is there: shuffle it and write the shards. -/
def writeShards (NFUNCS : Nat) (externalize : List UInt64 → List UInt8) (optJ : UInt32)
    (farg : Option (List Char)) (flist : Flist) (words : Stream' UInt32) :
    Reached ShardState Fault :=
  match bstgFlistShuffle flist words with
  | .error e => ⟨⟨flist, words, 0, []⟩, some e⟩
  | .ok (flist, words, rc) =>
    if rc = 0 then shardLoop NFUNCS externalize optJ farg ⟨flist, words, 0, []⟩
    else ⟨⟨flist, words, 0, []⟩, some .assertion⟩

/-- The argument of `-J`, unless `main` refuses it: `strtoul` must read it to its end, and the
    value is narrowed to `unsigned`. -/
def parseJ (optarg : List Char) : Option UInt32 :=
  if (strtoul optarg).2 = [] then some (strtoul optarg).1.toUInt32 else none

/-! ## 3. What an archive holds -/

/-- The ids a window holds. -/
def pool (flist : Flist) : List UInt32 := slice flist.pindex flist.lower.toNat flist.upper.toNat

/-- The window is not empty and its cells are allocated. -/
def WindowOk (flist : Flist) : Prop :=
  flist.lower < flist.upper ∧ flist.upper.toNat ≤ flist.pindex.length

/-- An id as proplib keeps it. -/
def widen (ids : List UInt32) : List UInt64 := ids.map UInt32.toUInt64

/-- The array's elements from index `x` on are written over one by one, and behind its end it
    grows: old elements never come before new ones. -/
theorem propArraySet_append (front back : List UInt64) (op : UInt64) :
    propArraySet (front ++ back) front.length op = some (front ++ op :: back.tail) := by
  unfold propArraySet
  cases back with
  | nil => simp
  | cons b back => simp

/-- Ids drawn from the window that are in the table. -/
def Drawn (NFUNCS : Nat) (flist : Flist) (ids : List UInt32) : Prop :=
  ∀ id ∈ ids, id ∈ pool flist ∧ id.toNat < NFUNCS

/-- The only stop: an id of the window was drawn that the table does not have. -/
def OffTable (NFUNCS : Nat) (flist : Flist) (s : WriteState) (e : Fault) : Prop :=
  e = .assertion ∧ (∀ id ∈ s.drawn, id ∈ pool flist) ∧ ∃ id ∈ s.drawn, NFUNCS ≤ id.toNat

/-- Before draw `x` of an entry that starts in `s₀`: `x` ids are drawn, and they are what the
    array starts with. -/
def Drawing (NFUNCS : Nat) (flist : Flist) (s₀ : WriteState) (x : Nat) (s : WriteState) : Prop :=
  ∃ ids, ids.length = x ∧ Drawn NFUNCS flist ids ∧ s.drawn = s₀.drawn ++ ids ∧
    s.ops = widen ids ++ s₀.ops.drop x ∧ s.archive = s₀.archive

/-- Before entry `i`: the entries written are the ids drawn, cut into lots of 2048. -/
structure Writing (NFUNCS : Nat) (externalize : List UInt64 → List UInt8) (flist : Flist) (i : Nat)
    (s : WriteState) : Prop where
  drawn : Drawn NFUNCS flist s.drawn
  ops : s.ops.length ≤ 2048
  lots : ∃ lots : List (List UInt32), lots.length = i ∧ (∀ ids ∈ lots, ids.length = 2048) ∧
    s.drawn = lots.flatten ∧
    s.archive.map (·.data) = lots.map fun ids => externalize (widen ids)

section

variable {NFUNCS : Nat} {externalize : List UInt64 → List UInt8} {flist : Flist}

theorem drawOp_meets (hw : WindowOk flist) {s₀ : WriteState} (h₀ : Drawn NFUNCS flist s₀.drawn)
    {x : Nat} {s : WriteState} (h : Drawing NFUNCS flist s₀ x s) :
    (drawOp NFUNCS flist x s).Meets (Drawing NFUNCS flist s₀ (x + 1)) (OffTable NFUNCS flist) := by
  obtain ⟨ids, rfl, hids, hdrawn, hops, harch⟩ := h
  obtain ⟨id, hmem, hget⟩ := flistGet_mem hw.1 hw.2 s.words.head
  have hset : propArraySet s.ops ids.length id.toUInt64 =
      some (widen ids ++ id.toUInt64 :: (s₀.ops.drop ids.length).tail) := by
    have hput := propArraySet_append (widen ids) (s₀.ops.drop ids.length) id.toUInt64
    rwa [widen, List.length_map, ← widen, ← hops] at hput
  unfold drawOp
  simp only [hget, UInt32.toUInt32_toInt32, hset]
  by_cases hid : id.toNat < NFUNCS
  · rw [if_pos hid]
    refine meets_ok ⟨ids ++ [id], by simp, ?_, ?_, ?_, harch⟩
    · intro v hv
      rcases List.mem_append.mp hv with hv | hv
      · exact hids v hv
      · rw [List.mem_singleton.mp hv]
        exact ⟨hmem, hid⟩
    · show s.drawn ++ [id] = s₀.drawn ++ (ids ++ [id])
      rw [hdrawn, List.append_assoc]
    · show widen ids ++ id.toUInt64 :: (s₀.ops.drop ids.length).tail = _
      rw [List.tail_drop, widen, widen, List.map_append, List.append_assoc]
      rfl
  · rw [if_neg hid]
    refine meets_stop ⟨rfl, ?_, id, ?_, Nat.le_of_not_lt hid⟩
    · intro v hv
      rcases List.mem_append.mp hv with hv | hv
      · rw [hdrawn] at hv
        rcases List.mem_append.mp hv with hv | hv
        · exact (h₀ v hv).1
        · exact (hids v hv).1
      · rw [List.mem_singleton.mp hv]
        exact hmem
    · exact List.mem_append_right _ List.mem_cons_self

theorem writeEntry_meets (hw : WindowOk flist) {i : Nat} {s : WriteState}
    (h : Writing NFUNCS externalize flist i s) :
    (writeEntry NFUNCS externalize flist i s).Meets (Writing NFUNCS externalize flist (i + 1))
      (OffTable NFUNCS flist) := by
  have hloop := forLoop_meets (I := Drawing NFUNCS flist s) (i := 0) (n := 2048)
    (fun x t _ _ ht => drawOp_meets hw h.drawn ht)
    ⟨[], rfl, fun _ hv => absurd hv List.not_mem_nil, by simp, by simp [widen], rfl⟩
  rw [Nat.zero_add] at hloop
  refine hloop.andThen fun t ht => ?_
  obtain ⟨ids, hlen, hids, hdrawn, hops, harch⟩ := ht
  obtain ⟨lots, hn, heach, hflat, hdata⟩ := h.lots
  -- the array held no more than the 2048 elements now written over
  have hops' : t.ops = widen ids := by
    rw [hops, List.drop_eq_nil_of_le h.ops, List.append_nil]
  refine meets_ok ⟨?_, ?_, lots ++ [ids], by simp [hn], ?_, ?_, ?_⟩
  · intro v hv
    rw [hdrawn] at hv
    rcases List.mem_append.mp hv with hv | hv
    · exact h.drawn v hv
    · exact hids v hv
  · show t.ops.length ≤ 2048
    rw [hops', widen, List.length_map]
    omega
  · intro l hl
    rcases List.mem_append.mp hl with hl | hl
    · exact heach l hl
    · rw [List.mem_singleton.mp hl]
      omega
  · show t.drawn = (lots ++ [ids]).flatten
    rw [hdrawn, hflat]
    simp
  · show (t.archive ++ [Entry.mk (entryPathname i) (externalize t.ops)]).map (·.data) = _
    rw [harch, List.map_append, hdata, hops']
    simp

/-- What an archive holds: unless an id off the table was drawn, all entries are written, and they
    are the ids drawn, in lots of 2048. -/
theorem writeArchive_meets (NFUNCS : Nat) (externalize : List UInt64 → List UInt8)
    {flist : Flist} (hw : WindowOk flist) (words : Stream' UInt32) :
    (writeArchive NFUNCS externalize flist words).Meets
      (Writing NFUNCS externalize flist 4096) (OffTable NFUNCS flist) :=
  forLoop_meets (I := Writing NFUNCS externalize flist) (i := 0) (n := 4096)
    (fun _ _ _ _ h => writeEntry_meets hw h)
    ⟨fun _ hv => absurd hv List.not_mem_nil, Nat.zero_le _,
      [], rfl, fun _ hv => absurd hv List.not_mem_nil, rfl, rfl⟩

end

end Fembot
