/-
  File:      Fembot/ImportRounds.lean
  Subject:   THE ROUNDS OF `bstg_flist_import`: how often its loop runs, how often it stores, and
             where its cursor points, for every text in memory.

  The cursor is a pointer here, an offset into the memory that holds the text, the NUL at its end
  and whatever lies behind. On "-5" or "1\t2" the loop converts and the cursor stays where it is:
  what ends it there is the count of the items.

  * `importRound`, `importRounds` -- the loop, and what it has done;
  * `Scanning` -- its invariant: so many rounds, and so many stores, as items counted;
  * `import_rounds` -- it is the loop of `bstgFlistImport`, whatever lies behind the text;
  * `import_terminates` -- it ends within number + 1 rounds and as many stores, and the cursor
    stays on the text or on its NUL.
-/
import Fembot.ImportOutcome
import Fembot.Library.Loop

namespace Fembot

open Library

/-! ## 1. Text in memory -/

/-- The character that ends a C string. -/
def NUL : Char := Char.ofNat 0

/-- The memory from the start of a C string on: its characters, the NUL, and what lies behind. -/
def inMemory (s behind : List Char) : List Char := s ++ NUL :: behind

theorem drop_inMemory {s : List Char} {n : Nat} (h : n ≤ s.length) (behind : List Char) :
    (inMemory s behind).drop n = inMemory (s.drop n) behind :=
  List.drop_append_of_le_length h

theorem inMemory_inj {s t behind : List Char} : inMemory s behind = inMemory t behind ↔ s = t :=
  List.append_left_inj _

/-- `strspn` stops at the NUL. -/
theorem strspn_inMemory {accept : List Char} (h : accept.contains NUL = false)
    (s behind : List Char) : strspn (inMemory s behind) accept = strspn s accept :=
  congrArg List.length (takeWhile_append_stop h s behind)

theorem strspn_le (s accept : List Char) : strspn s accept ≤ s.length :=
  (List.takeWhile_prefix _).length_le

/-- Moved over what `strspn` counts, an offset within the text stays there. -/
theorem strspn_drop_le {s : List Char} {n : Nat} (h : n ≤ s.length) (accept : List Char) :
    n + strspn (s.drop n) accept ≤ s.length := by
  have hspan := strspn_le (s.drop n) accept
  rw [List.length_drop] at hspan
  omega

theorem strtoulSign_inMemory (s behind : List Char) :
    strtoulSign (inMemory s behind) =
      ((strtoulSign s).1, inMemory (strtoulSign s).2 behind) := by
  cases s with
  | nil => rfl
  | cons c s =>
    by_cases hminus : c = '-'
    · subst hminus
      rfl
    · by_cases hplus : c = '+'
      · subst hplus
        rfl
      · simp [strtoulSign, inMemory, hminus, hplus]

/-- `strtoul` reads no further than the NUL. -/
theorem strtoul_inMemory (s behind : List Char) :
    strtoul (inMemory s behind) = ((strtoul s).1, inMemory (strtoul s).2 behind) := by
  have hspace : (inMemory s behind).dropWhile isSpace = inMemory (s.dropWhile isSpace) behind :=
    dropWhile_append_stop (by decide) s behind
  have hdigits : ∀ t, (inMemory t behind).takeWhile Char.isDigit = t.takeWhile Char.isDigit :=
    fun t => takeWhile_append_stop (by decide) t behind
  have hrest : ∀ t, (inMemory t behind).dropWhile Char.isDigit =
      inMemory (t.dropWhile Char.isDigit) behind :=
    fun t => dropWhile_append_stop (by decide) t behind
  unfold strtoul
  rw [hspace, strtoulSign_inMemory]
  dsimp only
  rw [hdigits, hrest]
  split
  · rfl
  · rfl

/-! ## 2. The loop -/

/-- The variables of `bstg_flist_import`, with the offset of `curr` in memory; and what the loop has
    done: its rounds, the places it has stored at, and the offsets `curr` has had. -/
structure ImportState where
  ps : Flist
  count : UInt32
  curr : Nat
  rounds : Nat
  stores : List Nat
  cursors : List Nat

/-- `curr = &curr[index]` -/
def ImportState.moved (s : ImportState) (index : Nat) : ImportState :=
  { s with curr := s.curr + index, cursors := s.cursors ++ [s.curr + index] }

/-- A round begins: `curr` is moved over the separators. -/
def ImportState.skipped (mem : List Char) (s : ImportState) : ImportState :=
  { s with rounds := s.rounds + 1 }.moved (strspn (mem.drop s.curr) separators)

/-- A number has been stored: it is counted, and `curr` is moved over digits. -/
def ImportState.taken (mem : List Char) (s : ImportState) (pindex : List UInt32) : ImportState :=
  { s with
    ps := { s.ps with pindex := pindex }
    count := s.count + 1
    stores := s.stores ++ [s.count.toNat] }.moved (strspn (mem.drop s.curr) decimalDigits)

/-- What takes the loop out of a round: `break`, with the value of `rc`, or a fault. -/
inductive ImportStop where
  | broke (rc : Int)
  | fault (e : Fault)
  deriving DecidableEq, Repr

/-- The body of the loop. -/
def importRound (mem : List Char) (s : ImportState) : Reached ImportState ImportStop :=
  -- skip white space
  let s := s.skipped mem
  -- if number exists, add it to our list
  let number := (strtoul (mem.drop s.curr)).1
  let p := (strtoul (mem.drop s.curr)).2
  if p = mem.drop s.curr then ⟨s, some (.broke (if s.count = 0 then 1 else 0))⟩
  else
    match store s.ps.pindex s.count.toNat number.toUInt32 with
    | .error e => ⟨{ s with stores := s.stores ++ [s.count.toNat] }, some (.fault e)⟩
    | .ok pindex =>
      -- skip this number
      let s := s.taken mem pindex
      if s.count > s.ps.number then ⟨s, some (.broke 1)⟩ else ⟨s, none⟩

/-- `*curr`, as a condition. -/
def ImportState.more (mem : List Char) (s : ImportState) : Bool := mem[s.curr]? ≠ some NUL

/-- The loop `while (*curr)` in the memory `mem`, cut off after `fuel` tests. -/
def roundsLoop (mem : List Char) : Nat → ImportState → Reached ImportState ImportStop :=
  whileLoop (ImportState.more mem) (importRound mem) (.fault .outOfFuel)

/-- Where the loop starts, `curr` at the start of the memory. -/
def importStart (ps : Flist) : ImportState := ⟨{ ps with lower := 0 }, 0, 0, 0, [], [0]⟩

/-- What stands behind the loop in `ps`, `count` and `rc`; `f` goes on from the end of a round. -/
def behindRounds (f : ImportState → Exec (Flist × UInt32 × Int))
    (r : Reached ImportState ImportStop) : Exec (Flist × UInt32 × Int) :=
  match r.stopped with
  | none => f r.state
  | some (.broke rc) => .ok (r.state.ps, r.state.count, rc)
  | some (.fault e) => .error e

/-- The end of `bstg_flist_import`. -/
def importResult (r : Reached ImportState ImportStop) : Exec (Flist × Int) := do
  let (ps, count, rc) ← behindRounds (fun s => .ok (s.ps, s.count, 0)) r
  pure ({ ps with upper := count, number := count }, rc)

/-! ## 3. One round -/

section

variable {options : List Char} {s : ImportState}

theorem skipped_inMemory (h : s.curr ≤ options.length) (behind : List Char) :
    s.skipped (inMemory options behind) = s.skipped options := by
  rw [ImportState.skipped, drop_inMemory h, strspn_inMemory (by decide)]
  rfl

theorem taken_inMemory (h : s.curr ≤ options.length) (behind : List Char) (pindex : List UInt32) :
    s.taken (inMemory options behind) pindex = s.taken options pindex := by
  rw [ImportState.taken, drop_inMemory h, strspn_inMemory (by decide)]
  rfl

/-- A round in memory is a round on the text: nothing is read from behind the NUL. -/
theorem importRound_inMemory (h : s.curr ≤ options.length) (behind : List Char) :
    importRound (inMemory options behind) s = importRound options s := by
  have hcurr : (s.skipped options).curr ≤ options.length := strspn_drop_le h separators
  unfold importRound
  simp only [skipped_inMemory h, drop_inMemory hcurr, strtoul_inMemory, inMemory_inj,
    taken_inMemory hcurr]

end

section

variable {mem : List Char} {s : ImportState}

/-- A round whose `strtoul` call does not convert is the last. -/
theorem importRound_stops (h : ¬ Converts (mem.drop (s.skipped mem).curr)) :
    importRound mem s = ⟨s.skipped mem, some (.broke (if s.count = 0 then 1 else 0))⟩ :=
  if_pos (not_not.mp h)

/-- A round whose `strtoul` call converts tries to store. -/
theorem importRound_converts (h : Converts (mem.drop (s.skipped mem).curr)) :
    importRound mem s =
      match store s.ps.pindex s.count.toNat
        (strtoul (mem.drop (s.skipped mem).curr)).1.toUInt32 with
      | .error e =>
        ⟨{ s.skipped mem with stores := s.stores ++ [s.count.toNat] }, some (.fault e)⟩
      | .ok pindex =>
        ⟨(s.skipped mem).taken mem pindex,
          if s.count + 1 > s.ps.number then some (.broke 1) else none⟩ := by
  refine (if_neg h).trans ?_
  show (match store s.ps.pindex s.count.toNat _ with | .error e => _ | .ok pindex => _) = _
  cases store s.ps.pindex s.count.toNat (strtoul (mem.drop (s.skipped mem).curr)).1.toUInt32 with
  | error e => rfl
  | ok pindex =>
    show (if s.count + 1 > s.ps.number then _ else _) = _
    split
    · rfl
    · rfl

/-- A round whose number has no cell. -/
theorem importRound_outside (h : Converts (mem.drop (s.skipped mem).curr))
    (hfull : s.ps.pindex.length ≤ s.count.toNat) :
    importRound mem s =
      ⟨{ s.skipped mem with stores := s.stores ++ [s.count.toNat] },
        some (.fault (.outOfBounds s.count.toNat))⟩ := by
  rw [importRound_converts h, store, if_neg (Nat.not_lt.mpr hfull)]

/-- The cells behind a round that stores. -/
def ImportState.cellsBehind (mem : List Char) (s : ImportState) : List UInt32 :=
  s.ps.pindex.set s.count.toNat (strtoul (mem.drop (s.skipped mem).curr)).1.toUInt32

/-- A round that stores its number goes on, if there may be more. -/
theorem importRound_stores (h : Converts (mem.drop (s.skipped mem).curr))
    (hroom : s.count.toNat < s.ps.pindex.length) :
    importRound mem s =
      ⟨(s.skipped mem).taken mem (s.cellsBehind mem),
        if s.count + 1 > s.ps.number then some (.broke 1) else none⟩ := by
  rw [importRound_converts h, store_ok hroom]
  rfl

end

/-- The loop's invariant, on a text of `len` characters: each item counted took one round and one
    store, the count is within `number` and the allocation, and `curr` never left the text. -/
structure Scanning (ps : Flist) (len : Nat) (s : ImportState) : Prop where
  number : s.ps.number = ps.number
  cells : s.ps.pindex.length = ps.pindex.length
  rounds : s.rounds = s.count.toNat
  stores : s.stores.length = s.count.toNat
  within : s.count.toNat ≤ ps.number.toNat
  stored : s.count.toNat ≤ ps.pindex.length
  here : s.curr ≤ len
  cursors : ∀ c ∈ s.cursors, c ≤ len

/-- What holds of the loop where a round takes it out. -/
structure Halted (ps : Flist) (len : Nat) (s : ImportState) (e : ImportStop) : Prop where
  rounds : s.rounds ≤ ps.number.toNat + 1
  stores : s.stores.length ≤ ps.number.toNat + 1
  cursors : ∀ c ∈ s.cursors, c ≤ len
  stop : (∃ rc, e = .broke rc) ∨
    e = .fault (.outOfBounds ps.pindex.length) ∧ ps.pindex.length ≤ ps.number.toNat

/-- The cursor that is moved over what `strspn` counted is still on the text. -/
theorem moved_cursors {s : ImportState} {len index : Nat} (h : ∀ c ∈ s.cursors, c ≤ len)
    (hindex : s.curr + index ≤ len) : ∀ c ∈ (s.moved index).cursors, c ≤ len := by
  intro c hc
  rcases List.mem_append.mp hc with hc | hc
  · exact h c hc
  · rwa [List.mem_singleton.mp hc]

/-- The step lemma: a round counts one item, or it takes the loop out. -/
theorem importRound_meets {ps : Flist} (hn : ps.number.toNat < 2 ^ 32 - 1) {options : List Char}
    {s : ImportState} (h : Scanning ps options.length s) :
    (importRound options s).Meets
      (fun s' => Scanning ps options.length s' ∧ s'.count.toNat = s.count.toNat + 1)
      (Halted ps options.length) := by
  obtain ⟨hnumber, hcells, hrounds, hstores, hwithin, hstored, hhere, hcursors⟩ := h
  have hround : (s.skipped options).rounds ≤ ps.number.toNat + 1 := by
    show s.rounds + 1 ≤ ps.number.toNat + 1
    omega
  have hcurr : (s.skipped options).curr ≤ options.length := strspn_drop_le hhere separators
  have hskipped := moved_cursors hcursors hcurr
  by_cases hconv : Converts (options.drop (s.skipped options).curr)
  · have hstore : (s.stores ++ [s.count.toNat]).length = s.count.toNat + 1 := by
      rw [List.length_append, hstores, List.length_singleton]
    have hlast : (s.stores ++ [s.count.toNat]).length ≤ ps.number.toNat + 1 := by omega
    by_cases hroom : s.count.toNat < s.ps.pindex.length
    · have hcount : (s.count + 1).toNat = s.count.toNat + 1 := toNat_add_one (by omega)
      have hcurr' : ((s.skipped options).taken options (s.cellsBehind options)).curr ≤
          options.length := strspn_drop_le hcurr decimalDigits
      have htaken := moved_cursors hskipped hcurr'
      rw [importRound_stores hconv hroom]
      by_cases hmore : s.count + 1 > s.ps.number
      · rw [if_pos hmore]
        exact meets_stop ⟨hround, hlast, htaken, .inl ⟨1, rfl⟩⟩
      · rw [if_neg hmore]
        -- the items counted so far, the one of this round included, are within `number`
        have hle : (s.count + 1).toNat ≤ ps.number.toNat := by
          rw [← hnumber]
          exact UInt32.le_iff_toNat_le.mp (UInt32.not_lt.mp hmore)
        refine meets_ok ⟨⟨hnumber, List.length_set.trans hcells, ?_, hstore.trans hcount.symm, hle,
          ?_, hcurr', htaken⟩, hcount⟩
        · show s.rounds + 1 = (s.count + 1).toNat
          rw [hcount, hrounds]
        · show (s.count + 1).toNat ≤ ps.pindex.length
          omega
    · rw [importRound_outside hconv (Nat.le_of_not_lt hroom)]
      have hfull : s.count.toNat = ps.pindex.length := by omega
      refine meets_stop ⟨hround, hlast, hskipped, .inr ⟨by rw [hfull], ?_⟩⟩
      rw [← hfull]
      exact hwithin
  · rw [importRound_stops hconv]
    refine meets_stop ⟨hround, ?_, hskipped, .inl ⟨_, rfl⟩⟩
    show s.stores.length ≤ ps.number.toNat + 1
    omega

/-! ## 4. The whole loop -/

/-- `*curr` is the NUL where nothing is left of the text. -/
theorem more_inMemory {options : List Char} (hnul : NUL ∉ options) (behind : List Char)
    {s : ImportState} (h : s.curr ≤ options.length) :
    s.more (inMemory options behind) = decide (options.drop s.curr ≠ []) := by
  refine decide_eq_decide.mpr (not_congr ?_)
  rw [List.drop_eq_nil_iff]
  rcases Nat.lt_or_eq_of_le h with hlt | heq
  · have hmem := List.getElem_mem hlt
    rw [inMemory, List.getElem?_append_left hlt, List.getElem?_eq_getElem hlt, Option.some_inj]
    constructor
    · intro hc
      rw [hc] at hmem
      exact absurd hmem hnul
    · intro hge
      omega
  · rw [heq, inMemory, List.getElem?_append_right (Nat.le_refl _), Nat.sub_self]
    exact ⟨fun _ => Nat.le_refl _, fun _ => rfl⟩

theorem importStart_count (ps : Flist) : (importStart ps).count.toNat = 0 := rfl

theorem importStart_scanning (ps : Flist) (len : Nat) : Scanning ps len (importStart ps) := by
  refine ⟨rfl, rfl, rfl, rfl, Nat.zero_le _, Nat.zero_le _, Nat.zero_le _, fun c hc => ?_⟩
  rw [List.mem_singleton.mp hc]
  exact Nat.zero_le _

/-- The loop has ended by itself: with the text, with a `break`, or with the store that is outside
    of an allocation of no more than `number` cells; and what it has done by then. -/
structure EndsInTime (ps : Flist) (len : Nat) (r : Reached ImportState ImportStop) : Prop where
  ended : r.stopped = none ∨ (∃ rc, r.stopped = some (.broke rc)) ∨
    r.stopped = some (.fault (.outOfBounds ps.pindex.length)) ∧ ps.pindex.length ≤ ps.number.toNat
  rounds : r.state.rounds ≤ ps.number.toNat + 1
  stores : r.state.stores.length ≤ ps.number.toNat + 1
  cursors : ∀ c ∈ r.state.cursors, c ≤ len

theorem endsInTime_of_meets {ps : Flist} {len : Nat} {r : Reached ImportState ImportStop}
    (h : r.Meets (Scanning ps len) (Halted ps len)) : EndsInTime ps len r := by
  cases hstop : r.stopped with
  | none =>
    have hscan := h.1 hstop
    have hwithin := hscan.within
    refine ⟨.inl hstop, ?_, ?_, hscan.cursors⟩
    · rw [hscan.rounds]
      omega
    · rw [hscan.stores]
      omega
  | some e =>
    have hhalt := h.2 e hstop
    refine ⟨?_, hhalt.rounds, hhalt.stores, hhalt.cursors⟩
    rcases hhalt.stop with ⟨rc, rfl⟩ | ⟨rfl, hfull⟩
    · exact .inr (.inl ⟨rc, hstop⟩)
    · exact .inr (.inr ⟨hstop, hfull⟩)

/-- The loop in the memory ends in time. -/
theorem roundsLoop_ends {ps : Flist} (hn : ps.number.toNat < 2 ^ 32 - 1)
    (options behind : List Char) {fuel : Nat} (hfuel : ps.number.toNat + 1 < fuel) :
    EndsInTime ps options.length (roundsLoop (inMemory options behind) fuel (importStart ps)) := by
  have hloop : (roundsLoop (inMemory options behind) fuel (importStart ps)).Meets
      (fun s => Scanning ps options.length s ∧ s.more (inMemory options behind) = false)
      (Halted ps options.length) := by
    refine whileLoop_meets (fun s => ps.number.toNat + 1 - s.count.toNat) (fun s hs _ => ?_)
      (importStart_scanning ps options.length) hfuel
    rw [importRound_inMemory hs.here]
    refine (importRound_meets hn hs).imp (fun s' hs' => ⟨hs'.1, ?_⟩) fun _ _ he => he
    have hwithin := hs'.1.within
    omega
  exact endsInTime_of_meets (hloop.imp (fun _ hs => hs.1) fun _ _ he => he)

/-! ## 5. The import -/

section

variable {f g : ImportState → Exec (Flist × UInt32 × Int)} {r : Reached ImportState ImportStop}

theorem behindRounds_congr (h : r.stopped = none → f r.state = g r.state) :
    behindRounds f r = behindRounds g r := by
  unfold behindRounds
  cases hstop : r.stopped with
  | none => exact h hstop
  | some e => cases e <;> rfl

theorem behindRounds_andThen {k : ImportState → Reached ImportState ImportStop} :
    behindRounds f (r.andThen k) = behindRounds (fun t => behindRounds f (k t)) r := by
  unfold Reached.andThen
  cases hstop : r.stopped with
  | none => simp only [behindRounds, hstop]
  | some e => cases e <;> simp only [behindRounds, hstop]

end

/-- One round of `importLoop` is one round on the text. -/
theorem importLoop_round (fuel : Nat) {options : List Char} {s : ImportState}
    (hnil : options.drop s.curr ≠ []) :
    importLoop (fuel + 1) s.ps s.count (options.drop s.curr) =
      behindRounds (fun t => importLoop fuel t.ps t.count (options.drop t.curr))
        (importRound options s) := by
  rw [importLoop, if_neg hnil]
  simp only [List.drop_drop]
  by_cases hconv : Converts (options.drop (s.skipped options).curr)
  · refine (if_neg hconv).trans ?_
    by_cases hroom : s.count.toNat < s.ps.pindex.length
    · rw [importRound_stores hconv hroom, store_ok hroom, exec_bind_ok]
      by_cases hmore : s.count + 1 > s.ps.number
      · rw [if_pos hmore, if_pos hmore]
        rfl
      · rw [if_neg hmore, if_neg hmore]
        rfl
    · have hstore : ∀ v, store s.ps.pindex s.count.toNat v = .error (.outOfBounds s.count.toNat) :=
        fun v => if_neg hroom
      rw [importRound_outside hconv (Nat.le_of_not_lt hroom), hstore, exec_bind_error]
      rfl
  · rw [importRound_stops hconv]
    exact if_pos (not_not.mp hconv)

/-- The loop in the memory is `importLoop` on what is left of the text. -/
theorem importLoop_rounds {ps : Flist} (hn : ps.number.toNat < 2 ^ 32 - 1) {options : List Char}
    (hnul : NUL ∉ options) (behind : List Char) {fuel fuel' : Nat} {s : ImportState}
    (h : Scanning ps options.length s) (hfuel : ps.number.toNat + 1 < s.count.toNat + fuel)
    (hfuel' : ps.pindex.length < s.count.toNat + fuel') :
    importLoop fuel' s.ps s.count (options.drop s.curr) =
      behindRounds (fun t => .ok (t.ps, t.count, 0))
        (roundsLoop (inMemory options behind) fuel s) := by
  induction fuel' generalizing fuel s with
  | zero =>
    have hstored := h.stored
    omega
  | succ fuel' ih =>
    obtain ⟨fuel, rfl⟩ : ∃ m, fuel = m + 1 := ⟨fuel - 1, by have := h.within; omega⟩
    have hmore := more_inMemory hnul behind h.here
    rw [roundsLoop]
    by_cases hnil : options.drop s.curr = []
    · rw [decide_eq_false (not_not.mpr hnil)] at hmore
      rw [whileLoop_done hmore, importLoop, if_pos hnil]
      rfl
    · rw [decide_eq_true hnil] at hmore
      rw [whileLoop, if_pos hmore, importLoop_round fuel' hnil, importRound_inMemory h.here,
        behindRounds_andThen]
      refine behindRounds_congr fun hstop => ?_
      obtain ⟨hnext, hcount⟩ := (importRound_meets hn h).1 hstop
      exact ih hnext (by omega) (by omega)

/-- The import is what the loop in the memory comes to, whatever lies behind the text. -/
theorem import_rounds {ps : Flist} (hm : ps.magic = BSTG_FLIST_MAGIC)
    (hn : ps.number.toNat < 2 ^ 32 - 1) {options : List Char} (hnul : NUL ∉ options)
    (behind : List Char) {fuel : Nat} (hfuel : ps.number.toNat + 1 < fuel) :
    bstgFlistImport ps options =
      importResult (roundsLoop (inMemory options behind) fuel (importStart ps)) := by
  have hloop : importLoop (ps.pindex.length + 1) { ps with lower := 0 } 0 options = _ :=
    importLoop_rounds hn hnul behind (importStart_scanning ps options.length)
      (by rwa [importStart_count, Nat.zero_add])
      (by rw [importStart_count, Nat.zero_add]; exact Nat.lt_succ_self _)
  rw [bstgFlistImport, assert_pos hm, exec_bind_ok, hloop]
  rfl

/-- For every initialised list but the longest, every option string and whatever lies behind it in
    memory: the loop of the import ends by itself, within `number + 1` rounds and as many stores,
    its cursor stays on the string or on its NUL, and the import returns what the loop comes to. -/
theorem import_terminates {ps : Flist} (hm : ps.magic = BSTG_FLIST_MAGIC)
    (hn : ps.number.toNat < 2 ^ 32 - 1) {options : List Char} (hnul : NUL ∉ options)
    (behind : List Char) {fuel : Nat} (hfuel : ps.number.toNat + 1 < fuel) :
    EndsInTime ps options.length
        (roundsLoop (inMemory options behind) fuel (importStart ps)) ∧
      bstgFlistImport ps options =
        importResult (roundsLoop (inMemory options behind) fuel (importStart ps)) :=
  ⟨roundsLoop_ends hn options behind hfuel, import_rounds hm hn hnul behind hfuel⟩

/-- A list of three operations, as it is initialised. -/
def freshThree : Flist := (bstgFlistInit ⟨0, [], 0, 0, 0⟩ 3 true).1

/-- "-5" on a list of three, with digits behind the text in memory. -/
theorem import_terminates_run :
    EndsInTime freshThree 2 (roundsLoop (inMemory ['-', '5'] ['1', '2']) 5 (importStart freshThree)) ∧
      bstgFlistImport freshThree ['-', '5'] =
        importResult (roundsLoop (inMemory ['-', '5'] ['1', '2']) 5 (importStart freshThree)) := by
  have hn : freshThree.number.toNat < 2 ^ 32 - 1 := by decide
  have hnul : NUL ∉ ['-', '5'] := by decide
  have hfuel : freshThree.number.toNat + 1 < 5 := by decide
  exact import_terminates rfl hn hnul ['1', '2'] hfuel

/-- There the cursor stays where it is, and the bound is met. -/
example :
    (roundsLoop (inMemory ['-', '5'] ['1', '2']) 5 (importStart freshThree)).state.rounds = 4 := by
  decide +kernel

end Fembot
