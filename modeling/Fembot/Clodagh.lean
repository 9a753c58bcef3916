/-
  File:      Fembot/Clodagh.lean
  Subject:   `main` of clodagh (`src/clodagh/clodagh.c`): its options, and which names its children
             hand to `archive_read_open_filename`.

  * `getopts`, `replayLoop`, `clodaghMain` -- the option parsing, the loop `while (*argv++)` of a
    child, and `main` over whatever the system answers (`Env`);
  * `EndsInLast` -- the replay of an operand's archive ends the child, and it is the last operand's;
  * `replays_operands_iff` -- a child opens its operands and nothing else only in that case: the
    loop tests the element before the one it opens, and opens the terminating NULL.
-/
import Fembot.Archive
import Fembot.Plist
import Fembot.Library.Getopt
import Fembot.Library.Loop

namespace Fembot

open Library

/-! ## 1. Options -/

/-- A word of the command line. -/
abbrev Word := List Char

/-- `nflag` and `verbose`. -/
structure Flags where
  nflag : Bool
  verbose : Bool
  deriving DecidableEq, Repr

/-- "f:nv" -/
def clodaghSpec : OptSpec
  | 'f' => some true
  | 'n' => some false
  | 'v' => some false
  | _ => none

/-- The body of the loop over `getopt`; 'f' and '?' come to `usage`. -/
def Flags.set (flags : Flags) (opt : Opt) : Option Flags :=
  match opt.char with
  | 'n' => some { flags with nflag := true }
  | 'v' => some { flags with verbose := true }
  | _ => none

/-- The loop over `getopt(argc, argv, "f:nv")`, for the words from `optind` on: the flags and
    `optind` behind it, or `none` for `usage`. -/
def getopts (words : List Word) (optind : Nat) (flags : Flags) : Option (Flags × Nat) :=
  let found := getopt clodaghSpec none words
  (found.1.foldlM Flags.set flags).map fun flags =>
    (flags, optind + (words.length - found.2.length))

/-- `optind` stays within the vector. -/
theorem getopts_bound {words : List Word} {i optind : Nat} {flags flags' : Flags}
    (h : getopts words i flags = some (flags', optind)) :
    i ≤ optind ∧ optind ≤ i + words.length := by
  rw [getopts] at h
  obtain ⟨flags', -, h⟩ := Option.map_eq_some_iff.mp h
  cases h
  exact ⟨Nat.le_add_right _ _, Nat.add_le_add_left (Nat.sub_le _ _) i⟩

/-! ## 2. A child -/

/-- What the system and the libraries answer; `W` is all that the operations work on. A call
    numbered `i` of `archive_read_open_filename` in child `x` gives the archive's entries. -/
structure Env (W : Type) where
  initOk : Bool
  buf : Option (List UInt8)
  forks : Nat → Bool
  world : Bool → Nat → W
  files : Nat → Nat → Option Word → Option (List EntryRead)
  internalize : List UInt8 → Option (List UInt64)
  operate : Nat → W → Exec W

/-- A child: the names it has opened, the buffer, and the operations' world. -/
structure ChildState (W : Type) where
  opened : List (Option Word)
  buf : List UInt8
  world : W

section

variable {W : Type} (NFUNCS : Nat) (env : Env W)

/-- The body of the loop over the entries: the operations of the entry are run in turn, each of
    which may end the process, or never return. -/
def replayEntry (s : ChildState W) (r : EntryRead) : Exec (ChildState W) := do
  let t ← readEntry env.internalize (dispatchIndex NFUNCS) ⟨s.buf, []⟩ r
  let world ← t.out.foldlM (fun world i => env.operate i world) s.world
  pure { s with buf := t.buf, world := world }

/-- The loop over the entries of one archive. -/
def replayArchive (s : ChildState W) (entries : List EntryRead) : Exec (ChildState W) :=
  run (replayEntry NFUNCS env) s entries

/-- The child that hands `name` to `archive_read_open_filename`. -/
def ChildState.opening (s : ChildState W) (name : Option Word) : ChildState W :=
  { s with opened := s.opened ++ [name] }

/-- The loop `while (*argv++)` of child `x`, from `argv` on. -/
def replayLoop (x : Nat) : List (Option Word) → ChildState W → Reached (ChildState W) Fault
  | none :: _, s => ⟨s, none⟩
  | some _ :: name :: rest, s =>
    match env.files x s.opened.length name with
    | none => ⟨s.opening name, some (.errx 2)⟩
    | some entries =>
      match replayArchive NFUNCS env (s.opening name) entries with
      | .ok s => replayLoop x (name :: rest) s
      | .error e => ⟨s.opening name, some e⟩
  | argv, s => ⟨s, some (.outOfBounds argv.length)⟩

/-- How `main` goes on behind its options. -/
inductive MainEnd (W : Type) where
  | usage
  | printed (n : Nat)
  | errx (code : Int)
  | forked (children : List (Nat × Reached (ChildState W) Fault))

/-- Child `x` when it is forked. -/
def childStart (flags : Flags) (buf : List UInt8) (x : Nat) : ChildState W :=
  ⟨[], buf, env.world flags.verbose x⟩

/-- `main`, called with the name `prog` and `words`; the vector ends with NULL. -/
def clodaghMain (prog : Word) (words : List Word) : MainEnd W :=
  match getopts words 1 ⟨false, false⟩ with
  | none => .usage
  | some (flags, optind) =>
    let argv := ((prog :: words).map some ++ [none]).drop (optind - 1)
    if flags.nflag then .printed NFUNCS
    else if env.initOk then
      match env.buf with
      | none => .errx 1
      | some buf =>
        .forked (((List.range 128).filter env.forks).map fun x =>
          (x, replayLoop NFUNCS env x argv (childStart env flags buf x)))
    else .errx 1

/-- Operations that do nothing but leave their index. -/
def Records (env : Env (List Nat)) : Prop := ∀ i world, env.operate i world = .ok (world ++ [i])

theorem records_foldlM {env : Env (List Nat)} (h : Records env) (out world : List Nat) :
    out.foldlM (fun world i => env.operate i world) world = .ok (world ++ out) := by
  induction out generalizing world with
  | nil => rw [List.append_nil, List.foldlM_nil, exec_pure]
  | cons i out ih => rw [List.foldlM_cons, h i world, exec_bind_ok, ih, List.append_assoc]; rfl

/-- One entry: what is left is what `readEntry` leaves behind all that went before. -/
theorem replayEntry_records {env : Env (List Nat)} (h : Records env) (s : ChildState (List Nat))
    (r : EntryRead) :
    replayEntry NFUNCS env s r =
      (readEntry env.internalize (dispatchIndex NFUNCS) ⟨s.buf, s.world⟩ r).map fun t =>
        { s with buf := t.buf, world := t.out } := by
  rw [replayEntry, readEntry_eq, readEntry_eq]
  cases env.internalize (handed s.buf r) with
  | none => rfl
  | some ops => simp only [exec_bind_ok, records_foldlM h, List.nil_append, exec_pure, Except.map]

/-- An entry that holds an array, and one that holds none. -/
theorem replayEntry_array {env : Env (List Nat)} (h : Records env) {s : ChildState (List Nat)}
    {r : EntryRead} {ops : List UInt64} (hops : env.internalize (handed s.buf r) = some ops) :
    replayEntry NFUNCS env s r =
      .ok { s with buf := handed s.buf r, world := s.world ++ ops.map (dispatchIndex NFUNCS) } := by
  rw [replayEntry_records NFUNCS h, readEntry_ok (s := ⟨s.buf, s.world⟩) hops]
  rfl

theorem replayEntry_noArray {env : Env (List Nat)} (h : Records env) {s : ChildState (List Nat)}
    {r : EntryRead} (hnone : env.internalize (handed s.buf r) = none) :
    replayEntry NFUNCS env s r = .error (.errx 1) := by
  rw [replayEntry_records NFUNCS h, readEntry_eq, hnone]
  rfl

theorem run_replayEntry_records {env : Env (List Nat)} (h : Records env)
    (s : ChildState (List Nat)) (entries : List EntryRead) :
    replayArchive NFUNCS env s entries =
      (run (readEntry env.internalize (dispatchIndex NFUNCS)) ⟨s.buf, s.world⟩ entries).map fun t =>
        { s with buf := t.buf, world := t.out } := by
  induction entries generalizing s with
  | nil => rfl
  | cons r entries ih =>
    have hstep := replayEntry_records NFUNCS h s r
    cases hread : readEntry env.internalize (dispatchIndex NFUNCS) ⟨s.buf, s.world⟩ r with
    | error e =>
      rw [hread] at hstep
      rw [replayArchive, run_cons_error _ hstep, run_cons_error _ hread]
      rfl
    | ok t =>
      rw [hread] at hstep
      rw [replayArchive, run_cons_ok _ hstep, run_cons_ok _ hread]
      exact ih _

/-- A child dispatches at the indices of `childReplay`. -/
theorem replayArchive_dispatches {env : Env (List Nat)} (h : Records env)
    (opened : List (Option Word)) (buf : List UInt8) (entries : List EntryRead) :
    (replayArchive NFUNCS env ⟨opened, buf, []⟩ entries).map ChildState.world =
      childReplay NFUNCS env.internalize buf entries := by
  rw [run_replayEntry_records NFUNCS h, childReplay, readEntries]
  cases run (readEntry env.internalize (dispatchIndex NFUNCS)) ⟨buf, []⟩ entries with
  | error e => rfl
  | ok t => rfl

/-! ## 3. What a child opens -/

/-- The archives of the operands before the last are replayed to their ends, and the replay of the
    last one's ends the child: at an entry that holds no array, or in an operation. -/
inductive EndsInLast (x : Nat) : List Word → ChildState W → Prop
  | last {a : Word} {s : ChildState W} {entries : List EntryRead} {e : Fault}
      (hopen : env.files x s.opened.length (some a) = some entries)
      (hend : replayArchive NFUNCS env (s.opening (some a)) entries = .error e) :
      EndsInLast x [a] s
  | before {a : Word} {operands : List Word} {s s' : ChildState W} {entries : List EntryRead}
      (hopen : env.files x s.opened.length (some a) = some entries)
      (hreplay : replayArchive NFUNCS env (s.opening (some a)) entries = .ok s')
      (h : EndsInLast x operands s') : EndsInLast x (a :: operands) s

variable {NFUNCS env}

/-- The replay of an archive opens nothing. -/
theorem replayArchive_opened {s s' : ChildState W} {entries : List EntryRead}
    (h : replayArchive NFUNCS env s entries = .ok s') : s'.opened = s.opened := by
  have hkeep : Always (replayEntry NFUNCS env) s entries fun t => t.opened = s.opened := by
    refine always_of_invariant entries rfl fun t r t' ht hstep => ?_
    obtain ⟨u, -, hstep⟩ := exec_bind_inv hstep
    obtain ⟨world, -, hstep⟩ := exec_bind_inv hstep
    cases hstep
    exact ht
  exact hkeep.final h

section

variable {x : Nat} {prev : Word} {name : Option Word} {rest : List (Option Word)}
  {s : ChildState W} {entries : List EntryRead}

/-- A round whose archive ends the child. -/
theorem replayLoop_ended {e : Fault} (hopen : env.files x s.opened.length name = some entries)
    (hend : replayArchive NFUNCS env (s.opening name) entries = .error e) :
    replayLoop NFUNCS env x (some prev :: name :: rest) s = ⟨s.opening name, some e⟩ := by
  rw [replayLoop]
  simp only [hopen, hend]

/-- A round whose archive is replayed to its end. -/
theorem replayLoop_next {s' : ChildState W}
    (hopen : env.files x s.opened.length name = some entries)
    (hreplay : replayArchive NFUNCS env (s.opening name) entries = .ok s') :
    replayLoop NFUNCS env x (some prev :: name :: rest) s =
      replayLoop NFUNCS env x (name :: rest) s' := by
  rw [replayLoop]
  simp only [hopen, hreplay]

end

/-- No operand is left: the loop, which has tested the element before, opens NULL. -/
theorem replayLoop_null (x : Nat) (prev : Word) (s : ChildState W) :
    (replayLoop NFUNCS env x [some prev, none] s).state.opened = s.opened ++ [none] := by
  cases hopen : env.files x s.opened.length none with
  | none =>
    rw [replayLoop]
    simp only [hopen]
    rfl
  | some entries =>
    cases hreplay : replayArchive NFUNCS env (s.opening none) entries with
    | error e =>
      rw [replayLoop_ended hopen hreplay]
      rfl
    | ok s' =>
      rw [replayLoop_next hopen hreplay]
      exact replayArchive_opened hreplay

/-- The loop from the element before the operands on, where each of them can be opened. -/
theorem replayLoop_opens (x : Nat) {operands : List Word}
    (hfiles : ∀ i, ∀ a ∈ operands, (env.files x i (some a)).isSome) (prev : Word)
    (s : ChildState W) :
    (replayLoop NFUNCS env x (some prev :: (operands.map some ++ [none])) s).state.opened =
        s.opened ++ operands.map some ↔ EndsInLast NFUNCS env x operands s := by
  induction operands generalizing prev s with
  | nil =>
    have hnull : (replayLoop NFUNCS env x [some prev, none] s).state.opened ≠ s.opened ++ [] := by
      rw [replayLoop_null]
      exact fun h => absurd (List.append_cancel_left h) (List.cons_ne_nil _ _)
    exact ⟨fun h => absurd h hnull, nofun⟩
  | cons a operands ih =>
    obtain ⟨entries, hopen⟩ :=
      Option.isSome_iff_exists.mp (hfiles s.opened.length a List.mem_cons_self)
    rw [List.map_cons, List.cons_append]
    cases hreplay : replayArchive NFUNCS env (s.opening (some a)) entries with
    | error e =>
      rw [replayLoop_ended hopen hreplay]
      constructor
      · -- the child ends here: these are all operands only if none is left
        intro h
        have hnone : [] = operands.map some := (List.cons.inj (List.append_cancel_left h)).2
        rw [List.map_eq_nil_iff.mp hnone.symm]
        exact .last hopen hreplay
      · intro h
        cases h with
        | last => rfl
        | before hopen' hreplay' =>
          cases hopen.symm.trans hopen'
          cases hreplay.symm.trans hreplay'
    | ok s' =>
      have hopened : s'.opened = s.opened ++ [some a] := replayArchive_opened hreplay
      have hrest := ih (fun i b hb => hfiles i b (List.mem_cons_of_mem _ hb)) a s'
      rw [hopened, List.append_assoc] at hrest
      rw [replayLoop_next hopen hreplay]
      refine hrest.trans ⟨fun h => .before hopen hreplay h, fun h => ?_⟩
      cases h with
      | last hopen' hend =>
        cases hopen.symm.trans hopen'
        cases hreplay.symm.trans hend
      | before hopen' hreplay' h =>
        cases hopen.symm.trans hopen'
        cases hreplay.symm.trans hreplay'
        exact h

/-- The vector from `argv + optind - 1` on: one element more than the operands and the NULL. -/
theorem argv_drop (prog : Word) (words : List Word) {optind : Nat} (h1 : 1 ≤ optind)
    (h2 : optind ≤ 1 + words.length) :
    ∃ prev, ((prog :: words).map some ++ [none]).drop (optind - 1) =
      some prev :: ((words.drop (optind - 1)).map some ++ [none]) := by
  have hlt : optind - 1 < (prog :: words).length := by
    rw [List.length_cons]
    omega
  refine ⟨(prog :: words)[optind - 1], ?_⟩
  rw [List.drop_append_of_le_length (by rw [List.length_map]; omega), ← List.map_drop,
    List.drop_eq_getElem_cons hlt, List.drop_succ_cons, List.map_cons, List.cons_append]

/-- For every command line whose options `getopt` accepts, and every child forked for it that can
    open the operands: it opens the operands in their order, each once, and nothing else, exactly
    where the replay of the last one ends the child and no other does. -/
theorem replays_operands_iff (NFUNCS : Nat) (env : Env W) (prog : Word) (words : List Word)
    {flags : Flags} {optind : Nat}
    (hopts : getopts words 1 ⟨false, false⟩ = some (flags, optind)) {buf : List UInt8}
    (hbuf : env.buf = some buf) {children : List (Nat × Reached (ChildState W) Fault)}
    (hmain : clodaghMain NFUNCS env prog words = .forked children) {x : Nat}
    (hfiles : ∀ i, ∀ a ∈ words.drop (optind - 1), (env.files x i (some a)).isSome)
    {child : Reached (ChildState W) Fault} (hchild : (x, child) ∈ children) :
    child.state.opened = (words.drop (optind - 1)).map some ↔
      EndsInLast NFUNCS env x (words.drop (optind - 1)) (childStart env flags buf x) := by
  obtain ⟨h1, h2⟩ := getopts_bound hopts
  obtain ⟨prev, hargv⟩ := argv_drop prog words h1 h2
  rw [clodaghMain, hopts] at hmain
  dsimp only at hmain
  rw [hargv, hbuf] at hmain
  split at hmain
  · cases hmain
  split at hmain
  · cases hmain
    obtain ⟨y, -, hy⟩ := List.mem_map.mp hchild
    obtain ⟨rfl, rfl⟩ := Prod.mk.inj hy
    exact replayLoop_opens y hfiles prev (childStart env flags buf y)
  · cases hmain

end

/-- A system on which everything succeeds, one child is forked and every archive is empty. -/
def emptyArchives : Env Unit where
  initOk := true
  buf := some []
  forks := fun x => x = 0
  world := fun _ _ => ()
  files := fun _ _ _ => some []
  internalize := fun _ => none
  operate := fun _ _ => .ok ()

/-- A child that opens `a` and then NULL. -/
def nullChild : Reached (ChildState Unit) Fault := ⟨⟨[some ['a'], none], [], ()⟩, none⟩

/-- A system with two archives, the second of which ends in an entry that holds no array. -/
def twoArchives : Env (List Nat) where
  initOk := true
  buf := some []
  forks := fun x => x = 0
  world := fun _ _ => []
  files := fun _ _ name =>
    if name = some ['a'] then some [⟨⟨['0'], plistExternalize [5, 200]⟩, fun _ => 0⟩]
    else some [⟨⟨['0'], plistExternalize [7]⟩, fun _ => 0⟩, ⟨⟨['1'], [120]⟩, fun _ => 0⟩]
  internalize := plistInternalize
  operate := fun i world => .ok (world ++ [i])

/-- The child of `clodagh -v a b`. -/
def twoOperands : Reached (ChildState (List Nat)) Fault :=
  replayLoop 102 twoArchives 0 [some ['-', 'v'], some ['a'], some ['b'], none]
    (childStart twoArchives ⟨false, true⟩ [] 0)

/-- It opens the two operands: the archive of the first is replayed to its end, the other ends it. -/
theorem replays_operands_iff_run : twoOperands.state.opened = [some ['a'], some ['b']] := by
  have hopts : getopts [['-', 'v'], ['a'], ['b']] 1 ⟨false, false⟩ = some (⟨false, true⟩, 2) := rfl
  have hmain : clodaghMain 102 twoArchives ['c'] [['-', 'v'], ['a'], ['b']] =
      .forked [(0, twoOperands)] := rfl
  have hrecords : Records twoArchives := fun _ _ => rfl
  have harray : ∀ numbers rest,
      twoArchives.internalize (plistExternalize numbers ++ rest) = some numbers :=
    plistInternalize_externalize
  have hends : EndsInLast 102 twoArchives 0 [['a'], ['b']] (childStart twoArchives ⟨false, true⟩ [] 0) := by
    refine .before rfl (run_cons_ok [] (replayEntry_array 102 hrecords (harray _ _)))
      (.last (e := .errx 1) rfl ?_)
    exact (run_cons_ok _ (replayEntry_array 102 hrecords (harray _ _))).trans
      (run_cons_error [] (replayEntry_noArray 102 hrecords rfl))
  have hfiles : ∀ i, ∀ a ∈ [['a'], ['b']], (twoArchives.files 0 i (some a)).isSome :=
    fun _ => List.forall_mem_cons.mpr ⟨rfl, List.forall_mem_singleton.mpr rfl⟩
  exact (replays_operands_iff 102 twoArchives ['c'] _ hopts rfl hmain hfiles
    List.mem_cons_self).mpr hends

/-- The failing command line: `clodagh a`, an archive without entries. Behind it the child hands NULL
    to `archive_read_open_filename`. -/
theorem child_opens_null :
    clodaghMain 102 emptyArchives ['c'] [['a']] = .forked [(0, nullChild)] ∧
      nullChild.stopped = none ∧ nullChild.state.opened ≠ [some ['a']] :=
  ⟨rfl, rfl, by decide⟩

end Fembot
