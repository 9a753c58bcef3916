/-
  File:      Fembot/Aibreann.lean
  Subject:   `main` of aibreann (`src/aibreann/aibreann.c`): one operation, on each path of the store.

  Each round runs the operation on one path and closes what the store tracks. So a round finds the
  process as the first one did: it has the same files under the same descriptors, an empty store, the
  same mappings, no child, and works in the same directory. Only what the operation leaks stays.

  * `getOptions`, `aibreannRound`, `aibreannMain` -- the options, one round, and `main`;
  * `main_decimal` -- which numbers `-f` takes;
  * `SameProcess`, `Between`, `round_cases` -- one round;
  * `rounds_alike`, `main_ends` -- all of them, and how `main` ends.
-/
import Fembot.Blocks
import Fembot.Clodagh
import Fembot.EmptyStore
import Fembot.Inherited
import Fembot.Library.Getopt
import Fembot.Stops
import Fembot.Workdir

namespace Fembot.Aibreann

open Library

/-! ## 1. Options -/

/-- The largest and the smallest `long`. -/
def LONG_MAX : Int := 0x7FFFFFFFFFFFFFFF

def LONG_MIN : Int := -0x8000000000000000

/-- The call `strtol(s, &p, 10)`: the value, which saturates, and the text `p` points at. -/
def strtol (s : List Char) : Int × List Char :=
  let t := strtoulSign (s.dropWhile isSpace)
  let digits := t.2.takeWhile Char.isDigit
  if digits = [] then (0, s)
  else
    let n : Int := Nat.ofDigitChars 10 digits 0
    (max LONG_MIN (min LONG_MAX (if t.1 then -n else n)), t.2.dropWhile Char.isDigit)

/-- `nflag`, `verbose` and `farg`. -/
structure Options where
  nflag : Bool
  verbose : Bool
  farg : Int
  deriving DecidableEq, Repr

/-- "f:n" -/
def aibreannSpec : OptSpec
  | 'f' => some true
  | 'n' => some false
  | _ => none

/-- The body of the loop over `getopt`, here and in brannagh, which alone has 'v': `none` is `usage`.
    The argument of 'f' becomes an `int`. -/
def Options.set (o : Options) (opt : Opt) : Option Options :=
  match opt.char, opt.optarg with
  | 'f', some optarg =>
    if (strtol optarg).2 = [] then some { o with farg := (strtol optarg).1.bmod (2 ^ 32) } else none
  | 'n', _ => some { o with nflag := true }
  | 'v', _ => some { o with verbose := true }
  | _, _ => none

/-- What the words say, beginning with `nflag = 0` and `farg = -1`. -/
def getOptions (spec : OptSpec) (words : List Word) : Option Options :=
  (getopt spec none words).1.foldlM Options.set ⟨false, false, -1⟩

/-! ## 2. `main` -/

/-- The number of entries of `bstg_fembot_funcs`. -/
def NFUNCS : Nat := 102

/-- How `main` ends. -/
inductive Ending where
  | usage
  | printed (s : List Char)
  | errx (msg : String)
  | ended (e : ProcessEnd)
  | returned (w : World)

section

variable (basedir : Path) (pf : Funcs)

/-- The call of a round. The operation that closes the store is not called. -/
def aibreannCall (farg : Nat) (w : World) : Except ProcessEnd World :=
  if (operations basedir pf)[farg]?.map (·.1) = some "src/close/closeall.c" then .ok w
  else opStep basedir pf w farg

/-- One round, in which `bstg_pathstore_get` gives `name`. -/
def aibreannRound (farg : Nat) (w : World) (name : Path) : Except Ending World :=
  match aibreannCall basedir pf farg { w with paths := Stream'.const name } with
  | .error e => .error (.ended e)
  | .ok w =>
    match handle .closeall w with
    | .error e => .error (.ended e)
    | .ok (rc, w) => if rc ≠ 0 then .error (.errx "cannot fdstore closeall") else .ok w

end

/-- `main` behind its options. -/
def aibreannRounds (basedir : Path) (pathstore : List Path) (farg : Nat) (w : World) : Ending :=
  match (bstgFuncsInit 1 1048576).exec handle w with
  | .error e => .ended e
  | .ok ((rc, pf), w) =>
    if rc ≠ 0 then .errx "cannot init bfs"
    else
      match run (aibreannRound basedir pf farg) w pathstore with
      | .error e => e
      | .ok w =>
        match (bstgFuncsDestroy pf).exec handle w with
        | .error e => .ended e
        | .ok ((rc, _), w) => if rc ≠ 0 then .errx "cannot bfs destroy" else .returned w

/-- `main` -/
def aibreannMain (basedir : Path) (pathstore : List Path) (words : List Word) (w : World) : Ending :=
  match getOptions aibreannSpec words with
  | none => .usage
  | some o =>
    if o.nflag then .printed (Nat.toDigits 10 NFUNCS ++ ['\n'])
    else if o.farg < 0 ∨ o.farg ≥ NFUNCS then .usage
    else aibreannRounds basedir pathstore o.farg.toNat w

/-! ## 3. The argument of `-f` -/

/-- A decimal number is read to its end, and saturates. -/
theorem strtol_decimal (n : Nat) : strtol (Nat.toDigits 10 n) = (min LONG_MAX n, []) := by
  have hds : ∀ c ∈ Nat.toDigits 10 n, c.isDigit = true :=
    fun c hc => Nat.isDigit_of_mem_toDigits (by decide) (by decide) hc
  have hval : Nat.ofDigitChars 10 (Nat.toDigits 10 n) 0 = n := Nat.ofDigitChars_ten_toDigits
  cases hn : Nat.toDigits 10 n with
  | nil => exact absurd hn Nat.toDigits_ne_nil
  | cons d ds =>
    rw [hn] at hds hval
    have hd : d.isDigit = true := hds d List.mem_cons_self
    have hskip : (d :: ds).dropWhile isSpace = d :: ds := by
      rw [List.dropWhile_cons_of_neg]
      rw [isDigit_not_isSpace hd]
      exact Bool.false_ne_true
    have hspan : ((d :: ds) ++ []).takeWhile Char.isDigit = d :: ds ∧
        ((d :: ds) ++ []).dropWhile Char.isDigit = [] := span_digits hds nofun
    rw [List.append_nil] at hspan
    have hmin : max LONG_MIN (min LONG_MAX (n : Int)) = min LONG_MAX n := by
      have hle : LONG_MIN ≤ 0 := by decide
      have hge : 0 ≤ LONG_MAX := by decide
      omega
    simp only [strtol, hskip, strtoulSign_digit hd, hspan.1, hspan.2, reduceCtorEq, if_false,
      Bool.false_eq_true, hval, hmin]

/-- The `int` that a decimal number becomes is an index below 102 where it is below 2^63 and is one
    modulo 2^32. -/
theorem bmod_index (n : Nat) :
    (¬ (((min LONG_MAX n).bmod (2 ^ 32) < 0 ∨ (min LONG_MAX n).bmod (2 ^ 32) ≥ NFUNCS)) ↔
      n < 2 ^ 63 ∧ n % 2 ^ 32 < NFUNCS) ∧
    (n < 2 ^ 63 ∧ n % 2 ^ 32 < NFUNCS →
      ((min LONG_MAX n).bmod (2 ^ 32)).toNat = n % 2 ^ 32) := by
  have hbmod : (min LONG_MAX (n : Int)).bmod (2 ^ 32) =
      if (min LONG_MAX (n : Int)) % 4294967296 < 2147483648 then (min LONG_MAX (n : Int)) % 4294967296
      else (min LONG_MAX (n : Int)) % 4294967296 - 4294967296 := Int.bmod_def _ _
  have hmax : LONG_MAX = 9223372036854775807 := rfl
  have hfuncs : NFUNCS = 102 := rfl
  rw [hbmod, hmax, hfuncs]
  split <;> constructor <;> omega

/-- `aibreann -n` prints the number of operations, and `aibreann -f` takes each number below it and runs
    that operation. Of the others it takes those below 2^63 that come to one of these as an `int`. -/
theorem main_decimal (basedir : Path) (pathstore : List Path) (w : World) :
    aibreannMain basedir pathstore [['-', 'n']] w = .printed (Nat.toDigits 10 NFUNCS ++ ['\n']) ∧
      ∀ n : Nat, aibreannMain basedir pathstore [['-', 'f'], Nat.toDigits 10 n] w =
        if n < 2 ^ 63 ∧ n % 2 ^ 32 < NFUNCS then aibreannRounds basedir pathstore (n % 2 ^ 32) w
        else .usage := by
  refine ⟨rfl, fun n => ?_⟩
  have hopts : getOptions aibreannSpec [['-', 'f'], Nat.toDigits 10 n] =
      some ⟨false, false, (min LONG_MAX n).bmod (2 ^ 32)⟩ := by
    have hset : (Options.mk false false (-1)).set ⟨'f', some (Nat.toDigits 10 n)⟩ =
        some ⟨false, false, (min LONG_MAX n).bmod (2 ^ 32)⟩ := by
      show (if (strtol (Nat.toDigits 10 n)).2 = [] then some _ else none) = _
      rw [strtol_decimal]
      rfl
    show (Options.set _ ⟨'f', some (Nat.toDigits 10 n)⟩ >>= _) = _
    rw [hset]
    rfl
  obtain ⟨hindex, hvalue⟩ := bmod_index n
  rw [aibreannMain, hopts]
  dsimp only
  rw [if_neg Bool.false_ne_true]
  by_cases hn : n < 2 ^ 63 ∧ n % 2 ^ 32 < NFUNCS
  · rw [if_neg (hindex.mpr hn), if_pos hn, hvalue hn]
  · rw [if_pos (not_not.mp fun h => hn (hindex.mp h)), if_neg hn]

/-! ## 4. One round -/

/-- The process is as it was, but for blocks that are more. -/
structure SameProcess (w w' : World) : Prop where
  slot : w'.k.slot = w.k.slot
  mem : w'.mem = w.mem
  heap : w.heap ⊆ w'.heap
  handlers : w'.handlers = w.handlers
  kids : w'.kids = w.kids
  child : w'.child = w.child
  cwd : w'.cwd = w.cwd
  isDir : w'.isDir = w.isDir

theorem SameProcess.trans {w w' w'' : World} (h : SameProcess w w') (h' : SameProcess w' w'') :
    SameProcess w w'' where
  slot := h'.slot.trans h.slot
  mem := h'.mem.trans h.mem
  heap := h.heap.trans h'.heap
  handlers := h'.handlers.trans h.handlers
  kids := h'.kids.trans h.kids
  child := h'.child.trans h.child
  cwd := h'.cwd.trans h.cwd
  isDir := h'.isDir.trans h.isDir

theorem sameProcess_refl (w : World) : SameProcess w w :=
  ⟨rfl, rfl, Finset.Subset.refl _, rfl, rfl, rfl, rfl, rfl⟩

/-- What a round needs: the process is no child and handles no signal, has 0 open and a number up to
    10 free, works in a directory, and holds the record of `bstg_funcs_init` with an empty store. -/
structure Between (pf : Funcs) (m₀ : Memory) (w : World) : Prop where
  handlers : w.handlers = defaultHandlers
  child : w.child = false
  zero : w.k.IsOpen 0
  low : Low w.k
  dir : w.isDir w.cwd = true
  mapped : Mapped pf m₀ w.mem
  valid : w.ps.Valid
  empty : w.ps.members = ∅

theorem Between.of_same {pf : Funcs} {m₀ : Memory} {w w' : World} (h : Between pf m₀ w)
    (hw : SameProcess w w') (hv : w'.ps.Valid) (hempty : w'.ps.members = ∅) : Between pf m₀ w' where
  handlers := hw.handlers.trans h.handlers
  child := hw.child.trans h.child
  zero := by
    rw [Kernel.IsOpen, hw.slot]
    exact h.zero
  low := h.low.same fun n => by rw [Kernel.IsOpen, Kernel.IsOpen, hw.slot]
  dir := by
    rw [hw.isDir, hw.cwd]
    exact h.dir
  mapped := hw.mem ▸ h.mapped
  valid := hv
  empty := hempty

/-- With an empty store, what was open is what a process does not track. -/
theorem Between.bystander {pf : Funcs} {m₀ : Memory} {w : World} (h : Between pf m₀ w) {n : Int}
    (hn : w.k.IsOpen n) : Bystander w n := by
  refine ⟨hn, ?_⟩
  rw [h.empty]
  exact Finset.notMem_empty n

section

variable {basedir : Path} {pf : Funcs} {m₀ : Memory} {w w' : World} {farg : Nat}

theorem spared_refl (h : Between pf m₀ w) : Spared w w :=
  ⟨⟨rfl, h.child, h.handlers⟩, h.valid, fun _ _ => rfl, fun _ hn hb => hb.2 hn,
    fun _ hfd => absurd hfd List.not_mem_nil⟩

/-- What an operation has opened behind it, the store tracks. -/
theorem opStep_leaves (h : Between pf m₀ w) (hs : opStep basedir pf w farg = .ok w') :
    Leaves w.k w'.k w'.ps := by
  have hready : Ready w := ⟨⟨rfl, h.child, h.handlers⟩, h.valid, h.zero⟩
  obtain ⟨answers, hrun⟩ := (opStep_comes hready hs).2 default
  have hone : ∀ ops ∈ poolOps, ops.length ≤ 1 := by decide
  have hlength : (poolOpsAt farg).length ≤ 1 := by
    rw [poolOpsAt]
    cases hops : poolOps[farg]? with
    | none => exact Nat.zero_le 1
    | some ops => exact hone ops (List.mem_of_getElem? hops)
  cases hops : poolOpsAt farg with
  | nil =>
    rw [hops] at hrun
    have hslot : w.k.slot = w'.k.slot := congrArg (fun r => r.k.slot) (Except.ok.inj hrun)
    intro n hn
    rw [Kernel.IsOpen, ← hslot] at hn
    exact .inl hn
  | cons op ops =>
    rw [hops] at hlength hrun
    obtain rfl : ops = [] := List.length_eq_zero_iff.mp (by rw [List.length_cons] at hlength; omega)
    obtain ⟨p, hstep, hp⟩ := run_cons_inv hrun
    cases hp
    exact poolStep_leaves (p := ⟨w.k.answering answers, w.ps⟩) h.valid h.empty h.zero h.low hstep

/-- No call changes which files are directories. -/
theorem opStep_isDir (hs : opStep basedir pf w farg = .ok w') : w'.isDir = w.isDir := by
  have keep : ∀ (c : Call) u r u', True → u.isDir = w.isDir → handle c u = .ok (r, u') →
      u'.isDir = w.isDir := fun _ _ _ _ _ hI hs => (handle_framed hs).isDir.trans hI
  have hmeets : (fembotFunc basedir pf farg).Meets handle (fun _ _ => True) w
      fun _ u => u.isDir = w.isDir :=
    Prog.meets_of_only keep (fun _ _ _ _ => trivial) (Prog.only_all (fun _ => trivial) _) rfl
  exact hmeets.exec (opStep_ok.mp hs)

/-- Behind the call of a round: the files are under the descriptors that they were under, what else is
    open is tracked, and but for that and for blocks that are more, the process is as it was. -/
structure Called (w t : World) : Prop where
  leaves : Leaves w.k t.k t.ps
  spared : Spared w t
  alike : SameProcess w { t with k := w.k }

theorem opStep_called (h : Between pf m₀ w) (hs : opStep basedir pf w farg = .ok w') : Called w w' := by
  have hspared : Spared w w' := (bystanders_keeps basedir pf w).step (spared_refl h) hs
  have hsettled : Settled w.mem w' := (settled_keeps h.mapped).step ⟨rfl, h.handlers, h.valid⟩ hs
  have hheap : w.heap ⊆ w'.heap := by
    rw [opStep_heap hs]
    cases leak pf w farg with
    | none => exact Finset.Subset.refl _
    | some b => exact Finset.subset_insert b w.heap
  have hworks : WorksIn w.cwd w' :=
    opStep_worksIn ⟨rfl, h.dir⟩ (owned_empty h.valid h.empty).tracks hs
  have hdir : w'.isDir = w.isDir := opStep_isDir hs
  exact ⟨opStep_leaves h hs, hspared, rfl, hsettled.mem, hheap,
    hspared.parent.handlers.trans h.handlers.symm, hspared.parent.kids,
    hspared.parent.child.trans h.child.symm, hworks.1, hdir⟩

theorem call_called (h : Between pf m₀ w) (hs : aibreannCall basedir pf farg w = .ok w') :
    Called w w' := by
  unfold aibreannCall at hs
  split at hs
  · cases hs
    exact ⟨fun _ => .inl, spared_refl h, sameProcess_refl w⟩
  · exact opStep_called h hs

/-- Closing what the store tracks brings the table back. -/
theorem closed_slot {t : World} (h : Between pf m₀ w) (ht : Called w t) :
    ((t.ps.members.sort (· ≤ ·)).foldl (fun k fd => (k.close fd).1) t.k).slot = w.k.slot := by
  funext n
  rw [closes_slot]
  by_cases hn : w.k.IsOpen n
  · have hb := h.bystander hn
    rw [if_neg fun hin => ht.spared.aside.tracked n ((Finset.mem_sort _).mp hin) hb]
    exact ht.spared.aside.same n hb
  · rw [show w.k.slot n = none from Option.not_isSome_iff_eq_none.mp hn]
    split
    · rfl
    · rename_i hin
      exact Option.not_isSome_iff_eq_none.mp fun hopen =>
        (ht.leaves n hopen).elim hn fun hmem => hin ((Finset.mem_sort _).mpr hmem)

/-- `bstg_fdstore_closeall` behind the call: the process is as the round found it. -/
theorem closeall_restores {t : World} (h : Between pf m₀ w) (ht : Called w t) :
    ∃ w', handle .closeall t = .ok (0, w') ∧ SameProcess w w' ∧ Between pf m₀ w' := by
  have hclose : handle .closeall t = .ok (0,
      { t with
        k := (t.ps.members.sort (· ≤ ·)).foldl (fun k fd => (k.close fd).1) t.k
        ps := (bstgFdstoreReset t.ps).1 }) := by
    rw [handle, closeall_spec ht.spared.valid]
    rfl
  refine ⟨_, hclose, ?alike, h.of_same ?alike (fdstoreReset_valid ht.spared.valid) rfl⟩
  exact { ht.alike with slot := closed_slot h ht }

/-- A round is cut short by its call, or it leaves the process as it was and the store empty. -/
theorem round_cases (h : Between pf m₀ w) (name : Path) :
    let u : World := { w with paths := Stream'.const name }
    (∃ e, aibreannCall basedir pf farg u = .error e ∧
        aibreannRound basedir pf farg w name = .error (.ended e)) ∨
      ∃ w', aibreannRound basedir pf farg w name = .ok w' ∧ SameProcess w w' ∧ Between pf m₀ w' := by
  intro u
  have hu : Between pf m₀ u :=
    ⟨h.handlers, h.child, h.zero, h.low, h.dir, h.mapped, h.valid, h.empty⟩
  cases hcall : aibreannCall basedir pf farg u with
  | error e =>
    refine .inl ⟨e, rfl, ?_⟩
    rw [aibreannRound, hcall]
  | ok t =>
    have ht := call_called hu hcall
    obtain ⟨w', hclose, halike, hbetween⟩ := closeall_restores hu ht
    refine .inr ⟨w', ?_, { halike with }, hbetween⟩
    rw [aibreannRound, hcall]
    dsimp only
    rw [hclose]
    rfl

/-- A call of an operation ends the process as `CutShort` lists, where the run of the operations began
    in a process `t` that is no child. -/
def EndsInCall (basedir : Path) (e : ProcessEnd) : Prop :=
  ∃ pf t ids c u, t.child = false ∧ CallAt basedir pf t ids c u ∧ handle c u = .error e ∧ CutShort c u e

/-- What cuts a round short is a call of its operation. -/
theorem call_cutShort (h : Between pf m₀ w) (hfarg : farg < NFUNCS) {e : ProcessEnd}
    (hs : aibreannCall basedir pf farg w = .error e) : EndsInCall basedir e := by
  unfold aibreannCall at hs
  split at hs
  · cases hs
  · have hids : ∀ i ∈ [farg], i < (operations basedir pf).length := by
      intro i hi
      rw [List.mem_singleton.mp hi]
      exact hfarg
    obtain ⟨c, u, hcall, hend, hcut⟩ :=
      run_cutShort h.mapped h.handlers h.valid hids (run_cons_error [] hs)
    exact ⟨pf, w, [farg], c, u, h.child, hcall, hend, hcut⟩

/-! ## 5. All rounds -/

theorem run_same (h : Between pf m₀ w) (pathstore : List Path) :
    Always (aibreannRound basedir pf farg) w pathstore fun t => SameProcess w t ∧ Between pf m₀ t := by
  refine always_of_invariant pathstore ⟨sameProcess_refl w, h⟩ fun t name t' ht hs => ?_
  obtain ⟨e, -, hround⟩ | ⟨t'', hround, halike, hbetween⟩ := round_cases ht.2 name
  · cases hs.symm.trans hround
  · cases hs.symm.trans hround
    exact ⟨ht.1.trans halike, hbetween⟩

theorem run_ended (h : Between pf m₀ w) (hfarg : farg < NFUNCS) {pathstore : List Path} {x : Ending}
    (hrun : run (aibreannRound basedir pf farg) w pathstore = .error x) :
    ∃ e, x = .ended e ∧ EndsInCall basedir e := by
  induction pathstore generalizing w with
  | nil => cases hrun
  | cons name pathstore ih =>
    obtain ⟨e, hcall, hround⟩ | ⟨w', hround, -, hbetween⟩ := round_cases h name
    · rw [run_cons_error pathstore hround] at hrun
      cases hrun
      have hu : Between pf m₀ { w with paths := Stream'.const name } :=
        ⟨h.handlers, h.child, h.zero, h.low, h.dir, h.mapped, h.valid, h.empty⟩
      exact ⟨e, rfl, call_cutShort hu hfarg hcall⟩
    · rw [run_cons_ok pathstore hround] at hrun
      exact ih hbetween hrun

/-- `bstg_funcs_init` leaves a process that can begin with the rounds. -/
theorem between_init {r : Int × Funcs} {w₁ : World} (hinit : InitEnd w 1 r w₁) (hrc : r.1 = 0)
    (hw : w.handlers = defaultHandlers) (hc : w.child = false) (h0 : w.k.IsOpen 0) (hlow : Low w.k)
    (hd : w.isDir w.cwd = true) : Between r.2 w.mem w₁ := by
  obtain ⟨hm, -, hps, hk⟩ := hinit.done hrc
  obtain ⟨hhandlers, -, -, hchild, hcwd, hdir⟩ := hinit.unmoved
  refine ⟨hhandlers.trans hw, hchild.trans hc, hk ▸ h0, hk ▸ hlow, ?_, hm, hinit.valid hrc, ?_⟩
  · rw [hdir, hcwd]
    exact hd
  · rw [hps]
    rfl

/-- `bstg_funcs_destroy` behind the rounds gives back what init mapped. -/
theorem destroyed_same {r : Int × Funcs} {w₁ t : World} (hinit : InitEnd w 1 r w₁) (hrc : r.1 = 0)
    (halike : SameProcess w₁ t) (ht : Between r.2 w.mem t) :
    ∃ ps w', (bstgFuncsDestroy r.2).exec handle t = .ok ((0, ps), w') ∧ SameProcess w w' := by
  obtain ⟨-, -, -, hk⟩ := hinit.done hrc
  obtain ⟨hhandlers, hheap, hkids, hchild, hcwd, hdir⟩ := hinit.unmoved
  obtain ⟨fds, hrun, -⟩ := funcsDestroy_run ht.mapped.magic ht.valid
  have hnone : ∀ n : Int, n ∉ t.ps.members.sort (· ≤ ·) := fun n hn => by
    rw [Finset.mem_sort, ht.empty] at hn
    exact Finset.notMem_empty n hn
  refine ⟨_, _, hrun, ?_, ht.mapped.unmapped, ?_, halike.handlers.trans hhandlers,
    halike.kids.trans hkids, halike.child.trans hchild, halike.cwd.trans hcwd, halike.isDir.trans hdir⟩
  · funext n
    rw [closes_slot, if_neg (hnone n), halike.slot, hk]
  · rw [← hheap]
    exact halike.heap

/-- How `main` ends, called in the process `w`. -/
inductive EndsWell (basedir : Path) (w : World) : Ending → Prop
  | usage : EndsWell basedir w .usage
  | printed (s : List Char) : EndsWell basedir w (.printed s)
  | initFailed : EndsWell basedir w (.errx "cannot init bfs")
  | ended (e : ProcessEnd) (h : EndsInCall basedir e) : EndsWell basedir w (.ended e)
  | returned (w' : World) (h : SameProcess w w') : EndsWell basedir w (.returned w')

theorem aibreannRounds_ends (hw : w.handlers = defaultHandlers) (hc : w.child = false)
    (h0 : w.k.IsOpen 0) (hlow : Low w.k) (hd : w.isDir w.cwd = true) (hfarg : farg < NFUNCS)
    (pathstore : List Path) : EndsWell basedir w (aibreannRounds basedir pathstore farg w) := by
  obtain ⟨⟨rc, pf⟩, w₁, hexec, hinit⟩ := funcsInit_ends 1 1048576 w
  rw [aibreannRounds, hexec]
  dsimp only
  split
  · exact .initFailed
  · rename_i hrc
    have hrc : rc = 0 := not_not.mp hrc
    have hbetween : Between pf w.mem w₁ := between_init hinit hrc hw hc h0 hlow hd
    cases hrun : run (aibreannRound basedir pf farg) w₁ pathstore with
    | error x =>
      obtain ⟨e, rfl, hcut⟩ := run_ended hbetween hfarg hrun
      exact .ended e hcut
    | ok t =>
      obtain ⟨halike, ht⟩ := (run_same hbetween pathstore).final hrun
      obtain ⟨ps, w', hdestroy, hend⟩ := destroyed_same hinit hrc halike ht
      dsimp only
      rw [hdestroy]
      exact .returned w' hend

end

/-- In a process that is no child, handles no signal, has 0 open and a number up to 10 free and works in
    a directory: behind `bstg_funcs_init`, every round of each operation finds the process as the first
    one did, with an empty store. -/
theorem rounds_alike (basedir : Path) (pathstore : List Path) (w : World)
    (hw : w.handlers = defaultHandlers) (hc : w.child = false) (h0 : w.k.IsOpen 0) (hlow : Low w.k)
    (hd : w.isDir w.cwd = true) :
    (bstgFuncsInit 1 1048576).Ends handle w fun r w₁ => r.1 = 0 → ∀ farg,
      Always (aibreannRound basedir r.2 farg) w₁ pathstore fun t => SameProcess w₁ t ∧ t.ps.members = ∅ := by
  refine (funcsInit_ends 1 1048576 w).post fun r w₁ hinit hrc farg => ?_
  have hbetween : Between r.2 w.mem w₁ := between_init hinit hrc hw hc h0 hlow hd
  exact (run_same hbetween pathstore).imp fun t ht => ⟨ht.1, ht.2.empty⟩

theorem mapping_low : Low mappingWorld.k := ⟨3, by decide, by decide, by decide⟩

/-- Two paths. -/
example :
    (bstgFuncsInit 1 1048576).Ends handle mappingWorld fun r w₁ => r.1 = 0 → ∀ farg,
      Always (aibreannRound "/mnt".toList r.2 farg) w₁ ["/mnt/a".toList, "/mnt/b".toList]
        fun t => SameProcess w₁ t ∧ t.ps.members = ∅ :=
  rounds_alike "/mnt".toList ["/mnt/a".toList, "/mnt/b".toList] mappingWorld rfl rfl rfl mapping_low rfl

end Fembot.Aibreann
