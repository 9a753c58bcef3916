/-
  File:      Fembot/Lseek.lean
  Subject:   The twelve operations `src/funcs/src/lseek`: where their writes go.

  An operation takes a descriptor, moves its offset and writes four bytes there. The calls of the
  source hand `SEEK_SET`, `SEEK_CUR` and `SEEK_END` over as the offset, and the distance as
  `whence`: the numbers are 0, 1 and 2, and 16384 and 1048576 are no `whence` at all.

  * `Files` -- open files: what an offset, a length and the writes through it are;
  * `SeekOp.args`, `seekStep` -- the operations as they stand;
  * `SeekOp.start`, `refStep` -- where the names of the operations say they write;
  * `Agrees`, `lseek_ops_iff` -- in which states the two are the same, and which runs therefore are.
-/
import Fembot.Rebinding

namespace Fembot

open Library

/-! ## 1. Open files -/

def SEEK_SET : Int := 0
def SEEK_CUR : Int := 1
def SEEK_END : Int := 2

/-- The open files of the system: the file on disk that each refers to, with its length, and each
    one's offset; `writes` are the places the writes through it have started at. -/
structure Files where
  inode : File → Nat
  length : Nat → Nat
  offset : File → Nat
  writes : File → List Nat

namespace Files

/-- The place a `lseek` call asks for, or -1 where `whence` is none of the three. -/
def target (fs : Files) (f : File) (offset whence : Int) : Int :=
  if whence = SEEK_SET then offset
  else if whence = SEEK_CUR then fs.offset f + offset
  else if whence = SEEK_END then fs.length (fs.inode f) + offset
  else -1

/-- The `lseek` call: the offset is set, unless it would be negative. -/
def lseek (fs : Files) (f : File) (offset whence : Int) : Files × Int :=
  let target := fs.target f offset whence
  if 0 ≤ target then ({ fs with offset := Function.update fs.offset f target.toNat }, target)
  else (fs, -1)

/-- The `write` call of `n` bytes. -/
def write (fs : Files) (f : File) (n : Nat) : Files :=
  let start := fs.offset f
  { fs with
    offset := Function.update fs.offset f (start + n)
    length := Function.update fs.length (fs.inode f)
      (max (fs.length (fs.inode f)) (start + n))
    writes := Function.update fs.writes f (fs.writes f ++ [start]) }

end Files

/-! ## 2. The operations -/

/-- The operations, by the names of their files. -/
inductive SeekOp where
  | set0 | set1 | set16k | set1m
  | cur0 | cur1 | cur16k | cur1m
  | end0 | end1 | end16k | end1m
  deriving DecidableEq, Repr

/-- The two last arguments of the operation's `lseek` call. -/
def SeekOp.args : SeekOp → Int × Int
  | .set0 => (SEEK_SET, 0)
  | .set1 => (SEEK_SET, 1)
  | .set16k => (SEEK_SET, 16384)
  | .set1m => (SEEK_SET, 1048576)
  | .cur0 => (SEEK_CUR, 0)
  | .cur1 => (SEEK_CUR, 1)
  | .cur16k => (SEEK_CUR, 16384)
  | .cur1m => (SEEK_CUR, 1048576)
  | .end0 => (SEEK_END, 0)
  | .end1 => (SEEK_END, 1)
  | .end16k => (SEEK_END, 16384)
  | .end1m => (SEEK_END, 1048576)

/-- A process with its open files. -/
structure SeekState where
  k : Kernel
  ps : Fdstore
  files : Files

/-- An operation. The calls on a descriptor that is not open fail. -/
def seekStep (s : SeekState) (op : SeekOp) : Exec SeekState := do
  let (k, ps, fd) ← bstgFdstoreGet kernel s.k s.ps
  match k.slot fd with
  | none => pure ⟨k, ps, s.files⟩
  | some f =>
    let files := (s.files.lseek f op.args.1 op.args.2).1
    pure ⟨k, ps, files.write f 4⟩

/-! ## 3. What the names say -/

/-- What shows of an open file: its offset, the length, and where its writes have started. -/
structure FilePos where
  offset : Nat
  length : Nat
  writes : List Nat
  deriving DecidableEq, Repr

/-- The place an operation is to write at. -/
def SeekOp.start (p : FilePos) : SeekOp → Nat
  | .set0 => 0
  | .set1 => 1
  | .set16k => 16384
  | .set1m => 1048576
  | .cur0 => p.offset
  | .cur1 => p.offset + 1
  | .cur16k => p.offset + 16384
  | .cur1m => p.offset + 1048576
  | .end0 => p.length
  | .end1 => p.length + 1
  | .end16k => p.length + 16384
  | .end1m => p.length + 1048576

/-- Four bytes written at `start`. -/
def FilePos.written (p : FilePos) (start : Nat) : FilePos :=
  ⟨start + 4, max p.length (start + 4), p.writes ++ [start]⟩

/-- The reference: the operation as it is named. -/
def refStep (p : FilePos) (op : SeekOp) : FilePos := p.written (op.start p)

def Files.pos (fs : Files) (f : File) : FilePos := ⟨fs.offset f, fs.length (fs.inode f), fs.writes f⟩

/-! ## 4. What the operations do -/

/-- The place an operation writes at: `SEEK_SET` and its like are taken for distances, from the
    start or from the offset, and the large distances for a `whence` that is refused. -/
def SeekOp.lands (p : FilePos) : SeekOp → Nat
  | .set0 => 0
  | .set1 => p.offset
  | .set16k => p.offset
  | .set1m => p.offset
  | .cur0 => 1
  | .cur1 => p.offset + 1
  | .cur16k => p.offset
  | .cur1m => p.offset
  | .end0 => 2
  | .end1 => p.offset + 2
  | .end16k => p.offset
  | .end1m => p.offset

namespace Files

variable (fs : Files) (f : File)

/-- The call moves nothing but the offset, and that of no other open file. -/
theorem lseek_keeps (offset whence : Int) :
    (fs.lseek f offset whence).1.inode = fs.inode ∧
      (fs.lseek f offset whence).1.length = fs.length ∧
      (fs.lseek f offset whence).1.writes = fs.writes := by
  unfold lseek
  by_cases h : 0 ≤ fs.target f offset whence
  · simp [h]
  · simp [h]

/-- A call that asks for a place in the file. -/
theorem lseek_ok {offset whence : Int} {place : Nat} (h : fs.target f offset whence = place) :
    (fs.lseek f offset whence).1.offset f = place := by
  simp [lseek, h]

/-- From the start. -/
theorem lseek_zero (offset : Nat) : (fs.lseek f offset 0).1.offset f = offset :=
  fs.lseek_ok f rfl

/-- From the offset. -/
theorem lseek_one (offset : Nat) : (fs.lseek f offset 1).1.offset f = fs.offset f + offset :=
  fs.lseek_ok f rfl

/-- Any other number than 0, 1 and 2 is refused. -/
theorem lseek_refused (offset : Int) {whence : Int} (h0 : whence ≠ SEEK_SET)
    (h1 : whence ≠ SEEK_CUR) (h2 : whence ≠ SEEK_END) : (fs.lseek f offset whence).1 = fs := by
  have htarget : fs.target f offset whence = -1 := by
    rw [target, if_neg h0, if_neg h1, if_neg h2]
  simp only [lseek, htarget]
  rfl

end Files

/-- An operation that has its descriptor writes at the place it lands on. -/
theorem lseek_offset (fs : Files) (f : File) (op : SeekOp) :
    (fs.lseek f op.args.1 op.args.2).1.offset f = op.lands (fs.pos f) := by
  have hrefused : ∀ offset : Int, ∀ whence : Int, 2 < whence →
      (fs.lseek f offset whence).1.offset f = fs.offset f := by
    intro offset whence h
    have hset : SEEK_SET = 0 := rfl
    have hcur : SEEK_CUR = 1 := rfl
    have hend : SEEK_END = 2 := rfl
    rw [fs.lseek_refused f offset (by omega) (by omega) (by omega)]
  cases op with
  | set0 => exact fs.lseek_zero f 0
  | set1 => exact fs.lseek_one f 0
  | set16k => exact hrefused SEEK_SET 16384 (by decide)
  | set1m => exact hrefused SEEK_SET 1048576 (by decide)
  | cur0 => exact fs.lseek_zero f 1
  | cur1 => exact fs.lseek_one f 1
  | cur16k => exact hrefused SEEK_CUR 16384 (by decide)
  | cur1m => exact hrefused SEEK_CUR 1048576 (by decide)
  | end0 => exact fs.lseek_zero f 2
  | end1 => exact fs.lseek_one f 2
  | end16k => exact hrefused SEEK_END 16384 (by decide)
  | end1m => exact hrefused SEEK_END 1048576 (by decide)

/-- Where the four bytes go, and what they leave. -/
theorem seekWrite_pos (fs : Files) (f : File) (op : SeekOp) :
    ((fs.lseek f op.args.1 op.args.2).1.write f 4).pos f =
      (fs.pos f).written (op.lands (fs.pos f)) := by
  obtain ⟨hinode, hlength, hwrites⟩ := fs.lseek_keeps f op.args.1 op.args.2
  simp only [Files.pos, Files.write, FilePos.written, Function.update_self, lseek_offset, hinode,
    hlength, hwrites]

/-- The writes through an open file are those of the operations on it. -/
theorem seekWrite_other (fs : Files) {f g : File} (h : g ≠ f) (op : SeekOp) :
    ((fs.lseek g op.args.1 op.args.2).1.write g 4).writes f = fs.writes f := by
  obtain ⟨-, -, hwrites⟩ := fs.lseek_keeps g op.args.1 op.args.2
  simp only [Files.write, Function.update_of_ne (Ne.symm h), hwrites]

/-! ## 5. Where the two agree -/

/-- The states, by offset and length, in which an operation writes where its name says. -/
def Agrees (offset length : Nat) : SeekOp → Prop
  | .set0 => True
  | .set1 => offset = 1
  | .set16k => offset = 16384
  | .set1m => offset = 1048576
  | .cur0 => offset = 1
  | .cur1 => True
  | .cur16k => False
  | .cur1m => False
  | .end0 => length = 2
  | .end1 => length = offset + 1
  | .end16k => offset = length + 16384
  | .end1m => offset = length + 1048576

theorem lands_eq_start_iff (p : FilePos) (op : SeekOp) :
    op.lands p = op.start p ↔ Agrees p.offset p.length op := by
  cases op <;> simp [SeekOp.lands, SeekOp.start, Agrees] <;> omega

/-- What is written is told by where it has started. -/
theorem written_inj {p : FilePos} {a b : Nat} (h : p.written a = p.written b) : a = b := by
  have hwrites := congrArg FilePos.writes h
  exact (List.cons.inj (List.append_cancel_left hwrites)).1

/-! ## 6. Runs -/

namespace Kernel

variable {k : Kernel}

theorem openFile_answers (k : Kernel) : k.openFile.1.answers = k.answers.tail := by
  unfold openFile
  split
  · cases k.lowestFree <;> rfl
  · rfl

/-- A descriptor that is opened refers to the file that the call was answered with. -/
theorem openFile_slot (h : k.openFile.2 > 0) :
    k.openFile.1.slot k.openFile.2 = some k.answers.head.file := by
  unfold openFile at h ⊢
  by_cases hok : k.answers.head.ok
  · rw [if_pos hok] at h ⊢
    cases hfree : k.lowestFree with
    | none =>
      rw [hfree] at h
      exact absurd (show (-1 : Int) > 0 from h) (by decide)
    | some n => exact (put_slot (Int.natCast_nonneg n) _ n).trans (if_pos rfl)
  · rw [if_neg hok] at h
    exact absurd (show (-1 : Int) > 0 from h) (by decide)

end Kernel

/-- No file that is opened later is `f`. -/
def OpensOther (f : File) (k : Kernel) : Prop := ∀ i, (k.answers.get i).file ≠ f

/-- What `bstg_fdstore_get2` opens is another file. -/
theorem openTries_other {f : File} {flags modes : List OpenFlag} {k : Kernel} (h : OpensOther f k)
    {fd : Int} (hfound : (openTries kernel flags modes k).found = some fd) :
    (openTries kernel flags modes k).state.slot fd ≠ some f := by
  induction modes generalizing k with
  | nil => cases hfound
  | cons omode modes ih =>
    rw [openTries] at hfound ⊢
    dsimp only [kernel] at hfound ⊢
    by_cases hpos : k.openFile.2 > 0
    · rw [if_pos hpos] at hfound ⊢
      cases hfound
      dsimp only
      rw [Kernel.openFile_slot hpos]
      exact fun hf => h 0 (Option.some.inj hf)
    · rw [if_neg hpos] at hfound ⊢
      refine ih (fun i => ?_) hfound
      rw [Kernel.openFile_answers]
      exact h (i + 1)

/-- A scan that meets the only descriptor hands it out. -/
theorem get_of_meets {k : Kernel} {ps : Fdstore} (h : ps.Valid) {d : Int} (honly : ps.members = {d})
    (hmeets : ScanMeets ps) : ∃ count, bstgFdstoreGet kernel k ps = .ok (k, ps.probed count, d) := by
  have hyields : Yields kernel ⟨k, ps, 0⟩ := (yields_iff h).mpr hmeets
  obtain ⟨count, fd, hraw, -, hmem⟩ := hyields.raw
  have hne : ps.members ≠ ∅ := by
    rw [honly]
    exact Finset.singleton_ne_empty d
  have hfd : fd ∈ ps.members := hmem hne
  have hget : bstgFdstoreGet2 kernel k ps [.O_CREAT] = .ok (k, ps.probed count, fd) :=
    get2_of_hit h hraw hfd [.O_CREAT]
  rw [honly, Finset.mem_singleton] at hfd
  rw [hfd] at hget
  exact ⟨count, hget⟩

/-- A scan that misses it opens another file. -/
theorem get_of_miss {k k' : Kernel} {ps ps' : Fdstore} (h : ps.Valid) {f : File}
    (hfresh : OpensOther f k) (hmiss : ¬ ScanMeets ps) {fd : Int}
    (hget : bstgFdstoreGet kernel k ps = .ok (k', ps', fd)) : k'.slot fd ≠ some f := by
  obtain ⟨count, hraw, hmem, -⟩ | ⟨count, -, ⟨opened, hfound, hset⟩ | ⟨-, -, -, rfl⟩⟩ :=
    get2_inv h hget
  · have hyields : Yields kernel ⟨k, ps, 0⟩ := yields_of_hit h hraw hmem
    exact absurd ((yields_iff h).mp hyields) hmiss
  · have hpos : 0 < opened := (openTries_found hfound).1
    rw [(set_keeps_of_valid (h.probed count) hpos hset).file]
    exact openTries_other hfresh hfound
  · rw [Kernel.nonneg _ _ (by decide)]
    exact nofun

/-- The descriptor `d` alone is tracked, and refers to `f`. -/
structure Alone (d : Int) (f : File) (s : SeekState) : Prop where
  valid : s.ps.Valid
  only : s.ps.members = {d}
  slot : s.k.slot d = some f
  fresh : OpensOther f s.k

/-- What an operation writes through `f`, if the scan meets the descriptor. -/
theorem seekStep_meets {d : Int} {f : File} {s : SeekState} (h : Alone d f s)
    (hmeets : ScanMeets s.ps) (op : SeekOp) :
    ∃ s', seekStep s op = .ok s' ∧ Alone d f s' ∧
      s'.files.pos f = (s.files.pos f).written (op.lands (s.files.pos f)) := by
  obtain ⟨count, hget⟩ := get_of_meets h.valid h.only hmeets
  refine ⟨⟨s.k, s.ps.probed count, (s.files.lseek f op.args.1 op.args.2).1.write f 4⟩, ?_,
    ⟨h.valid.probed count, h.only, h.slot, h.fresh⟩, seekWrite_pos s.files f op⟩
  rw [seekStep, hget, exec_bind_ok]
  simp only [h.slot, exec_pure]

/-- Nothing is written through `f` if it does not. -/
theorem seekStep_misses {d : Int} {f : File} {s s' : SeekState} (h : Alone d f s)
    (hmiss : ¬ ScanMeets s.ps) {op : SeekOp} (hs : seekStep s op = .ok s') :
    s'.files.writes f = s.files.writes f := by
  obtain ⟨⟨k', ps', fd⟩, hget, hs⟩ := exec_bind_inv hs
  have hother := get_of_miss h.valid h.fresh hmiss hget
  dsimp only at hs
  cases hslot : k'.slot fd with
  | none =>
    rw [hslot] at hs
    cases hs
    rfl
  | some g =>
    rw [hslot] at hs hother
    cases hs
    exact seekWrite_other s.files (fun hg => hother (congrArg some hg)) op

/-- For every store that tracks one descriptor, every file it refers to, of any length and at any
    offset, and every sequence of the operations: the file is written as the names of the operations
    say exactly when at each step the scan meets the descriptor, and the operation agrees with its
    name at that offset and length. -/
theorem lseek_ops_iff {K : Type} (sys : Sys K) (k₀ : K) (ps₀ : Fdstore) (calls : List StoreCall)
    {t : StoreState K} (hrun : run (storeStep sys) (storeStart k₀ ps₀) calls = .ok t)
    (hmagic : t.ps.magic = BSTG_FDSTORE_MAGIC) {d : Int} (honly : t.ps.members = {d}) {k : Kernel}
    {f : File} (hslot : k.slot d = some f) (hfresh : OpensOther f k) (files : Files)
    (ops : List SeekOp) :
    Follows seekStep (fun s => s.files.pos f) refStep ⟨k, t.ps, files⟩ ops ↔
      EachStep seekStep ⟨k, t.ps, files⟩ ops fun s op =>
        ScanMeets s.ps ∧ Agrees (s.files.pos f).offset (s.files.pos f).length op := by
  have hvalid := (reached_valid k₀ ps₀ calls).final hrun hmagic
  refine follows_iff_eachStep (I := Alone d f) ⟨hvalid, honly, hslot, hfresh⟩ ?_ ?_
  · rintro s op h ⟨hmeets, hagrees⟩
    obtain ⟨s', hs, h', hpos⟩ := seekStep_meets h hmeets op
    refine ⟨s', hs, h', ?_⟩
    rw [hpos, (lands_eq_start_iff _ op).mpr hagrees, refStep]
  · intro s op s' h hno hs hview
    by_cases hmeets : ScanMeets s.ps
    · obtain ⟨u, hu, -, hpos⟩ := seekStep_meets h hmeets op
      cases hs.symm.trans hu
      rw [hpos] at hview
      exact hno ⟨hmeets, (lands_eq_start_iff _ op).mp (written_inj hview)⟩
    · -- the reference writes, and the operation does not
      have hwrites := congrArg FilePos.writes hview
      have hsame : s'.files.writes f = s.files.writes f := seekStep_misses h hmeets hs
      have hlen := congrArg List.length (hsame.symm.trans hwrites)
      rw [refStep, FilePos.written, List.length_append] at hlen
      exact absurd hlen (by
        show (s.files.writes f).length ≠ (s.files.writes f).length + 1
        omega)

/-- Open files that are empty, each on its own file. -/
def blankFiles : Files := ⟨id, fun _ => 0, fun _ => 0, fun _ => []⟩

/-- The two operations that agree with their names in every state. -/
theorem lseek_ops_iff_run :
    Follows seekStep (fun s => s.files.pos 12) refStep ⟨lowTable 13, tracks12.ps, blankFiles⟩
        [.set0, .cur1] ↔
      EachStep seekStep ⟨lowTable 13, tracks12.ps, blankFiles⟩ [.set0, .cur1] fun s op =>
        ScanMeets s.ps ∧ Agrees (s.files.pos 12).offset (s.files.pos 12).length op := by
  have hfresh : OpensOther 12 (lowTable 13) := fun _ => show (7 : File) ≠ 12 by decide
  exact lseek_ops_iff kernel (lowTable 13) ⟨0, 0, 0, fdZero⟩ [.set 12] (t := tracks12) rfl rfl rfl
    rfl hfresh blankFiles [.set0, .cur1]

/-- The failing run: `set1` on an empty file. The four bytes go to its start. -/
theorem set1_writes_at_zero :
    (∃ s, seekStep ⟨lowTable 13, tracks12.ps, blankFiles⟩ .set1 = .ok s ∧
      s.files.pos 12 = ⟨4, 4, [0]⟩) ∧
      refStep (blankFiles.pos 12) .set1 = ⟨5, 5, [1]⟩ ∧
      ¬ Follows seekStep (fun s => s.files.pos 12) refStep
        ⟨lowTable 13, tracks12.ps, blankFiles⟩ [.set1] := by
  have hstep : ∃ s, seekStep ⟨lowTable 13, tracks12.ps, blankFiles⟩ .set1 = .ok s ∧
      s.files.pos 12 = ⟨4, 4, [0]⟩ := ⟨_, rfl, rfl⟩
  refine ⟨hstep, rfl, fun h => ?_⟩
  obtain ⟨s, hs, hpos⟩ := hstep
  obtain ⟨s', hs', hview, -⟩ := follows_cons.mp h
  cases hs.symm.trans hs'
  rw [hpos] at hview
  exact absurd hview (by decide)

end Fembot
