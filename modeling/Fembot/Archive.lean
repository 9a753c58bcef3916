/-
  File:      Fembot/Archive.lean
  Subject:   The two readers of an operation archive: `read_archive` of `src/clodagh/mkpax.c`,
             which prints the numbers, and the replay loop of a clodagh child
             (`src/clodagh/clodagh.c`), which runs the operations they name.

  The two loops are one text but for the statement inside: `readEntry` is that text, with the
  statement as its parameter `emit`. libarchive hands over the entries in order, each with its
  bytes; proplib's `prop_array_internalize` is a parameter, a function of the buffer it is
  handed.
-/
import Fembot.Libc
import Fembot.Library.Run

namespace Fembot

open Library

/-! ## 1. Entries -/

structure Entry where
  pathname : List Char
  data : List UInt8
  deriving DecidableEq, Repr

/-- `archive_read_data`: at most `size` bytes of the entry over the start of the buffer, and how
    many they are. -/
def archiveReadData (buf : List UInt8) (e : Entry) (size : Nat) : List UInt8 × Nat :=
  let got := e.data.take size
  (got ++ buf.drop got.length, got.length)

/-- One entry as the loop meets it: the entry, and what the memory holds that `realloc` adds to
    the buffer for it. -/
structure EntryRead where
  entry : Entry
  fresh : Nat → UInt8

/-- The state of a reader: the growing buffer, and what was done with the numbers read so far. -/
structure ReadState (α : Type) where
  buf : List UInt8
  out : List α

/-- The body of the loop `while (archive_read_next_header(a, &entry) == ARCHIVE_OK)`. The array's
    numbers go to `emit`; where there is no array, `BSTGNULLCHECK` ends the process. -/
def readEntry {α : Type} (internalize : List UInt8 → Option (List UInt64)) (emit : UInt64 → α)
    (s : ReadState α) (r : EntryRead) : Exec (ReadState α) :=
  let size := r.entry.data.length
  let buf := realloc s.buf (size + 1024) r.fresh
  let (buf, got) := archiveReadData buf r.entry size
  if got = size then
    -- zero terminate the file from the archive
    let buf := strlcat buf [] 1
    match internalize buf with
    | none => .error (.errx 1)
    | some ops => .ok { buf := buf, out := s.out ++ ops.map emit }
  else .ok { s with buf := buf }

/-- The loop over the entries of one archive. -/
def readEntries {α : Type} (internalize : List UInt8 → Option (List UInt64)) (emit : UInt64 → α)
    (buf : List UInt8) (archive : List EntryRead) : Exec (List α) := do
  let s ← run (readEntry internalize emit) ⟨buf, []⟩ archive
  pure s.out

/-- `read_archive`: the numbers mkpax prints, one `printf` each; `buf` is what `malloc` gave. -/
def readArchive (internalize : List UInt8 → Option (List UInt64)) (buf : List UInt8)
    (archive : List EntryRead) : Exec (List UInt64) :=
  readEntries internalize id buf archive

/-- What `read_archive` writes to the standard output for the numbers it prints. -/
def printed (numbers : List UInt64) : List Char := numbers.flatMap printfPRIu64

/-- The index clodagh dispatches at for a number: `id` is `unsigned`. -/
def dispatchIndex (NFUNCS : Nat) (v : UInt64) : Nat :=
  let id : UInt32 := v.toUInt32
  id.toNat % NFUNCS

/-- The replay loop of a clodagh child over one archive: the indices into `bstg_fembot_funcs` it
    dispatches at; `buf` is what `malloc` gave or an earlier archive left. -/
def childReplay (NFUNCS : Nat) (internalize : List UInt8 → Option (List UInt64))
    (buf : List UInt8) (archive : List EntryRead) : Exec (List Nat) :=
  readEntries internalize (dispatchIndex NFUNCS) buf archive

/-! ## 2. What a round hands on -/

/-- The buffer a round hands to `prop_array_internalize`: the entry's bytes, and behind them what
    the buffer held before. -/
def handed (buf : List UInt8) (r : EntryRead) : List UInt8 :=
  r.entry.data ++ (realloc buf (r.entry.data.length + 1024) r.fresh).drop r.entry.data.length

theorem handed_ne_nil (buf : List UInt8) (r : EntryRead) : handed buf r ≠ [] := by
  intro h
  have hl := congrArg List.length h
  rw [handed, List.length_append, List.length_drop, length_realloc, List.length_nil] at hl
  omega

/-- A round in one line: the terminating `strlcat` does nothing. -/
theorem readEntry_eq {α : Type} (internalize : List UInt8 → Option (List UInt64))
    (emit : UInt64 → α) (s : ReadState α) (r : EntryRead) :
    readEntry internalize emit s r =
      match internalize (handed s.buf r) with
      | none => .error (.errx 1)
      | some ops => .ok ⟨handed s.buf r, s.out ++ ops.map emit⟩ := by
  have hread : archiveReadData (realloc s.buf (r.entry.data.length + 1024) r.fresh) r.entry
      r.entry.data.length = (handed s.buf r, r.entry.data.length) := by
    simp only [archiveReadData, List.take_length, handed]
  unfold readEntry
  simp only [hread, if_pos, strlcat_empty_one (handed_ne_nil s.buf r)]

theorem readEntry_ok {α : Type} {internalize : List UInt8 → Option (List UInt64)}
    {emit : UInt64 → α} {s : ReadState α} {r : EntryRead} {ops : List UInt64}
    (h : internalize (handed s.buf r) = some ops) :
    readEntry internalize emit s r = .ok ⟨handed s.buf r, s.out ++ ops.map emit⟩ := by
  rw [readEntry_eq, h]

/-- Where the entries' arrays are known whatever the buffer holds behind them, a reader does with
    the numbers of all of them, in order, what `emit` says, from any buffer. -/
theorem readEntries_of_arrays {α : Type} {internalize : List UInt8 → Option (List UInt64)}
    {emit : UInt64 → α} {archive : List EntryRead} {arrays : List (List UInt64)}
    (h : List.Forall₂ (fun r ops => ∀ rest, internalize (r.entry.data ++ rest) = some ops)
      archive arrays) (buf : List UInt8) :
    readEntries internalize emit buf archive = .ok (arrays.flatten.map emit) := by
  have key : ∀ (out : List α) (buf : List UInt8), ∃ buf',
      run (readEntry internalize emit) ⟨buf, out⟩ archive =
        .ok ⟨buf', out ++ arrays.flatten.map emit⟩ := by
    induction h with
    | nil => exact fun out buf => ⟨buf, by simp⟩
    | cons hr _ ih =>
      intro out buf
      obtain ⟨buf', hrun⟩ := ih (out ++ _) (handed buf _)
      refine ⟨buf', ?_⟩
      rw [run_cons_ok _ (readEntry_ok (hr _)), hrun]
      simp
  obtain ⟨buf', hrun⟩ := key [] buf
  simp only [readEntries, hrun, exec_bind_ok, exec_pure, List.nil_append]

end Fembot
