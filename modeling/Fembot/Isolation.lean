/-
  File:      Fembot/Isolation.lean
  Subject:   WHAT AN ARCHIVE ENTRY IS READ AS: its own bytes, or its own bytes and the tail of an
             earlier entry.

  Both readers reuse one buffer for all entries, and `strlcat(buf, "", 1)` terminates nothing
  (`strlcat_empty_one`): the C string handed to `prop_array_internalize` runs on into what the
  buffer held behind the entry.

  * `Isolated`, `Terminated` -- the C string handed on is the entry's own; and the condition on
    the entry and the buffer before it: the entry holds a NUL, or one stands at its end;
  * `replay_isolated_iff` -- over every archive, every entry is read as its own bytes exactly
    when every entry meets the condition, and then a reader's output is a function of the
    entries alone;
  * `empty_entry_replays` -- an empty entry behind one with an array is read as that array: the
    operations run twice.
-/
import Fembot.Archive
import Fembot.Plist

namespace Fembot

open Library

/-! ## 1. One entry -/

/-- The C string an entry is on its own: its bytes, up to its first NUL if it holds one. -/
def ownBytes (e : Entry) : List UInt8 := e.data.takeWhile (· ≠ 0)

/-- The C string handed to `prop_array_internalize` is the entry's own. -/
def Isolated {α : Type} (s : ReadState α) (r : EntryRead) : Prop :=
  cString (handed s.buf r) = some (ownBytes r.entry)

/-- The entry holds a NUL, or the buffer, as `realloc` returns it before the entry is read, holds
    one at the offset where the entry will end. -/
def Terminated {α : Type} (s : ReadState α) (r : EntryRead) : Prop :=
  0 ∈ r.entry.data ∨
    (realloc s.buf (r.entry.data.length + 1024) r.fresh)[r.entry.data.length]? = some 0

theorem isolated_iff_terminated {α : Type} (s : ReadState α) (r : EntryRead) :
    Isolated s r ↔ Terminated s r := by
  unfold Isolated Terminated cString handed ownBytes
  rw [upTo_append_iff, List.head?_drop]

/-! ## 2. All entries -/

/-- `prop_array_internalize` looks at the C string it is handed and at nothing behind it. -/
def ReadsCString (internalize : List UInt8 → Option (List UInt64)) : Prop :=
  ∀ b b' s, cString b = some s → cString b' = some s → internalize b = internalize b'

/-- A reader whose output is a function of the entries alone: each is read from a buffer that
    holds its own C string and nothing else. -/
def readOwn {α : Type} (internalize : List UInt8 → Option (List UInt64)) (emit : UInt64 → α) :
    List Entry → Exec (List α)
  | [] => .ok []
  | e :: es =>
    match internalize (ownBytes e ++ [0]) with
    | none => .error (.errx 1)
    | some ops => do
      let rest ← readOwn internalize emit es
      pure (ops.map emit ++ rest)

theorem cString_own (e : Entry) : cString (ownBytes e ++ [0]) = some (ownBytes e) := by
  have hown : 0 ∉ ownBytes e := by
    intro h
    have := List.mem_takeWhile_imp h
    simp at this
  unfold cString
  rw [upTo_append_of_not_mem [0] hown]
  simp [upTo]

/-- While every entry is terminated, the run from any buffer does what `readOwn` does. -/
theorem run_eq_readOwn {α : Type} {internalize : List UInt8 → Option (List UInt64)}
    {emit : UInt64 → α} (hC : ReadsCString internalize) {archive : List EntryRead}
    (buf : List UInt8) (out : List α)
    (hT : EachStep (readEntry internalize emit) ⟨buf, out⟩ archive Terminated) :
    (run (readEntry internalize emit) ⟨buf, out⟩ archive >>= fun s => pure s.out) =
      (readOwn internalize emit (archive.map (·.entry)) >>= fun l => pure (out ++ l)) := by
  induction archive generalizing buf out with
  | nil => simp [readOwn]
  | cons r archive ih =>
    obtain ⟨hr, hn⟩ := eachStep_cons.mp hT
    have hiso : cString (handed buf r) = some (ownBytes r.entry) :=
      (isolated_iff_terminated ⟨buf, out⟩ r).mpr hr
    have hown : internalize (handed buf r) = internalize (ownBytes r.entry ++ [0]) :=
      hC _ _ _ hiso (cString_own r.entry)
    cases hops : internalize (ownBytes r.entry ++ [0]) with
    | none =>
      rw [hops] at hown
      have hstep : readEntry internalize emit ⟨buf, out⟩ r = .error (.errx 1) := by
        rw [readEntry_eq, hown]
      simp only [run_cons_error archive hstep, List.map_cons, readOwn, hops, exec_bind_error]
    | some ops =>
      rw [hops] at hown
      have hstep : readEntry internalize emit ⟨buf, out⟩ r =
          .ok ⟨handed buf r, out ++ ops.map emit⟩ := readEntry_ok hown
      rw [run_cons_ok archive hstep, ih _ _ (hn _ hstep)]
      simp only [List.map_cons, readOwn, hops]
      cases readOwn internalize emit (archive.map (·.entry)) with
      | error e => rfl
      | ok l => simp only [exec_bind_ok, exec_pure, List.append_assoc]

/-- Every entry of an archive is read as its own bytes exactly when each of them holds a NUL or
    ends where the buffer holds one; and then what a reader prints or dispatches is a function of
    the entries, whatever the buffer held before. -/
theorem replay_isolated_iff {α : Type} (internalize : List UInt8 → Option (List UInt64))
    (emit : UInt64 → α) (buf : List UInt8) (archive : List EntryRead) :
    (EachStep (readEntry internalize emit) ⟨buf, []⟩ archive Isolated ↔
        EachStep (readEntry internalize emit) ⟨buf, []⟩ archive Terminated) ∧
      (ReadsCString internalize →
        EachStep (readEntry internalize emit) ⟨buf, []⟩ archive Terminated →
        readEntries internalize emit buf archive =
          readOwn internalize emit (archive.map (·.entry))) := by
  refine ⟨?_, fun hC hT => ?_⟩
  · constructor
    · intro h pre r hp s hs
      exact (isolated_iff_terminated s r).mp (h pre r hp s hs)
    · intro h pre r hp s hs
      exact (isolated_iff_terminated s r).mpr (h pre r hp s hs)
  · have h := run_eq_readOwn hC buf [] hT
    unfold readEntries
    rw [h]
    cases readOwn internalize emit (archive.map (·.entry)) with
    | error e => rfl
    | ok l => rfl

/-- The plist reader, handed the C string at the start of its buffer. -/
def plistInternalizeString (buf : List UInt8) : Option (List UInt64) :=
  (cString buf).bind plistInternalize

theorem plistInternalizeString_readsCString : ReadsCString plistInternalizeString := by
  intro b b' s hb hb'
  simp only [plistInternalizeString, hb, hb']

/-- Two entries that carry their own NULs, the shorter behind the longer, read from a buffer of ones. -/
def ownNuls : List EntryRead :=
  [⟨⟨['0'], plistExternalize [5, 17, 101] ++ [0]⟩, fun _ => 1⟩,
    ⟨⟨['1'], plistExternalize [9] ++ [0]⟩, fun _ => 1⟩]

/-- They are read as themselves. -/
theorem replay_isolated_iff_run :
    readArchive plistInternalizeString [1, 1, 1] ownNuls =
      readOwn plistInternalizeString id (ownNuls.map (·.entry)) :=
  (replay_isolated_iff plistInternalizeString id [1, 1, 1] ownNuls).2
    plistInternalizeString_readsCString
    (eachStep_cons.mpr ⟨Or.inl (List.mem_append_right _ List.mem_cons_self), fun _ _ =>
      eachStep_cons.mpr ⟨Or.inl (List.mem_append_right _ List.mem_cons_self), fun _ _ => eachStep_nil⟩⟩)

/-! ## 3. The empty entry -/

/-- `realloc` keeps the start of the buffer, as far as the new buffer goes. -/
theorem prefix_realloc (d rest : List UInt8) {n : Nat} (fresh : Nat → UInt8) (h : d.length ≤ n) :
    ∃ tail, realloc (d ++ rest) n fresh = d ++ tail := by
  have hp : d <+: realloc (d ++ rest) n fresh := by
    rw [List.prefix_iff_getElem?]
    intro i hi
    rw [getElem?_realloc _ _ _ (Nat.lt_of_lt_of_le hi h), List.getElem?_append_left hi,
      List.getElem?_eq_getElem hi]
    rfl
  obtain ⟨tail, htail⟩ := hp
  exact ⟨tail, htail.symm⟩

/-- The failing archive: an entry with the array of one number, and an empty entry behind it. -/
def emptySecond : List EntryRead :=
  [⟨⟨['0'], plistExternalize [5]⟩, fun _ => 0⟩, ⟨⟨['1'], []⟩, fun _ => 0⟩]

/-- From every buffer the empty entry is read as the array of the entry before it: mkpax prints the
    number twice, and the C string handed on for the empty entry is not the empty one. -/
theorem emptySecond_reads (buf : List UInt8) :
    readArchive plistInternalize buf emptySecond = .ok [5, 5] ∧
      ¬ EachStep (readEntry plistInternalize id) ⟨buf, []⟩ emptySecond Isolated := by
  have hlen : (plistExternalize [5]).length ≤ 1024 := by decide
  obtain ⟨r₁, r₂, hrs, h₁, h₂⟩ : ∃ r₁ r₂, emptySecond = [r₁, r₂] ∧
      r₁.entry.data = plistExternalize [5] ∧ r₂.entry.data = [] := ⟨_, _, rfl, rfl, rfl⟩
  have hfirst : ∃ tail, handed buf r₁ = plistExternalize [5] ++ tail := ⟨_, by rw [handed, h₁]⟩
  have hsecond : ∃ tail, handed (handed buf r₁) r₂ = plistExternalize [5] ++ tail := by
    obtain ⟨tail, htail⟩ := hfirst
    rw [htail, handed, h₂, List.length_nil, List.drop_zero, List.nil_append]
    exact prefix_realloc _ _ _ (Nat.le_trans hlen (Nat.le_add_left _ _))
  obtain ⟨tail₁, htail₁⟩ := hfirst
  obtain ⟨tail₂, htail₂⟩ := hsecond
  have hs₁ : readEntry plistInternalize id ⟨buf, []⟩ r₁ = .ok ⟨handed buf r₁, [5]⟩ := by
    rw [readEntry_eq, htail₁, plistInternalize_externalize]
    rfl
  have hs₂ : readEntry plistInternalize id ⟨handed buf r₁, [5]⟩ r₂ =
      .ok ⟨handed (handed buf r₁) r₂, [5, 5]⟩ := by
    rw [readEntry_eq, htail₂, plistInternalize_externalize]
    rfl
  rw [hrs]
  refine ⟨?_, fun h => ?_⟩
  · simp only [readArchive, readEntries, run_cons_ok _ hs₁, run_cons_ok _ hs₂, run_nil,
      exec_bind_ok, exec_pure]
  · -- the second C string starts with the first entry's first byte
    have hiso : Isolated ⟨handed buf r₁, [5]⟩ r₂ := (eachStep_cons.mp ((eachStep_cons.mp h).2 _ hs₁)).1
    have hopen : plistExternalize [5] = 60 :: (plistExternalize [5]).tail := by decide
    unfold Isolated cString ownBytes at hiso
    rw [htail₂, h₂, hopen] at hiso
    simp [upTo] at hiso

/-- The failing run: mkpax reads the archive into the buffer `malloc` gave, here one of NULs. -/
theorem empty_entry_replays :
    readArchive plistInternalize (List.replicate 262144 0) emptySecond = .ok [5, 5] ∧
      ¬ EachStep (readEntry plistInternalize id) ⟨List.replicate 262144 0, []⟩ emptySecond
        Isolated :=
  emptySecond_reads _

end Fembot
