/-
  File:      Fembot/FlistUsable.lean
  Subject:   THE LIST STAYS USABLE over every sequence of calls, and the one call that breaks it.

  * `Flist.Usable n` -- the representation invariant: `n` cells are allocated and
    lower < upper ≤ number ≤ n;
  * `FlistCall`, `flistNext` -- one call on an initialised list, and the state after it;
  * `Flist.Kept` -- what every call that ends keeps, imports that fail included (`flistNext_kept`);
  * `flistNext_usable` -- set, shuffle and every import of a text that is not empty keep the
    invariant;
  * `flist_serves_iff` -- over every sequence of calls whose imports all return 0, the list
    serves in every state exactly when no import reads the empty string: the loop
    `while (*curr)` is left before its count is tested, so that the empty list is accepted
    there and refused (`count == 0 ? 1 : 0`) everywhere else.
-/
import Fembot.ImportOutcome
import Fembot.Library.Run

namespace Fembot

open Library

/-! ## 1. The invariant -/

/-- The representation invariant of a list initialised with `n`. -/
structure Flist.Usable (n : UInt32) (ps : Flist) : Prop where
  magic : ps.magic = BSTG_FLIST_MAGIC
  allocated : ps.pindex.length = n.toNat
  lower_lt : ps.lower < ps.upper
  upper_le : ps.upper ≤ ps.number
  number_le : ps.number ≤ n

theorem Flist.Usable.number_allocated {n : UInt32} {ps : Flist} (h : ps.Usable n) :
    ps.number.toNat ≤ ps.pindex.length := by
  rw [h.allocated]
  exact UInt32.le_iff_toNat_le.mp h.number_le

theorem Flist.Usable.upper_allocated {n : UInt32} {ps : Flist} (h : ps.Usable n) :
    ps.upper.toNat ≤ ps.pindex.length :=
  Nat.le_trans (UInt32.le_iff_toNat_le.mp h.upper_le) h.number_allocated

/-- The list serves: it is usable, every draw reads an allocated cell, and every shuffle ends
    without leaving the allocation. -/
def Flist.Serves (n : UInt32) (ps : Flist) : Prop :=
  ps.Usable n ∧ (∀ index, ∃ v, bstgFlistGet ps index = .ok v) ∧
    ∀ words, ∃ r, bstgFlistShuffle ps words = .ok r

theorem serves_of_usable {n : UInt32} {ps : Flist} (h : ps.Usable n) : ps.Serves n := by
  refine ⟨h, fun index => ?_, fun words => ?_⟩
  · obtain ⟨v, -, hget⟩ := flistGet_spec h.lower_lt h.upper_allocated index
    exact ⟨_, hget⟩
  · obtain ⟨pindex, hrun, -⟩ := flistShuffle_spec words h.magic h.number_allocated
    exact ⟨_, hrun⟩

theorem flistInit_usable (old : Flist) {n : UInt32} (hn : 1 ≤ n) :
    (bstgFlistInit old n true).1.Usable n := by
  rw [flistInit_ok]
  refine ⟨rfl, ?_, ?_, UInt32.le_refl _, UInt32.le_refl _⟩
  · rw [List.length_map, List.length_range]
  · rw [UInt32.lt_iff_toNat_lt]
    exact UInt32.le_iff_toNat_le.mp hn

/-! ## 2. Calls on an initialised list -/

/-- One call on an initialised list, with its arguments and the random words it may read. -/
inductive FlistCall where
  | set (lower upper : UInt32)
  | shuffle (words : Stream' UInt32)
  | importList (options : List Char)

/-- The state after a call. -/
def flistNext (ps : Flist) : FlistCall → Exec Flist
  | .set lower upper => .ok (bstgFlistSet ps lower upper).1
  | .shuffle words => do
    let r ← bstgFlistShuffle ps words
    pure r.1
  | .importList options => do
    let r ← bstgFlistImport ps options
    pure r.1

/-- The call, where it is an import, returns 0. -/
def ImportReturnsZero (ps : Flist) : FlistCall → Prop
  | .importList options => ∃ ps', bstgFlistImport ps options = .ok (ps', 0)
  | _ => True

/-- The call is no import of the empty string. -/
def NotEmptyImport : FlistCall → Prop
  | .importList options => options ≠ []
  | _ => True

/-! ## 3. What every call keeps -/

/-- What every call keeps, an import of the empty string included: the allocation and its bound. -/
structure Flist.Allocated (n : UInt32) (ps : Flist) : Prop where
  magic : ps.magic = BSTG_FLIST_MAGIC
  allocated : ps.pindex.length = n.toNat
  number_le : ps.number.toNat ≤ n.toNat

theorem Flist.Usable.alloc {n : UInt32} {ps : Flist} (h : ps.Usable n) : ps.Allocated n :=
  ⟨h.magic, h.allocated, UInt32.le_iff_toNat_le.mp h.number_le⟩

/-- What every call that ends keeps: the allocation, `number` within it, and with `number` the
    window at 0. -/
structure Flist.Kept (n : UInt32) (ps : Flist) : Prop extends Flist.Allocated n ps where
  empty : ps.number = 0 → ps.lower = 0 ∧ ps.upper = 0

theorem Flist.Kept.sized {n : UInt32} {ps : Flist} (h : ps.Kept n) : ps.Sized := by
  unfold Flist.Sized
  rw [h.allocated]
  exact ⟨h.number_le, n.toNat_lt⟩

theorem flistInit_kept (old : Flist) (n : UInt32) : (bstgFlistInit old n true).1.Kept n := by
  rw [flistInit_ok]
  refine ⟨⟨rfl, ?_, Nat.le_refl _⟩, fun h0 => ⟨rfl, h0⟩⟩
  rw [List.length_map, List.length_range]

/-- What an import leaves, whether it returns 0 or not. -/
theorem import_kept {n : UInt32} {ps ps' : Flist} {options : List Char} {rc : Int}
    (h : ps.Kept n) (himp : bstgFlistImport ps options = .ok (ps', rc)) : ps'.Kept n := by
  obtain ⟨cells, count, rfl, hcells, hcount, -⟩ := flistImport_opened h.magic h.sized himp
  rw [h.allocated] at hcells hcount
  exact ⟨⟨h.magic, hcells, hcount⟩, fun h0 => ⟨rfl, h0⟩⟩

/-- The step lemma: every call that ends keeps `Flist.Kept`. -/
theorem flistNext_kept {n : UInt32} {ps ps' : Flist} {c : FlistCall} (h : ps.Kept n)
    (hs : flistNext ps c = .ok ps') : ps'.Kept n := by
  cases c with
  | set lower upper =>
    cases hs
    rw [flistSet_spec]
    split
    · rename_i hw
      refine ⟨⟨h.magic, h.allocated, h.number_le⟩, fun h0 => ?_⟩
      -- the empty list has no window that is not empty
      have h0' : ps.number = 0 := h0
      have hlt := UInt32.lt_iff_toNat_lt.mp hw.1
      have hle := UInt32.le_iff_toNat_le.mp hw.2
      rw [h0', UInt32.toNat_zero] at hle
      omega
    · exact h
  | shuffle words =>
    obtain ⟨pindex, hrun, hperm⟩ := flistShuffle_spec words h.magic h.sized.1
    simp only [flistNext, hrun, exec_bind_ok, exec_pure] at hs
    cases hs
    exact ⟨⟨h.magic, hperm.length_eq.trans h.allocated, h.number_le⟩, h.empty⟩
  | importList options =>
    obtain ⟨⟨ps₁, rc⟩, himp, hs⟩ := exec_bind_inv hs
    cases hs
    exact import_kept h himp

/-- Every list that a run of calls leaves is kept. -/
theorem kept_of_run {old ps : Flist} {n : UInt32} {calls : List FlistCall}
    (h : run flistNext (bstgFlistInit old n true).1 calls = .ok ps) : ps.Kept n :=
  (always_of_invariant calls (flistInit_kept old n) fun _ _ _ => flistNext_kept).final h

/-! ## 4. What keeps the list usable -/

/-- A usable list has no empty length. -/
theorem Flist.Usable.kept {n : UInt32} {ps : Flist} (h : ps.Usable n) : ps.Kept n := by
  refine ⟨h.alloc, fun h0 => ?_⟩
  have hlt := UInt32.lt_iff_toNat_lt.mp h.lower_lt
  have hle := UInt32.le_iff_toNat_le.mp h.upper_le
  rw [h0, UInt32.toNat_zero] at hle
  omega

/-- Every call whose import returns 0 ends without a fault. -/
theorem flistNext_ends {n : UInt32} {ps : Flist} (h : ps.Kept n) (c : FlistCall)
    (hrc : ImportReturnsZero ps c) : ∃ ps', flistNext ps c = .ok ps' ∧ ps'.Kept n := by
  have hends : ∃ ps', flistNext ps c = .ok ps' := by
    cases c with
    | set lower upper => exact ⟨_, rfl⟩
    | shuffle words =>
      obtain ⟨pindex, hrun, -⟩ := flistShuffle_spec words h.magic h.sized.1
      exact ⟨{ ps with pindex := pindex },
        by simp only [flistNext, hrun, exec_bind_ok, exec_pure]⟩
    | importList options =>
      obtain ⟨ps', himp⟩ := hrc
      exact ⟨ps', by simp only [flistNext, himp, exec_bind_ok, exec_pure]⟩
  obtain ⟨ps', hs⟩ := hends
  exact ⟨ps', hs, flistNext_kept h hs⟩

/-- The step lemma: a call that is no import of the empty string keeps the invariant. -/
theorem flistNext_usable {n : UInt32} {ps ps' : Flist} {c : FlistCall} (h : ps.Usable n)
    (hrc : ImportReturnsZero ps c) (hc : NotEmptyImport c) (hs : flistNext ps c = .ok ps') :
    ps'.Usable n := by
  cases c with
  | set lower upper =>
    cases hs
    rw [flistSet_spec]
    split
    · rename_i hw
      exact ⟨h.magic, h.allocated, hw.1, hw.2, h.number_le⟩
    · exact h
  | shuffle words =>
    obtain ⟨pindex, hrun, hperm⟩ := flistShuffle_spec words h.magic h.number_allocated
    simp only [flistNext, hrun, exec_bind_ok, exec_pure] at hs
    cases hs
    exact ⟨h.magic, hperm.length_eq.trans h.allocated, h.lower_lt, h.upper_le, h.number_le⟩
  | importList options =>
    obtain ⟨ps₁, himp⟩ := hrc
    simp only [flistNext, himp, exec_bind_ok, exec_pure] at hs
    cases hs
    obtain ⟨cells, count, rfl, hcells, -, hzero⟩ :=
      flistImport_opened h.magic h.kept.sized himp
    obtain ⟨hcount, hempty⟩ := hzero rfl
    -- the list read is not empty, for the text is not
    have hpos : 0 < count := UInt32.pos_iff_ne_zero.mpr fun h0 => hc (hempty h0)
    have hle : count ≤ n := by
      rw [UInt32.le_iff_toNat_le]
      exact Nat.le_trans hcount h.alloc.number_le
    exact ⟨h.magic, hcells.trans h.allocated, hpos, UInt32.le_refl count, hle⟩

/-- The import of the empty string returns 0 and leaves a window in which no draw is possible. -/
theorem flistNext_empty {n : UInt32} {ps : Flist} (h : ps.Usable n) :
    ∃ ps', flistNext ps (.importList []) = .ok ps' ∧ ¬ ps'.Serves n ∧
      bstgFlistGet ps' 0 = .error .divisionByZero := by
  refine ⟨{ ps with number := 0, lower := 0, upper := 0 },
    by simp only [flistNext, flistImport_empty h.magic, exec_bind_ok, exec_pure],
    fun hs => ?_, by simp only [bstgFlistGet, UInt32.sub_self, if_pos]⟩
  have hlt : (0 : UInt32) < 0 := hs.1.lower_lt
  exact absurd hlt (by decide)

/-! ## 5. Every sequence of calls -/

/-- The list serves in every state of a sequence of calls whose imports all return 0 exactly when
    none of them imports the empty string. -/
theorem flist_serves_iff (old : Flist) (n : UInt32) (hn : 1 ≤ n) (calls : List FlistCall)
    (hrc : EachStep flistNext (bstgFlistInit old n true).1 calls ImportReturnsZero) :
    Always flistNext (bstgFlistInit old n true).1 calls (Flist.Serves n) ↔
      ∀ c ∈ calls, NotEmptyImport c := by
  have h0 := flistInit_usable old hn
  obtain ⟨t, ht, -⟩ := run_ok_of_eachStep h0.kept (fun _ c hI => flistNext_ends hI c) hrc
  rw [← eachStep_forall (Q := NotEmptyImport) ht]
  constructor
  · intro h pre c hp s hs
    have hus : s.Usable n := (h pre ((List.prefix_append _ _).trans hp) s hs).1
    -- an import of the empty string here would be followed by a state that does not serve
    cases c with
    | set => trivial
    | shuffle => trivial
    | importList options =>
      rintro rfl
      obtain ⟨s', hstep, hbad, -⟩ := flistNext_empty hus
      exact hbad (h _ hp s' (by rw [run_append_ok _ hs, run_cons_ok _ hstep]; rfl))
  · intro h
    have hboth : EachStep flistNext (bstgFlistInit old n true).1 calls
        fun s c => ImportReturnsZero s c ∧ NotEmptyImport c :=
      fun pre c hp s hs => ⟨hrc pre c hp s hs, h pre c hp s hs⟩
    exact (always_of_eachStep h0 (fun s c s' hI hG hs => flistNext_usable hI hG.1 hG.2 hs)
      hboth).imp fun _ => serves_of_usable

/-- A list of three, imported, shuffled, windowed and imported again, serves throughout. -/
theorem flist_serves_iff_run :
    Always flistNext (bstgFlistInit ⟨0, [], 0, 0, 0⟩ 3 true).1
      [.importList ['2', ' ', '7'], .set 0 1, .importList ['5']] (Flist.Serves 3) := by
  refine (flist_serves_iff ⟨0, [], 0, 0, 0⟩ 3 (by decide) _ ?_).mpr ?_
  · refine eachStep_cons.mpr ⟨⟨_, rfl⟩, fun s₁ h₁ => ?_⟩
    cases h₁
    refine eachStep_cons.mpr ⟨trivial, fun s₂ h₂ => ?_⟩
    cases h₂
    refine eachStep_cons.mpr ⟨⟨_, rfl⟩, fun s₃ _ => eachStep_nil⟩
  · simp [NotEmptyImport]

/-- The failing sequence: one import of the empty string on the list mkpax initialises. The import
    returns 0, and the list it leaves does not serve. -/
theorem flist_empty_import_breaks :
    EachStep flistNext (bstgFlistInit ⟨0, [], 0, 0, 0⟩ 102 true).1 [.importList []]
        ImportReturnsZero ∧
      ¬ Always flistNext (bstgFlistInit ⟨0, [], 0, 0, 0⟩ 102 true).1 [.importList []]
        (Flist.Serves 102) := by
  have hus := flistInit_usable ⟨0, [], 0, 0, 0⟩ (n := 102) (by decide)
  refine ⟨eachStep_cons.mpr ⟨⟨_, flistImport_empty hus.magic⟩, fun _ _ => eachStep_nil⟩, fun h => ?_⟩
  obtain ⟨s', hstep, hbad, -⟩ := flistNext_empty hus
  exact hbad (h [.importList []] List.prefix_rfl s' (by rw [run_cons_ok _ hstep]; rfl))

end Fembot
