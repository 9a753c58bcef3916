/-
  File:      Fembot/Agreement.lean
  Subject:   THE TWO READERS OF ONE ARCHIVE: the numbers `mkpax -r` prints, and the operations a
             clodagh child runs.

  mkpax prints a number with all its 64 bits. clodagh stores it in `unsigned id` first, and only
  then takes it modulo the 102 operations of the table. The two differ exactly where what the
  store cuts off is no multiple of 102: 2^32 is 52 modulo 102, so that the cut part is lost
  without a trace only where it is a multiple of 51 (`dispatchIndex_eq_iff`).
-/
import Fembot.Archive
import Fembot.Plist

namespace Fembot

open Library

/-- The index clodagh dispatches at is the number modulo 102 exactly where the part above 32 bits
    is a multiple of 51. -/
theorem dispatchIndex_eq_iff (v : UInt64) :
    dispatchIndex 102 v = v.toNat % 102 ↔ v.toNat / 2 ^ 32 % 51 = 0 := by
  simp only [dispatchIndex, UInt64.toNat_toUInt32]
  omega

/-- The archive both readers read: its entries, with the memory each reader's allocator adds. -/
def SameEntries (archive₁ archive₂ : List EntryRead) : Prop :=
  archive₁.map (·.entry) = archive₂.map (·.entry)

/-- The entry is a non-empty well-formed number array. -/
def WellFormed (internalize : List UInt8 → Option (List UInt64)) (e : Entry) : Prop :=
  e.data ≠ [] ∧ ∃ numbers, internalize e.data = some numbers

/-- The numbers of an entry; none where it is no array. -/
def entryNumbers (internalize : List UInt8 → Option (List UInt64)) (e : Entry) : List UInt64 :=
  (internalize e.data).getD []

/-- The two readers agree: both read the archive to its end, and the indices dispatched are the
    numbers printed, each modulo 102. -/
def Agree (internalize : List UInt8 → Option (List UInt64)) (buf₁ buf₂ : List UInt8)
    (archive₁ archive₂ : List EntryRead) : Prop :=
  ∃ dispatched numbers, childReplay 102 internalize buf₁ archive₁ = .ok dispatched ∧
    readArchive internalize buf₂ archive₂ = .ok numbers ∧
    dispatched = numbers.map fun v => v.toNat % 102

/-- A reader that does not look behind an array reads every well-formed entry as its own array. -/
theorem arrays_of_wellFormed {internalize : List UInt8 → Option (List UInt64)}
    (hbehind : ∀ xml rest numbers, internalize xml = some numbers →
      internalize (xml ++ rest) = some numbers)
    {archive : List EntryRead} (hwf : ∀ e ∈ archive.map (·.entry), WellFormed internalize e) :
    List.Forall₂ (fun r ops => ∀ rest, internalize (r.entry.data ++ rest) = some ops)
      archive ((archive.map (·.entry)).map (entryNumbers internalize)) := by
  induction archive with
  | nil => exact List.Forall₂.nil
  | cons r archive ih =>
    rw [List.map_cons, List.forall_mem_cons] at hwf
    obtain ⟨⟨-, numbers, hnum⟩, hrest⟩ := hwf
    refine List.Forall₂.cons (fun rest => ?_) (ih hrest)
    rw [entryNumbers, hnum]
    exact hbehind _ _ _ hnum

/-- Over every archive of non-empty well-formed arrays the two readers agree exactly when of every
    number in it the part above 32 bits is a multiple of 51; so of all numbers below 2^32. -/
theorem decoders_agree_iff (internalize : List UInt8 → Option (List UInt64))
    (hbehind : ∀ xml rest numbers, internalize xml = some numbers →
      internalize (xml ++ rest) = some numbers)
    (buf₁ buf₂ : List UInt8) (archive₁ archive₂ : List EntryRead)
    (hsame : SameEntries archive₁ archive₂)
    (hwf : ∀ e ∈ archive₁.map (·.entry), WellFormed internalize e) :
    Agree internalize buf₁ buf₂ archive₁ archive₂ ↔
      ∀ e ∈ archive₁.map (·.entry), ∀ v ∈ entryNumbers internalize e,
        v.toNat / 2 ^ 32 % 51 = 0 := by
  have hwf₂ : ∀ e ∈ archive₂.map (·.entry), WellFormed internalize e := by
    rw [← hsame]
    exact hwf
  have hchild : childReplay 102 internalize buf₁ archive₁ = _ :=
    readEntries_of_arrays (arrays_of_wellFormed hbehind hwf) buf₁
  have hmkpax : readArchive internalize buf₂ archive₂ = _ :=
    readEntries_of_arrays (arrays_of_wellFormed hbehind hwf₂) buf₂
  rw [← hsame, List.map_id] at hmkpax
  have hagree : Agree internalize buf₁ buf₂ archive₁ archive₂ ↔
      ∀ v ∈ ((archive₁.map (·.entry)).map (entryNumbers internalize)).flatten,
        dispatchIndex 102 v = v.toNat % 102 := by
    rw [← List.map_inj_left]
    unfold Agree
    rw [hchild, hmkpax]
    constructor
    · intro hd
      obtain ⟨ds, ns, hds, hns, h⟩ := hd
      cases hds
      cases hns
      exact h
    · exact fun h => ⟨_, _, rfl, rfl, h⟩
  rw [hagree]
  constructor
  · intro h e he v hv
    exact (dispatchIndex_eq_iff v).mp
      (h v (List.mem_flatten.mpr ⟨_, List.mem_map_of_mem he, hv⟩))
  · intro h v hv
    obtain ⟨numbers, hn, hv⟩ := List.mem_flatten.mp hv
    obtain ⟨e, he, rfl⟩ := List.mem_map.mp hn
    exact (dispatchIndex_eq_iff v).mpr (h e he v hv)

/-- One entry with the arrays' numbers, and no memory of interest behind it. -/
def oneEntry (numbers : List UInt64) : List EntryRead :=
  [⟨⟨['0'], plistExternalize numbers⟩, fun _ => 0⟩]

theorem oneEntry_numbers (numbers : List UInt64) :
    plistInternalize (plistExternalize numbers) = some numbers := by
  have h := plistInternalize_externalize numbers []
  rwa [List.append_nil] at h

theorem oneEntry_wellFormed (numbers : List UInt64) :
    ∀ e ∈ (oneEntry numbers).map (·.entry), WellFormed plistInternalize e := by
  intro e he
  rw [List.mem_singleton.mp he]
  refine ⟨?_, numbers, oneEntry_numbers numbers⟩
  have hopen : plistOpen ≠ [] := by decide
  simp [plistExternalize, hopen]

/-- An archive of two small numbers and one of 51 * 2^32 is read alike. -/
theorem decoders_agree_iff_run :
    Agree plistInternalize [] [1] (oneEntry [5, 101, 219043332096])
      (oneEntry [5, 101, 219043332096]) := by
  refine (decoders_agree_iff plistInternalize (fun _ rest _ h => plistInternalize_append h rest)
    [] [1] _ _ rfl (oneEntry_wellFormed _)).mpr ?_
  intro e he v hv
  rw [List.mem_singleton.mp he, entryNumbers, oneEntry_numbers] at hv
  rcases List.mem_cons.mp hv with rfl | hv
  · decide
  · rcases List.mem_cons.mp hv with rfl | hv
    · decide
    · rw [List.mem_singleton.mp hv]
      decide

/-- The failing archive: one number, 2^32. mkpax prints it, 52 modulo 102; clodagh runs
    operation 0. -/
theorem decoders_disagree :
    childReplay 102 plistInternalize [] (oneEntry [4294967296]) = .ok [0] ∧
      readArchive plistInternalize [] (oneEntry [4294967296]) = .ok [4294967296] ∧
      ¬ Agree plistInternalize [] [] (oneEntry [4294967296]) (oneEntry [4294967296]) := by
  have harrays := arrays_of_wellFormed (fun _ rest _ h => plistInternalize_append h rest)
    (oneEntry_wellFormed [4294967296])
  have hmap : ((oneEntry [4294967296]).map (·.entry)).map (entryNumbers plistInternalize) =
      [[4294967296]] := by
    simp only [oneEntry, List.map_cons, List.map_nil, entryNumbers, oneEntry_numbers,
      Option.getD_some]
  rw [hmap] at harrays
  have hchild : childReplay 102 plistInternalize [] (oneEntry [4294967296]) = .ok [0] :=
    readEntries_of_arrays harrays []
  have hmkpax : readArchive plistInternalize [] (oneEntry [4294967296]) = .ok [4294967296] :=
    readEntries_of_arrays harrays []
  refine ⟨hchild, hmkpax, ?_⟩
  intro hd
  obtain ⟨ds, ns, hds, hns, h⟩ := hd
  rw [hchild] at hds
  rw [hmkpax] at hns
  cases hds
  cases hns
  exact absurd h (by decide)

end Fembot
