/-
  File:      Fembot/RoundTrip.lean
  Subject:   WRITTEN, THEN REPLAYED: the operations a clodagh child runs for an archive, and the
             numbers `mkpax -r` prints for it, are the ids `write_archive` drew.

  The writer makes all entries from one array that it writes over, the readers read all entries
  into one buffer that they do not clear. Neither shows: each entry holds the ids drawn for it
  (`writeArchive_meets`), and each is read as the array it holds, whatever stands behind it
  (`readEntries_of_arrays`).
-/
import Fembot.Mkpax
import Fembot.Plist

namespace Fembot

open Library

section

variable {NFUNCS : Nat} {externalize : List UInt64 → List UInt8}
  {internalize : List UInt8 → Option (List UInt64)} {flist : Flist}

/-- Entries written from lots of ids are read as these lots. -/
theorem arrays_of_lots
    (hcodec : ∀ numbers rest, internalize (externalize numbers ++ rest) = some numbers)
    {archive : List EntryRead} {lots : List (List UInt32)}
    (h : (archive.map (·.entry)).map (·.data) = lots.map fun ids => externalize (widen ids)) :
    List.Forall₂ (fun r ops => ∀ rest, internalize (r.entry.data ++ rest) = some ops)
      archive (lots.map widen) := by
  induction archive generalizing lots with
  | nil =>
    cases lots with
    | nil => exact List.Forall₂.nil
    | cons ids lots => cases h
  | cons r archive ih =>
    cases lots with
    | nil => cases h
    | cons ids lots =>
      simp only [List.map_cons, List.cons.injEq] at h
      obtain ⟨hr, hrest⟩ := h
      refine List.Forall₂.cons (fun rest => ?_) (ih hrest)
      rw [hr]
      exact hcodec _ _

/-- A drawn id of the table is dispatched as itself. -/
theorem dispatchIndex_widen {ids : List UInt32} (h : Drawn NFUNCS flist ids) :
    (widen ids).map (dispatchIndex NFUNCS) = ids.map UInt32.toNat := by
  rw [widen, List.map_map]
  refine List.map_congr_left fun id hid => ?_
  show id.toUInt64.toUInt32.toNat % NFUNCS = id.toNat
  rw [UInt32.toUInt32_toUInt64, Nat.mod_eq_of_lt (h id hid).2]

/-- While the window's ids are in the table nothing stops the writer. -/
theorem writeArchive_ends (externalize : List UInt64 → List UInt8) (hw : WindowOk flist)
    (htable : ∀ id ∈ pool flist, id.toNat < NFUNCS) (words : Stream' UInt32) :
    (writeArchive NFUNCS externalize flist words).stopped = none := by
  obtain ⟨-, hstop⟩ := writeArchive_meets NFUNCS externalize hw words
  cases h : (writeArchive NFUNCS externalize flist words).stopped with
  | none => rfl
  | some e =>
    obtain ⟨-, hpool, id, hid, hoff⟩ := hstop e h
    exact absurd (htable id (hpool id hid)) (Nat.not_lt.mpr hoff)

end

/-- For every window whose ids are in the table and every stream of random words: the writer
    writes all its entries, a clodagh child that reads them dispatches at the ids drawn, in
    order, and `mkpax -r` prints them, from any contents of either reader's buffer. -/
theorem archive_round_trip (NFUNCS : Nat) (externalize : List UInt64 → List UInt8)
    (internalize : List UInt8 → Option (List UInt64))
    (hcodec : ∀ numbers rest, internalize (externalize numbers ++ rest) = some numbers)
    (flist : Flist) (hw : WindowOk flist) (htable : ∀ id ∈ pool flist, id.toNat < NFUNCS)
    (words : Stream' UInt32) (buf₁ buf₂ : List UInt8) (archive₁ archive₂ : List EntryRead)
    (h₁ : archive₁.map (·.entry) = (writeArchive NFUNCS externalize flist words).state.archive)
    (h₂ : archive₂.map (·.entry) = (writeArchive NFUNCS externalize flist words).state.archive) :
    let w := writeArchive NFUNCS externalize flist words
    w.stopped = none ∧ w.state.archive.length = 4096 ∧ w.state.drawn.length = 4096 * 2048 ∧
      childReplay NFUNCS internalize buf₁ archive₁ = .ok (w.state.drawn.map UInt32.toNat) ∧
      readArchive internalize buf₂ archive₂ = .ok (w.state.drawn.map UInt32.toUInt64) := by
  have hend := writeArchive_ends externalize hw htable words
  have hwrote := (writeArchive_meets NFUNCS externalize hw words).1
    hend
  obtain ⟨lots, hn, heach, hflat, hdata⟩ := hwrote.lots
  have harrays : (lots.map widen).flatten = widen lots.flatten := by
    simp only [widen, List.map_flatten]
    rfl
  have hlen : lots.flatten.length = 4096 * 2048 := by
    rw [List.length_flatten, List.map_congr_left heach, List.map_const', List.sum_replicate_nat, hn]
  refine ⟨hend, ?_, ?_, ?_, ?_⟩
  · have h := congrArg List.length hdata
    rwa [List.length_map, List.length_map, hn] at h
  · rw [hflat, hlen]
  · have hread := arrays_of_lots hcodec (h₁ ▸ hdata)
    have hrun : childReplay NFUNCS internalize buf₁ archive₁ = _ :=
      readEntries_of_arrays hread buf₁
    rw [hrun, harrays, ← hflat, dispatchIndex_widen hwrote.drawn]
  · have hread := arrays_of_lots hcodec (h₂ ▸ hdata)
    have hrun : readArchive internalize buf₂ archive₂ = _ := readEntries_of_arrays hread buf₂
    rw [hrun, harrays, ← hflat, List.map_id]
    rfl

/-- The archive as a reader whose memory holds `fill` meets it. -/
def asRead (fill : UInt8) (archive : List Entry) : List EntryRead :=
  archive.map fun e => ⟨e, fun _ => fill⟩

theorem asRead_entries (fill : UInt8) (archive : List Entry) :
    (asRead fill archive).map (·.entry) = archive := by
  rw [asRead, List.map_map]
  exact List.map_id _

/-- The list of a table of three operations. -/
def threeIds : Flist := ⟨BSTG_FLIST_MAGIC, [2, 0, 1], 3, 0, 3⟩

/-- Three operations, proplib's text, and a stream of words that counts. -/
theorem archive_round_trip_run :
    let w := writeArchive 3 plistExternalize threeIds fun n => UInt32.ofNat n
    w.stopped = none ∧ w.state.archive.length = 4096 ∧ w.state.drawn.length = 4096 * 2048 ∧
      childReplay 3 plistInternalize [60, 0] (asRead 0 w.state.archive) =
        .ok (w.state.drawn.map UInt32.toNat) ∧
      readArchive plistInternalize [] (asRead 47 w.state.archive) =
        .ok (w.state.drawn.map UInt32.toUInt64) := by
  have hpool : pool threeIds = [2, 0, 1] := rfl
  have htable : ∀ id ∈ pool threeIds, id.toNat < 3 := by
    rw [hpool]
    simp
  exact archive_round_trip 3 plistExternalize plistInternalize plistInternalize_externalize
    threeIds ⟨by decide, by decide⟩ htable _ [60, 0] [] _ _ (asRead_entries 0 _)
    (asRead_entries 47 _)

end Fembot
