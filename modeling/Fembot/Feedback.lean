/-
  File:      Fembot/Feedback.lean
  Subject:   WHAT `mkpax -r` PRINTS, FED BACK TO `mkpax -S`: the printer ends each number with a
             newline, and the import does not take a newline for a separator.

  The first number is read. Behind it the cursor stands at the newline (`printed_reads`): `strtoul`
  reads over it to the second number (`converts_newline`), the cursor does not, and it is stuck. So
  exactly the lists of one number come back (`feedback_iff`).
-/
import Fembot.Archive
import Fembot.FlistUsable

namespace Fembot

open Library

/-! ## 1. Printed numbers -/

theorem decimal_digits (v : UInt64) : ∀ c ∈ Nat.toDigits 10 v.toNat, c.isDigit = true :=
  fun _ hc => Nat.isDigit_of_mem_toDigits (by decide) (by decide) hc

/-- `strtoul` reads a printed number back. -/
theorem strtoulValue_decimal (v : UInt64) :
    strtoulValue false (Nat.toDigits 10 v.toNat) = v := by
  have hmax : ¬ ULONG_MAX.toNat < v.toNat := by
    have h := v.toNat_lt
    have hm : ULONG_MAX.toNat = 2 ^ 64 - 1 := by decide
    omega
  simp only [strtoulValue, Nat.ofDigitChars_ten_toDigits, hmax, if_false, Bool.false_eq_true,
    UInt64.ofNat_toNat]

theorem printed_cons (v : UInt64) (vs : List UInt64) :
    printed (v :: vs) = [] ++ (Nat.toDigits 10 v.toNat ++ '\n' :: printed vs) := by
  simp [printed, printfPRIu64]

/-- Behind the first number the newline is left. -/
theorem printed_reads (v : UInt64) (vs : List UInt64) :
    Reads (printed (v :: vs)) [Nat.toDigits 10 v.toNat] ('\n' :: printed vs) := by
  have hleft : ∀ c ∈ ('\n' :: printed vs).head?, isSeparator c = false ∧ c.isDigit = false := by
    intro c hc
    cases hc
    exact ⟨rfl, rfl⟩
  have hend : Reads ([] ++ '\n' :: printed vs) [] ('\n' :: printed vs) :=
    .done no_separators hleft
  rw [printed_cons]
  exact .item no_separators ⟨Nat.toDigits_ne_nil, decimal_digits v⟩ (fun c hc => (hleft c hc).2)
    hend

/-- `strtoul` reads over the newline to the number behind it. -/
theorem converts_newline (v : UInt64) (vs : List UInt64) :
    Converts ('\n' :: printed (v :: vs)) := by
  have hspace : ∀ c ∈ ['\n'], isSpace c = true := by
    intro c hc
    rw [List.mem_singleton.mp hc]
    rfl
  have hrest : ∀ c ∈ ('\n' :: printed vs).head?, c.isDigit = false := by
    intro c hc
    cases hc
    rfl
  have hconv := strtoul_numeral hspace (decimal_digits v) Nat.toDigits_ne_nil hrest
  rw [List.singleton_append] at hconv
  rw [printed_cons, List.nil_append, Converts, hconv]
  intro he
  have hl := congrArg List.length he
  simp only [List.length_cons, List.length_append] at hl
  omega

/-! ## 2. The import of a printed list -/

/-- The printed list is imported by a list of capacity `n` and installed. -/
def ReadsBack (old : Flist) (n : UInt32) (ids : List UInt32) : Prop :=
  ∃ ps, bstgFlistImport (bstgFlistInit old n true).1 (printed (ids.map UInt32.toUInt64)) =
      .ok (ps, 0) ∧
    ps.number.toNat = ids.length ∧ ps.upper = ps.number ∧ ps.lower = 0 ∧
    ps.pindex.take ids.length = ids

/-- Of the lists that fit, exactly those of one number are read back. -/
theorem feedback_iff (old : Flist) (n : UInt32) (ids : List UInt32) (h1 : 1 ≤ ids.length)
    (h2 : ids.length ≤ n.toNat) : ReadsBack old n ids ↔ ids.length = 1 := by
  have hkept := flistInit_kept old n
  match ids, h1 with
  | [id], _ =>
    -- behind the only number nothing converts any more
    have hend : ¬ Converts ('\n' :: printed []) := by decide
    have himp := (printed_reads id.toUInt64 []).import_ended hkept.magic hkept.sized h2 hend
    rw [if_neg fun h => List.cons_ne_nil _ _ h.1] at himp
    refine ⟨fun _ => rfl, fun _ => ⟨_, himp, rfl, rfl, rfl, ?_⟩⟩
    have hcell : numeralCell (Nat.toDigits 10 id.toUInt64.toNat) = id := by
      rw [numeralCell, strtoulValue_decimal, UInt32.toUInt32_toUInt64]
    rw [List.map_singleton, hcell]
    exact take_overwrite _ [id]
  | id₁ :: id₂ :: ids, _ =>
    refine ⟨fun hreads => ?_, fun h => by simp at h⟩
    obtain ⟨ps, himp, -⟩ := hreads
    rcases (printed_reads id₁.toUInt64 _).import_inv hkept.magic hkept.sized himp with
      ⟨-, hend, -⟩ | ⟨-, -, -, hrc⟩
    · exact absurd (converts_newline id₂.toUInt64 _) hend
    · cases hrc

/-- One number, printed and fed back to the list mkpax initialises, is read. -/
theorem feedback_iff_run : ReadsBack ⟨0, [], 0, 0, 0⟩ 102 [95] :=
  (feedback_iff ⟨0, [], 0, 0, 0⟩ 102 [95] (by decide) (by decide)).mpr rfl

/-- The failing list: of two numbers the first is read, the second fills the list and is written
    behind its end. -/
theorem feedback_two_fails :
    bstgFlistImport (bstgFlistInit ⟨0, [], 0, 0, 0⟩ 102 true).1 (printed [95, 2]) =
        .error (.outOfBounds 102) ∧
      ¬ ReadsBack ⟨0, [], 0, 0, 0⟩ 102 [95, 2] := by
  have h : bstgFlistImport (bstgFlistInit ⟨0, [], 0, 0, 0⟩ 102 true).1 (printed [95, 2]) =
      .error (.outOfBounds 102) := by decide +kernel
  refine ⟨h, ?_⟩
  intro hreads
  obtain ⟨ps, himp, -⟩ := hreads
  have hmap : [95, 2].map UInt32.toUInt64 = [95, 2] := by decide
  rw [hmap, h] at himp
  cases himp

end Fembot
