/-
  File:      Fembot/Plist.lean
  Subject:   A number array as proplib writes and reads it: the concrete pair of functions the
             archive results are instantiated with.

  `plistExternalize` writes the numbers of an array in hexadecimal, one `<integer>` line each,
  between the tags of the array and of the property list; the prologue lines, which carry
  nothing and which the reader skips, are left out. `plistInternalize` reads such a text from
  the start of a buffer and stops behind the closing tag of the property list, so that what
  follows the text does not matter (`plistInternalize_append`).
-/
import Mathlib.Data.List.Basic
import Mathlib.Data.List.TakeWhile
import Mathlib.Data.Nat.Digits.Defs
import Mathlib.Tactic.Common

namespace Fembot

/-! ## 1. Hexadecimal numbers -/

/-- The bytes of a text. -/
def bytes (s : String) : List UInt8 := s.toList.map fun c => UInt8.ofNat c.toNat

/-- The hexadecimal digit of a value below 16. -/
def hexByte (d : Nat) : UInt8 := UInt8.ofNat (if d < 10 then 48 + d else 87 + d)

def isHexByte (b : UInt8) : Bool := (48 ≤ b.toNat && b.toNat ≤ 57) || (97 ≤ b.toNat && b.toNat ≤ 102)

def hexByteValue (b : UInt8) : Nat := if b.toNat ≤ 57 then b.toNat - 48 else b.toNat - 87

theorem hexByte_all : ∀ d < 16, isHexByte (hexByte d) = true ∧ hexByteValue (hexByte d) = d := by
  decide

/-- The digits of a number, the highest first. -/
def hexDigits (v : UInt64) : List UInt8 :=
  if v = 0 then [hexByte 0] else ((Nat.digits 16 v.toNat).map hexByte).reverse

def hexNumber (ds : List UInt8) : UInt64 :=
  UInt64.ofNat (Nat.ofDigits 16 (ds.reverse.map hexByteValue))

theorem isHexByte_hexDigits (v : UInt64) : ∀ b ∈ hexDigits v, isHexByte b = true := by
  intro b hb
  unfold hexDigits at hb
  split at hb
  · rw [List.mem_singleton] at hb
    subst hb
    exact (hexByte_all 0 (by decide)).1
  · obtain ⟨d, hd, rfl⟩ := List.mem_map.mp (List.mem_reverse.mp hb)
    exact (hexByte_all d (Nat.digits_lt_base (by decide) hd)).1

theorem hexNumber_hexDigits (v : UInt64) : hexNumber (hexDigits v) = v := by
  unfold hexDigits
  split
  · rename_i h
    subst h
    decide
  · have hmap : ((Nat.digits 16 v.toNat).map hexByte).map hexByteValue = Nat.digits 16 v.toNat := by
      rw [List.map_map]
      refine (List.map_congr_left fun d hd => ?_).trans (List.map_id _)
      exact (hexByte_all d (Nat.digits_lt_base (by decide) hd)).2
    rw [hexNumber, List.reverse_reverse, hmap, Nat.ofDigits_digits, UInt64.ofNat_toNat]

/-! ## 2. The text of an array -/

def plistOpen : List UInt8 := bytes "<plist version=\"1.0\">\n<array>\n"
def plistClose : List UInt8 := bytes "</array>\n</plist>\n"
def integerOpen : List UInt8 := bytes "\t<integer>0x"
def integerClose : List UInt8 := bytes "</integer>\n"

def plistItem (v : UInt64) : List UInt8 := integerOpen ++ (hexDigits v ++ integerClose)

/-- `prop_array_externalize` on an array of unsigned numbers. -/
def plistExternalize (numbers : List UInt64) : List UInt8 :=
  plistOpen ++ (numbers.flatMap plistItem ++ plistClose)

/-- The elements, up to the closing tags; each takes at least one byte, which bounds their number. -/
def plistItems : Nat → List UInt8 → Option (List UInt64)
  | 0, _ => none
  | fuel + 1, s =>
    match s.dropPrefix? integerOpen with
    | some s =>
      match (s.dropWhile isHexByte).dropPrefix? integerClose with
      | some t => (plistItems fuel t).map (hexNumber (s.takeWhile isHexByte) :: ·)
      | none => none
    | none =>
      match s.dropPrefix? plistClose with
      | some _ => some []
      | none => none

/-- `prop_array_internalize` on a buffer that starts with such a text. -/
def plistInternalize (buf : List UInt8) : Option (List UInt64) :=
  match buf.dropPrefix? plistOpen with
  | some s => plistItems (s.length + 1) s
  | none => none

/-! ## 3. Reading back -/

theorem dropPrefix_append (p t : List UInt8) : (p ++ t).dropPrefix? p = some t := by
  rw [List.dropPrefix?_eq_some_iff]
  exact ⟨p, rfl, by simp⟩

theorem dropPrefix_inv {s p t : List UInt8} (h : s.dropPrefix? p = some t) : s = p ++ t := by
  obtain ⟨p', rfl, hp⟩ := List.dropPrefix?_eq_some_iff.mp h
  rw [eq_of_beq hp]

/-- At the closing tags no element starts. -/
theorem dropPrefix_plistClose (t : List UInt8) :
    (plistClose ++ t).dropPrefix? integerOpen = none := by
  have hc : plistClose = 60 :: plistClose.tail := by decide
  have ho : integerOpen = 9 :: integerOpen.tail := by decide
  rw [hc, ho, List.cons_append, List.dropPrefix?]
  simp

theorem span_hex {ds : List UInt8} (rest : List UInt8) (hds : ∀ b ∈ ds, isHexByte b = true) :
    (ds ++ (integerClose ++ rest)).takeWhile isHexByte = ds ∧
      (ds ++ (integerClose ++ rest)).dropWhile isHexByte = integerClose ++ rest := by
  have hc : integerClose = 60 :: integerClose.tail := by decide
  have h60 : isHexByte 60 = false := by decide
  rw [List.takeWhile_append_of_pos hds, List.dropWhile_append_of_pos hds, hc, List.cons_append]
  simp [h60]

/-- One element is read and the reader stands behind it. -/
theorem plistItems_item (fuel : Nat) (v : UInt64) (rest : List UInt8) :
    plistItems (fuel + 1) (plistItem v ++ rest) = (plistItems fuel rest).map (v :: ·) := by
  obtain ⟨htake, hdrop⟩ := span_hex rest (isHexByte_hexDigits v)
  rw [plistItems, plistItem, List.append_assoc, dropPrefix_append]
  simp only [List.append_assoc, htake, hdrop, dropPrefix_append, hexNumber_hexDigits]

theorem plistItems_numbers (numbers : List UInt64) (rest : List UInt8) {fuel : Nat}
    (h : numbers.length < fuel) :
    plistItems fuel (numbers.flatMap plistItem ++ (plistClose ++ rest)) = some numbers := by
  induction numbers generalizing fuel with
  | nil =>
    obtain ⟨fuel, rfl⟩ := Nat.exists_eq_add_of_lt h
    simp only [List.flatMap_nil, List.nil_append]
    rw [plistItems, dropPrefix_plistClose]
    simp only [dropPrefix_append]
  | cons v numbers ih =>
    cases fuel with
    | zero => exact absurd h (Nat.not_lt_zero _)
    | succ fuel =>
      rw [List.flatMap_cons, List.append_assoc, plistItems_item, ih (Nat.lt_of_succ_lt_succ h)]
      rfl

theorem length_le_items (numbers : List UInt64) :
    numbers.length ≤ (numbers.flatMap plistItem).length := by
  induction numbers with
  | nil => exact Nat.le_refl 0
  | cons v numbers ih =>
    have h1 : 1 ≤ integerOpen.length := by decide
    rw [List.flatMap_cons, List.length_append, List.length_cons, plistItem, List.length_append]
    omega

/-- What was written is read back, whatever follows it in the buffer. -/
theorem plistInternalize_externalize (numbers : List UInt64) (rest : List UInt8) :
    plistInternalize (plistExternalize numbers ++ rest) = some numbers := by
  have hlen := length_le_items numbers
  rw [plistInternalize, plistExternalize, List.append_assoc, dropPrefix_append]
  simp only [List.append_assoc]
  refine plistItems_numbers numbers rest ?_
  rw [List.length_append]
  omega

/-- Reading does not depend on what follows the closing tags. -/
theorem plistItems_append {fuel fuel' : Nat} {s : List UInt8} {numbers : List UInt64}
    (h : plistItems fuel s = some numbers) (hf : fuel ≤ fuel') (rest : List UInt8) :
    plistItems fuel' (s ++ rest) = some numbers := by
  induction fuel generalizing fuel' s numbers with
  | zero => cases h
  | succ fuel ih =>
    obtain ⟨k, rfl⟩ := Nat.exists_eq_add_of_le hf
    rw [Nat.add_right_comm]
    rw [plistItems] at h
    split at h
    · rename_i s₁ hs₁
      split at h
      · rename_i s₂ hs₂
        obtain ⟨tail, htail, rfl⟩ := Option.map_eq_some_iff.mp h
        have e₁ := dropPrefix_inv hs₁
        have e₂ := dropPrefix_inv hs₂
        -- the element's digits end within `s`, at its closing tag
        have hsplit : s₁ = s₁.takeWhile isHexByte ++ (integerClose ++ s₂) := by
          rw [← e₂, List.takeWhile_append_dropWhile]
        have hds : ∀ b ∈ s₁.takeWhile isHexByte, isHexByte b = true :=
          fun b hb => List.mem_takeWhile_imp hb
        obtain ⟨htake, hdrop⟩ := span_hex (s₂ ++ rest) hds
        have e₃ : s₁ ++ rest = s₁.takeWhile isHexByte ++ (integerClose ++ (s₂ ++ rest)) := by
          conv_lhs => rw [hsplit]
          simp only [List.append_assoc]
        rw [e₁, List.append_assoc, plistItems, dropPrefix_append]
        simp only [e₃, htake, hdrop, dropPrefix_append]
        rw [ih htail (Nat.le_add_right _ _)]
        rfl
      · cases h
    · split at h
      · rename_i s₂ hs₂
        cases h
        rw [dropPrefix_inv hs₂, List.append_assoc, plistItems, dropPrefix_plistClose]
        simp only [dropPrefix_append]
      · cases h

theorem plistInternalize_append {xml : List UInt8} {numbers : List UInt64}
    (h : plistInternalize xml = some numbers) (rest : List UInt8) :
    plistInternalize (xml ++ rest) = some numbers := by
  unfold plistInternalize at h
  split at h
  · rename_i s hs
    rw [dropPrefix_inv hs, List.append_assoc, plistInternalize, dropPrefix_append]
    refine plistItems_append h ?_ rest
    rw [List.length_append]
    omega
  · cases h

end Fembot
