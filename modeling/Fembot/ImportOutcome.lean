/-
  File:      Fembot/ImportOutcome.lean
  Subject:   WHAT AN IMPORT DOES, for every text and every list: the three ways
             `bstg_flist_import` ends on the numerals a text names.

  * `ImportOutcome` -- the numerals fit and the import ends; or they do not and there is one cell
    behind `number` left to find that out in; or there is none, and the store of the numeral too
    many is outside the allocation;
  * `Reads.import_inv` -- the first two, as what an import that ends has done.

  `number` is all the import knows of the allocation, and the store comes before the test.
-/
import Fembot.ImportScan

namespace Fembot

open Library

/-! ## 1. One round -/

/-- The list's cells reach as far as `number` says, and their number fits in 32 bits. -/
def Flist.Sized (ps : Flist) : Prop :=
  ps.number.toNat ≤ ps.pindex.length ∧ ps.pindex.length < 2 ^ 32

theorem toNat_add_one {a : UInt32} (h : a.toNat + 1 < 2 ^ 32) :
    (a + 1).toNat = a.toNat + 1 := toNat_add_of_lt h

/-- A round whose `strtoul` call does not convert is the last. -/
theorem importLoop_stops {fuel : Nat} {ps : Flist} {count : UInt32} {curr c : List Char}
    (hc : curr.dropWhile isSeparator = c) (hconv : ¬ Converts c) :
    importLoop (fuel + 1) ps count curr =
      .ok (ps, count, if count = 0 ∧ curr ≠ [] then 1 else 0) := by
  have hp : (strtoul c).2 = c := not_not.mp hconv
  rw [importLoop]
  by_cases hnil : curr = []
  · rw [if_pos hnil, if_neg fun h => h.2 hnil]
    rfl
  · rw [if_neg hnil]
    simp only [drop_separators, hc, hp, if_true, hnil, ne_eq, not_false_eq_true, and_true,
      exec_pure]

/-- A round whose `strtoul` call converts, at a list with `count` cells written: up to `number`
    it stores and goes on; there it stores in the cell behind `number` and gives up, or has no
    such cell to store in. -/
theorem importLoop_converts {fuel : Nat} {ps : Flist} {count : UInt32} {curr c : List Char}
    (hc : curr.dropWhile isSeparator = c) (hconv : Converts c) (hps : ps.Sized)
    (hcount : count.toNat ≤ ps.number.toNat) :
    importLoop (fuel + 1) ps count curr =
      let ps' := { ps with pindex := ps.pindex.set count.toNat (strtoul c).1.toUInt32 }
      if count.toNat < ps.number.toNat then
        importLoop fuel ps' (count + 1) (c.dropWhile Char.isDigit)
      else if ps.number.toNat < ps.pindex.length then .ok (ps', ps.number + 1, 1)
      else .error (.outOfBounds ps.pindex.length) := by
  obtain ⟨hn, hlen⟩ := hps
  have hnil : curr ≠ [] := by
    intro he
    rw [← hc, he] at hconv
    exact hconv rfl
  rw [importLoop, if_neg hnil]
  simp only [drop_separators, drop_digits, hc, if_neg hconv]
  by_cases hlt : count.toNat < ps.pindex.length
  · have hstored : count.toNat + 1 ≤ ps.pindex.length := hlt
    have hn' := ps.number.toNat_lt
    rw [store_ok hlt, exec_bind_ok]
    by_cases hmore : count.toNat < ps.number.toNat
    · have hgt : ¬ count + 1 > ps.number := by
        rw [gt_iff_lt, UInt32.lt_iff_toNat_lt, toNat_add_one (by omega)]
        omega
      rw [if_neg hgt, if_pos hmore]
    · have heq : count = ps.number := UInt32.toNat_inj.mp (by omega)
      have hgt : count + 1 > ps.number := by
        rw [gt_iff_lt, UInt32.lt_iff_toNat_lt, toNat_add_one (by omega)]
        omega
      have hroom : ps.number.toNat < ps.pindex.length := heq ▸ hlt
      rw [if_pos hgt, if_neg hmore, if_pos hroom, heq]
      rfl
  · have hstore : store ps.pindex count.toNat (strtoul c).1.toUInt32 =
        .error (.outOfBounds count.toNat) := if_neg hlt
    have heq : count.toNat = ps.pindex.length := by omega
    rw [hstore, exec_bind_error, heq, if_neg (by omega), if_neg (by omega)]

/-! ## 2. The loop -/

/-- How the loop ends that finds one number more than `number` cells: it stores it in the cell
    behind them, or there is no such cell. -/
inductive TooMany (ps : Flist) : Exec (Flist × UInt32 × Int) → Prop
  | overrun {cells : List UInt32} (hroom : ps.number.toNat < ps.pindex.length)
      (hcells : cells.length = ps.pindex.length) :
      TooMany ps (.ok ({ ps with pindex := cells }, ps.number + 1, 1))
  | outside (hfull : ps.number.toNat = ps.pindex.length) :
      TooMany ps (.error (.outOfBounds ps.pindex.length))

theorem Flist.Sized.set {ps : Flist} (h : ps.Sized) (i : Nat) (v : UInt32) :
    Flist.Sized { ps with pindex := ps.pindex.set i v } := by
  unfold Flist.Sized
  rw [List.length_set]
  exact h

/-- One cell more or less makes no difference. -/
theorem TooMany.of_set {ps : Flist} {i : Nat} {v : UInt32} {r : Exec (Flist × UInt32 × Int)}
    (h : TooMany { ps with pindex := ps.pindex.set i v } r) : TooMany ps r := by
  have hlen : (ps.pindex.set i v).length = ps.pindex.length := List.length_set
  cases h with
  | overrun hroom hcells =>
    dsimp only at hroom hcells
    rw [hlen] at hroom hcells
    exact .overrun hroom hcells
  | outside hfull =>
    dsimp only at hfull ⊢
    rw [hlen] at hfull ⊢
    exact .outside hfull

/-- At `number` cells a round that converts is the last. -/
theorem tooMany_last {fuel : Nat} {ps : Flist} {count : UInt32} {curr c : List Char}
    (hc : curr.dropWhile isSeparator = c) (hconv : Converts c) (hps : ps.Sized)
    (hcount : count.toNat = ps.number.toNat) :
    TooMany ps (importLoop (fuel + 1) ps count curr) := by
  rw [importLoop_converts hc hconv hps (Nat.le_of_eq hcount)]
  dsimp only
  rw [if_neg (by omega)]
  by_cases hroom : ps.number.toNat < ps.pindex.length
  · rw [if_pos hroom]
    exact .overrun hroom List.length_set
  · rw [if_neg hroom]
    exact .outside (Nat.le_antisymm hps.1 (Nat.le_of_not_lt hroom))

/-- From a cursor that is stuck the loop finds too many, whatever it has found so far. -/
theorem tooMany_stuck {rest : List Char} (hs : Stuck rest) {fuel : Nat} {ps : Flist}
    {count : UInt32} {curr : List Char} (hc : curr.dropWhile isSeparator = rest) (hps : ps.Sized)
    (hcount : count.toNat ≤ ps.number.toNat) (hfuel : ps.pindex.length < count.toNat + fuel) :
    TooMany ps (importLoop fuel ps count curr) := by
  induction fuel generalizing ps count curr with
  | zero =>
    have := hps.1
    omega
  | succ fuel ih =>
    by_cases hlt : count.toNat < ps.number.toNat
    · have hadd : (count + 1).toNat = count.toNat + 1 :=
        toNat_add_one (Nat.lt_of_le_of_lt hlt ps.number.toNat_lt)
      rw [importLoop_converts hc hs.converts hps hcount]
      dsimp only
      rw [if_pos hlt, hs.digits]
      exact (ih hs.separators (hps.set _ _) (by rw [hadd]; exact hlt)
        (by rw [List.length_set, hadd]; omega)).of_set
    · exact tooMany_last hc hs.converts hps (Nat.le_antisymm hcount (Nat.le_of_not_lt hlt))

/-- All the loop can do at a text that reads as `nums` and `rest`. -/
inductive LoopOutcome (ps : Flist) (count : UInt32) (s : List Char) (nums : List (List Char))
    (rest : List Char) : Exec (Flist × UInt32 × Int) → Prop
  | ended (hfit : count.toNat + nums.length ≤ ps.number.toNat) (hrest : ¬ Converts rest) :
      LoopOutcome ps count s nums rest
        (.ok ({ ps with pindex := overwrite ps.pindex count.toNat (nums.map numeralCell) },
          count + UInt32.ofNat nums.length, if count = 0 ∧ nums = [] ∧ s ≠ [] then 1 else 0))
  | tooMany {r : Exec (Flist × UInt32 × Int)}
      (hmore : ps.number.toNat < count.toNat + nums.length ∨ Converts rest) (h : TooMany ps r) :
      LoopOutcome ps count s nums rest r

/-- A numeral that is stored, and what the loop does with the text behind it. -/
theorem LoopOutcome.of_item {ps : Flist} {count : UInt32} {s ds tail rest : List Char}
    {nums : List (List Char)} {r : Exec (Flist × UInt32 × Int)} (hps : ps.Sized)
    (hlt : count.toNat < ps.number.toNat)
    (h : LoopOutcome { ps with pindex := ps.pindex.set count.toNat (numeralCell ds) } (count + 1)
      tail nums rest r) : LoopOutcome ps count s (ds :: nums) rest r := by
  have hadd : (count + 1).toNat = count.toNat + 1 :=
    toNat_add_one (Nat.lt_of_le_of_lt hlt ps.number.toNat_lt)
  cases h with
  | ended hfit hrest =>
    have hne : count + 1 ≠ 0 := by
      intro he
      rw [he] at hadd
      simp at hadd
    have hlen : count + 1 + UInt32.ofNat nums.length =
        count + UInt32.ofNat (ds :: nums).length := by
      rw [List.length_cons, UInt32.ofNat_add, UInt32.add_assoc,
        UInt32.add_comm (UInt32.ofNat nums.length)]
      rfl
    rw [hadd] at hfit ⊢
    rw [overwrite_set (by have := hps.1; omega), ← List.map_cons, hlen, if_neg fun h => hne h.1]
    have hend : LoopOutcome ps count s (ds :: nums) rest _ :=
      .ended (by rw [List.length_cons]; dsimp only at hfit; omega) hrest
    rwa [if_neg fun h => List.cons_ne_nil _ _ h.2.1] at hend
  | tooMany hmore h =>
    refine .tooMany (hmore.imp_left fun hlt => ?_) h.of_set
    rw [hadd] at hlt
    rw [List.length_cons]
    dsimp only at hlt
    omega

/-- The rounds over a text, one for each numeral and those behind the last. -/
theorem importLoop_outcome {s rest : List Char} {nums : List (List Char)} (h : Reads s nums rest)
    {fuel : Nat} {ps : Flist} {count : UInt32} (hps : ps.Sized)
    (hcount : count.toNat ≤ ps.number.toNat) (hfuel : ps.pindex.length < count.toNat + fuel) :
    LoopOutcome ps count s nums rest (importLoop fuel ps count s) := by
  induction h generalizing fuel ps count with
  | @done seps rest hseps hrest =>
    have hskip := dropWhile_append_head hseps fun c hc => (hrest c hc).1
    by_cases hconv : Converts rest
    · exact .tooMany (.inr hconv)
        (tooMany_stuck (stuck_of_left hconv hrest) hskip hps hcount hfuel)
    · obtain ⟨fuel, rfl⟩ : ∃ m, fuel = m + 1 := ⟨fuel - 1, by have := hps.1; omega⟩
      have hend : LoopOutcome ps count (seps ++ rest) [] rest _ := .ended hcount hconv
      rw [List.map_nil, overwrite_nil] at hend
      rw [importLoop_stops hskip hconv]
      simpa using hend
  | @item seps ds tail rest nums hseps hds htail _ ih =>
    obtain ⟨fuel, rfl⟩ : ∃ m, fuel = m + 1 := ⟨fuel - 1, by have := hps.1; omega⟩
    have hskip := dropWhile_append_head hseps (numeral_head hds tail)
    have hconv := converts_numeral hds htail
    by_cases hlt : count.toNat < ps.number.toNat
    · -- the numeral is stored, and the rest of the text is read from there
      have hadd : (count + 1).toNat = count.toNat + 1 :=
        toNat_add_one (Nat.lt_of_le_of_lt hlt ps.number.toNat_lt)
      rw [importLoop_converts hskip hconv hps hcount]
      dsimp only
      rw [if_pos hlt, strtoul_at_numeral hds htail, (span_digits hds.2 htail).2]
      exact .of_item hps hlt (ih (hps.set count.toNat (numeralCell ds))
        (by rw [hadd]; exact hlt) (by rw [List.length_set, hadd]; omega))
    · refine .tooMany (.inl ?_) (tooMany_last hskip hconv hps
        (Nat.le_antisymm hcount (Nat.le_of_not_lt hlt)))
      rw [List.length_cons]
      omega

/-! ## 3. The import -/

/-- The list an import leaves: `cells`, the first `count` of them as the list and as its window. -/
def Flist.opened (ps : Flist) (cells : List UInt32) (count : UInt32) : Flist :=
  { ps with pindex := cells, number := count, lower := 0, upper := count }

/-- All an import can do on a text that reads as `nums` and `rest`. -/
inductive ImportOutcome (ps : Flist) (s : List Char) (nums : List (List Char))
    (rest : List Char) : Exec (Flist × Int) → Prop
  | ended (hfit : nums.length ≤ ps.number.toNat) (hrest : ¬ Converts rest) :
      ImportOutcome ps s nums rest
        (.ok (ps.opened (overwrite ps.pindex 0 (nums.map numeralCell)) (UInt32.ofNat nums.length),
          if nums = [] ∧ s ≠ [] then 1 else 0))
  | overrun {cells : List UInt32} (hmore : ps.number.toNat < nums.length ∨ Converts rest)
      (hroom : ps.number.toNat < ps.pindex.length) (hcells : cells.length = ps.pindex.length) :
      ImportOutcome ps s nums rest (.ok (ps.opened cells (ps.number + 1), 1))
  | outside (hmore : ps.number.toNat < nums.length ∨ Converts rest)
      (hfull : ps.number.toNat = ps.pindex.length) :
      ImportOutcome ps s nums rest (.error (.outOfBounds ps.pindex.length))

theorem Reads.import_outcome {s rest : List Char} {nums : List (List Char)} (h : Reads s nums rest)
    {ps : Flist} (hm : ps.magic = BSTG_FLIST_MAGIC) (hps : ps.Sized) :
    ImportOutcome ps s nums rest (bstgFlistImport ps s) := by
  have hfuel : ps.pindex.length < (0 : UInt32).toNat + (ps.pindex.length + 1) := by
    rw [UInt32.toNat_zero]
    omega
  have hloop : LoopOutcome { ps with lower := 0 } 0 s nums rest
      (importLoop (ps.pindex.length + 1) { ps with lower := 0 } 0 s) :=
    importLoop_outcome h hps (Nat.zero_le _) hfuel
  rw [bstgFlistImport, assert_pos hm, exec_bind_ok]
  generalize importLoop (ps.pindex.length + 1) { ps with lower := 0 } 0 s = r at hloop
  cases hloop with
  | ended hfit hrest =>
    rw [UInt32.toNat_zero, Nat.zero_add] at hfit
    have hrc : (if (0 : UInt32) = 0 ∧ nums = [] ∧ s ≠ [] then (1 : Int) else 0) =
        if nums = [] ∧ s ≠ [] then 1 else 0 := by
      simp only [true_and]
    rw [exec_bind_ok, UInt32.zero_add, hrc]
    exact ImportOutcome.ended hfit hrest
  | tooMany hmore h =>
    rw [UInt32.toNat_zero, Nat.zero_add] at hmore
    cases h with
    | overrun hroom hcells => exact .overrun hmore hroom hcells
    | outside hfull => exact .outside hmore hfull

/-- Numerals that fit, and no further number behind them: the import installs what it stores for
    them. -/
theorem Reads.import_ended {s rest : List Char} {nums : List (List Char)} (h : Reads s nums rest)
    {ps : Flist} (hm : ps.magic = BSTG_FLIST_MAGIC) (hps : ps.Sized)
    (hfit : nums.length ≤ ps.number.toNat) (hrest : ¬ Converts rest) :
    bstgFlistImport ps s =
      .ok (ps.opened (overwrite ps.pindex 0 (nums.map numeralCell)) (UInt32.ofNat nums.length),
        if nums = [] ∧ s ≠ [] then 1 else 0) := by
  have hout := h.import_outcome hm hps
  generalize bstgFlistImport ps s = r at hout
  cases hout with
  | ended => rfl
  | overrun hmore => exact absurd (hmore.resolve_right hrest) (Nat.not_lt.mpr hfit)
  | outside hmore => exact absurd (hmore.resolve_right hrest) (Nat.not_lt.mpr hfit)

/-- What an import that ends has done. -/
theorem Reads.import_inv {s rest : List Char} {nums : List (List Char)} (h : Reads s nums rest)
    {ps ps' : Flist} {rc : Int} (hm : ps.magic = BSTG_FLIST_MAGIC) (hps : ps.Sized)
    (himp : bstgFlistImport ps s = .ok (ps', rc)) :
    (nums.length ≤ ps.number.toNat ∧ ¬ Converts rest ∧
      ps' = ps.opened (overwrite ps.pindex 0 (nums.map numeralCell)) (UInt32.ofNat nums.length) ∧
      rc = if nums = [] ∧ s ≠ [] then 1 else 0) ∨
    ((ps.number.toNat < nums.length ∨ Converts rest) ∧ ps.number.toNat < ps.pindex.length ∧
      (∃ cells, cells.length = ps.pindex.length ∧ ps' = ps.opened cells (ps.number + 1)) ∧
      rc = 1) := by
  have hout := h.import_outcome hm hps
  generalize bstgFlistImport ps s = r at hout himp
  cases hout with
  | ended hfit hrest =>
    cases himp
    exact .inl ⟨hfit, hrest, rfl, rfl⟩
  | overrun hmore hroom hcells =>
    cases himp
    exact .inr ⟨hmore, hroom, ⟨_, hcells, rfl⟩, rfl⟩
  | outside => cases himp

/-- The import of a text, by the numerals it names. -/
theorem import_outcome {ps : Flist} (hm : ps.magic = BSTG_FLIST_MAGIC) (hps : ps.Sized)
    (s : List Char) : ImportOutcome ps s (items s).1 (items s).2 (bstgFlistImport ps s) :=
  (items_reads s).import_outcome hm hps

/-- An import that ends keeps the allocation and opens the whole list as the window. One that
    returns 0 makes the list no longer than it was, and leaves it empty only on the empty string. -/
theorem flistImport_opened {ps ps' : Flist} {options : List Char} {rc : Int}
    (hm : ps.magic = BSTG_FLIST_MAGIC) (hps : ps.Sized)
    (h : bstgFlistImport ps options = .ok (ps', rc)) :
    ∃ cells count, ps' = ps.opened cells count ∧ cells.length = ps.pindex.length ∧
      count.toNat ≤ ps.pindex.length ∧
      (rc = 0 → count.toNat ≤ ps.number.toNat ∧ (count = 0 → options = [])) := by
  rcases (items_reads options).import_inv hm hps h with
    ⟨hfit, -, hps', hrc⟩ | ⟨-, hroom, ⟨cells, hcells, hps'⟩, hrc⟩
  · have hwithin := Nat.le_trans hfit hps.1
    have hcount : (UInt32.ofNat (items options).1.length).toNat = (items options).1.length := by
      rw [UInt32.toNat_ofNat']
      exact Nat.mod_eq_of_lt (Nat.lt_of_le_of_lt hwithin hps.2)
    refine ⟨_, _, hps', length_overwrite ?_, by rw [hcount]; exact hwithin,
      fun hzero => ⟨by rw [hcount]; exact hfit, fun h0 => ?_⟩⟩
    · rw [List.length_map, Nat.zero_add]
      exact hwithin
    · -- the empty list is refused unless the text is empty
      rw [h0, UInt32.toNat_zero] at hcount
      by_contra hne
      rw [if_pos ⟨List.eq_nil_of_length_eq_zero hcount.symm, hne⟩, hzero] at hrc
      cases hrc
  · have hadd := toNat_add_one (Nat.lt_of_le_of_lt hroom hps.2)
    refine ⟨cells, _, hps', hcells, by rw [hadd]; exact hroom, fun hzero => ?_⟩
    rw [hzero] at hrc
    cases hrc

end Fembot
