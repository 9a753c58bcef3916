/-
  File:      Fembot/ImportGrammar.lean
  Subject:   THE IMPORT'S GRAMMAR: lists of numerals between separators, which lists of them come
             back as they are, and which texts are taken for one that are none.

  * `ListText` -- the grammar: one numeral or more, separators between them and, optionally,
    before the first and behind the last;
  * `import_reads_back` -- every list that fits is read back, in every rendering;
  * `import_accepts_iff` -- an import that returns 0 has read such a list, unless the text is
    empty, or the loop ended within the list and left text behind that it did not look at, or a
    numeral denotes more than the 32 bits of a cell.
-/
import Fembot.FlistUsable

namespace Fembot

open Library

/-! ## 1. The grammar -/

/-- The text is a list of the numerals `nums`. What follows a numeral that is not the last starts
    with a separator. -/
inductive ListText : List Char → List (List Char) → Prop
  | last {seps ds trail : List Char} (hseps : ∀ c ∈ seps, isSeparator c = true)
      (hds : IsNumeral ds) (htrail : ∀ c ∈ trail, isSeparator c = true) :
      ListText (seps ++ (ds ++ trail)) [ds]
  | more {seps ds tail : List Char} {nums : List (List Char)}
      (hseps : ∀ c ∈ seps, isSeparator c = true) (hds : IsNumeral ds)
      (htail : ∃ c ∈ tail.head?, isSeparator c = true) (h : ListText tail nums) :
      ListText (seps ++ (ds ++ tail)) (ds :: nums)

theorem ListText.ne_nil {s : List Char} {nums : List (List Char)} (h : ListText s nums) :
    nums ≠ [] := by
  cases h <;> exact List.cons_ne_nil _ _

/-- A numeral alone is a list. -/
theorem IsNumeral.listText {ds : List Char} (h : IsNumeral ds) : ListText ds [ds] := by
  have hlist := ListText.last no_separators h no_separators
  rwa [List.append_nil, List.nil_append] at hlist

theorem not_isDigit_of_isSeparator {c : Char} (h : isSeparator c = true) : c.isDigit = false := by
  rw [Bool.eq_false_iff]
  intro hd
  rw [isDigit_not_isSeparator hd] at h
  cases h

/-- A list is read to its end. -/
theorem ListText.reads {s : List Char} {nums : List (List Char)} (h : ListText s nums) :
    Reads s nums [] := by
  induction h with
  | @last seps ds trail hseps hds htrail =>
    have hend : Reads (trail ++ []) [] [] := .done htrail nofun
    rw [List.append_nil] at hend
    refine .item hseps hds (fun c hc => ?_) hend
    exact not_isDigit_of_isSeparator (htrail c (List.mem_of_head? hc))
  | more hseps hds htail _ ih =>
    refine .item hseps hds (fun c hc => ?_) ih
    obtain ⟨c', hc', hsep⟩ := htail
    rw [Option.mem_unique hc hc']
    exact not_isDigit_of_isSeparator hsep

/-- A text that starts with its next numeral or with a separator in front of it, and not with a
    digit, starts with a separator. -/
theorem separator_head {seps ds tail : List Char} (hseps : ∀ c ∈ seps, isSeparator c = true)
    (hds : IsNumeral ds) (h : ∀ c ∈ (seps ++ (ds ++ tail)).head?, c.isDigit = false) :
    ∃ c ∈ (seps ++ (ds ++ tail)).head?, isSeparator c = true := by
  cases seps with
  | cons c seps => exact ⟨c, rfl, hseps c List.mem_cons_self⟩
  | nil =>
    obtain ⟨hne, hds⟩ := hds
    cases ds with
    | nil => exact absurd rfl hne
    | cons d ds =>
      have hd := h d rfl
      rw [hds d List.mem_cons_self] at hd
      cases hd

/-- A text read to its end that names a number is a list. -/
theorem Reads.listText {s rest : List Char} {nums : List (List Char)} (h : Reads s nums rest)
    (hrest : rest = []) (hne : nums ≠ []) : ListText s nums := by
  induction h with
  | done => exact absurd rfl hne
  | @item seps ds tail rest nums hseps hds htail h ih =>
    cases h with
    | @done trail _ htrail _ =>
      rw [hrest, List.append_nil]
      exact .last hseps hds htrail
    | item hseps' hds' _ _ =>
      exact .more hseps hds (separator_head hseps' hds' htail) (ih hrest (List.cons_ne_nil _ _))

theorem ListText.items_eq {s : List Char} {nums : List (List Char)} (h : ListText s nums) :
    items s = (nums, []) := h.reads.items_eq

theorem not_converts_nil : ¬ Converts [] := fun h => h rfl

/-! ## 2. The values -/

/-- A numeral below `2 ^ 32` is stored as the value it denotes. -/
theorem numeralCell_of_lt {ds : List Char} (h : numeralValue ds < 2 ^ 32) :
    numeralCell ds = UInt32.ofNat (numeralValue ds) := by
  have hmax : ¬ ULONG_MAX.toNat < Nat.ofDigitChars 10 ds 0 := by
    have : ULONG_MAX.toNat = 2 ^ 64 - 1 := rfl
    have h' : Nat.ofDigitChars 10 ds 0 < 2 ^ 32 := h
    omega
  rw [numeralCell, strtoulValue, if_neg hmax, if_neg Bool.false_ne_true, UInt64.toUInt32_ofNat']
  rfl

/-- The numerals denote the values. -/
def Denote (nums : List (List Char)) (values : List UInt32) : Prop :=
  List.Forall₂ (fun ds v => numeralValue ds = v.toNat) nums values

theorem Denote.cells {nums : List (List Char)} {values : List UInt32} (h : Denote nums values) :
    nums.map numeralCell = values := by
  induction h with
  | nil => rfl
  | @cons ds v nums values hv _ ih =>
    have hlt : numeralValue ds < 2 ^ 32 := hv ▸ v.toNat_lt
    rw [List.map_cons, ih, numeralCell_of_lt hlt, hv, UInt32.ofNat_toNat]

theorem Denote.length_eq {nums : List (List Char)} {values : List UInt32}
    (h : Denote nums values) : nums.length = values.length := List.Forall₂.length_eq h

/-! ## 3. Reading back -/

/-- The import of a list that fits within `number`. -/
theorem ListText.import_eq {ps : Flist} {s : List Char} {nums : List (List Char)}
    (h : ListText s nums) (hm : ps.magic = BSTG_FLIST_MAGIC) (hps : ps.Sized)
    (hfit : nums.length ≤ ps.number.toNat) :
    bstgFlistImport ps s =
      .ok (ps.opened (overwrite ps.pindex 0 (nums.map numeralCell)) (UInt32.ofNat nums.length),
        0) := by
  have himp := h.reads.import_ended hm hps hfit not_converts_nil
  rwa [if_neg fun hnil => h.ne_nil hnil.1] at himp

/-- What an import that succeeds installs: the values, and all of them as the window. -/
structure Flist.Installed (ps : Flist) (values : List UInt32) : Prop where
  lower : ps.lower = 0
  upper : ps.upper.toNat = values.length
  number : ps.number.toNat = values.length
  cells : ps.pindex.take values.length = values

/-- The draws from a list installed: the value at the index modulo their number. -/
theorem Flist.Installed.get {ps : Flist} {values : List UInt32} (h : ps.Installed values)
    (hne : values ≠ []) (index : UInt32) :
    ∃ v, values[index.toNat % values.length]? = some v ∧ bstgFlistGet ps index = .ok v.toInt32 := by
  have hpos : 0 < values.length := List.length_pos_iff.mpr hne
  have hlt : ps.lower < ps.upper := by
    rw [UInt32.lt_iff_toNat_lt, h.lower, h.upper]
    exact hpos
  have hle : ps.upper.toNat ≤ ps.pindex.length := by
    rw [h.upper]
    exact (List.prefix_iff_eq_take.mpr h.cells.symm).length_le
  obtain ⟨v, hv, hget⟩ := flistGet_spec hlt hle index
  rw [h.lower, h.upper, UInt32.toNat_zero, Nat.sub_zero, Nat.zero_add] at hv
  refine ⟨v, ?_, hget⟩
  have hfront := List.getElem?_take_of_lt (l := ps.pindex) (Nat.mod_lt index.toNat hpos)
  rw [h.cells, hv] at hfront
  exact hfront

/-- What the import of numerals leaves, as far as it is the values they denote. -/
theorem installed_of_denote {ps : Flist} {nums : List (List Char)} {values : List UInt32}
    (hnums : Denote nums values) (hps : ps.Sized) (hfit : nums.length ≤ ps.number.toNat) :
    Flist.Installed
      (ps.opened (overwrite ps.pindex 0 (nums.map numeralCell)) (UInt32.ofNat nums.length))
      values := by
  have hlen : (UInt32.ofNat nums.length).toNat = values.length := by
    rw [UInt32.toNat_ofNat', hnums.length_eq, Nat.mod_eq_of_lt]
    rw [← hnums.length_eq]
    exact Nat.lt_of_le_of_lt (Nat.le_trans hfit hps.1) hps.2
  refine ⟨rfl, hlen, hlen, ?_⟩
  rw [hnums.cells]
  exact take_overwrite ps.pindex values

/-- The call is no import. -/
def NotImport : FlistCall → Prop
  | .importList _ => False
  | _ => True

/-- Until an import, `number` is what the list was initialised with. -/
theorem number_of_run {old ps : Flist} {n : UInt32} {calls : List FlistCall}
    (hcalls : ∀ c ∈ calls, NotImport c)
    (h : run flistNext (bstgFlistInit old n true).1 calls = .ok ps) : ps.number = n := by
  have hinit : (bstgFlistInit old n true).1.number = n := rfl
  refine (always_of_eachStep (I := fun ps => ps.number = n) hinit ?_
    (.of_forall hcalls)).final h
  intro s c s' hs hc hstep
  cases c with
  | set lower upper =>
    cases hstep
    rw [flistSet_spec]
    split <;> exact hs
  | shuffle words =>
    obtain ⟨⟨s₁, words', rc⟩, hshuffle, hstep⟩ := exec_bind_inv hstep
    obtain ⟨_, -, hshuffle⟩ := exec_bind_inv hshuffle
    obtain ⟨_, -, hshuffle⟩ := exec_bind_inv hshuffle
    cases hshuffle
    cases hstep
    exact hs
  | importList options => exact hc.elim

/-- Every list that fits is read back, however its numbers are written and separated. -/
theorem import_reads_back (old : Flist) (n : UInt32) (calls : List FlistCall)
    (hcalls : ∀ c ∈ calls, NotImport c) (ps : Flist)
    (hrun : run flistNext (bstgFlistInit old n true).1 calls = .ok ps) (values : List UInt32)
    (hfit : values.length ≤ n.toNat) (text : List Char) (nums : List (List Char))
    (htext : ListText text nums) (hnums : Denote nums values) :
    ∃ ps', bstgFlistImport ps text = .ok (ps', 0) ∧ ps'.Installed values ∧
      ps'.pindex.drop values.length = ps.pindex.drop values.length ∧
      ∀ index : UInt32, ∃ v, values[index.toNat % values.length]? = some v ∧
        bstgFlistGet ps' index = .ok v.toInt32 := by
  have hkept := kept_of_run hrun
  have hlen : nums.length ≤ ps.number.toNat := by
    rw [hnums.length_eq, number_of_run hcalls hrun]
    exact hfit
  have hinst := installed_of_denote hnums hkept.sized hlen
  have hne : values ≠ [] := by
    intro hnil
    have hzero := hnums.length_eq
    rw [hnil] at hzero
    exact htext.ne_nil (List.eq_nil_of_length_eq_zero hzero)
  refine ⟨_, htext.import_eq hkept.magic hkept.sized hlen, hinst, ?_, hinst.get hne⟩
  rw [hnums.cells]
  exact drop_overwrite ps.pindex values

/-- Leading zeros, each of the separators, several of them in a row: read back after a window was
    set on the fresh list. -/
theorem import_reads_back_run :
    ∃ ps', bstgFlistImport ((bstgFlistSet (bstgFlistInit ⟨0, [], 0, 0, 0⟩ 3 true).1 1 2).1)
        [' ', '0', '0', '7', ',', ' ', ':', '3', '3', ','] = .ok (ps', 0) ∧
      ps'.Installed [7, 33] ∧ ps'.pindex.drop 2 = [2] ∧
      ∀ index : UInt32, ∃ v, [(7 : UInt32), 33][index.toNat % 2]? = some v ∧
        bstgFlistGet ps' index = .ok v.toInt32 := by
  have hdigits : ∀ ds : List Char, ds ≠ [] → ds.all Char.isDigit = true → IsNumeral ds :=
    fun ds hne hall => ⟨hne, List.all_eq_true.mp hall⟩
  have hseps : ∀ s : List Char, s.all isSeparator = true → ∀ c ∈ s, isSeparator c = true :=
    fun s hall => List.all_eq_true.mp hall
  refine import_reads_back ⟨0, [], 0, 0, 0⟩ 3 [.set 1 2] (fun c hc => ?_) _ rfl [7, 33] (by decide)
    ([' '] ++ (['0', '0', '7'] ++ ([',', ' ', ':'] ++ (['3', '3'] ++ [',']))))
    [['0', '0', '7'], ['3', '3']] (.more (hseps _ rfl) (hdigits _ nofun rfl) ⟨',', rfl, rfl⟩
      (.last (hseps _ rfl) (hdigits _ nofun rfl) (hseps _ rfl))) (.cons rfl (.cons rfl .nil))
  rw [List.mem_singleton.mp hc]
  trivial

/-! ## 4. What is accepted -/

/-- An import that returns 0 has read a list of numerals below `2 ^ 32`, and installed their
    values. -/
def AcceptsOnlyLists (ps : Flist) (options : List Char) : Prop :=
  ∀ ps', bstgFlistImport ps options = .ok (ps', 0) →
    ∃ nums values, ListText options nums ∧ Denote nums values ∧ ps'.Installed values

/-- The numerals the text starts with fit, and behind the last of them `strtoul` finds no further
    number. -/
def EndsWithin (ps : Flist) (options : List Char) : Prop :=
  1 ≤ (items options).1.length ∧ (items options).1.length ≤ ps.number.toNat ∧
    ¬ Converts (items options).2

instance (ps : Flist) (options : List Char) : Decidable (EndsWithin ps options) :=
  inferInstanceAs (Decidable (_ ∧ _ ∧ _))

/-- An import that ends within the list returns 0, whatever text it leaves. -/
theorem import_of_endsWithin {ps : Flist} (hm : ps.magic = BSTG_FLIST_MAGIC) (hps : ps.Sized)
    {options : List Char} (h : EndsWithin ps options) :
    ∃ ps', bstgFlistImport ps options = .ok (ps', 0) := by
  obtain ⟨hpos, hfit, hend⟩ := h
  have himp := (items_reads options).import_ended hm hps hfit hend
  rw [if_neg fun hnil => List.length_pos_iff.mp hpos hnil.1] at himp
  exact ⟨_, himp⟩

/-- An import of a text that is not empty returns 0 only where it ends within the list; it leaves
    the cells of its numerals. -/
theorem endsWithin_of_import {ps ps' : Flist} (hm : ps.magic = BSTG_FLIST_MAGIC) (hps : ps.Sized)
    {options : List Char} (hne : options ≠ []) (h : bstgFlistImport ps options = .ok (ps', 0)) :
    EndsWithin ps options ∧
      ps' = ps.opened (overwrite ps.pindex 0 ((items options).1.map numeralCell))
        (UInt32.ofNat (items options).1.length) := by
  rcases (items_reads options).import_inv hm hps h with ⟨hfit, hend, hps', hrc⟩ | ⟨-, -, -, hrc⟩
  · refine ⟨⟨List.length_pos_iff.mpr fun hnil => ?_, hfit, hend⟩, hps'⟩
    rw [if_pos ⟨hnil, hne⟩] at hrc
    cases hrc
  · cases hrc

theorem Denote.lt {nums : List (List Char)} {values : List UInt32} (h : Denote nums values) :
    ∀ ds ∈ nums, numeralValue ds < 2 ^ 32 := by
  intro ds hds
  induction h with
  | nil => exact absurd hds List.not_mem_nil
  | @cons d v nums values hv _ ih =>
    rcases List.mem_cons.mp hds with rfl | hds
    · exact hv ▸ v.toNat_lt
    · exact ih hds

theorem denote_of_lt {nums : List (List Char)} (h : ∀ ds ∈ nums, numeralValue ds < 2 ^ 32) :
    Denote nums (nums.map fun ds => UInt32.ofNat (numeralValue ds)) := by
  induction nums with
  | nil => exact .nil
  | cons ds nums ih =>
    obtain ⟨hds, hnums⟩ := List.forall_mem_cons.mp h
    refine .cons ?_ (ih hnums)
    rw [UInt32.toNat_ofNat', Nat.mod_eq_of_lt hds]

/-- An import accepts nothing but lists of numerals below `2 ^ 32`, on every list reached, exactly
    when the text is not empty and an import that ends within the list has read the text to its end
    and no numeral too large for a cell. -/
theorem import_accepts_iff (old : Flist) (n : UInt32) (calls : List FlistCall) (ps : Flist)
    (hrun : run flistNext (bstgFlistInit old n true).1 calls = .ok ps) (options : List Char) :
    AcceptsOnlyLists ps options ↔
      options ≠ [] ∧ (EndsWithin ps options →
        (items options).2 = [] ∧ ∀ ds ∈ (items options).1, numeralValue ds < 2 ^ 32) := by
  have hkept := kept_of_run hrun
  constructor
  · intro h
    refine ⟨?_, fun hends => ?_⟩
    · rintro rfl
      obtain ⟨nums, values, htext, -⟩ := h _ (flistImport_empty hkept.magic)
      exact htext.ne_nil (Prod.mk.inj htext.items_eq).1.symm
    · obtain ⟨ps', himp⟩ := import_of_endsWithin hkept.magic hkept.sized hends
      obtain ⟨nums, values, htext, hnums, -⟩ := h ps' himp
      rw [htext.items_eq]
      exact ⟨rfl, hnums.lt⟩
  · intro ⟨hne, h⟩ ps' himp
    obtain ⟨hends, rfl⟩ := endsWithin_of_import hkept.magic hkept.sized hne himp
    obtain ⟨hrest, hlt⟩ := h hends
    have hnums := denote_of_lt hlt
    exact ⟨_, _, (items_reads options).listText hrest (List.length_pos_iff.mp hends.1), hnums,
      installed_of_denote hnums hkept.sized hends.2.1⟩

/-- Three numerals, with each separator and a leading zero, on the list mkpax initialises; the last is
    the last a cell can hold. -/
theorem import_accepts_iff_run :
    AcceptsOnlyLists (bstgFlistInit ⟨0, [], 0, 0, 0⟩ 102 true).1 "07, 95:4294967295,".toList :=
  (import_accepts_iff ⟨0, [], 0, 0, 0⟩ 102 [] _ rfl _).mpr
    ⟨nofun, fun _ => ⟨by decide +kernel, by decide +kernel⟩⟩

/-- The failing text: a letter is left behind the numeral, and the import
    returns 0. -/
theorem import_ignores_rest :
    bstgFlistImport (bstgFlistInit ⟨0, [], 0, 0, 0⟩ 2 true).1 ['7', 'x'] =
        .ok (⟨BSTG_FLIST_MAGIC, [7, 1], 1, 0, 1⟩, 0) ∧
      ¬ AcceptsOnlyLists (bstgFlistInit ⟨0, [], 0, 0, 0⟩ 2 true).1 ['7', 'x'] := by
  have himp : bstgFlistImport (bstgFlistInit ⟨0, [], 0, 0, 0⟩ 2 true).1 ['7', 'x'] =
      .ok (⟨BSTG_FLIST_MAGIC, [7, 1], 1, 0, 1⟩, 0) := by decide +kernel
  refine ⟨himp, fun h => ?_⟩
  obtain ⟨nums, values, htext, -⟩ := h _ himp
  have hrest : (items ['7', 'x']).2 = [] := congrArg Prod.snd htext.items_eq
  exact absurd hrest (by decide)

end Fembot
