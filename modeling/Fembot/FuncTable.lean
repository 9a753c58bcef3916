/-
  File:      Fembot/FuncTable.lean
  Subject:   THE TABLE OF OPERATIONS (`src/funcs`): the C identifiers that the three scripts make of
             the listed paths, and which function an entry of `bstg_fembot_funcs` is.

  * `funcIdent` -- the two substitutions of the scripts: every '/' becomes '_', every ".c" goes;
  * `mkfuncs`, `mkproto`, `mktable` -- what the scripts print, for the files make hands them;
  * `Alike` -- two paths that can be read side by side, '/' standing for '_' and ".c" for nothing;
  * `dispatches_iff` -- the table runs the listed operations exactly when no two are alike.

  A path is a word of make's, and `echo` prints it as it is.
-/
import Mathlib.Data.List.Nodup
import Mathlib.Tactic.Common

namespace Fembot

/-! ## 1. The scripts -/

/-- `sed 's/\//_/g'` on one character. -/
def slashChar (c : Char) : Char := if c = '/' then '_' else c

/-- `sed 's/\//_/g'` -/
def sedSlash (s : List Char) : List Char := s.map slashChar

/-- `sed 's/[.]c//g'` -/
def sedDotC : List Char → List Char
  | '.' :: 'c' :: s => sedDotC s
  | c :: s => c :: sedDotC s
  | [] => []

/-- `FUNC` of the three scripts, for the file `pname`. -/
def funcIdent (pname : List Char) : List Char := sedDotC (sedSlash pname)

/-- make's `$(basename ..)`: what stands before the last period of the last component. -/
def makeBasename (path : List Char) : List Char :=
  match path.reverse.dropWhile fun c => c ≠ '.' ∧ c ≠ '/' with
  | '.' :: rest => rest.reverse
  | _ => path

/-- The file generated for a listed path: `%_bstg_funcs.c`. -/
def generated (path : List Char) : List Char := makeBasename path ++ "_bstg_funcs.c".toList

/-- A function that `mkfuncs.sh` prints: its name, and the file its body includes. -/
structure GenFunc where
  name : List Char
  ssrc : List Char
  deriving DecidableEq, Repr

/-- `mkfuncs.sh` -/
def mkfuncs (ssrc dest : List Char) : GenFunc := ⟨funcIdent dest, ssrc⟩

/-- `mkproto.sh`: the names it declares. -/
def mkproto (pnames : List (List Char)) : List (List Char) := pnames.map funcIdent

/-- `mktable.sh`: the names of the entries of `bstg_fembot_funcs`. -/
def mktable (pnames : List (List Char)) : List (List Char) := pnames.map funcIdent

/-- The functions in `libfembotfuncs.a`, in the order of `list.txt`. -/
def libfembotfuncs (list : List (List Char)) : List GenFunc :=
  list.map fun path => mkfuncs (makeBasename path ++ ".c".toList) (generated path)

/-- Entry `i` of `bstg_fembot_funcs` in a linked program: the linker takes the first function of the
    library that has the name. -/
def bstgFembotFuncs (list : List (List Char)) (i : Nat) : Option GenFunc :=
  match (mktable (list.map generated))[i]? with
  | some name => (libfembotfuncs list).find? fun f => f.name = name
  | none => none

/-! ## 2. The substitutions -/

/-- The text starts with ".c". -/
def StartsDotC (s : List Char) : Prop := ∃ t, s = '.' :: 'c' :: t

theorem sedDotC_cons {c : Char} {s : List Char} (h : ¬ StartsDotC (c :: s)) :
    sedDotC (c :: s) = c :: sedDotC s := by
  refine sedDotC.eq_2 c s fun t hc hs => h ⟨t, ?_⟩
  rw [hc, hs]

theorem not_startsDotC {c : Char} {s : List Char} (h : ∀ t, c = '.' → s = 'c' :: t → False) :
    ¬ StartsDotC (c :: s) := by
  rintro ⟨t, ht⟩
  obtain ⟨hc, hs⟩ := List.cons.inj ht
  exact h t hc hs

/-- No ".c" is read across a character that is no 'c'. -/
theorem sedDotC_append (s : List Char) {d : Char} (t : List Char) (hd : d ≠ 'c') :
    sedDotC (s ++ d :: t) = sedDotC s ++ sedDotC (d :: t) := by
  induction s using sedDotC.induct with
  | case1 s ih => exact ih
  | case2 c s hs ih =>
    have hno := not_startsDotC hs
    have hno' : ¬ StartsDotC (c :: (s ++ d :: t)) := by
      rintro ⟨u, hu⟩
      obtain ⟨hc, hu⟩ := List.cons.inj hu
      cases s with
      | nil => exact hd (List.cons.inj hu).1
      | cons e s => exact hno ⟨s, by rw [hc, (List.cons.inj hu).1]⟩
    rw [List.cons_append, sedDotC_cons hno', sedDotC_cons hno, ih, List.cons_append]
  | case3 => rfl

theorem slashChar_eq_dot {c : Char} : slashChar c = '.' ↔ c = '.' := by
  unfold slashChar
  split
  · rename_i h
    simp [h]
  · rfl

theorem slashChar_eq_c {c : Char} : slashChar c = 'c' ↔ c = 'c' := by
  unfold slashChar
  split
  · rename_i h
    simp [h]
  · rfl

/-- The two substitutions do not touch each other's text. -/
theorem sedDotC_sedSlash (s : List Char) : sedDotC (sedSlash s) = sedSlash (sedDotC s) := by
  induction s using sedDotC.induct with
  | case1 s ih => exact ih
  | case2 c s hs ih =>
    have hno := not_startsDotC hs
    have hno' : ¬ StartsDotC (slashChar c :: sedSlash s) := by
      rintro ⟨u, hu⟩
      obtain ⟨hc, hu⟩ := List.cons.inj hu
      cases s with
      | nil => cases hu
      | cons e s =>
        refine hno ⟨s, ?_⟩
        rw [slashChar_eq_dot.mp hc, slashChar_eq_c.mp (List.cons.inj hu).1]
    show sedDotC (slashChar c :: sedSlash s) = _
    rw [sedDotC_cons hno', sedDotC_cons hno, ih]
    rfl
  | case3 => rfl

/-! ## 3. Alike paths -/

/-- The characters that one character of an identifier can come from. -/
def SameChar (c d : Char) : Prop := c = d ∨ c = '/' ∧ d = '_' ∨ c = '_' ∧ d = '/'

theorem slashChar_eq_iff {c d : Char} : slashChar c = slashChar d ↔ SameChar c d := by
  unfold slashChar SameChar
  by_cases hc : c = '/'
  · by_cases hd : d = '/'
    · simp [hc, hd]
    · simp [hc, hd, eq_comm]
  · by_cases hd : d = '/'
    · simp [hc, hd]
    · simp [hc, hd]

/-- Two texts read side by side: each ".c" of either is passed over, and of the other characters
    the same come in the same order, up to '/' for '_'. -/
inductive Alike : List Char → List Char → Prop
  | nil : Alike [] []
  | dropLeft {p q : List Char} (h : Alike p q) : Alike ('.' :: 'c' :: p) q
  | dropRight {p q : List Char} (h : Alike p q) : Alike p ('.' :: 'c' :: q)
  | char {c d : Char} {p q : List Char} (hp : ¬ StartsDotC (c :: p)) (hq : ¬ StartsDotC (d :: q))
      (hcd : SameChar c d) (h : Alike p q) : Alike (c :: p) (d :: q)

/-- Alike texts are those that the substitutions make equal. -/
theorem alike_iff {p q : List Char} :
    Alike p q ↔ sedSlash (sedDotC p) = sedSlash (sedDotC q) := by
  constructor
  · intro h
    induction h with
    | nil => rfl
    | dropLeft _ ih => exact ih
    | dropRight _ ih => exact ih
    | char hp hq hcd _ ih =>
      rw [sedDotC_cons hp, sedDotC_cons hq]
      exact congrArg₂ List.cons (slashChar_eq_iff.mpr hcd) ih
  · -- on the left text by its scan, and at each stop of that on the right text
    intro h
    induction p using sedDotC.induct generalizing q with
    | case1 p ih => exact .dropLeft (ih h)
    | case2 c p hp ih =>
      have hp := not_startsDotC hp
      induction q using sedDotC.induct with
      | case1 q ihq => exact .dropRight (ihq h)
      | case2 d q hq _ =>
        have hq := not_startsDotC hq
        rw [sedDotC_cons hp, sedDotC_cons hq] at h
        obtain ⟨hcd, hrest⟩ := List.cons.inj h
        exact .char hp hq (slashChar_eq_iff.mp hcd) (ih hrest)
      | case3 =>
        rw [sedDotC_cons hp] at h
        cases h
    | case3 =>
      induction q using sedDotC.induct with
      | case1 q ihq => exact .dropRight (ihq h)
      | case2 d q hq _ =>
        rw [sedDotC_cons (not_startsDotC hq)] at h
        cases h
      | case3 => exact .nil

/-! ## 4. The table -/

theorem makeBasename_dotC (base : List Char) : makeBasename (base ++ ['.', 'c']) = base := by
  simp [makeBasename]

/-- The identifier of a listed path: what the substitutions make of the path, with a suffix. -/
theorem funcIdent_generated (base : List Char) :
    funcIdent (generated (base ++ ['.', 'c'])) =
      sedSlash (sedDotC (base ++ ['.', 'c'])) ++ "_bstg_funcs".toList := by
  have hsuffix : "_bstg_funcs.c".toList = '_' :: "bstg_funcs.c".toList := rfl
  have hbase : sedDotC (base ++ ['.', 'c']) = sedDotC base := by
    rw [sedDotC_append base ['c'] (by decide)]
    exact List.append_nil _
  rw [funcIdent, generated, makeBasename_dotC, sedDotC_sedSlash, hsuffix,
    sedDotC_append base _ (by decide), hbase, sedSlash, List.map_append]
  rfl

/-- A listed path names a C file. -/
def IsSource (path : List Char) : Prop := ∃ base, path = base ++ ['.', 'c']

theorem ident_eq_iff {p q : List Char} (hp : IsSource p) (hq : IsSource q) :
    funcIdent (generated p) = funcIdent (generated q) ↔ Alike p q := by
  obtain ⟨bp, rfl⟩ := hp
  obtain ⟨bq, rfl⟩ := hq
  rw [funcIdent_generated, funcIdent_generated, List.append_left_inj, alike_iff]

/-- The function generated for a listed path. -/
theorem mkfuncs_generated {path : List Char} (h : IsSource path) :
    mkfuncs (makeBasename path ++ ".c".toList) (generated path) =
      ⟨funcIdent (generated path), path⟩ := by
  obtain ⟨base, rfl⟩ := h
  rw [makeBasename_dotC]
  rfl

/-- The identifiers are distinct, those declared and those of the table, and entry i of the table is
    the function generated from the i-th listed file. -/
structure Dispatches (list : List (List Char)) : Prop where
  declared : (mkproto (list.map generated)).Nodup
  distinct : (mktable (list.map generated)).Nodup
  entries : ∀ (i : Nat) (path : List Char), list[i]? = some path →
    bstgFembotFuncs list i = some ⟨funcIdent (generated path), path⟩

/-- Where no two identifiers are the same, the linker finds each function. -/
theorem find_generated {list : List (List Char)} (hsrc : ∀ path ∈ list, IsSource path)
    (hinj : ∀ p ∈ list, ∀ q ∈ list, funcIdent (generated p) = funcIdent (generated q) → p = q)
    {path : List Char} (hmem : path ∈ list) :
    (libfembotfuncs list).find? (fun f => f.name = funcIdent (generated path)) =
      some ⟨funcIdent (generated path), path⟩ := by
  have hfunc : GenFunc.mk (funcIdent (generated path)) path ∈ libfembotfuncs list := by
    rw [← mkfuncs_generated (hsrc path hmem)]
    exact List.mem_map_of_mem hmem
  cases hfind : (libfembotfuncs list).find? fun f => f.name = funcIdent (generated path) with
  | none =>
    have hno := List.find?_eq_none.mp hfind _ hfunc
    exact absurd (decide_eq_true rfl) hno
  | some f =>
    obtain ⟨q, hq, rfl⟩ := List.mem_map.mp (List.mem_of_find?_eq_some hfind)
    have hname := List.find?_some hfind
    rw [mkfuncs_generated (hsrc q hq), decide_eq_true_eq] at hname
    rw [mkfuncs_generated (hsrc q hq), hinj q hq path hmem hname]

/-- For every list of C files: the table runs the listed operations exactly when no two paths of the
    list are alike. -/
theorem dispatches_iff (list : List (List Char)) (hsrc : ∀ path ∈ list, IsSource path) :
    Dispatches list ↔ list.Pairwise fun p q => ¬ Alike p q := by
  have hnodup : (mktable (list.map generated)).Nodup ↔ list.Pairwise fun p q => ¬ Alike p q := by
    rw [mktable, List.map_map, List.Nodup, List.pairwise_map]
    exact List.Pairwise.iff_of_mem fun hp hq =>
      not_congr (ident_eq_iff (hsrc _ hp) (hsrc _ hq))
  refine ⟨fun h => hnodup.mp h.distinct,
    fun h => ⟨hnodup.mpr h, hnodup.mpr h, fun i path hi => ?_⟩⟩
  have hinj : ∀ p ∈ list, ∀ q ∈ list,
      funcIdent (generated p) = funcIdent (generated q) → p = q := by
    have hmap := hnodup.mpr h
    rw [mktable, List.map_map] at hmap
    intro p hp q hq heq
    exact List.inj_on_of_nodup_map hmap hp hq heq
  have hentry : (mktable (list.map generated))[i]? = some (funcIdent (generated path)) := by
    rw [mktable, List.map_map, List.getElem?_map, hi]
    rfl
  rw [bstgFembotFuncs, hentry]
  exact find_generated hsrc hinj (List.mem_of_getElem? hi)

/-- Two operations of one directory. -/
theorem dispatches_iff_run :
    Dispatches ["src/open/rdwr.c".toList, "src/open/trunc.c".toList] ↔
      ["src/open/rdwr.c".toList, "src/open/trunc.c".toList].Pairwise fun p q => ¬ Alike p q := by
  refine dispatches_iff _ fun path hpath => ?_
  rcases List.mem_pair.mp hpath with rfl | rfl
  · exact ⟨"src/open/rdwr".toList, by decide⟩
  · exact ⟨"src/open/trunc".toList, by decide⟩

/-- The failing list: an operation that has been listed, and a new one. Their functions share their
    name, and the second entry is the first function. -/
theorem posix_spawn_shadows :
    ["special/posix_spawn.c".toList, "special/posix/spawn.c".toList].Nodup ∧
      mktable (["special/posix_spawn.c".toList, "special/posix/spawn.c".toList].map generated) =
        ["special_posix_spawn_bstg_funcs".toList, "special_posix_spawn_bstg_funcs".toList] ∧
      bstgFembotFuncs ["special/posix_spawn.c".toList, "special/posix/spawn.c".toList] 1 =
        some ⟨"special_posix_spawn_bstg_funcs".toList, "special/posix_spawn.c".toList⟩ ∧
      ¬ Dispatches ["special/posix_spawn.c".toList, "special/posix/spawn.c".toList] := by
  have htable : mktable
      (["special/posix_spawn.c".toList, "special/posix/spawn.c".toList].map generated) =
        ["special_posix_spawn_bstg_funcs".toList, "special_posix_spawn_bstg_funcs".toList] := by
    decide +kernel
  refine ⟨by decide +kernel, htable, by decide +kernel, fun h => ?_⟩
  have hnodup := h.distinct
  rw [htable, List.nodup_cons] at hnodup
  exact hnodup.1 List.mem_cons_self

end Fembot
