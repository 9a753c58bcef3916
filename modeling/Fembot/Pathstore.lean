/-
  File:      Fembot/Pathstore.lean
  Subject:   THE NAMES THE OPERATIONS USE: every path that a call hands to the file system is below
             BASEDIR by its name, whatever the operations and the answers.

  `bstg_pathstore_get` gives names of a table. What an operation makes of one is the name itself or
  its directory (`dirname`), which is below BASEDIR as long as the name is two levels below; the
  three names an operation has of its own are two of BASEDIR and the program `/usr/bin/gcore`.

  * `Below` -- the name of something so many levels below a directory, without `..`;
  * `dirname_append`, `dirname_below` -- what `dirname` leaves;
  * `bstgPathstore`, `clodaghPathstore` -- the tables of the library and of clodagh;
  * `names_confined` -- over every run.
-/
import Fembot.Bystanders

namespace Fembot

open Library

/-! ## 1. Names -/

/-- The path of the components, from `basedir` on. -/
def pathOf (basedir : Path) (components : List Path) : Path :=
  basedir ++ components.flatMap fun c => '/' :: c

/-- The component names an entry of a directory, and not the directory above. -/
def IsName (c : Path) : Prop := c ≠ [] ∧ '/' ∉ c ∧ c ≠ "..".toList

instance (c : Path) : Decidable (IsName c) := by unfold IsName; infer_instance

/-- The path is, by its name, that of something `n` levels below `basedir` or more. -/
def Below (basedir : Path) (n : Nat) (p : Path) : Prop :=
  ∃ components, n ≤ components.length ∧ (∀ c ∈ components, IsName c) ∧ p = pathOf basedir components

variable {basedir : Path}

theorem Below.mono {m n : Nat} {p : Path} (h : Below basedir n p) (hmn : m ≤ n) : Below basedir m p := by
  obtain ⟨components, hn, hnames, hp⟩ := h
  exact ⟨components, Nat.le_trans hmn hn, hnames, hp⟩

theorem below_pathOf {components : List Path} (h : ∀ c ∈ components, IsName c) :
    Below basedir components.length (pathOf basedir components) :=
  ⟨components, Nat.le_refl _, h, rfl⟩

theorem pathOf_concat (basedir : Path) (components : List Path) (c : Path) :
    pathOf basedir (components ++ [c]) = pathOf basedir components ++ '/' :: c := by
  rw [pathOf, pathOf, List.flatMap_append, List.append_assoc, List.flatMap_singleton]

/-- What does not begin with a slash is not dropped. -/
theorem dropWhile_slash {l : Path} (h : l.head? ≠ some '/') : l.dropWhile (· = '/') = l := by
  cases l with
  | nil => rfl
  | cons x l =>
    have hx : ¬ x = '/' := fun hx => h (congrArg some hx)
    rw [List.dropWhile_cons_of_neg (by rwa [decide_eq_true_eq])]

/-- A last component is dropped, with the slash before it. -/
theorem dirname_append {front c : Path} (hfront : front ≠ []) (hlast : front.getLast? ≠ some '/')
    (hc : c ≠ []) (hslash : '/' ∉ c) : dirname (front ++ '/' :: c) = front := by
  have hreverse : (front ++ '/' :: c).reverse = c.reverse ++ '/' :: front.reverse := by
    rw [List.reverse_append, List.reverse_cons, List.append_assoc]
    rfl
  have hhead : (c.reverse ++ '/' :: front.reverse).head? ≠ some '/' := by
    rw [List.head?_append_of_ne_nil _ (List.reverse_ne_nil_iff.mpr hc), List.head?_reverse]
    exact fun h => hslash (List.mem_of_getLast? h)
  have hcomponent : (c.reverse ++ '/' :: front.reverse).dropWhile (· ≠ '/') = '/' :: front.reverse := by
    rw [List.dropWhile_append_of_pos]
    · rfl
    · intro x hx
      rw [decide_eq_true_eq]
      exact fun h => hslash (h ▸ List.mem_reverse.mp hx)
  have hdir : ('/' :: front.reverse).dropWhile (· = '/') = front.reverse := by
    rw [List.dropWhile_cons_of_pos (by decide)]
    exact dropWhile_slash (by rwa [List.head?_reverse])
  unfold dirname
  simp only [hreverse, dropWhile_slash hhead, hcomponent, hdir]
  rw [if_neg (List.reverse_ne_nil_iff.mpr hfront), List.reverse_reverse]

/-- The directory of what is two levels below is below. -/
theorem dirname_below {n : Nat} {p : Path} (h : Below basedir (n + 2) p) :
    Below basedir (n + 1) (dirname p) := by
  obtain ⟨components, hn, hnames, rfl⟩ := h
  obtain ⟨rest, c, rfl⟩ : ∃ rest c, components = rest ++ [c] :=
    ⟨_, _, (List.dropLast_append_getLast (List.ne_nil_of_length_pos (by omega))).symm⟩
  obtain ⟨first, d, rfl⟩ : ∃ first d, rest = first ++ [d] := by
    refine ⟨_, _, (List.dropLast_append_getLast (List.ne_nil_of_length_pos ?_)).symm⟩
    rw [List.length_append, List.length_singleton] at hn
    omega
  have hc : IsName c := hnames c (List.mem_append_right _ List.mem_cons_self)
  have hd : IsName d := hnames d
    (List.mem_append_left _ (List.mem_append_right _ List.mem_cons_self))
  have hlast : (pathOf basedir (first ++ [d])).getLast? ≠ some '/' := by
    rw [pathOf_concat, List.getLast?_append_of_ne_nil _ (List.cons_ne_nil _ _), List.getLast?_cons]
    cases hget : d.getLast? with
    | none => exact absurd (List.getLast?_eq_none_iff.mp hget) hd.1
    | some x => exact fun h => hd.2.1 (List.mem_of_getLast? (hget.trans (h ▸ rfl)))
  have hne : pathOf basedir (first ++ [d]) ≠ [] := by
    rw [pathOf_concat]
    exact List.append_ne_nil_of_right_ne_nil _ (List.cons_ne_nil _ _)
  rw [pathOf_concat, dirname_append hne hlast hc.1 hc.2.1]
  refine ⟨first ++ [d], ?_, fun x hx => hnames x (List.mem_append_left _ hx), rfl⟩
  rw [List.length_append, List.length_singleton] at hn
  omega

/-! ## 2. Tables -/

/-- The directories of `src/lib/pathstore.c`. -/
def pathstoreDirs : List (List Path) :=
  ["111".toList, "222".toList, "333".toList].flatMap fun a =>
    [a] :: ["111".toList, "222".toList, "333".toList].flatMap fun b =>
      [a, b] :: ["111".toList, "222".toList, "333".toList].map fun c => [a, b, c]

/-- The files of `src/lib/pathstore.c`. -/
def pathstoreFiles : List Path :=
  ["true".toList, "false".toList, "core".toList, "zero".toList, "command.com".toList,
    "AsTheStomachTurnsAroundAroundAround.mp3".toList]

/-- `bstg_pathstore` of `src/lib/pathstore.c`: the files in turn, each in every directory. -/
def bstgPathstore (basedir : Path) : List Path :=
  pathstoreFiles.flatMap fun file => pathstoreDirs.map fun dir => pathOf basedir (dir ++ [file])

/-- The directories of `src/clodagh/pathstore.h`. -/
def clodaghDirs : List Path :=
  ["111".toList, "222".toList, "333".toList, "444".toList, "555".toList, "666".toList, "777".toList,
    "888".toList, "999".toList, "aaa".toList, "bbb".toList, "ccc".toList, "ddd".toList, "eee".toList,
    "fff".toList]

/-- The files of `src/clodagh/pathstore.h`. -/
def clodaghFiles : List Path :=
  ["a".toList, "adir".toList, "afifo".toList, "ahole".toList, "b".toList, "c".toList,
    "ra81.dsk.Z".toList, "symlinkempty".toList, "true".toList, "true.sh".toList,
    "true.sh.truncate".toList, "true.truncate".toList, "true2".toList]

/-- `bstg_pathstore` of clodagh: the directories in turn, each with every file. -/
def clodaghPathstore : List Path :=
  clodaghDirs.flatMap fun dir => clodaghFiles.map fun file => pathOf "/mnt".toList [dir, file]

example : (bstgPathstore []).length = 234 ∧ clodaghPathstore.length = 195 := by decide +kernel

theorem below_bstgPathstore {p : Path} (h : p ∈ bstgPathstore basedir) : Below basedir 2 p := by
  obtain ⟨file, hfile, h⟩ := List.mem_flatMap.mp h
  obtain ⟨dir, hdir, rfl⟩ := List.mem_map.mp h
  have hdirs : ∀ dir ∈ pathstoreDirs, 1 ≤ dir.length ∧ ∀ c ∈ dir, IsName c := by decide
  have hfiles : ∀ file ∈ pathstoreFiles, IsName file := by decide
  refine (below_pathOf fun c hc => ?_).mono ?_
  · rcases List.mem_append.mp hc with hc | hc
    · exact (hdirs dir hdir).2 c hc
    · rw [List.mem_singleton.mp hc]
      exact hfiles file hfile
  · have := (hdirs dir hdir).1
    rw [List.length_append, List.length_singleton]
    omega

theorem below_clodaghPathstore {p : Path} (h : p ∈ clodaghPathstore) : Below "/mnt".toList 2 p := by
  obtain ⟨dir, hdir, h⟩ := List.mem_flatMap.mp h
  obtain ⟨file, hfile, rfl⟩ := List.mem_map.mp h
  have hdirs : ∀ dir ∈ clodaghDirs, IsName dir := by decide
  have hfiles : ∀ file ∈ clodaghFiles, IsName file := by decide
  have hnames : ∀ c ∈ [dir, file], IsName c := by
    intro c hc
    rcases List.mem_cons.mp hc with rfl | hc
    · exact hdirs _ hdir
    · rw [List.mem_singleton.mp hc]
      exact hfiles file hfile
  exact below_pathOf hnames

/-! ## 3. Runs -/

/-- What is held, and what is going to be given, is two levels below `basedir`. -/
structure Named (basedir : Path) (g : Held) (w : World) : Prop where
  held : ∀ p ∈ g.paths, Below basedir 2 p
  toCome : ∀ n, Below basedir 2 (w.paths n)

/-- A call takes some of the paths to come, and holds what it is given. -/
theorem call_named {g : Held} {c : Call} {u u' : World} {r : c.Ret} (h : Named basedir g u)
    (hs : handle c u = .ok (r, u')) : Named basedir (g.obtain c r) u' := by
  cases c with
  | path =>
    cases hs
    refine ⟨fun p hp => ?_, fun n => h.toCome (n + 1)⟩
    rcases List.mem_cons.mp hp with rfl | hp
    · exact h.toCome 0
    · exact h.held p hp
  | get2 flags =>
    obtain ⟨k, ps, -, rfl⟩ := World.store_inv hs
    exact ⟨h.held, fun n => h.toCome _⟩
  | onFd c fd =>
    obtain rfl := onFd_asked hs
    exact ⟨h.held, h.toCome⟩
  | onPath c path =>
    obtain rfl := onPath_asked hs
    exact ⟨h.held, h.toCome⟩
  | sync | readdirs | msync | posixMadvise | usleep | dlclose | getgroups0 | errno =>
    cases hs
    exact ⟨h.held, h.toCome⟩
  | fstat fd =>
    obtain rfl := world_eq hs
    unfold World.fstat
    split
    · exact ⟨h.held, h.toCome⟩
    · exact ⟨h.held, h.toCome⟩
  | opendir path =>
    refine ⟨?_, ?_⟩
    · cases r <;> exact h.held
    · rw [(handle_framed hs).paths nofun nofun]
      exact h.toCome
  | pipe =>
    refine ⟨?_, ?_⟩
    · cases r <;> exact h.held
    · rw [(handle_framed hs).paths nofun nofun]
      exact h.toCome
  | _ =>
    refine ⟨h.held, ?_⟩
    rw [(handle_framed hs).paths nofun nofun]
    exact h.toCome

/-- The names that a call hands to the file system are below `basedir`, and so is the program that
    it makes of the process, if it is not gcore. -/
def KeepsBelow (basedir : Path) (c : Call) : Prop :=
  (∀ p ∈ c.paths, Below basedir 1 p) ∧
    ∀ p ∈ c.programs, Below basedir 2 p ∨ p = "/usr/bin/gcore".toList

/-- What can be named from names two levels below is below. -/
theorem Nameable.below {paths : List Path} (h : ∀ p ∈ paths, Below basedir 2 p) {p : Path}
    (hp : Nameable basedir paths p) : Below basedir 1 p := by
  have hown : ∀ c : Path, IsName c → Below basedir 1 (basedir ++ '/' :: c) := fun c hc =>
    ⟨[c], Nat.le_refl _, fun x hx => by rwa [List.mem_singleton.mp hx], by simp [pathOf]⟩
  obtain hheld | hdir | rfl | rfl := hp
  · exact (h p hheld).mono (by decide)
  · obtain ⟨q, hq, rfl⟩ := List.mem_map.mp hdir
    exact dirname_below (h q hq)
  · exact hown "true".toList (by decide)
  · exact hown "tmp".toList (by decide)

theorem Uses.keepsBelow {g : Held} {c : Call} (h : Uses basedir g c)
    (hg : ∀ p ∈ g.paths, Below basedir 2 p) : KeepsBelow basedir c :=
  ⟨fun p hp => (h.paths p hp).below hg, fun p hp => (h.programs p hp).imp (hg p) id⟩

theorem names_keeps (basedir : Path) (pf : Funcs) :
    Keeps basedir pf (Named basedir ⟨[], []⟩) fun c _ => KeepsBelow basedir c where
  func i w hI := by
    have keep : ∀ (g : Held) (c : Call) (u : World) (r : c.Ret) (u' : World),
        UsesOrAnnounces basedir pf g c → True → Named basedir g u → handle c u = .ok (r, u') →
          Named basedir (g.obtain c r) u' := fun _ _ _ _ _ _ _ hN hs => call_named hN hs
    have hφ : ∀ (g : Held) (c : Call) (u : World), UsesOrAnnounces basedir pf g c → True →
        Named basedir g u → KeepsBelow basedir c := by
      intro g c u hU _ hN
      obtain huse | ⟨-, ⟨d, rfl⟩ | rfl | rfl⟩ := hU
      · exact huse.keepsBelow hN.held
      all_goals exact ⟨fun _ h => absurd h List.not_mem_nil, fun _ h => absurd h List.not_mem_nil⟩
    refine (Prog.meets_of_within keep hφ (fembotFunc_within basedir pf i)
      (Prog.meets_trivial _ w) hI).post fun _ u hu => ?_
    obtain ⟨-, g, hN⟩ := hu
    exact ⟨fun _ h => absurd h List.not_mem_nil, hN.toCome⟩

/-- A process that goes through the table of clodagh. -/
def clodaghWorld : World :=
  .started (Stream'.const ⟨true, 1⟩) (fun n => clodaghPathstore.getD (n % 195) [])
    (Stream'.const ⟨true, 0, ⟨0, 0⟩⟩)

end Fembot
