/-
  File:      Fembot/Libc.lean
  Subject:   The C the sources rest on: what ends a computation without a result, access to
             allocated cells, and the library functions the sources call on text and buffers.

  * `Exec` -- a C computation: a result, or the `Fault` that ended it;
  * `load`, `store` -- one access to an allocated array, a fault outside it;
  * `strspn`, `strtoul` -- the two text functions of `bstg_flist_import` and of mkpax's `-J`,
    on a NUL-terminated string written as the list of its characters;
  * `realloc`, `strlcat`, `cString` -- the buffer functions of the two archive readers, on the
    list of the allocated bytes;
  * `printfPRIu64` -- the line mkpax prints for one number.
-/
import Fembot.Library.Terminated
import Mathlib.Algebra.Group.Nat.Defs

namespace Fembot

/-! ## 1. Computations -/

/-- What ends a C computation without a result. `outOfFuel` belongs to the model only: it marks
    a loop cut off by its bound, and no loop below ever ends so. -/
inductive Fault where
  | outOfBounds (index : Nat)
  | divisionByZero
  | assertion
  | errx (code : Int)
  | outOfFuel
  deriving DecidableEq, Repr

/-- A C computation that ends with a value or with a fault. -/
abbrev Exec (α : Type) := Except Fault α

@[simp] theorem exec_bind_ok {α β : Type} (a : α) (f : α → Exec β) :
    ((.ok a : Exec α) >>= f) = f a := rfl

@[simp] theorem exec_bind_error {α β : Type} (e : Fault) (f : α → Exec β) :
    ((.error e : Exec α) >>= f) = .error e := rfl

@[simp] theorem exec_pure {α : Type} (a : α) : (pure a : Exec α) = .ok a := rfl

/-- A sequence that ends well: both of its parts do. -/
theorem exec_bind_inv {α β : Type} {x : Exec α} {f : α → Exec β} {b : β}
    (h : (x >>= f) = .ok b) : ∃ a, x = .ok a ∧ f a = .ok b := by
  cases x with
  | error e => cases h
  | ok a => exact ⟨a, rfl, h⟩

/-- The C `assert`. -/
def assert (p : Prop) [Decidable p] : Exec Unit :=
  if p then .ok () else .error .assertion

theorem assert_pos {p : Prop} [Decidable p] (h : p) : assert p = .ok () := if_pos h

/-! ## 2. Allocated cells -/

/-- The read `cells[i]`. -/
def load {α : Type} (cells : List α) (i : Nat) : Exec α :=
  match cells[i]? with
  | some v => .ok v
  | none => .error (.outOfBounds i)

/-- The write `cells[i] = v`. -/
def store {α : Type} (cells : List α) (i : Nat) (v : α) : Exec (List α) :=
  if i < cells.length then .ok (cells.set i v) else .error (.outOfBounds i)

theorem load_ok {α : Type} {cells : List α} {i : Nat} (h : i < cells.length) :
    load cells i = .ok cells[i] := by
  simp only [load, List.getElem?_eq_getElem h]

theorem store_ok {α : Type} {cells : List α} {i : Nat} (h : i < cells.length) (v : α) :
    store cells i v = .ok (cells.set i v) := if_pos h

/-- The sum of two `u_int32_t` that does not wrap. -/
theorem toNat_add_of_lt {a b : UInt32} (h : a.toNat + b.toNat < 2 ^ 32) :
    (a + b).toNat = a.toNat + b.toNat := by
  rw [UInt32.toNat_add]
  exact Nat.mod_eq_of_lt h

/-! ## 3. Text -/

/-- The C locale's `isspace`: the blank and the characters from `\t` to `\r`. -/
def isSpace (c : Char) : Bool := c == ' ' || (9 ≤ c.toNat && c.toNat ≤ 13)

/-- The `strspn` of the C library: the length of the longest prefix of `s` made of characters
    of `accept`. -/
def strspn (s accept : List Char) : Nat := (s.takeWhile fun c => accept.contains c).length

theorem drop_strspn (s accept : List Char) :
    s.drop (strspn s accept) = s.dropWhile fun c => accept.contains c := by
  have h := congrArg (List.drop (strspn s accept))
    (List.takeWhile_append_dropWhile (p := fun c => accept.contains c) (l := s))
  rw [← h, strspn, List.drop_left]

/-- The largest `unsigned long` (64 bits). -/
def ULONG_MAX : UInt64 := 0xFFFFFFFFFFFFFFFF

/-- What `strtoul` makes of a sign and the digits after it: the value saturates at `ULONG_MAX`,
    and a minus sign negates it in `unsigned long`. -/
def strtoulValue (neg : Bool) (digits : List Char) : UInt64 :=
  let n := Nat.ofDigitChars 10 digits 0
  if ULONG_MAX.toNat < n then ULONG_MAX
  else if neg then -(UInt64.ofNat n) else UInt64.ofNat n

/-- The optional sign `strtoul` reads, and the text behind it. -/
def strtoulSign : List Char → Bool × List Char
  | '-' :: t => (true, t)
  | '+' :: t => (false, t)
  | t => (false, t)

/-- The call `strtoul(s, &p, 10)`: the value and the text `p` points at. White space is skipped
    and one sign is read; without a digit there is no conversion, and `p` is `s`. -/
def strtoul (s : List Char) : UInt64 × List Char :=
  let t := strtoulSign (s.dropWhile isSpace)
  let digits := t.2.takeWhile Char.isDigit
  if digits = [] then (0, s) else (strtoulValue t.1 digits, t.2.dropWhile Char.isDigit)

theorem strtoulSign_digit {d : Char} (hd : d.isDigit = true) (t : List Char) :
    strtoulSign (d :: t) = (false, d :: t) := by
  unfold strtoulSign
  split
  · rename_i he
    rw [(List.cons.inj he).1] at hd
    exact absurd hd (by decide)
  · rename_i he
    rw [(List.cons.inj he).1] at hd
    exact absurd hd (by decide)
  · rfl

theorem isDigit_not_isSpace {c : Char} (h : c.isDigit = true) : isSpace c = false := by
  simp only [Char.isDigit, Bool.and_eq_true, decide_eq_true_eq, UInt32.le_iff_toNat_le] at h
  obtain ⟨h1, h2⟩ := h
  have h3 : 48 ≤ c.toNat := h1
  have hb : c ≠ ' ' := by
    rintro rfl
    exact absurd h3 (by decide)
  simp only [isSpace, Bool.or_eq_false_iff, beq_eq_false_iff_ne, ne_eq, hb, not_false_eq_true,
    true_and, Bool.and_eq_false_iff, decide_eq_false_iff_not]
  omega

/-- A numeral ends where the first character that is no digit stands. -/
theorem span_digits {ds rest : List Char} (hds : ∀ c ∈ ds, c.isDigit = true)
    (hrest : ∀ c ∈ rest.head?, c.isDigit = false) :
    (ds ++ rest).takeWhile Char.isDigit = ds ∧ (ds ++ rest).dropWhile Char.isDigit = rest := by
  rw [List.takeWhile_append_of_pos hds, List.dropWhile_append_of_pos hds]
  cases rest with
  | nil => simp
  | cons c rest =>
    have hc := hrest c rfl
    simp [hc]

/-- The conversion of a plain numeral: `strtoul` reads over the white space before it and stops
    behind its last digit. -/
theorem strtoul_numeral {ws ds rest : List Char} (hws : ∀ c ∈ ws, isSpace c = true)
    (hds : ∀ c ∈ ds, c.isDigit = true) (hne : ds ≠ [])
    (hrest : ∀ c ∈ rest.head?, c.isDigit = false) :
    strtoul (ws ++ (ds ++ rest)) = (strtoulValue false ds, rest) := by
  obtain ⟨htake, hdrop⟩ := span_digits hds hrest
  cases ds with
  | nil => exact absurd rfl hne
  | cons d ds =>
    have hd : d.isDigit = true := hds d List.mem_cons_self
    have hskip : (ws ++ ((d :: ds) ++ rest)).dropWhile isSpace = (d :: ds) ++ rest := by
      rw [List.dropWhile_append_of_pos hws]
      simp [isDigit_not_isSpace hd]
    have hsign : strtoulSign ((d :: ds) ++ rest) = (false, (d :: ds) ++ rest) :=
      strtoulSign_digit hd _
    simp only [strtoul, hskip, hsign, htake, hdrop, reduceCtorEq, if_false]

/-- The line `printf("%"PRIu64"\n", v)` writes. -/
def printfPRIu64 (v : UInt64) : List Char := Nat.toDigits 10 v.toNat ++ ['\n']

/-! ## 4. Buffers -/

/-- The call `realloc(buf, n)`: the common prefix is kept, the cells past the old end hold whatever
    the allocator's memory holds (`fresh`). -/
def realloc (buf : List UInt8) (n : Nat) (fresh : Nat → UInt8) : List UInt8 :=
  (List.range n).map fun i => buf[i]?.getD (fresh i)

@[simp] theorem length_realloc (buf : List UInt8) (n : Nat) (fresh : Nat → UInt8) :
    (realloc buf n fresh).length = n := by
  simp [realloc]

theorem getElem?_realloc (buf : List UInt8) (n : Nat) (fresh : Nat → UInt8) {i : Nat}
    (h : i < n) : (realloc buf n fresh)[i]? = some (buf[i]?.getD (fresh i)) := by
  simp [realloc, h]

/-- The BSD `strlcat(dst, src, dsize)`: the end of `dst` is looked for in its first `dsize` bytes;
    where no NUL stands there, nothing is appended and nothing is written. -/
def strlcat (dst src : List UInt8) (dsize : Nat) : List UInt8 :=
  let dlen := ((dst.take dsize).takeWhile (· ≠ 0)).length
  let n := dsize - dlen
  if n = 0 then dst
  else
    let copied := src.take (n - 1)
    dst.take dlen ++ copied ++ [0] ++ dst.drop (dlen + copied.length + 1)

/-- The call the two archive readers make, `strlcat(buf, "", 1)`, writes nothing new: either
    `buf[0]` is no NUL and the call gives up, or it is and is overwritten by itself. -/
theorem strlcat_empty_one {buf : List UInt8} (h : buf ≠ []) : strlcat buf [] 1 = buf := by
  cases buf with
  | nil => exact absurd rfl h
  | cons b buf =>
    by_cases hb : b = 0
    · subst hb
      simp [strlcat]
    · simp [strlcat, hb]

/-- The C string at the start of a buffer: the bytes up to the first NUL; `none` where no
    allocated byte is a NUL, and reading the string runs off the allocation. -/
def cString (buf : List UInt8) : Option (List UInt8) := Library.upTo 0 buf

end Fembot
