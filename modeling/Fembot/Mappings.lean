/-
  File:      Fembot/Mappings.lean
  Subject:   THE MEMORY OF THE POOL: what `bstg_funcs_init` maps (`src/lib/funcs.c`) is what
             `bstg_funcs_destroy` unmaps, whatever operations ran between.

  * `bstgFuncsInit`, `bstgFuncsDestroy` -- the two functions, as programs;
  * `Mapped`, `Settled` -- the pattern and the buffer are mapped; the pages and the signal handlers
    are those of a settled process;
  * `settled_keeps` -- every operation leaves a settled process settled, and each of its copies stays
    within what is mapped, or reads from a mapping that failed, under a handler that leads out;
  * `memory_given_back`, `copies_guarded` -- over every run.
-/
import Fembot.OperationRules

namespace Fembot

open Library

/-! ## 1. The functions -/

def BSTG_FUNCS_MAGIC : UInt32 := ~~~0xbeefabcd

/-- What `bstg_funcs_destroy` does with each of its two mappings. -/
def unmapIov (iov : IoVec) : Op IoVec := do
  if iov.base ≠ none then do
    let _ ← call (.munmap iov.base iov.len)
  pure { iov with base := none }

/-- `bstg_funcs_destroy` -/
def bstgFuncsDestroy (ps : Funcs) : Op (Int × Funcs) := do
  let pattern ← unmapIov ps.pattern
  let buffer ← unmapIov ps.buffer
  let ps := { ps with pattern := pattern, buffer := buffer }
  let rc ← call .fdstoreDestroy
  if rc ≠ 0 then pure (rc, ps)
  else do
    liftExec (assert (ps.magic = BSTG_FUNCS_MAGIC))
    pure (0, { ps with magic := ~~~BSTG_FUNCS_MAGIC })

/-- `bstg_funcs_init` -/
def bstgFuncsInit (verbose : Int) (length : Nat) : Op (Int × Funcs) := do
  let rc ← call .fdstoreInit
  let pattern ← call (.mmap length .PROT_WRITE .MAP_ANON none)
  let rc ←
    if pattern = none then call .errno
    else do
      call (.memset pattern length)
      call (.mprotect pattern length .PROT_READ)
      pure rc
  let buffer ← call (.mmap length .PROT_WRITE .MAP_ANON none)
  let rc ← if buffer = none then call .errno else pure rc
  let ps : Funcs := ⟨BSTG_FUNCS_MAGIC, verbose, ⟨pattern, length⟩, ⟨buffer, length⟩⟩
  if rc ≠ 0 then do
    let (_, ps) ← bstgFuncsDestroy ps
    pure (rc, ps)
  else pure (rc, ps)

/-! ## 2. Pages -/

theorem put_put (m : Memory) (b n : Nat) (x y : Option Prot) :
    (m.put b n x).put b n y = m.put b n y := by
  funext p
  unfold Memory.put
  split
  · rfl
  · rfl

theorem put_in (m : Memory) (b : Nat) {n i : Nat} (x : Option Prot) (hi : i < n) :
    m.put b n x (b + i) = x := if_pos ⟨Nat.le_add_right b i, Nat.add_lt_add_left hi b⟩

/-- Pages that are mapped elsewhere are not those that were free. -/
theorem put_of_some {m : Memory} {b n p : Nat} {x : Option Prot} (hfree : ∀ i < n, m (b + i) = none)
    (hp : (m p).isSome) : m.put b n x p = m p := by
  refine if_neg fun hin => ?_
  have := hfree (p - b) (by omega)
  rw [Nat.add_sub_cancel' hin.1] at this
  rw [this] at hp
  cases hp

/-- Pages that were free are given back. -/
theorem put_none_of_free {m : Memory} {b n : Nat} (hfree : ∀ i < n, m (b + i) = none) :
    m.put b n none = m := by
  funext p
  cases hp : m p with
  | none =>
    unfold Memory.put
    rw [hp, ite_self]
  | some prot => rw [put_of_some hfree (by rw [hp]; rfl), hp]

theorem put_put_comm {m : Memory} {b b' n : Nat} {x : Option Prot} (hx : x.isSome)
    (hfree : ∀ i < n, m.put b n x (b' + i) = none) (y z : Option Prot) :
    (m.put b n y).put b' n z = (m.put b' n z).put b n y := by
  funext p
  unfold Memory.put
  by_cases h : b ≤ p ∧ p < b + n
  · have h' : ¬ (b' ≤ p ∧ p < b' + n) := fun hin => by
      have := hfree (p - b') (by omega)
      rw [Nat.add_sub_cancel' hin.1, Memory.put, if_pos h] at this
      rw [this] at hx
      cases hx
    simp only [h, h', and_self, if_true, if_false]
  · simp only [h, if_false]

/-- Either the pages were free and are mapped, or nothing changed. -/
theorem mmap_cases (w : World) (len : Nat) (prot : Prot) (fd : Option Int) :
    w.mmap len prot fd = (none, w.asked) ∨
      ∃ b, len ≠ 0 ∧ w.mem.Free b (pages len) ∧
        w.mmap len prot fd = (some b, { w.asked with mem := w.mem.put b (pages len) (some prot) }) := by
  unfold World.mmap
  dsimp only
  split
  · rename_i h
    exact .inr ⟨_, h.2.1, h.2.2.1, rfl⟩
  · exact .inl rfl

/-! ## 3. Mapping and unmapping the record -/

/-- The memory behind `munmap` of the mapping. -/
def unmapped (iov : IoVec) (m : Memory) : Memory :=
  match iov.base with
  | none => m
  | some b => if iov.len = 0 then m else m.put b (pages iov.len) none

theorem unmapIov_run (iov : IoVec) (w : World) :
    (unmapIov iov).exec handle w =
      .ok ({ iov with base := none }, { w with mem := unmapped iov w.mem }) := by
  obtain ⟨base, len⟩ := iov
  cases base with
  | none => rfl
  | some b =>
    by_cases hlen : len = 0
    · subst hlen
      rfl
    · have hmun : handle (.munmap (some b) len) w =
          .ok (0, { w with mem := w.mem.put b (pages len) none }) := by
        rw [handle, World.munmap, if_neg hlen]
      have hmem : unmapped ⟨some b, len⟩ w.mem = w.mem.put b (pages len) none := if_neg hlen
      rw [hmem]
      exact Prog.exec_call_ok hmun _

/-- The record behind `bstg_funcs_destroy`, where it comes to its end. -/
def Funcs.destroyed (ps : Funcs) : Funcs :=
  { ps with
    magic := ~~~BSTG_FUNCS_MAGIC
    pattern := { ps.pattern with base := none }
    buffer := { ps.buffer with base := none } }

/-- `bstg_funcs_destroy` of a record that is in use: both mappings are gone, and the store with the
    descriptors it tracked. -/
theorem funcsDestroy_run {ps : Funcs} (hmagic : ps.magic = BSTG_FUNCS_MAGIC) {w : World}
    (hv : w.ps.Valid) :
    ∃ fds : Fdstore, (bstgFuncsDestroy ps).exec handle w = .ok ((0, ps.destroyed),
      { w with
        k := (w.ps.members.sort (· ≤ ·)).foldl (fun k fd => (k.close fd).1) w.k
        ps := fds
        mem := unmapped ps.buffer (unmapped ps.pattern w.mem) }) ∧
      fds.magic ≠ BSTG_FDSTORE_MAGIC := by
  refine ⟨{ (bstgFdstoreReset w.ps).1 with magic := ~~~BSTG_FDSTORE_MAGIC }, ?_,
    show ~~~BSTG_FDSTORE_MAGIC ≠ BSTG_FDSTORE_MAGIC by decide⟩
  have hdestroy : ∀ m : Memory, handle .fdstoreDestroy { w with mem := m } = .ok (0, _) := fun m => by
    rw [handle, destroy_spec hv]
    rfl
  rw [bstgFuncsDestroy, Prog.exec_bind, unmapIov_run]
  dsimp only
  rw [Prog.exec_bind, unmapIov_run]
  dsimp only
  obtain ⟨magic, verbose, pattern, buffer⟩ := ps
  cases hmagic
  exact (Prog.exec_call_ok (hdestroy _) _).trans rfl

/-- Of a record that is not: nothing happens but the value that says so. -/
theorem funcsDestroy_again {ps : Funcs} (hp : ps.pattern.base = none) (hb : ps.buffer.base = none)
    {w : World} (hv : w.ps.magic ≠ BSTG_FDSTORE_MAGIC) :
    (bstgFuncsDestroy ps).exec handle w = .ok ((EINVAL, ps), w) := by
  have hdestroy : handle .fdstoreDestroy w = .ok (EINVAL, w) := by
    rw [handle, destroy_einval hv]
    rfl
  obtain ⟨magic, verbose, ⟨pbase, plen⟩, bbase, blen⟩ := ps
  cases hp
  cases hb
  exact (Prog.exec_call_ok hdestroy _).trans rfl

/-- The record is in use, and `m` is the memory `m₀` with its two mappings. -/
structure Mapped (ps : Funcs) (m₀ m : Memory) : Prop where
  magic : ps.magic = BSTG_FUNCS_MAGIC
  len : ps.pattern.len = ps.buffer.len
  pos : ps.buffer.len ≠ 0
  maps : ∃ b b', ps.pattern.base = some b ∧ ps.buffer.base = some b' ∧
    (∀ i < pages ps.pattern.len, m₀ (b + i) = none) ∧
    (∀ i < pages ps.buffer.len, m₀.put b (pages ps.pattern.len) (some .PROT_READ) (b' + i) = none) ∧
    m = (m₀.put b (pages ps.pattern.len) (some .PROT_READ)).put b' (pages ps.buffer.len)
      (some .PROT_WRITE)

/-- Unmapping the two mappings gives the memory of before. -/
theorem Mapped.unmapped {ps : Funcs} {m₀ m : Memory} (h : Mapped ps m₀ m) :
    unmapped ps.buffer (unmapped ps.pattern m) = m₀ := by
  obtain ⟨-, hlen, hpos, b, b', hb, hb', hfree, hfree', rfl⟩ := h
  unfold Fembot.unmapped
  rw [hb, hb']
  dsimp only
  rw [if_neg hpos, if_neg (hlen ▸ hpos), hlen]
  rw [hlen] at hfree hfree'
  generalize pages ps.buffer.len = n at hfree hfree'
  have hbuf : ∀ i < n, m₀ (b' + i) = none := fun i hi => by
    by_contra hsome
    have h := hfree' i hi
    rw [put_of_some hfree (Option.isSome_iff_ne_none.mpr hsome)] at h
    exact hsome h
  calc (((m₀.put b n (some .PROT_READ)).put b' n (some .PROT_WRITE)).put b n none).put b' n none
      = (((m₀.put b' n (some .PROT_WRITE)).put b n (some .PROT_READ)).put b n none).put b' n none := by
        rw [put_put_comm rfl hfree' (some .PROT_READ)]
    _ = ((m₀.put b n none).put b' n (some .PROT_WRITE)).put b' n none := by
        rw [put_put, put_put_comm rfl hfree' none]
    _ = m₀ := by rw [put_none_of_free hfree, put_put, put_none_of_free hbuf]

/-- The pattern can be read, the buffer written. -/
theorem Mapped.readable {ps : Funcs} {m₀ m : Memory} (h : Mapped ps m₀ m) :
    m.Readable ps.pattern.base ps.pattern.len ∧ m.Writable ps.buffer.base ps.buffer.len := by
  obtain ⟨-, -, -, b, b', hb, hb', hfree, hfree', rfl⟩ := h
  rw [hb, hb']
  refine ⟨fun i hi => ?_, fun i hi => ?_⟩
  · have hread := put_in m₀ b (some .PROT_READ) hi
    rw [put_of_some hfree' (by rw [hread]; rfl), hread]
    rfl
  · rw [put_in _ _ _ hi]

/-- What the record is not about is the same. -/
def Unmoved (w w' : World) : Prop :=
  w'.handlers = w.handlers ∧ w'.heap = w.heap ∧ w'.kids = w.kids ∧ w'.child = w.child ∧
    w'.cwd = w.cwd ∧ w'.isDir = w.isDir

/-- What `bstg_funcs_init` comes to: the record in use and an empty store, or an error and the memory
    as it was. -/
structure InitEnd (w : World) (verbose : Int) (r : Int × Funcs) (w₁ : World) : Prop where
  unmoved : Unmoved w w₁
  done : r.1 = 0 → Mapped r.2 w.mem w₁.mem ∧ r.2.verbose = verbose ∧
    w₁.ps = (bstgFdstoreInit w.ps).1 ∧ w₁.k = w.k
  failed : r.1 ≠ 0 → w₁.mem = w.mem ∧ w₁.ps.magic ≠ BSTG_FDSTORE_MAGIC

theorem InitEnd.handlers {w w₁ : World} {verbose : Int} {r : Int × Funcs} (h : InitEnd w verbose r w₁) :
    w₁.handlers = w.handlers := h.unmoved.1

theorem InitEnd.valid {w w₁ : World} {verbose : Int} {r : Int × Funcs} (h : InitEnd w verbose r w₁)
    (hrc : r.1 = 0) : w₁.ps.Valid := by
  obtain ⟨-, -, hps, -⟩ := h.done hrc
  rw [hps]
  exact fdstoreInit_valid w.ps

/-- Its end, where a mapping failed: what the other one mapped is unmapped. -/
theorem initFailed_ends {w u : World} {verbose rc : Int} {ps : Funcs} (hrc : rc ≠ 0)
    (hmagic : ps.magic = BSTG_FUNCS_MAGIC) (hv : u.ps.Valid) (hw : Unmoved w u)
    (hmem : unmapped ps.buffer (unmapped ps.pattern u.mem) = w.mem) :
    (if rc ≠ 0 then do
        let (_, ps) ← bstgFuncsDestroy ps
        pure (rc, ps)
      else pure (rc, ps) : Op (Int × Funcs)).Ends handle u (InitEnd w verbose) := by
  obtain ⟨fds, hrun, hfds⟩ := funcsDestroy_run hmagic hv
  rw [if_pos hrc]
  refine Prog.Ends.bind ⟨_, _, hrun, Prog.ends_ret ?_⟩
  exact ⟨hw, fun h => absurd h hrc, fun _ => ⟨hmem, hfds⟩⟩

/-- Its second half. -/
theorem initBuffer_ends {w u : World} {verbose rc : Int} {length : Nat} {pattern : Area}
    (hps : u.ps = (bstgFdstoreInit w.ps).1) (hk : u.k = w.k) (hw : Unmoved w u)
    (hfail : pattern = none → rc ≠ 0 ∧ u.mem = w.mem)
    (hdone : ∀ b, pattern = some b → rc = 0 ∧ length ≠ 0 ∧ (∀ i < pages length, w.mem (b + i) = none) ∧
      u.mem = w.mem.put b (pages length) (some .PROT_READ)) :
    (do
      let buffer ← call (.mmap length .PROT_WRITE .MAP_ANON none)
      let rc ← if buffer = none then call .errno else pure rc
      let ps : Funcs := ⟨BSTG_FUNCS_MAGIC, verbose, ⟨pattern, length⟩, ⟨buffer, length⟩⟩
      if rc ≠ 0 then do
        let (_, ps) ← bstgFuncsDestroy ps
        pure (rc, ps)
      else pure (rc, ps) : Op (Int × Funcs)).Ends handle u (InitEnd w verbose) := by
  have hv : u.ps.Valid := hps ▸ fdstoreInit_valid w.ps
  have hpattern : unmapped ⟨pattern, length⟩ u.mem = w.mem := by
    cases pattern with
    | none => exact (hfail rfl).2
    | some b =>
      obtain ⟨-, hlen, hfree, hmem⟩ := hdone b rfl
      rw [hmem]
      exact (if_neg hlen).trans (by rw [put_put, put_none_of_free hfree])
  rcases mmap_cases u length .PROT_WRITE none with hm | ⟨b', hlen, hfree', hm⟩
  · refine Prog.ends_call (congrArg Except.ok hm) (Prog.ends_call rfl ?_)
    have hrc : (u.asked.reply.num : Int) + 1 ≠ 0 := by omega
    exact initFailed_ends hrc rfl hv hw hpattern
  · refine Prog.ends_call (congrArg Except.ok hm) ?_
    cases pattern with
    | none =>
      obtain ⟨hrc, hmem⟩ := hfail rfl
      refine initFailed_ends hrc rfl hv hw ?_
      exact (if_neg hlen).trans ((put_put _ _ _ _ _).trans
        ((put_none_of_free hfree').trans hmem))
    | some b =>
      obtain ⟨rfl, -, hfree, hmem⟩ := hdone b rfl
      refine Prog.ends_ret ⟨hw, fun _ => ⟨⟨rfl, rfl, hlen, b, b', rfl, rfl, hfree, ?_, ?_⟩, rfl, hps, hk⟩,
        fun h => absurd rfl h⟩
      · rw [← hmem]
        exact hfree'
      · show u.mem.put b' (pages length) _ = _
        rw [hmem]

theorem funcsInit_ends (verbose : Int) (length : Nat) (w : World) :
    (bstgFuncsInit verbose length).Ends handle w (InitEnd w verbose) := by
  have hinit : handle .fdstoreInit w = .ok (0, { w with ps := (bstgFdstoreInit w.ps).1 }) := rfl
  refine Prog.ends_call hinit ?_
  rcases mmap_cases { w with ps := (bstgFdstoreInit w.ps).1 } length .PROT_WRITE none with
    hm | ⟨b, hlen, hfree, hm⟩
  · refine Prog.ends_call (congrArg Except.ok hm) (Prog.ends_call rfl ?_)
    have hrc : ∀ n : Nat, (n : Int) + 1 ≠ 0 := fun n => by omega
    exact initBuffer_ends rfl rfl ⟨rfl, rfl, rfl, rfl, rfl, rfl⟩ (fun _ => ⟨hrc _, rfl⟩) nofun
  · obtain ⟨u, hmap, hmem, hps, hk, hw⟩ : ∃ u : World,
        handle (.mmap length .PROT_WRITE .MAP_ANON none) { w with ps := (bstgFdstoreInit w.ps).1 } =
          .ok (some b, u) ∧ u.mem = w.mem.put b (pages length) (some .PROT_WRITE) ∧
        u.ps = (bstgFdstoreInit w.ps).1 ∧ u.k = w.k ∧ Unmoved w u :=
      ⟨_, congrArg Except.ok hm, rfl, rfl, rfl, rfl, rfl, rfl, rfl, rfl, rfl⟩
    -- the pages are there, so memset and mprotect do what they should
    have hset : handle (.memset (some b) length) u = .ok ((), u.asked) := if_pos fun i hi => by
      rw [hmem, put_in _ _ _ hi]
    have hprotect : handle (.mprotect (some b) length .PROT_READ) u.asked =
        .ok ((), { u.asked with mem := u.mem.put b (pages length) (some .PROT_READ) }) :=
      congrArg (fun v => Except.ok ((), v)) (if_pos fun i hi => by
        show (u.mem (b + i)).isSome
        rw [hmem, put_in _ _ _ hi]
        rfl)
    refine Prog.ends_call hmap (Prog.ends_call hset (Prog.ends_call hprotect ?_))
    refine initBuffer_ends hps hk hw nofun fun b' hb => ?_
    cases hb
    refine ⟨rfl, hlen, hfree, ?_⟩
    show u.mem.put b (pages length) _ = _
    rw [hmem, put_put]

/-! ## 4. The operations -/

/-- The pages are those of `m`, no signal has a handler, and the store is valid. -/
structure Settled (m : Memory) (w : World) : Prop where
  mem : w.mem = m
  handlers : w.handlers = defaultHandlers
  valid : w.ps.Valid

/-- A copy stays within what is mapped, or is from or to a mapping that failed, and a fault in it has
    a handler that leads out; so has one in a library that is loaded. -/
def CopyGuarded : Call → World → Prop
  | .memcpy dst src len, w => (∀ sig, w.handlers sig = .bstgSignalj) ∧
      (dst = none ∨ w.mem.Writable dst len) ∧ (src = none ∨ w.mem.Readable src len)
  | .memset area len, w => w.mem.Writable area len
  | .dlopen _, w => ∀ sig, w.handlers sig = .bstgSignalx
  | _, _ => True

theorem settled_frames (m : Memory) :
    Frames [.memory, .handler, .store] (Settled m) CopyGuarded where
  keep c w r w' hc hI hs := by
    have hf := handle_framed hs
    have hne : c.group ≠ .memory ∧ c.group ≠ .handler ∧ c.group ≠ .store := by
      refine ⟨?_, ?_, ?_⟩ <;>
      · intro h
        rw [h] at hc
        cases hc
    exact ⟨(hf.mem hne.1).trans hI.mem, (hf.handlers hne.2.1).trans hI.handlers,
      handle_valid hne.2.2 hI.valid hs⟩
  meets c w hc hI := by
    cases c with
    | memcpy | memset | dlopen => cases hc
    | _ => trivial

/-- The memory with a mapping of an operation. -/
def Memory.held (m : Memory) (area : Area) (len : Nat) (prot : Prot) : Memory :=
  match area with
  | none => m
  | some b => m.put b (pages len) (some prot)

/-- The pages of the mapping were free before. -/
def FreeIn (m : Memory) (area : Area) (len : Nat) : Prop :=
  ∀ b, area = some b → len ≠ 0 ∧ ∀ i < pages len, m (b + i) = none

theorem mmap_settled {m : Memory} {w w' : World} (h : Settled m w) {len : Nat} {prot : Prot}
    {flag : MapFlag} {fd : Option Int} {area : Area}
    (hs : handle (.mmap len prot flag fd) w = .ok (area, w')) :
    Settled (m.held area len prot) w' ∧ FreeIn m area len := by
  have hs : w.mmap len prot fd = (area, w') := Except.ok.inj hs
  rcases mmap_cases w len prot fd with hm | ⟨b, hlen, hfree, hm⟩
  · cases hm.symm.trans hs
    exact ⟨⟨h.mem, h.handlers, h.valid⟩, nofun⟩
  · cases hm.symm.trans hs
    refine ⟨⟨?_, h.handlers, h.valid⟩, fun b' hb => ?_⟩
    · show w.mem.put b (pages len) _ = _
      rw [h.mem]
      rfl
    · cases hb
      rw [← h.mem]
      exact ⟨hlen, hfree⟩

theorem munmap_settled {m : Memory} {area : Area} {len : Nat} {prot : Prot} {w w' : World}
    (h : Settled (m.held area len prot) w) (hfree : FreeIn m area len) {rc : Int}
    (hs : handle (.munmap area len) w = .ok (rc, w')) : Settled m w' := by
  obtain rfl := world_eq hs
  cases area with
  | none => exact h
  | some b =>
    obtain ⟨hlen, hfree⟩ := hfree b rfl
    have hmun : w.munmap (some b) len = (0, { w with mem := w.mem.put b (pages len) none }) :=
      if_neg hlen
    rw [hmun]
    refine ⟨?_, h.handlers, h.valid⟩
    show w.mem.put b (pages len) none = m
    rw [h.mem, Memory.held, put_put, put_none_of_free hfree]

theorem pages_mono {len len' : Nat} (h : len ≤ len') : pages len ≤ pages len' :=
  Nat.div_le_div_right (Nat.add_le_add_right h 4095)

/-- What is mapped stays so beside a mapping of pages that were free. -/
theorem held_of_some {m : Memory} {area : Area} {len : Nat} {prot : Prot} (hfree : FreeIn m area len)
    {p : Nat} (hp : (m p).isSome) : m.held area len prot p = m p := by
  cases area with
  | none => rfl
  | some b => exact put_of_some (hfree b rfl).2 hp

/-- A copy from which the run goes on, whether it faulted or not. -/
theorem memcpy_asked {w w' : World} {dst src : Area} {len : Nat} {r : Unit}
    (hs : handle (.memcpy dst src len) w = .ok (r, w')) : w' = w.asked := by
  rw [handle, World.memcpy, World.faulted] at hs
  split at hs
  · exact world_eq hs
  · split at hs
    · exact world_eq hs
    · cases hs
    · cases hs

/-- The signals have a handler around the copy, and none behind it. -/
theorem guardedCopy_meets {m : Memory} {w : World} (h : Settled m w) {dst src : Area} {len : Nat}
    (hdst : dst = none ∨ m.Writable dst len) (hsrc : src = none ∨ m.Readable src len) :
    (guardedCopy dst src len).Meets handle CopyGuarded w fun _ => Settled m := by
  have hmem := h.mem
  subst hmem
  refine ⟨trivial, fun _ w₁ hs₁ => ⟨trivial, fun _ w₂ hs₂ => ⟨⟨fun sig => ?_, ?_, ?_⟩,
    fun _ w₃ hs₃ => ⟨trivial, fun _ w₄ hs₄ => ⟨trivial, fun _ w₅ hs₅ => ?_⟩⟩⟩⟩⟩
  all_goals
    cases hs₁
    cases hs₂
  · cases sig <;> rfl
  · exact hdst
  · exact hsrc
  · cases memcpy_asked hs₃
    cases hs₄
    cases hs₅
    refine ⟨rfl, ?_, h.valid⟩
    funext sig
    cases sig <;> rfl

section

variable {basedir : Path} {ps : Funcs} {m₀ m : Memory}

/-- A mapping with a copy to or from it, and its end. -/
theorem mapped_meets {w : World} (h : Settled m w) {len len' : Nat} {prot : Prot} {flag : MapFlag}
    {fd : Option Int} {f : Area → Op Unit} (hlen : len' = len)
    (hbody : ∀ area w', FreeIn m area len → Settled (m.held area len prot) w' →
      (f area).Meets handle CopyGuarded w' fun _ => Settled (m.held area len prot)) :
    Prog.Meets handle CopyGuarded (do
      let area ← call (.mmap len prot flag fd)
      f area
      let _ ← call (.munmap area len') : Op Unit) w fun _ => Settled m := by
  subst hlen
  refine ⟨trivial, fun area w' hs => ?_⟩
  obtain ⟨hheld, hfree⟩ := mmap_settled h hs
  show Prog.Meets handle CopyGuarded (f area >>= _) w' _
  refine Prog.meets_bind.mpr ((hbody area w' hfree hheld).post fun _ w'' hw'' => ?_)
  exact ⟨trivial, fun _ u hu => munmap_settled hw'' hfree hu⟩

theorem held_writable {area area' : Area} {len len' : Nat} {prot : Prot} (hfree : FreeIn m area len)
    (h : m.Writable area' len') : (m.held area len prot).Writable area' len' := by
  cases area' with
  | none => exact h
  | some b => exact fun i hi => (held_of_some hfree (by rw [h i hi]; rfl)).trans (h i hi)

theorem held_readable {area area' : Area} {len len' : Nat} {prot : Prot} (hfree : FreeIn m area len)
    (h : m.Readable area' len') : (m.held area len prot).Readable area' len' := by
  cases area' with
  | none => exact h
  | some b => exact fun i hi => (held_of_some hfree (h i hi)) ▸ h i hi

theorem writable_mono {area : Area} {len len' : Nat} (hlen : len' ≤ len) (h : m.Writable area len) :
    m.Writable area len' := by
  cases area with
  | none =>
    have h : len = 0 := h
    exact Nat.le_zero.mp (h ▸ hlen)
  | some b => exact fun i hi => h i (Nat.lt_of_lt_of_le hi (pages_mono hlen))

theorem readable_mono {area : Area} {len len' : Nat} (hlen : len' ≤ len) (h : m.Readable area len) :
    m.Readable area len' := by
  cases area with
  | none =>
    have h : len = 0 := h
    exact Nat.le_zero.mp (h ▸ hlen)
  | some b => exact fun i hi => h i (Nat.lt_of_lt_of_le hi (pages_mono hlen))

/-- The pages of the mapping itself. -/
theorem held_self (m : Memory) (area : Area) (len : Nat) (prot : Prot) :
    area = none ∨ ∃ b, area = some b ∧ ∀ i < pages len, m.held area len prot (b + i) = some prot := by
  cases area with
  | none => exact .inl rfl
  | some b => exact .inr ⟨b, rfl, fun i hi => put_in m b (some prot) hi⟩

/-- A copy from a mapping of `len` bytes to the buffer. -/
theorem copyOut_meets (hm : Mapped ps m₀ m) {area : Area} {len : Nat} {w : World}
    (hfree : FreeIn m area len) (h : Settled (m.held area len .PROT_READ) w) :
    (guardedCopy ps.buffer.base area (min len ps.buffer.len)).Meets handle CopyGuarded w fun _ =>
      Settled (m.held area len .PROT_READ) := by
  refine guardedCopy_meets h (.inr ?_) ?_
  · exact writable_mono (Nat.min_le_right _ _) (held_writable hfree hm.readable.2)
  · refine (held_self m area len .PROT_READ).imp_right fun ⟨b, hb, hin⟩ => ?_
    subst hb
    refine readable_mono (Nat.min_le_left _ _) fun i hi => ?_
    rw [hin i hi]
    rfl

/-- A copy of the pattern to a mapping of its length. -/
theorem copyIn_meets (hm : Mapped ps m₀ m) {area : Area} (size : Nat) {w : World}
    (hfree : FreeIn m area ps.pattern.len) (h : Settled (m.held area ps.pattern.len .PROT_WRITE) w) :
    (guardedCopy area ps.pattern.base (min size ps.pattern.len)).Meets handle CopyGuarded w fun _ =>
      Settled (m.held area ps.pattern.len .PROT_WRITE) := by
  refine guardedCopy_meets h ?_ (.inr ?_)
  · refine (held_self m area ps.pattern.len .PROT_WRITE).imp_right fun ⟨b, hb, hin⟩ => ?_
    subst hb
    exact writable_mono (Nat.min_le_right _ _) hin
  · exact readable_mono (Nat.min_le_right _ _) (held_readable hfree hm.readable.1)

/-- The operations of `src/mmap`, from where the descriptor and the size are known. -/
theorem mapOp_meets {w : World} (h : Settled m w) {f : Int → Nat → Op Unit}
    (hf : ∀ fd size w', Settled m w' → (f fd size).Meets handle CopyGuarded w' fun _ => Settled m) :
    Prog.Meets handle CopyGuarded (do
      let fd ← get
      let size ← sizeOr512 fd
      f fd size : Op Unit) w fun _ => Settled m := by
  refine ⟨trivial, fun fd w₁ hs₁ => ⟨trivial, fun st w₂ hs₂ => ?_⟩⟩
  have h₁ := (settled_frames m).keep _ w fd w₁ rfl h hs₁
  exact hf fd _ w₂ ((settled_frames m).keep _ w₁ st w₂ rfl h₁ hs₂)

theorem copyexe_settled (flags : List OpenFlag) {w : World} (h : Settled m w) :
    (copyexe basedir flags).Meets handle CopyGuarded w fun _ => Settled m := by
  have keep := fun m => (settled_frames m).keep
  -- from the first close on, with the mapping in hand
  have hend : ∀ (fd : Int) (base : Area) (size : Nat) (w : World), FreeIn m base size →
      Settled (m.held base size .PROT_READ) w → Prog.Meets handle CopyGuarded (do
        let _ ← call (.close fd)
        if base ≠ none then do
          let fd ← call (.get2 flags)
          call (.posixMadvise base size)
          let _ ← call (.onFd (.ftruncate 0) fd)
          let _ ← call (.onFd (.pwrite (.base size) 0) fd)
          let _ ← call (.munmap base size) : Op Unit) w fun _ => Settled m := by
    intro fd base size w hfree hheld
    refine ⟨trivial, fun rc w₁ hs₁ => ?_⟩
    have h₁ := keep _ _ w rc w₁ rfl hheld hs₁
    show Prog.Meets handle CopyGuarded (ite (base ≠ none) _ _) w₁ _
    by_cases hb : base = none
    · subst hb
      exact h₁
    · rw [if_pos hb]
      refine ⟨trivial, fun fd w₂ hs₂ => ⟨trivial, fun _ w₃ hs₃ => ⟨trivial, fun _ w₄ hs₄ =>
        ⟨trivial, fun _ w₅ hs₅ => ⟨trivial, fun rc w₆ hs₆ => ?_⟩⟩⟩⟩⟩
      have h₂ := keep _ _ w₁ fd w₂ rfl h₁ hs₂
      cases hs₃
      have h₄ := keep _ _ w₂ _ w₄ rfl h₂ hs₄
      exact munmap_settled (keep _ _ w₄ _ w₅ rfl h₄ hs₅) hfree hs₆
  refine ⟨trivial, fun fd w₁ hs₁ => ?_⟩
  have h₁ := keep _ _ w fd w₁ rfl h hs₁
  show Prog.Meets handle CopyGuarded (ite (fd > 0) _ _) w₁ _
  split
  · refine ⟨trivial, fun st w₂ hs₂ => ?_⟩
    have h₂ := keep _ _ w₁ st w₂ rfl h₁ hs₂
    show Prog.Meets handle CopyGuarded (ite (st.1 = 0) _ _) w₂ _
    split
    · refine ⟨trivial, fun base w₃ hs₃ => ?_⟩
      obtain ⟨hheld, hfree⟩ := mmap_settled h₂ hs₃
      exact hend fd base _ w₃ hfree hheld
    · exact hend fd none _ w₂ nofun h₂
  · exact hend fd none 0 w₁ nofun h₁

theorem dlopen_settled {w : World} (h : Settled m w) :
    srcDlopenDlopen.Meets handle CopyGuarded w fun _ => Settled m := by
  refine ⟨trivial, fun mypath w₁ hs₁ => ⟨trivial, fun child w₂ hs₂ => ?_⟩⟩
  have h₁ := (settled_frames m).keep _ w mypath w₁ rfl h hs₁
  have h₂ := (settled_frames m).keep _ w₁ child w₂ rfl h₁ hs₂
  show Prog.Meets handle CopyGuarded (ite (child > 0) _ _) w₂ _
  split
  · have hwait : (do let _ ← bstgWaitpidOp child 30 : Op Unit).Only
        (Call.In [.plain, .process]) := waited_only rfl rfl child 30
    exact (settled_frames m).only hwait rfl h₂
  · show Prog.Meets handle CopyGuarded (ite (child = 0) _ _) w₂ _
    split
    · -- the child does not come to the end of the operation
      refine ⟨trivial, fun _ w₃ hs₃ => ⟨trivial, fun _ w₄ hs₄ => ⟨fun sig => ?_, fun loaded w₅ _ => ?_⟩⟩⟩
      · cases hs₃
        cases hs₄
        cases sig <;> rfl
      · have hexit : ∀ w : World, Prog.Meets handle CopyGuarded (do
            call (.signal .SIGBUS .SIG_DFL)
            call (.signal .SIGSEGV .SIG_DFL)
            exit 1 : Op Unit) w fun _ => Settled m := fun w =>
          ⟨trivial, fun _ _ _ => ⟨trivial, fun _ _ _ => ⟨trivial, fun r => nomatch r⟩⟩⟩
        show Prog.Meets handle CopyGuarded (ite (loaded = true) _ _) w₅ _
        split
        · exact ⟨trivial, fun _ w₆ _ => hexit w₆⟩
        · exact hexit w₅
    · exact h₂

theorem settled_keeps (hm : Mapped ps m₀ m) : Keeps basedir ps (Settled m) CopyGuarded := by
  refine (settled_frames m).keeps rfl (fun e w => trivial) fun i p w hp hI => ?_
  have frames {α : Type} {p : Op α} {gs : List Group} (hp : p.Only (Call.In gs))
      (hgs : (gs.all fun g => !([.memory, .handler, .store] : List Group).contains g) = true)
      {w : World} (hI : Settled m w) : p.Meets handle CopyGuarded w fun _ => Settled m :=
    (settled_frames m).only hp hgs hI
  cases hp with
  | plain h => exact frames h rfl hI
  | exec => exact frames exec_only rfl hI
  | gcore => exact frames gcore_only rfl hI
  | ldlibrarypath => exact frames ldlibrarypath_only rfl hI
  | ldpreload => exact frames ldpreload_only rfl hI
  | move => exact frames (move_only basedir) rfl hI
  | posixSpawn => exact frames posixSpawn_only rfl hI
  | chdir => exact frames chdir_only rfl hI
  | fchdir => exact frames fchdir_only rfl hI
  | fchown => exact frames fchown_only rfl hI
  | closeall => exact frames closeall_only rfl hI
  | openAndSet flags => exact frames (openAndSet_only flags) rfl hI
  | fdopendir => exact frames fdopendir_only rfl hI
  | opendir => exact frames opendir_only rfl hI
  | readdir => exact frames readdir_only rfl hI
  | pipe => exact frames pipe_only rfl hI
  | copyexe flags => exact copyexe_settled flags hI
  | dlopen => exact dlopen_settled hI
  | mapAndRead flag =>
    exact mapOp_meets hI fun fd size w hw => mapped_meets hw rfl fun area w' hfree hheld =>
      copyOut_meets hm hfree hheld
  | mmapFile =>
    exact mapOp_meets hI fun fd size w hw => mapped_meets hw hm.len.symm fun area w' hfree hheld =>
      copyIn_meets hm size hfree hheld
  | mmapStatd =>
    refine mapOp_meets hI fun fd size w hw => mapped_meets
      (f := fun area => do guardedCopy area ps.pattern.base (min size ps.pattern.len); call (.msync area))
      hw hm.len.symm fun area w' hfree hheld => ?_
    refine Prog.meets_bind.mpr ((copyIn_meets hm size hfree hheld).post fun _ w'' hw'' => ?_)
    refine ⟨trivial, fun _ u hu => ?_⟩
    cases hu
    exact hw''

/-! ## 5. Runs -/

/-- A run is not killed by a fault: what faults has a handler. -/
theorem run_not_killed (hm : Mapped ps m₀ m) {w : World} (h : Settled m w) (ids : List Nat)
    (sig : Signal) : run (opStep basedir ps) w ids ≠ .error (.killed sig) := by
  intro hrun
  obtain ⟨c, u, hφ, hs⟩ := (settled_keeps hm).run_error h hrun
  cases handle_stopped hs with
  | killed hc hsig =>
    cases c with
    | memcpy dst src len => cases (hφ.1 sig).symm.trans hsig
    | dlopen path => cases (hφ sig).symm.trans hsig
    | memset area len =>
      have hwritable : u.mem.Writable area len := hφ
      rw [handle, World.memset, if_pos hwritable] at hs
      cases hs
    | _ => exact hc

/-- A process whose calls all succeed, each mapping at the page of its own thousand. -/
def mappingWorld : World :=
  .started (fun _ => ⟨true, 7⟩) (fun _ => "/mnt/a".toList) fun n => ⟨true, 1000 * n, ⟨0, 0⟩⟩

/-- Whatever ran in between, `bstg_funcs_destroy` gives back what `bstg_funcs_init` mapped; a call of
    init that fails leaves nothing behind, and a second one of destroy does nothing. -/
theorem memory_given_back (basedir : Path) (verbose : Int) (length : Nat) (w : World)
    (hw : w.handlers = defaultHandlers) :
    (bstgFuncsInit verbose length).Ends handle w fun r w₁ =>
      (r.1 ≠ 0 → w₁.mem = w.mem) ∧
      (r.1 = 0 → ∀ ids, Always (opStep basedir r.2) w₁ ids fun t =>
        t.mem = w₁.mem ∧ t.handlers = defaultHandlers ∧
        (bstgFuncsDestroy r.2).Ends handle t fun r' u => r'.1 = 0 ∧ u.mem = w.mem ∧
          (bstgFuncsDestroy r'.2).exec handle u = .ok ((EINVAL, r'.2), u)) := by
  refine (funcsInit_ends verbose length w).post fun r w₁ hinit => ⟨fun hrc => (hinit.failed hrc).1,
    fun hrc ids => ?_⟩
  obtain ⟨hm, -⟩ := hinit.done hrc
  have hsettled : Settled w₁.mem w₁ := ⟨rfl, hinit.handlers.trans hw, hinit.valid hrc⟩
  refine ((settled_keeps hm).always hsettled ids).imp fun t ht => ⟨ht.mem, ht.handlers, ?_⟩
  obtain ⟨fds, hrun, hfds⟩ := funcsDestroy_run hm.magic ht.valid
  refine ⟨_, _, hrun, rfl, ?_, funcsDestroy_again rfl rfl hfds⟩
  show unmapped _ (unmapped _ t.mem) = w.mem
  rw [ht.mem, hm.unmapped]

theorem memory_given_back_mapping :
    (bstgFuncsInit 1 8192).Ends handle mappingWorld fun r w₁ =>
      (r.1 ≠ 0 → w₁.mem = mappingWorld.mem) ∧
      (r.1 = 0 → ∀ ids, Always (opStep "/mnt".toList r.2) w₁ ids fun t =>
        t.mem = w₁.mem ∧ t.handlers = defaultHandlers ∧
        (bstgFuncsDestroy r.2).Ends handle t fun r' u => r'.1 = 0 ∧ u.mem = mappingWorld.mem ∧
          (bstgFuncsDestroy r'.2).exec handle u = .ok ((EINVAL, r'.2), u)) :=
  memory_given_back "/mnt".toList 1 8192 mappingWorld rfl

end

end Fembot
