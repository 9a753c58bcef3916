/-
  File:      Fembot/Stops.lean
  Subject:   WHAT CAN STOP A RUN of the table, for every list of operations and everything that is
             decided outside.

  A process that holds the record of `bstg_funcs_init` and dispatches at places of the table stops for
  three reasons only: a descriptor gets a number for which an `fd_set` has no bit, `bstg_waitpid` has
  counted beyond the largest `int`, or a write raises SIGPIPE or SIGXFSZ, for which there is no
  handler. Whatever else ends is a child, and it ends by `_exit`, by a signal handler that calls it,
  or as another program (`run_stops`).

  * `operation_defined` -- no operation makes a step that C gives no meaning to;
  * `stopped_cases` -- what a call of an operation can be stopped with.
-/
import Fembot.Blocks
import Fembot.Children
import Fembot.Mappings

namespace Fembot

open Library

variable {basedir : Path} {ps : Funcs}

/-! ## 1. Steps without a meaning -/

/-- The call has a meaning, and is none that makes or destroys the store. -/
def Defined (c : Call) : Prop := c.group ≠ .undefined ∧ c.group ≠ .store

theorem defined_of_in {gs : List Group}
    (hgs : (gs.contains .undefined || gs.contains .store) = false) {α : Type} {p : Op α}
    (h : p.Only (Call.In gs)) : p.Only Defined := by
  obtain ⟨hundefined, hstore⟩ := Bool.or_eq_false_iff.mp hgs
  refine h.imp fun c hc => ⟨fun he => ?_, fun he => ?_⟩
  · rw [Call.In, he, hundefined] at hc
    cases hc
  · rw [Call.In, he, hstore] at hc
    cases hc

theorem operation_defined {i : Nat} {p : Op Unit} (h : OpKind basedir ps i p) : p.Only Defined := by
  cases h with
  | plain h => exact defined_of_in rfl h
  | copyexe flags => exact defined_of_in rfl (copyexe_only basedir flags)
  | exec => exact defined_of_in rfl exec_only
  | gcore => exact defined_of_in rfl gcore_only
  | ldlibrarypath => exact defined_of_in rfl ldlibrarypath_only
  | ldpreload => exact defined_of_in rfl ldpreload_only
  | move => exact defined_of_in rfl (move_only basedir)
  | posixSpawn => exact defined_of_in rfl posixSpawn_only
  | chdir => exact defined_of_in rfl chdir_only
  | fchdir => exact defined_of_in rfl fchdir_only
  | fchown => exact defined_of_in rfl fchown_only
  | closeall => exact defined_of_in rfl closeall_only
  | dlopen => exact defined_of_in rfl dlopen_only
  | mapAndRead flag => exact defined_of_in rfl (mapAndRead_only ps flag)
  | mmapFile => exact defined_of_in rfl (mmapFile_only ps)
  | mmapStatd => exact defined_of_in rfl (mmapStatd_only ps)
  | openAndSet flags => exact defined_of_in rfl (openAndSet_only flags)
  | fdopendir => exact defined_of_in rfl fdopendir_only
  | opendir => exact defined_of_in rfl opendir_only
  | readdir => exact defined_of_in rfl readdir_only
  | pipe => exact defined_of_in rfl pipe_only

/-- Dispatching at a place of the table: each call has a meaning and finds the store valid. -/
theorem fembotFunc_defined {i : Nat} (hi : i < (operations basedir ps).length) {w : World}
    (hv : w.ps.Valid) :
    (fembotFunc basedir ps i).Meets handle (fun c u => Defined c ∧ u.ps.Valid) w fun _ u =>
      u.ps.Valid := by
  have hget := List.getElem?_eq_getElem hi
  have hplain : ∀ c : Call, c.group = .plain → Defined c := fun c hc => by
    rw [Defined, hc]
    exact ⟨nofun, nofun⟩
  have hkeep : ∀ c u r u', Defined c → u.ps.Valid → handle c u = .ok (r, u') → u'.ps.Valid :=
    fun c u r u' hc => handle_valid hc.2
  unfold fembotFunc
  rw [hget]
  refine generatedFunc_meets (fun c u r u' hc => hkeep c u r u' (hplain c hc))
    (fun c u hc hu => ⟨hplain c hc, hu⟩) (fun u hu => ?_) hv
  exact Prog.meets_of_only hkeep (fun c u hc hu => ⟨hc, hu⟩) (operation_defined (operation_kind hget)) hu

/-- So it is at each call of a run over the places of the table. -/
theorem calls_defined {w : World} (hv : w.ps.Valid) {ids : List Nat}
    (hids : ∀ i ∈ ids, i < (operations basedir ps).length) :
    EachCall basedir ps (fun c u => Defined c ∧ u.ps.Valid) w ids := by
  rintro c u ⟨pre, i, t, hp, ht, hm⟩
  have hstep : ∀ s i s', s.ps.Valid → i < (operations basedir ps).length →
      opStep basedir ps s i = .ok s' → s'.ps.Valid := fun s i s' hs hi h =>
    (fembotFunc_defined hi hs).exec (opStep_ok.mp h)
  have hvalid : Always (opStep basedir ps) w ids fun s => s.ps.Valid :=
    always_of_eachStep hv hstep (.of_forall hids)
  have hi := hids i (hp.subset (List.mem_append_right _ List.mem_cons_self))
  exact (fembotFunc_defined hi (hvalid pre ((List.prefix_append pre [i]).trans hp) t ht)).makes hm

/-! ## 2. Runs -/

/-- What a call of an operation of the table can be stopped with, and in which process. -/
inductive CutShort (c : Call) (u : World) : ProcessEnd → Prop
  | overrun (fd : Int) (h : FD_SETSIZE ≤ fd) : CutShort c u (.fault (.outOfBounds fd.toNat))
  | overflow (h : c = .overflow) : CutShort c u .overflow
  | writeKilled (sig : WriteSignal) (h : c.Raises u sig) : CutShort c u (.writeKilled sig)
  | exited (code : Int) (h : u.child = true) : CutShort c u (.exited code)
  | execed (path : Path) (h : u.child = true) : CutShort c u (.execed path)

theorem stopped_cases {c : Call} {u : World} {e : ProcessEnd} (hv : u.ps.Valid) (hdef : Defined c)
    (hcopy : CopyGuarded c u) (hfree : FreesOwn c u) (hown : OwnChildren c u)
    (hs : handle c u = .error e) : CutShort c u e := by
  -- a fault comes to a handler of a child, if to any
  have hsig : ∀ sig h, c.Faulting → u.handlers sig = h → h ≠ .bstgSignalj → u.child = true := by
    intro sig h hc hh hne
    cases c with
    | memcpy dst src len => exact absurd ((hcopy.1 sig).symm.trans hh) (Ne.symm hne)
    | memset area len =>
      have hwritable : u.mem.Writable area len := hcopy
      rw [handle, World.memset, if_pos hwritable] at hs
      cases hs
    | dlopen path => exact hown
    | _ => exact hc.elim
  cases handle_stopped hs with
  | store f hc =>
    obtain ⟨fd, hfd, he⟩ := handle_outOfBounds hc hv hs
    rw [he]
    exact .overrun fd hfd
  | undefined f => exact absurd rfl hdef.1
  | overflow => exact .overflow rfl
  | writeKilled h => exact .writeKilled _ h
  | exit code => exact .exited code hown
  | execve path => exact .execed path hown
  | signalled hc hh => exact .exited _ (hsig _ _ hc hh (by decide))
  | killed hc hh =>
    cases c with
    | memcpy dst src len => cases (hcopy.1 _).symm.trans hh
    | memset area len =>
      have hwritable : u.mem.Writable area len := hcopy
      rw [handle, World.memset, if_pos hwritable] at hs
      cases hs
    | dlopen path => cases (hcopy _).symm.trans hh
    | _ => exact hc.elim
  | free hb => exact absurd hfree hb

/-- What stops a run over the places of the table, of a process that handles no signal, with the
    mappings of the record as `bstg_funcs_init` leaves them. -/
theorem run_cutShort {m₀ : Memory} {w : World} (hm : Mapped ps m₀ w.mem)
    (hw : w.handlers = defaultHandlers) (hv : w.ps.Valid) {ids : List Nat}
    (hids : ∀ i ∈ ids, i < (operations basedir ps).length) {e : ProcessEnd}
    (hrun : run (opStep basedir ps) w ids = .error e) :
    ∃ c u, CallAt basedir ps w ids c u ∧ handle c u = .error e ∧ CutShort c u e := by
  obtain ⟨c, u, hcall, hs⟩ := run_error_callAt hrun
  obtain ⟨hdef, hvalid⟩ := calls_defined hv hids c u hcall
  have hcopy := (settled_keeps hm).eachCall ⟨rfl, hw, hv⟩ ids c u hcall
  have hfree := (frees_keeps basedir ps).eachCall trivial ids c u hcall
  have hown := (children_keeps basedir ps w.kids w.child).eachCall ⟨rfl, rfl, hw⟩ ids c u hcall
  exact ⟨c, u, hcall, hs, stopped_cases hvalid hdef hcopy hfree hown hs⟩

end Fembot
