/-
  File:      Fembot/Population.lean
  Subject:   THE TRACKED POPULATION IS BOUNDED: never more than 11 descriptors, and none moves once
             `max` is above 10.

  The bound follows from where members can lie (`Confined`): up to 10, but for one that may lie
  above, and that is `max`. A store with `max` above 10 is not empty, so that below 2^32 probes
  `bstg_fdstore_getraw` finds a member (`getraw_found`): a set replaces it, a get hands it out, and
  nothing is tracked anew.
-/
import Fembot.StoreCalls
import Fembot.Kernel
import Mathlib.Order.Interval.Finset.Nat
import Mathlib.Data.Int.Interval

namespace Fembot

open Library

/-! ## 1. Where members lie -/

/-- A valid store all of whose members but the largest are at most 10. -/
structure Confined (ps : Fdstore) : Prop where
  valid : ps.Valid
  low : ∀ fd ∈ ps.members, fd ≤ 10 ∨ fd = ps.max

theorem Confined.probed {ps : Fdstore} (h : Confined ps) (count : Nat) : Confined (ps.probed count) :=
  ⟨h.valid.probed count, h.low⟩

/-- A confined store tracks at most 11 descriptors: 1 to 10, and one more. -/
theorem Confined.card_le {ps : Fdstore} (h : Confined ps) : ps.members.card ≤ 11 := by
  have hsub : ps.members ⊆ insert ps.max (Finset.Icc 1 10) := by
    intro fd hfd
    have hpos := h.valid.pos fd hfd
    rcases h.low fd hfd with hle | rfl
    · exact Finset.mem_insert_of_mem (Finset.mem_Icc.mpr ⟨by omega, hle⟩)
    · exact Finset.mem_insert_self _ _
  have hcard : (insert ps.max (Finset.Icc (1 : Int) 10)).card ≤ 10 + 1 := by
    refine (Finset.card_insert_le _ _).trans ?_
    rw [Int.card_Icc]
    decide
  exact (Finset.card_le_card hsub).trans hcard

theorem Confined.nonempty {ps : Fdstore} (h : Confined ps) (hmax : 10 < ps.max) :
    ps.members ≠ ∅ := by
  intro hnone
  rw [h.valid.max_of_empty hnone] at hmax
  exact absurd hmax (by decide)

/-- The members and `max` are the same. -/
def SameTracked (ps ps' : Fdstore) : Prop := ps'.members = ps.members ∧ ps'.max = ps.max

/-- The number of probes never goes down in `bstg_fdstore_getraw`. -/
theorem getraw_count {ps : Fdstore} (h : ps.Valid) {count : Nat} {fd : Int}
    (hraw : bstgFdstoreGetraw ps = .ok (ps.probed count, fd)) :
    ps.count ≤ count ∧ count ≤ ps.count + ps.ring := by
  obtain ⟨n, fd', hraw', hn, -⟩ := getraw_spec h
  rw [hraw] at hraw'
  have hcount : count = ps.count + n := congrArg (fun r => r.1.count) (Except.ok.inj hraw')
  omega

/-- Above 10 and below 2^32 probes `bstg_fdstore_getraw` does not miss. -/
theorem Confined.not_missed {ps : Fdstore} (h : Confined ps) (hmax : 10 < ps.max) {count : Nat}
    (hraw : bstgFdstoreGetraw ps = .ok (ps.probed count, -1)) : 2 ^ 32 ≤ count := by
  by_contra hlt
  have hmem := getraw_found h.valid (h.nonempty hmax) hraw (by omega)
  exact absurd (h.valid.pos _ hmem) (by decide)

section

variable {K : Type} {sys : Sys K}

/-- What `dup2` has to do for a call of set: replace any tracked number, if its argument is open. -/
def DupServes (sys : Sys K) (isOpen : K → Int → Prop) (sc : SetCall K) : Prop :=
  isOpen sc.k sc.fd → ∀ newd ∈ sc.ps.members, (sys.dup2 sc.k sc.fd newd).2 ≠ -1

/-- The argument of a call of set: no descriptor, or an open one below FD_SETSIZE. -/
def ArgServes (isOpen : K → Int → Prop) (sc : SetCall K) : Prop :=
  sc.fd ≤ 0 ∨ isOpen sc.k sc.fd ∧ sc.fd < FD_SETSIZE

/-- Such a call returns, and below 2^32 probes keeps the store confined; above 10 it leaves the
    members and `max` as they are. -/
theorem set_confined {isOpen : K → Int → Prop} (sc : SetCall K) (h : Confined sc.ps)
    (harg : ArgServes isOpen sc) (hdup : DupServes sys isOpen sc) :
    ∃ k' ps' r, bstgFdstoreSet sys sc.k sc.ps sc.fd = .ok (k', ps', r) ∧
      (ps'.count < 2 ^ 32 → Confined ps' ∧ (10 < sc.ps.max → SameTracked sc.ps ps')) ∧
      sc.ps.count ≤ ps'.count := by
  have hout := set_outcome sys h.valid sc.k sc.fd
  generalize bstgFdstoreSet sys sc.k sc.ps sc.fd = res at hout
  have hcount : ∀ {k' count}, NotReplaced sys sc.k sc.ps sc.fd k' count → sc.ps.count ≤ count := by
    intro k' count hnot
    cases hnot with
    | small => exact Nat.le_refl _
    | missed _ hraw => exact (getraw_count h.valid hraw).1
    | failed _ hraw => exact (getraw_count h.valid hraw).1
  cases hout with
  | @replaced count newd hrep =>
    exact ⟨_, _, _, rfl, fun _ => ⟨h.probed _, fun _ => ⟨rfl, rfl⟩⟩,
      (getraw_count h.valid hrep.2.1).1⟩
  | @tracked k' count hnot hpos hin =>
    refine ⟨_, _, _, rfl, fun hlt => ?_, hcount hnot⟩
    -- above 10 the call would have replaced
    have hsmall : sc.ps.max ≤ 10 := by
      cases hnot with
      | small hsmall => exact hsmall
      | missed hmax hraw =>
        have hwrap := h.not_missed hmax hraw
        rw [tracking_count, probed_count] at hlt
        omega
      | failed hmax hraw hnewd hfailed =>
        rcases harg with hle | ⟨hopen, -⟩
        · omega
        · exact absurd hfailed (hdup hopen _ hnewd)
    refine ⟨⟨(h.valid.probed _).tracking hpos _, fun n hn => ?_⟩, fun hmax => by omega⟩
    rw [tracking_max, probed_max]
    rcases Finset.mem_insert.mp hn with heq | hn
    · rw [heq]
      by_cases hgt : sc.fd > sc.ps.max
      · rw [if_pos hgt]
        exact .inr rfl
      · exact .inl (by omega)
    · have := h.valid.le n hn
      exact .inl (by omega)
  | refused hnot hle =>
    exact ⟨_, _, _, rfl, fun _ => ⟨h.probed _, fun _ => ⟨rfl, rfl⟩⟩, hcount hnot⟩
  | overrun _ hsize =>
    rcases harg with hle | ⟨-, hlt⟩
    · exact absurd (hsize.trans hle) (by decide)
    · omega

/-! ## 2. Steps -/

/-- A call of set, get, get2 or closeall whose calls of set are served. -/
structure Promised (sys : Sys K) (isOpen : K → Int → Prop) (s : StoreState K) (c : StoreCall) :
    Prop where
  call : c ≠ .init ∧ c ≠ .destroy
  arg : ∀ sc ∈ c.setCalls sys s.k s.ps, ArgServes isOpen sc
  dup : ∀ sc ∈ c.setCalls sys s.k s.ps, DupServes sys isOpen sc

/-- What a step gives: it returns, and below 2^32 probes the store stays confined and, above 10,
    changes only by closeall. -/
def StaysConfined (sys : Sys K) (s : StoreState K) (c : StoreCall) : Prop :=
  ∃ s', storeStep sys s c = .ok s' ∧ (s'.ps.count < 2 ^ 32 →
    Confined s'.ps ∧ (c ≠ .closeall → 10 < s.ps.max → SameTracked s.ps s'.ps))

theorem get2_confined {isOpen : K → Int → Prop} {k : K} {ps : Fdstore} (h : Confined ps)
    (flags : List OpenFlag)
    (harg : ∀ sc ∈ get2SetCalls sys k ps flags, ArgServes isOpen sc)
    (hdup : ∀ sc ∈ get2SetCalls sys k ps flags, DupServes sys isOpen sc) :
    ∃ k' ps' r, bstgFdstoreGet2 sys k ps flags = .ok (k', ps', r) ∧
      (ps'.count < 2 ^ 32 → Confined ps' ∧ (10 < ps.max → SameTracked ps ps')) := by
  have hout := get2_outcome sys h.valid k flags
  generalize get2SetCalls sys k ps flags = calls at hout harg hdup
  generalize bstgFdstoreGet2 sys k ps flags = res at hout
  cases hout with
  | found => exact ⟨_, _, _, rfl, fun _ => ⟨h.probed _, fun _ => ⟨rfl, rfl⟩⟩⟩
  | @opened count fd hraw hfound =>
    obtain ⟨k', ps', r, hset, hconf, hle⟩ := set_confined
      ⟨(openTries sys flags omodes k).state, ps.probed count, fd⟩ (h.probed count)
      (harg _ List.mem_cons_self) (hdup _ List.mem_cons_self)
    refine ⟨k', ps', r, hset, fun hlt => ⟨(hconf hlt).1, fun hmax => ?_⟩⟩
    exact (hconf hlt).2 hmax
  | nothing hraw => exact ⟨_, _, _, rfl, fun _ => ⟨h.probed _, fun _ => ⟨rfl, rfl⟩⟩⟩

theorem step_confined {isOpen : K → Int → Prop} {s : StoreState K} {c : StoreCall}
    (h : Confined s.ps) (hp : Promised sys isOpen s c) : StaysConfined sys s c := by
  cases c with
  | init => exact absurd rfl hp.call.1
  | destroy => exact absurd rfl hp.call.2
  | closeall =>
    refine ⟨_, storeStep_ok (closeall_spec h.valid _), fun _ => ⟨?_, fun hc => absurd rfl hc⟩⟩
    exact ⟨fdstoreReset_valid h.valid, fun fd hfd => absurd hfd (Finset.notMem_empty _)⟩
  | set fd =>
    obtain ⟨k', ps', r, hset, hconf, -⟩ := set_confined ⟨s.k, s.ps, fd⟩ h
      (hp.arg _ List.mem_cons_self) (hp.dup _ List.mem_cons_self)
    exact ⟨_, storeStep_ok hset, fun hlt => ⟨(hconf hlt).1, fun _ => (hconf hlt).2⟩⟩
  | get =>
    obtain ⟨k', ps', r, hget, hconf⟩ := get2_confined h [.O_CREAT] hp.arg hp.dup
    exact ⟨_, storeStep_ok hget, fun hlt => ⟨(hconf hlt).1, fun _ => (hconf hlt).2⟩⟩
  | get2 flags =>
    obtain ⟨k', ps', r, hget, hconf⟩ := get2_confined h flags hp.arg hp.dup
    exact ⟨_, storeStep_ok hget, fun hlt => ⟨(hconf hlt).1, fun _ => (hconf hlt).2⟩⟩

end

/-! ## 3. Every run -/

/-- The promise at a step, and fewer than 2^32 probes behind it. -/
def PromisedBelow {K : Type} (sys : Sys K) (isOpen : K → Int → Prop) (s : StoreState K)
    (c : StoreCall) : Prop :=
  Promised sys isOpen s c ∧ ∀ s', storeStep sys s c = .ok s' → s'.ps.count < 2 ^ 32

theorem step_below {K : Type} {sys : Sys K} {isOpen : K → Int → Prop} {s : StoreState K}
    {c : StoreCall} (h : Confined s.ps) (hp : PromisedBelow sys isOpen s c) :
    ∃ s', storeStep sys s c = .ok s' ∧ Confined s'.ps ∧
      (c ≠ .closeall → 10 < s.ps.max → SameTracked s.ps s'.ps) := by
  obtain ⟨s', hs', hconf⟩ := step_confined h hp.1
  exact ⟨s', hs', hconf (hp.2 s' hs')⟩

/-- Over every run of set, get, get2 and closeall from init in which the arguments of set are as
    promised and fewer than 2^32 probes are made since a reset: every call returns, at most 11
    descriptors are tracked in every state, and from a state with `max` above 10 on the tracked
    set and `max` do not change until the next closeall. -/
theorem population_bounded {K : Type} (sys : Sys K) (isOpen : K → Int → Prop) (k : K)
    (ps : Fdstore) (calls : List StoreCall)
    (hpromised : EachStep (storeStep sys) (storeStart k ps) calls (Promised sys isOpen))
    (hprobes : Always (storeStep sys) (storeStart k ps) calls fun s => s.ps.count < 2 ^ 32) :
    (∃ s, run (storeStep sys) (storeStart k ps) calls = .ok s) ∧
      Always (storeStep sys) (storeStart k ps) calls (fun s => s.ps.members.card ≤ 11) ∧
      ∀ pre mid, pre ++ mid <+: calls → (∀ c ∈ mid, c ≠ .closeall) →
        ∀ s t, run (storeStep sys) (storeStart k ps) pre = .ok s →
          run (storeStep sys) s mid = .ok t → 10 < s.ps.max → SameTracked s.ps t.ps := by
  have h0 : Confined (storeStart k ps).ps :=
    ⟨fdstoreInit_valid ps, fun fd hfd => absurd hfd (Finset.notMem_empty _)⟩
  have hbelow : EachStep (storeStep sys) (storeStart k ps) calls (PromisedBelow sys isOpen) :=
    hpromised.and hprobes.eachStep
  have keep : ∀ s c s', Confined s.ps → PromisedBelow sys isOpen s c →
      storeStep sys s c = .ok s' → Confined s'.ps := by
    intro s c s' h hp hs'
    obtain ⟨t, ht, hconf, -⟩ := step_below h hp
    rw [hs'] at ht
    cases ht
    exact hconf
  have hconf := always_of_eachStep (I := fun s : StoreState K => Confined s.ps) h0 keep hbelow
  refine ⟨?_, hconf.imp fun s hs => hs.card_le, ?_⟩
  · obtain ⟨s, hs, -⟩ := run_ok_of_eachStep (I := fun s : StoreState K => Confined s.ps) h0
      (fun s c h hp => by
        obtain ⟨t, ht, ht', -⟩ := step_below h hp
        exact ⟨t, ht, ht'⟩) hbelow
    exact ⟨s, hs⟩
  · intro pre mid hp hmid s t hs ht hmax
    have hsConf : Confined s.ps := hconf pre ((List.prefix_append pre mid).trans hp) s hs
    have hsame := always_of_eachStep
      (I := fun u : StoreState K => Confined u.ps ∧ SameTracked s.ps u.ps)
      (G := fun u c => PromisedBelow sys isOpen u c ∧ c ≠ .closeall) ⟨hsConf, rfl, rfl⟩
      (fun u c u' hI hG hu' => by
        obtain ⟨v, hv, hvConf, hvSame⟩ := step_below hI.1 hG.1
        rw [hu'] at hv
        cases hv
        have hstep := hvSame hG.2 (by rw [hI.2.2]; exact hmax)
        exact ⟨hvConf, hstep.1.trans hI.2.1, hstep.2.trans hI.2.2⟩)
      ((hbelow.from hp hs).and ((eachStep_forall ht).mpr hmid))
    exact (hsame.final ht).2

/-- A table whose first `n` descriptors are open, with calls that succeed. -/
def lowTable (n : Nat) : Kernel where
  slot fd := if 0 ≤ fd ∧ fd < n then some fd.toNat else none
  nonneg fd h := if_neg fun hc => by omega
  limit := 64
  answers := fun _ => ⟨true, 7⟩

def start12 : StoreState Kernel := storeStart (lowTable 13) ⟨0, 0, 0, fdZero⟩

/-- Behind the set of 12: `max` is above 10. -/
def tracks12 : StoreState Kernel := ⟨lowTable 13, start12.ps.tracking 12 (by decide), 12⟩

theorem start12_set : storeStep kernel start12 (.set 12) = .ok tracks12 := rfl

/-- The set of 5 makes 12 refer to the file of 5. -/
theorem tracks12_set : storeStep kernel tracks12 (.set 5) =
    .ok ⟨((lowTable 13).dup2 5 12).1, tracks12.ps.probed 13, 12⟩ := rfl

theorem sets12_promised :
    EachStep (storeStep kernel) start12 [.set 12, .set 5] (Promised kernel Kernel.IsOpen) := by
  refine eachStep_cons.mpr ⟨⟨by decide, ?_, ?_⟩, fun s hs => ?_⟩
  · intro sc hsc
    rw [List.mem_singleton.mp hsc]
    exact .inr (by decide)
  · intro sc hsc _ newd hnewd
    rw [List.mem_singleton.mp hsc] at hnewd
    exact absurd hnewd (Finset.notMem_empty _)
  · rw [start12_set] at hs
    cases hs
    refine eachStep_cons.mpr ⟨⟨by decide, ?_, ?_⟩, fun _ _ => eachStep_nil⟩
    · intro sc hsc
      rw [List.mem_singleton.mp hsc]
      exact .inr (by decide)
    · intro sc hsc _ newd hnewd
      rw [List.mem_singleton.mp hsc] at hnewd ⊢
      rw [Finset.mem_singleton.mp hnewd]
      decide

theorem sets12_probes :
    Always (storeStep kernel) start12 [.set 12, .set 5] fun s => s.ps.count < 2 ^ 32 := by
  refine always_cons.mpr ⟨by decide, fun s hs => ?_⟩
  rw [start12_set] at hs
  cases hs
  refine always_cons.mpr ⟨by decide, fun s hs => ?_⟩
  rw [tracks12_set] at hs
  cases hs
  exact always_nil.mpr (by decide)

/-- Two descriptors on a table where both are open: 12 is tracked, 5 replaces it. -/
theorem population_bounded_run :
    (∃ s, run (storeStep kernel) start12 [.set 12, .set 5] = .ok s) ∧
      Always (storeStep kernel) start12 [.set 12, .set 5] (fun s => s.ps.members.card ≤ 11) ∧
      ∀ pre mid, pre ++ mid <+: [.set 12, .set 5] → (∀ c ∈ mid, c ≠ .closeall) →
        ∀ s t, run (storeStep kernel) start12 pre = .ok s →
          run (storeStep kernel) s mid = .ok t → 10 < s.ps.max → SameTracked s.ps t.ps :=
  population_bounded kernel Kernel.IsOpen (lowTable 13) ⟨0, 0, 0, fdZero⟩ _ sets12_promised
    sets12_probes

end Fembot
