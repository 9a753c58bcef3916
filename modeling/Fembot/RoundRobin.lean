/-
  File:      Fembot/RoundRobin.lean
  Subject:   THE TRACKED DESCRIPTORS TAKE TURNS: while the tracked set stays as it is, the next
             probes hand out each of its members once, in cyclic ascending order.

  The places `bstg_fdstore_getraw` looks at are the walk of a counter around a ring of max + 1
  places (the library's `walk`). `Served` is the invariant of the calls: the counter stands `d`
  places behind where it started, `d` is at most once around, and what was handed out so far are
  the tracked places among these `d`.
-/
import Fembot.Probing

namespace Fembot

open Library

/-! ## 1. The probes of a call -/

/-- What a call of `bstg_fdstore_getraw` returns. -/
def rawOf (ps : Fdstore) : List Int :=
  match bstgFdstoreGetraw ps with
  | .ok (_, fd) => [fd]
  | .error _ => []

theorem rawOf_ok {ps ps' : Fdstore} {fd : Int} (h : bstgFdstoreGetraw ps = .ok (ps', fd)) :
    rawOf ps = [fd] := by
  rw [rawOf, h]

section

variable {K : Type} (sys : Sys K)

/-- The probe of the replace step of `bstg_fdstore_set`, which comes where `max` is above 10. -/
def setProbes (sc : SetCall K) : List Int := if sc.ps.max > 10 then rawOf sc.ps else []

/-- The probes of a call: those of get and get2 themselves, and those of the calls of set in it. -/
def StoreCall.probes (k : K) (ps : Fdstore) (c : StoreCall) : List Int :=
  (match c with
    | .get | .get2 _ => rawOf ps
    | _ => []) ++ (c.setCalls sys k ps).flatMap setProbes

/-- The probes of a run of calls, in their order. -/
def probeTrace (s : StoreState K) : List StoreCall → List Int
  | [] => []
  | c :: cs =>
    c.probes sys s.k s.ps ++
      match storeStep sys s c with
      | .ok s' => probeTrace s' cs
      | .error _ => []

/-- What a call does with the descriptor it has probed: get and get2 return it, and set returns it
    where `dup2` replaces it. -/
def StoreCall.Returns (s : StoreState K) (c : StoreCall) : Prop :=
  ∀ newd ∈ c.probes sys s.k s.ps, ∀ s', storeStep sys s c = .ok s' →
    (∀ fd, c = .set fd → (sys.dup2 s.k fd newd).2 ≠ -1) → s'.rc = newd

variable {sys}

theorem probeTrace_cons {s s' : StoreState K} {c : StoreCall} (cs : List StoreCall)
    (h : storeStep sys s c = .ok s') :
    probeTrace sys s (c :: cs) = c.probes sys s.k s.ps ++ probeTrace sys s' cs := by
  rw [probeTrace, h]

/-- Where the scan of a get or get2 hits, it is the call's only probe. -/
theorem get2_probes {k : K} {ps : Fdstore} (h : ps.Valid) {count : Nat} {fd : Int}
    (hraw : bstgFdstoreGetraw ps = .ok (ps.probed count, fd)) (hmem : fd ∈ ps.members)
    (flags : List OpenFlag) :
    rawOf ps ++ (get2SetCalls sys k ps flags).flatMap setProbes = [fd] := by
  have hpos : fd > 0 := h.pos fd hmem
  simp [get2SetCalls, hraw, rawOf_ok hraw, hpos]

/-! ## 2. The invariant -/

/-- Those of the descriptors from `r` up, and then those below it. -/
def cyclicOrder (fds : List Int) (r : Int) : List Int :=
  fds.filter (r ≤ ·) ++ fds.filter (· < r)

theorem cyclicOrder_perm (fds : List Int) (r : Int) : (cyclicOrder fds r).Perm fds := by
  have h := List.filter_append_perm (fun fd => decide (r ≤ fd)) fds
  have hlt : (fun fd : Int => !decide (r ≤ fd)) = fun fd => decide (fd < r) := by
    funext fd
    rw [← decide_not, decide_eq_decide]
    exact Int.not_le
  rw [hlt] at h
  exact h

/-- The members handed out on the first `d` places from the counter `c` on. -/
def handedOut (ps : Fdstore) (c d : Nat) : List Int :=
  (served ps.ring (c % 2 ^ 32) (fun r => (r : Int) ∈ ps.members) d).map Nat.cast

/-- The calls made since the counter stood at `c` have come `d` places on, at most once around, and
    have left the tracked set as it was in `ps₀`. -/
structure Served (ps₀ : Fdstore) (c d : Nat) (ps : Fdstore) : Prop where
  valid : ps.Valid
  members : ps.members = ps₀.members
  max : ps.max = ps₀.max
  count : ps.count = c + d
  within : d ≤ ps₀.ring

theorem Served.probed {ps₀ ps : Fdstore} {c d d' : Nat} (h : Served ps₀ c d ps)
    (hd : d' ≤ ps₀.ring) : Served ps₀ c d' (ps.probed (c + d')) :=
  ⟨h.valid.probed _, h.members, h.max, rfl, hd⟩

/-- A member is tracked once more: nothing changes. -/
theorem Served.tracking {ps₀ ps : Fdstore} {c d : Nat} (h : Served ps₀ c d ps) {fd : Int}
    (hpos : 0 < fd) (hfd : 0 ≤ fd ∧ fd < FD_SETSIZE)
    (hsame : (ps.tracking fd hfd).members = ps₀.members) :
    Served ps₀ c d (ps.tracking fd hfd) := by
  have hmem : fd ∈ ps.members := by
    rw [h.members, ← hsame]
    exact Finset.mem_insert_self _ _
  have hmax : (ps.tracking fd hfd).max = ps.max :=
    if_neg (Int.not_lt.mpr (h.valid.le fd hmem))
  exact ⟨h.valid.tracking hpos hfd, hsame, hmax.trans h.max, h.count, h.within⟩

/-- The next probe, while not all members have been handed out: it hits, on the next place of the
    walk that is tracked. -/
theorem Served.getraw {ps₀ ps : Fdstore} {c d : Nat} (h : Served ps₀ c d ps)
    (hc : c % 2 ^ 32 + ps₀.ring ≤ 2 ^ 32)
    (hlt : (handedOut ps₀ c d).length < (handedOut ps₀ c ps₀.ring).length) :
    ∃ d' fd, bstgFdstoreGetraw ps = .ok (ps.probed (c + d'), fd) ∧ fd ∈ ps.members ∧
      d < d' ∧ d' ≤ ps₀.ring ∧ handedOut ps₀ c d' = handedOut ps₀ c d ++ [fd] := by
  simp only [handedOut, List.length_map] at hlt
  obtain ⟨j, hdj, hj, hp, hmiss⟩ := exists_next h.within hlt
  have hring : ps.ring = ps₀.ring := by rw [Fdstore.ring, Fdstore.ring, h.max]
  have hplace : ∀ i, d + i < ps₀.ring →
      ps.probe i = ((c % 2 ^ 32 + (d + i)) % ps₀.ring : Nat) := by
    intro i hi
    have hmod : (c + d + i) % 2 ^ 32 = c % 2 ^ 32 + (d + i) := by omega
    rw [Fdstore.probe, hring, h.count, hmod]
  obtain ⟨i, rfl⟩ := Nat.exists_eq_add_of_le hdj
  refine ⟨d + i + 1, ((c % 2 ^ 32 + (d + i)) % ps₀.ring : Nat), ?_, ?_, by omega, hj, ?_⟩
  · have hscan := getraw_scan h.valid
    generalize bstgFdstoreGetraw ps = r at hscan
    cases hscan with
    | @hit e he hmem hbefore =>
      -- the first place that is tracked is the next one of the walk
      have heq : e = i := by
        rcases Nat.lt_trichotomy e i with hlt | heq | hgt
        · rw [hplace e (by omega), h.members] at hmem
          exact absurd hmem (hmiss (d + e) (by omega) (by omega))
        · exact heq
        · have hnot := hbefore i hgt
          rw [hplace i hj, h.members] at hnot
          exact absurd hp hnot
      subst heq
      rw [hplace e hj, h.count, Nat.add_assoc, Nat.add_assoc]
    | miss hnone =>
      have hnot := hnone i (by omega)
      rw [hplace i hj, h.members] at hnot
      exact absurd hp hnot
  · rw [h.members]
    exact hp
  · rw [handedOut, served_next hdj hmiss hp, List.map_append]
    rfl

/-! ## 3. One call -/

/-- Every scan returns, so that a call that scans has a probe. -/
theorem rawOf_length {ps : Fdstore} (h : ps.Valid) : (rawOf ps).length = 1 := by
  obtain ⟨n, fd, hraw, -⟩ := getraw_spec h
  rw [rawOf_ok hraw]
  rfl

/-- The step lemma for get and get2, which are one function with different flags. -/
theorem get2_served {ps₀ : Fdstore} {c d : Nat} {s s' : StoreState K} {call : StoreCall}
    (hc : c % 2 ^ 32 + ps₀.ring ≤ 2 ^ 32) (h : Served ps₀ c d s.ps) {flags : List OpenFlag}
    (hexec : call.exec sys s.k s.ps = bstgFdstoreGet2 sys s.k s.ps flags)
    (hprobes : call.probes sys s.k s.ps =
      rawOf s.ps ++ (get2SetCalls sys s.k s.ps flags).flatMap setProbes)
    (hs : storeStep sys s call = .ok s')
    (hroom : (handedOut ps₀ c d).length + (call.probes sys s.k s.ps).length ≤
      (handedOut ps₀ c ps₀.ring).length) :
    ∃ d', Served ps₀ c d' s'.ps ∧
      handedOut ps₀ c d' = handedOut ps₀ c d ++ call.probes sys s.k s.ps ∧ call.Returns sys s := by
  have hone := rawOf_length h.valid
  rw [hprobes, List.length_append, hone] at hroom
  obtain ⟨d', fd, hraw, hmem, -, hd', hout⟩ := h.getraw hc (by omega)
  have hcall : call.probes sys s.k s.ps = [fd] :=
    hprobes.trans (get2_probes h.valid hraw hmem flags)
  have hstep : storeStep sys s call = .ok ⟨s.k, s.ps.probed (c + d'), fd⟩ :=
    storeStep_ok (hexec.trans (get2_of_hit h.valid hraw hmem flags))
  have hs' : s' = ⟨s.k, s.ps.probed (c + d'), fd⟩ := Except.ok.inj (hs.symm.trans hstep)
  refine ⟨d', ?_, ?_, ?_⟩
  · rw [hs']
    exact h.probed hd'
  · rw [hcall, hout]
  · intro newd hnewd s'' hs'' _
    rw [hcall, List.mem_singleton] at hnewd
    rw [hnewd, Except.ok.inj (hs''.symm.trans hstep)]

/-- The step lemma for set. -/
theorem set_served {ps₀ : Fdstore} {c d : Nat} {s s' : StoreState K} {fd : Int}
    (hc : c % 2 ^ 32 + ps₀.ring ≤ 2 ^ 32) (h : Served ps₀ c d s.ps)
    (hs : storeStep sys s (.set fd) = .ok s') (hsame : s'.ps.members = ps₀.members)
    (hroom : (handedOut ps₀ c d).length + ((StoreCall.set fd).probes sys s.k s.ps).length ≤
      (handedOut ps₀ c ps₀.ring).length) :
    ∃ d', Served ps₀ c d' s'.ps ∧
      handedOut ps₀ c d' = handedOut ps₀ c d ++ (StoreCall.set fd).probes sys s.k s.ps ∧
      (StoreCall.set fd).Returns sys s := by
  obtain ⟨⟨k', ps', r⟩, hset, hs'⟩ := exec_bind_inv hs
  cases hs'
  have hprobes : (StoreCall.set fd).probes sys s.k s.ps =
      if s.ps.max > 10 then rawOf s.ps else [] := by
    simp [StoreCall.probes, StoreCall.setCalls, setProbes]
  rw [hprobes] at hroom ⊢
  obtain ⟨count, hcount, hleft⟩ := set_leaves h.valid hset
  -- what is left of the store is the same, up to a member tracked once more
  have hserved : ∀ d', count = c + d' → d' ≤ ps₀.ring → Served ps₀ c d' ps' := by
    intro d' hd hle
    rw [hd] at hleft
    rcases hleft with hleft | ⟨hpos, hfd, hleft⟩
    · rw [hleft]
      exact h.probed hle
    · rw [hleft] at hsame ⊢
      exact (h.probed hle).tracking hpos hfd hsame
  rcases hcount with ⟨hmax, hcount⟩ | ⟨hmax, fd', hraw'⟩
  · have hsmall : ¬ s.ps.max > 10 := Int.not_lt.mpr hmax
    rw [if_neg hsmall]
    refine ⟨d, hserved d (hcount.trans h.count) h.within, (List.append_nil _).symm, ?_⟩
    intro newd hnewd
    rw [hprobes, if_neg hsmall] at hnewd
    exact absurd hnewd List.not_mem_nil
  · rw [if_pos hmax, rawOf_length h.valid] at hroom
    obtain ⟨d', newd, hraw, hmem, -, hd', hout⟩ := h.getraw hc hroom
    have hcd : count = c + d' :=
      congrArg (fun r => r.1.count) (Except.ok.inj (hraw'.symm.trans hraw))
    rw [if_pos hmax, rawOf_ok hraw]
    refine ⟨d', hserved d' hcd hd', hout, ?_⟩
    intro newd' hnewd' s'' hs'' hdup
    rw [hprobes, if_pos hmax, rawOf_ok hraw, List.mem_singleton] at hnewd'
    subst hnewd'
    have hset' : bstgFdstoreSet sys s.k s.ps fd = _ := set_of_hit h.valid hraw hmem hmax fd
    rw [if_pos (hdup fd rfl)] at hset'
    have hstep := storeStep_ok (c := .set fd) hset'
    rw [Except.ok.inj (hs''.symm.trans hstep)]

theorem step_served {ps₀ : Fdstore} {c d : Nat} {s s' : StoreState K} {call : StoreCall}
    (hc : c % 2 ^ 32 + ps₀.ring ≤ 2 ^ 32) (hcall : call.HandsOut) (h : Served ps₀ c d s.ps)
    (hs : storeStep sys s call = .ok s') (hsame : s'.ps.members = ps₀.members)
    (hroom : (handedOut ps₀ c d).length + (call.probes sys s.k s.ps).length ≤
      (handedOut ps₀ c ps₀.ring).length) :
    ∃ d', Served ps₀ c d' s'.ps ∧
      handedOut ps₀ c d' = handedOut ps₀ c d ++ call.probes sys s.k s.ps ∧ call.Returns sys s := by
  cases call with
  | set fd => exact set_served hc h hs hsame hroom
  | get => exact get2_served hc h rfl rfl hs hroom
  | get2 flags => exact get2_served hc h rfl rfl hs hroom
  | init => exact hcall.elim
  | closeall => exact hcall.elim
  | destroy => exact hcall.elim

/-! ## 4. A run of calls -/

/-- The run lemma: calls that have no more probes than members are left to hand out. -/
theorem run_served {ps₀ : Fdstore} {c d : Nat} (hc : c % 2 ^ 32 + ps₀.ring ≤ 2 ^ 32)
    {calls : List StoreCall} (hcalls : ∀ call ∈ calls, call.HandsOut) {s t : StoreState K}
    (h : Served ps₀ c d s.ps) (hrun : run (storeStep sys) s calls = .ok t)
    (hsame : Always (storeStep sys) s calls fun u => u.ps.members = ps₀.members)
    (hroom : (handedOut ps₀ c d).length + (probeTrace sys s calls).length ≤
      (handedOut ps₀ c ps₀.ring).length) :
    ∃ d', Served ps₀ c d' t.ps ∧ handedOut ps₀ c d' = handedOut ps₀ c d ++ probeTrace sys s calls ∧
      EachStep (storeStep sys) s calls fun u call => call.Returns sys u := by
  induction calls generalizing s d with
  | nil =>
    cases hrun
    exact ⟨d, h, (List.append_nil _).symm, eachStep_nil⟩
  | cons call calls ih =>
    obtain ⟨hcall, hcalls⟩ := List.forall_mem_cons.mp hcalls
    obtain ⟨s', hs, hrun⟩ := run_cons_inv hrun
    obtain ⟨-, hnext⟩ := always_cons.mp hsame
    rw [probeTrace_cons calls hs] at hroom ⊢
    rw [List.length_append] at hroom
    obtain ⟨d₁, h₁, hout₁, hret⟩ := step_served hc hcall h hs (hnext s' hs).head (by omega)
    have hlen := congrArg List.length hout₁
    rw [List.length_append] at hlen
    obtain ⟨d₂, h₂, hout₂, hrets⟩ := ih hcalls h₁ hrun (hnext s' hs) (by omega)
    refine ⟨d₂, h₂, ?_, eachStep_cons.mpr ⟨hret, fun s'' hs'' => ?_⟩⟩
    · rw [hout₂, hout₁, List.append_assoc]
    · rw [← Except.ok.inj (hs.symm.trans hs'')]
      exact hrets

/-- Once around, the members are handed out in cyclic order from the counter's place on. -/
theorem handed_full {ps : Fdstore} (h : ps.Valid) (hring : 0 < ps.ring) (c : Nat) :
    handedOut ps c ps.ring =
      cyclicOrder (ps.members.sort (· ≤ ·)) (c % 2 ^ 32 % ps.ring : Nat) := by
  have hsort : ((List.range ps.ring).filter fun r : Nat => (r : Int) ∈ ps.members).map Nat.cast =
      ps.members.sort (· ≤ ·) := by
    rw [← filter_range_members h, List.filter_map]
    simp [Function.comp_def]
  rw [handedOut, served_full hring, cyclicOrder, ← hsort, List.map_append, List.filter_map,
    List.filter_map]
  generalize c % 2 ^ 32 % ps.ring = r
  simp [Function.comp_def]

theorem ring_toNat {ps : Fdstore} (h : ps.Valid) (hne : ps.members ≠ ∅) :
    ps.ring = ps.max.toNat + 1 := by
  have hpos := h.pos _ (h.top_mem hne)
  unfold Fdstore.ring
  omega

/-- From every store reached that tracks a descriptor, with any value of its counter from which one
    round does not wrap: the next probes that set, get and get2 make, in any mix and as many as
    there are members, hand out each member once, in cyclic ascending order from the counter's
    place on. All of them move the counter on by one round at most, and what they find the calls
    return. -/
theorem round_robin (sys : Sys K) (k : K) (ps₀ : Fdstore) (before : List StoreCall)
    (hbefore : ∀ call ∈ before, call.HandsOut) (s : StoreState K)
    (hreach : run (storeStep sys) (storeStart k ps₀) before = .ok s) (hne : s.ps.members ≠ ∅)
    (c : Nat) (hc : c % 2 ^ 32 + s.ps.max.toNat + 1 ≤ 2 ^ 32) (calls : List StoreCall)
    (hcalls : ∀ call ∈ calls, call.HandsOut) (t : StoreState K)
    (hrun : run (storeStep sys) ⟨s.k, s.ps.probed c, s.rc⟩ calls = .ok t)
    (hsame : Always (storeStep sys) ⟨s.k, s.ps.probed c, s.rc⟩ calls
      fun u => u.ps.members = s.ps.members)
    (hlen : (probeTrace sys ⟨s.k, s.ps.probed c, s.rc⟩ calls).length = s.ps.members.card) :
    probeTrace sys ⟨s.k, s.ps.probed c, s.rc⟩ calls =
        cyclicOrder (s.ps.members.sort (· ≤ ·)) (c % 2 ^ 32 % (s.ps.max.toNat + 1) : Nat) ∧
      (probeTrace sys ⟨s.k, s.ps.probed c, s.rc⟩ calls).Perm (s.ps.members.sort (· ≤ ·)) ∧
      c ≤ t.ps.count ∧ t.ps.count ≤ c + s.ps.max.toNat + 1 ∧
      EachStep (storeStep sys) ⟨s.k, s.ps.probed c, s.rc⟩ calls
        fun u call => call.Returns sys u := by
  have hvalid : s.ps.Valid := (valid_of_calls hbefore).final hreach
  have hring := ring_toNat hvalid hne
  have hfull := handed_full hvalid (hring ▸ Nat.succ_pos _) c
  have hcard : (handedOut s.ps c s.ps.ring).length = s.ps.members.card := by
    rw [hfull, (cyclicOrder_perm _ _).length_eq, Finset.length_sort]
  have hstart : Served s.ps c 0 (s.ps.probed c) :=
    ⟨hvalid.probed c, rfl, rfl, rfl, Nat.zero_le _⟩
  have hnone : handedOut s.ps c 0 = [] := rfl
  obtain ⟨d, hserved, htrace, hreturns⟩ := run_served (by rw [hring]; exact hc) hcalls hstart hrun
    hsame (by rw [hnone, hlen, hcard]; exact Nat.le_of_eq (Nat.zero_add _))
  rw [hnone, List.nil_append] at htrace
  have hinitial : handedOut s.ps c d <+: handedOut s.ps c s.ps.ring :=
    (served_initial hserved.within).map _
  have hall : probeTrace sys ⟨s.k, s.ps.probed c, s.rc⟩ calls =
      cyclicOrder (s.ps.members.sort (· ≤ ·)) (c % 2 ^ 32 % (s.ps.max.toNat + 1) : Nat) := by
    rw [← htrace, hinitial.eq_of_length (by rw [htrace, hlen, hcard]), hfull, hring]
  refine ⟨hall, hall ▸ cyclicOrder_perm _ _, ?_, ?_, hreturns⟩
  · rw [hserved.count]
    exact Nat.le_add_right _ _
  · rw [hserved.count]
    have hwithin := hserved.within
    omega

end

theorem five_inSet : 0 ≤ (5 : Int) ∧ (5 : Int) < FD_SETSIZE := by decide

theorem twelve_inSet : 0 ≤ (12 : Int) ∧ (12 : Int) < FD_SETSIZE := by decide

/-- The store that tracks 5 and 12. -/
def pairStore : StoreState Unit :=
  ⟨(), ((bstgFdstoreInit ⟨0, 0, 0, fdZero⟩).1.tracking 5 five_inSet).tracking 12 twelve_inSet, 12⟩

/-- A get and a replacing set, with the counter at 6: 12 is handed out first, and then 5. -/
theorem round_robin_run :
    probeTrace obliging ⟨(), pairStore.ps.probed 6, 12⟩ [.get, .set 7] =
      cyclicOrder (pairStore.ps.members.sort (· ≤ ·)) 6 := by
  have hget : storeStep obliging ⟨(), pairStore.ps.probed 6, 12⟩ .get =
      .ok ⟨(), pairStore.ps.probed 13, 12⟩ := rfl
  have hset : storeStep obliging ⟨(), pairStore.ps.probed 13, 12⟩ (.set 7) =
      .ok ⟨(), pairStore.ps.probed 19, 5⟩ := rfl
  have hsame : Always (storeStep obliging) ⟨(), pairStore.ps.probed 6, 12⟩ [.get, .set 7]
      fun u => u.ps.members = pairStore.ps.members := by
    refine always_cons.mpr ⟨rfl, fun u hu => always_cons.mpr ⟨?_, fun v hv => always_nil.mpr ?_⟩⟩
    · rw [← Except.ok.inj (hget.symm.trans hu)]
      rfl
    · rw [← Except.ok.inj (hget.symm.trans hu)] at hv
      rw [← Except.ok.inj (hset.symm.trans hv)]
      rfl
  exact (round_robin obliging () ⟨0, 0, 0, fdZero⟩ [.set 5, .set 12] (by simp [StoreCall.HandsOut])
    pairStore rfl (Finset.insert_ne_empty _ _) 6 (by decide) [.get, .set 7]
    (by simp [StoreCall.HandsOut]) ⟨(), pairStore.ps.probed 19, 5⟩ rfl hsame rfl).1

end Fembot
