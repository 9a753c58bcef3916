/-
  File:      Fembot/Accounting.lean
  Subject:   EXACT CLOSE ACCOUNTING: what the store tracks and what it closes, over its life.

  * `Oracle` -- a system whose `open` and `dup2` answer anything, and that writes down every close;
  * `Account` -- a run's state: system and store, the values `bstg_fdstore_set` has returned since
    the last init or closeall, and whether the store is destroyed;
  * `Accounted` -- the tracked set is the set of the positive values returned, and `max` is its
    largest member or -1;
  * `CloseRule` -- what a call closes: a closeall, or the destroy of a valid store, every member
    once and in ascending order, any other call nothing;
  * `close_accounting` -- all of it, over every sequence of calls.
-/
import Fembot.StoreCalls
import Mathlib.Data.Stream.Init

namespace Fembot

open Library

/-! ## 1. The state and its steps -/

/-- The answers `open` and `dup2` give in turn, and the descriptors `bstg_fdstore_close` was called
    on so far. -/
structure Oracle where
  opens : Stream' Int
  dups : Stream' Int
  closes : List Int

def oracle : Sys Oracle where
  openPath o _ := ({ o with opens := o.opens.tail }, o.opens.head)
  dup2 o _ _ := ({ o with dups := o.dups.tail }, o.dups.head)
  close o fd := ({ o with closes := o.closes ++ [fd] }, 0)

structure Account where
  store : StoreState Oracle
  returned : List Int
  destroyed : Bool

/-- What the calls of `bstg_fdstore_set` return. -/
def setReturns (calls : List (SetCall Oracle)) : List Int :=
  calls.filterMap fun c =>
    match bstgFdstoreSet oracle c.k c.ps c.fd with
    | .ok (_, _, r) => some r
    | .error _ => none

/-- The values returned since the last init or closeall, behind a call. -/
def Account.returnedAfter (a : Account) : StoreCall → List Int
  | .init | .closeall | .destroy => []
  | c => a.returned ++ setReturns (c.setCalls oracle a.store.k a.store.ps)

/-- Whether the store is destroyed, behind a call. -/
def Account.destroyedAfter (a : Account) : StoreCall → Bool
  | .init => false
  | .destroy => true
  | _ => a.destroyed

/-- One step, with the account kept. -/
def accountStep (a : Account) (c : StoreCall) : Exec Account := do
  let s ← storeStep oracle a.store c
  pure ⟨s, a.returnedAfter c, a.destroyedAfter c⟩

/-- The account right behind the first init. -/
def accountStart (o : Oracle) (ps : Fdstore) : Account := ⟨storeStart o ps, [], false⟩

/-- The calls the sources make: set and get only while the magic value is valid, and every
    descriptor handed to set is below FD_SETSIZE. -/
def Admissible (a : Account) (c : StoreCall) : Prop :=
  (c = .init ∨ c = .closeall ∨ c = .destroy ∨ a.store.ps.magic = BSTG_FDSTORE_MAGIC) ∧
    ∀ sc ∈ c.setCalls oracle a.store.k a.store.ps, sc.fd < FD_SETSIZE

/-- The tracked set and `max` are what the returned values say. -/
structure Accounted (a : Account) : Prop where
  tracked : ∀ fd, fd ∈ a.store.ps.members ↔ fd ∈ a.returned ∧ 0 < fd
  max : a.store.ps.members = ∅ ∧ a.store.ps.max = -1 ∨
    a.store.ps.max ∈ a.store.ps.members ∧ ∀ fd ∈ a.store.ps.members, fd ≤ a.store.ps.max
  magic : a.store.ps.magic = BSTG_FDSTORE_MAGIC ↔ a.destroyed = false

/-- What the call `c` from `a` to `a'` closes and returns. -/
def CloseRule (a : Account) (c : StoreCall) (a' : Account) : Prop :=
  if c = .closeall ∨ c = .destroy then
    if a.destroyed then
      a'.store.rc = EINVAL ∧ a'.store.k = a.store.k ∧ a'.store.ps = a.store.ps
    else
      a'.store.rc = 0 ∧
        a'.store.k.closes = a.store.k.closes ++ a.store.ps.members.sort (· ≤ ·) ∧
        a'.store.ps.max = -1 ∧ a'.store.ps.count = 0 ∧ a'.store.ps.members = ∅
  else a'.store.k.closes = a.store.k.closes

/-! ## 2. One call of set -/

theorem closes_foldl (o : Oracle) (fds : List Int) :
    fds.foldl (fun k fd => (oracle.close k fd).1) o = { o with closes := o.closes ++ fds } := by
  induction fds generalizing o with
  | nil => simp
  | cons fd fds ih =>
    rw [List.foldl_cons, ih]
    simp [oracle]

theorem notReplaced_closes {o o' : Oracle} {ps : Fdstore} {fd : Int} {count : Nat}
    (h : NotReplaced oracle o ps fd o' count) : o'.closes = o.closes := by
  cases h with
  | small => rfl
  | missed => rfl
  | failed => rfl

theorem openTries_closes (flags modes : List OpenFlag) (o : Oracle) :
    (openTries oracle flags modes o).state.closes = o.closes := by
  induction modes generalizing o with
  | nil => rfl
  | cons omode modes ih =>
    rw [openTries]
    dsimp only
    split
    · rfl
    · exact ih _

/-- The tracked set is that of the positive values returned. -/
def TrackedBy (ps : Fdstore) (returned : List Int) : Prop :=
  ∀ fd, fd ∈ ps.members ↔ fd ∈ returned ∧ 0 < fd

/-- A value returned that is tracked already, or no descriptor, tracks nothing new. -/
theorem TrackedBy.again {ps ps' : Fdstore} {returned : List Int} {r : Int}
    (h : TrackedBy ps returned) (hsame : ps'.members = ps.members) (hr : 0 < r → r ∈ ps.members) :
    TrackedBy ps' (returned ++ [r]) := by
  intro n
  rw [hsame, h, List.mem_append, List.mem_singleton]
  constructor
  · exact fun hn => ⟨.inl hn.1, hn.2⟩
  · intro hn
    obtain ⟨hn | rfl, hpos⟩ := hn
    · exact ⟨hn, hpos⟩
    · exact (h n).mp (hr hpos)

/-- A call of set below FD_SETSIZE returns, closes nothing, and adds to the tracked set exactly
    the positive value it returns. -/
theorem set_accounts (o : Oracle) {ps : Fdstore} {fd : Int} {returned : List Int} (h : ps.Valid)
    (hfd : fd < FD_SETSIZE) (ht : TrackedBy ps returned) :
    ∃ o' ps' r, bstgFdstoreSet oracle o ps fd = .ok (o', ps', r) ∧ ps'.Valid ∧
      TrackedBy ps' (returned ++ [r]) ∧ o'.closes = o.closes := by
  have hout := set_outcome oracle h o fd
  generalize bstgFdstoreSet oracle o ps fd = res at hout
  cases hout with
  | @replaced count newd hrep =>
    exact ⟨_, _, _, rfl, h.probed _, ht.again rfl fun _ => hrep.2.2.1, rfl⟩
  | @tracked o' count hnot hpos hin =>
    refine ⟨_, _, _, rfl, (h.probed _).tracking hpos _, fun n => ?_, notReplaced_closes hnot⟩
    rw [tracking_members, probed_members, Finset.mem_insert, ht, List.mem_append,
      List.mem_singleton]
    constructor
    · intro hn
      rcases hn with rfl | hn
      · exact ⟨.inr rfl, hpos⟩
      · exact ⟨.inl hn.1, hn.2⟩
    · intro hn
      obtain ⟨hn | rfl, hn'⟩ := hn
      · exact .inr ⟨hn, hn'⟩
      · exact .inl rfl
  | @refused o' count hnot hle =>
    exact ⟨_, _, _, rfl, h.probed _, ht.again rfl fun hpos => by omega, notReplaced_closes hnot⟩
  | overrun _ hsize => omega

/-! ## 3. The invariant -/

/-- A destroyed store: no magic value, and empty. -/
structure Destroyed (a : Account) : Prop where
  magic : a.store.ps.magic ≠ BSTG_FDSTORE_MAGIC
  max : a.store.ps.max = -1
  members : a.store.ps.members = ∅
  returned : a.returned = []

/-- The invariant: the store is valid and tracks the values returned, or it is destroyed. -/
def AccountInv (a : Account) : Prop :=
  a.destroyed = false ∧ a.store.ps.Valid ∧ TrackedBy a.store.ps a.returned ∨
    a.destroyed = true ∧ Destroyed a

theorem trackedBy_nil {ps : Fdstore} (h : ps.members = ∅) : TrackedBy ps [] := by
  intro fd
  rw [h]
  exact ⟨fun hn => absurd hn (Finset.notMem_empty _), fun hn => absurd hn.1 List.not_mem_nil⟩

theorem AccountInv.accounted {a : Account} (h : AccountInv a) : Accounted a := by
  rcases h with ⟨hd, hvalid, ht⟩ | ⟨hd, hdes⟩
  · refine ⟨ht, ?_, ⟨fun _ => hd, fun _ => hvalid.magic⟩⟩
    rcases hvalid.top with htop | htop
    · exact .inl ⟨htop.2, htop.1⟩
    · exact .inr ⟨htop, hvalid.le⟩
  · refine ⟨?_, .inl ⟨hdes.members, hdes.max⟩, fun hm => absurd hm hdes.magic, fun hf => ?_⟩
    · rw [hdes.returned]
      exact trackedBy_nil hdes.members
    · rw [hd] at hf
      cases hf

/-- The calls of set inside one call: each returns, and what they return is what the tracked set
    grows by. -/
theorem exec_accounts {a : Account} {c : StoreCall} (hc : c ≠ .init ∧ c ≠ .closeall ∧ c ≠ .destroy)
    (hvalid : a.store.ps.Valid) (ht : TrackedBy a.store.ps a.returned)
    (hadm : ∀ sc ∈ c.setCalls oracle a.store.k a.store.ps, sc.fd < FD_SETSIZE) :
    ∃ o' ps' rc, c.exec oracle a.store.k a.store.ps = .ok (o', ps', rc) ∧ ps'.Valid ∧
      TrackedBy ps' (a.returned ++ setReturns (c.setCalls oracle a.store.k a.store.ps)) ∧
      o'.closes = a.store.k.closes := by
  have hget : ∀ flags, (∀ sc ∈ get2SetCalls oracle a.store.k a.store.ps flags, sc.fd < FD_SETSIZE) →
      ∃ o' ps' rc, bstgFdstoreGet2 oracle a.store.k a.store.ps flags = .ok (o', ps', rc) ∧
        ps'.Valid ∧
        TrackedBy ps' (a.returned ++ setReturns (get2SetCalls oracle a.store.k a.store.ps flags)) ∧
        o'.closes = a.store.k.closes := by
    intro flags hsize
    have hout := get2_outcome oracle hvalid a.store.k flags
    generalize get2SetCalls oracle a.store.k a.store.ps flags = calls at hout hsize ⊢
    generalize bstgFdstoreGet2 oracle a.store.k a.store.ps flags = res at hout
    cases hout with
    | found =>
      refine ⟨_, _, _, rfl, hvalid.probed _, ?_, rfl⟩
      rw [setReturns, List.filterMap_nil, List.append_nil]
      exact ht
    | @opened count fd _ hfound =>
      obtain ⟨o', ps', r, hset, hvalid', ht', hcl⟩ := set_accounts
        (openTries oracle flags omodes a.store.k).state (hvalid.probed count)
        (hsize _ List.mem_cons_self) ht
      refine ⟨o', ps', r, hset, hvalid', ?_, hcl.trans (openTries_closes _ _ _)⟩
      simp only [setReturns, List.filterMap_cons, hset, List.filterMap_nil]
      exact ht'
    | nothing =>
      refine ⟨_, _, _, rfl, hvalid.probed _, ?_, openTries_closes _ _ _⟩
      rw [setReturns, List.filterMap_nil, List.append_nil]
      exact ht
  cases c with
  | init => exact absurd rfl hc.1
  | closeall => exact absurd rfl hc.2.1
  | destroy => exact absurd rfl hc.2.2
  | get => exact hget _ hadm
  | get2 flags => exact hget flags hadm
  | set fd =>
    obtain ⟨o', ps', r, hset, hvalid', ht', hcl⟩ :=
      set_accounts a.store.k hvalid (hadm _ List.mem_cons_self) ht
    refine ⟨o', ps', r, hset, hvalid', ?_, hcl⟩
    simp only [StoreCall.setCalls, setReturns, List.filterMap_cons, hset, List.filterMap_nil]
    exact ht'

theorem accountStep_ok {a : Account} {c : StoreCall} {r : Oracle × Fdstore × Int}
    (h : c.exec oracle a.store.k a.store.ps = .ok r) :
    accountStep a c = .ok ⟨⟨r.1, r.2.1, r.2.2⟩, a.returnedAfter c, a.destroyedAfter c⟩ := by
  rw [accountStep, storeStep_ok h]
  rfl

/-- What a step of a run has to give: it returns, keeps the invariant and closes what the rule
    says. -/
def StepsWell (a : Account) (c : StoreCall) : Prop :=
  ∃ a', accountStep a c = .ok a' ∧ AccountInv a' ∧ CloseRule a c a'

theorem init_steps (a : Account) : StepsWell a .init :=
  ⟨_, accountStep_ok rfl, .inl ⟨rfl, fdstoreInit_valid _, trackedBy_nil rfl⟩, rfl⟩

theorem closeall_steps {a : Account} (hd : a.destroyed = false) (hvalid : a.store.ps.Valid) :
    StepsWell a .closeall := by
  refine ⟨_, accountStep_ok (closeall_spec hvalid _),
    .inl ⟨hd, fdstoreReset_valid hvalid, trackedBy_nil rfl⟩, ?_⟩
  rw [CloseRule, if_pos (.inl rfl), hd, if_neg Bool.false_ne_true, closes_foldl]
  exact ⟨rfl, rfl, rfl, rfl, rfl⟩

theorem destroy_steps {a : Account} (hd : a.destroyed = false) (hvalid : a.store.ps.Valid) :
    StepsWell a .destroy := by
  refine ⟨_, accountStep_ok (destroy_spec hvalid _), .inr ⟨rfl, ?_, rfl, rfl, rfl⟩, ?_⟩
  · show ~~~BSTG_FDSTORE_MAGIC ≠ BSTG_FDSTORE_MAGIC
    decide
  · rw [CloseRule, if_pos (.inr rfl), hd, if_neg Bool.false_ne_true, closes_foldl]
    exact ⟨rfl, rfl, rfl, rfl, rfl⟩

/-- On a destroyed store closeall and destroy return EINVAL and change nothing. -/
theorem destroyed_steps {a : Account} (hd : a.destroyed = true) (hdes : Destroyed a) {c : StoreCall}
    (hc : c = .closeall ∨ c = .destroy) : StepsWell a c := by
  have hexec : c.exec oracle a.store.k a.store.ps = .ok (a.store.k, a.store.ps, EINVAL) := by
    rcases hc with rfl | rfl
    · exact closeall_einval hdes.magic _
    · exact destroy_einval hdes.magic _
  have hafter : a.destroyedAfter c = true ∧ a.returnedAfter c = [] := by
    rcases hc with rfl | rfl
    · exact ⟨hd, rfl⟩
    · exact ⟨rfl, rfl⟩
  refine ⟨_, accountStep_ok hexec,
    .inr ⟨hafter.1, hdes.magic, hdes.max, hdes.members, hafter.2⟩, ?_⟩
  rw [CloseRule, if_pos hc, if_pos hd]
  exact ⟨rfl, rfl, rfl⟩

/-- set, get and get2, on a valid store. -/
theorem set_get_steps {a : Account} (hd : a.destroyed = false) (hvalid : a.store.ps.Valid)
    (ht : TrackedBy a.store.ps a.returned) {c : StoreCall}
    (hc : c ≠ .init ∧ c ≠ .closeall ∧ c ≠ .destroy)
    (hsize : ∀ sc ∈ c.setCalls oracle a.store.k a.store.ps, sc.fd < FD_SETSIZE) :
    StepsWell a c := by
  obtain ⟨o', ps', rc, hexec, hvalid', ht', hcl⟩ := exec_accounts hc hvalid ht hsize
  have hafter : a.destroyedAfter c = false ∧ a.returnedAfter c =
      a.returned ++ setReturns (c.setCalls oracle a.store.k a.store.ps) := by
    cases c with
    | init => exact absurd rfl hc.1
    | closeall => exact absurd rfl hc.2.1
    | destroy => exact absurd rfl hc.2.2
    | _ => exact ⟨hd, rfl⟩
  refine ⟨_, accountStep_ok hexec, .inl ⟨hafter.1, hvalid', ?_⟩, ?_⟩
  · rw [hafter.2]
    exact ht'
  · rw [CloseRule, if_neg fun h => h.elim hc.2.1 hc.2.2]
    exact hcl

/-- One step: an admissible call returns, keeps the invariant and closes what the rule says. -/
theorem account_step {a : Account} {c : StoreCall} (hI : AccountInv a) (hadm : Admissible a c) :
    StepsWell a c := by
  obtain ⟨hmagic, hsize⟩ := hadm
  by_cases hc : c ≠ .init ∧ c ≠ .closeall ∧ c ≠ .destroy
  · have hm : a.store.ps.magic = BSTG_FDSTORE_MAGIC := by
      rcases hmagic with h | h | h | h
      · exact absurd h hc.1
      · exact absurd h hc.2.1
      · exact absurd h hc.2.2
      · exact h
    rcases hI with ⟨hd, hvalid, ht⟩ | ⟨hd, hdes⟩
    · exact set_get_steps hd hvalid ht hc hsize
    · exact absurd hm hdes.magic
  · have hcases : c = .init ∨ c = .closeall ∨ c = .destroy := by
      cases c with
      | init => exact .inl rfl
      | closeall => exact .inr (.inl rfl)
      | destroy => exact .inr (.inr rfl)
      | _ => exact absurd ⟨nofun, nofun, nofun⟩ hc
    rcases hI with ⟨hd, hvalid, ht⟩ | ⟨hd, hdes⟩
    · rcases hcases with rfl | rfl | rfl
      · exact init_steps a
      · exact closeall_steps hd hvalid
      · exact destroy_steps hd hvalid
    · rcases hcases with rfl | hclose
      · exact init_steps a
      · exact destroyed_steps hd hdes hclose

/-! ## 4. Every run -/

/-- Over every sequence of admissible calls behind the first init, with any answers of `open` and
    `dup2`: every call returns, in every state reached the tracked set and `max` are what the
    values returned say, and each call closes what the rule says. -/
theorem close_accounting (o : Oracle) (ps : Fdstore) (calls : List StoreCall)
    (hadm : EachStep accountStep (accountStart o ps) calls Admissible) :
    (∃ a, run accountStep (accountStart o ps) calls = .ok a) ∧
      Always accountStep (accountStart o ps) calls Accounted ∧
      EachStep accountStep (accountStart o ps) calls fun a c =>
        ∀ a', accountStep a c = .ok a' → CloseRule a c a' := by
  have h0 : AccountInv (accountStart o ps) := .inl ⟨rfl, fdstoreInit_valid ps, trackedBy_nil rfl⟩
  have keep : ∀ a c a', AccountInv a → Admissible a c → accountStep a c = .ok a' →
      AccountInv a' := by
    intro a c a' hI hc hstep
    obtain ⟨b, hb, hinv, -⟩ := account_step hI hc
    rw [hstep] at hb
    cases hb
    exact hinv
  refine ⟨?_, ?_, ?_⟩
  · obtain ⟨a, hrun, -⟩ := run_ok_of_eachStep h0 (fun a c hI hc => by
      obtain ⟨b, hb, hinv, -⟩ := account_step hI hc
      exact ⟨b, hb, hinv⟩) hadm
    exact ⟨a, hrun⟩
  · exact (always_of_eachStep h0 keep hadm).imp fun a ha => ha.accounted
  · refine EachStep.of_invariant h0 keep (fun a c hI hc a' hstep => ?_) hadm
    obtain ⟨b, hb, -, hrule⟩ := account_step hI hc
    rw [hstep] at hb
    cases hb
    exact hrule

/-- Descriptors with a bit, handed to a store that is not destroyed, and then only closing. -/
theorem sets_admissible {a : Account} (hI : AccountInv a) (hd : a.destroyed = false)
    {fds : List Int} (hfds : ∀ fd ∈ fds, fd < FD_SETSIZE) {rest : List StoreCall}
    (hrest : ∀ c ∈ rest, c = .closeall ∨ c = .destroy) :
    EachStep accountStep a (fds.map StoreCall.set ++ rest) Admissible := by
  induction fds generalizing a with
  | nil =>
    intro pre c hp t _
    rcases hrest c (hp.subset (List.mem_append_right _ List.mem_cons_self)) with rfl | rfl
    · exact ⟨.inr (.inl rfl), fun sc hsc => absurd hsc List.not_mem_nil⟩
    · exact ⟨.inr (.inr (.inl rfl)), fun sc hsc => absurd hsc List.not_mem_nil⟩
  | cons fd fds ih =>
    have hm := hI.accounted.magic.mpr hd
    have hadm : Admissible a (.set fd) := by
      refine ⟨.inr (.inr (.inr hm)), fun sc hsc => ?_⟩
      rw [List.mem_singleton.mp hsc]
      exact hfds fd List.mem_cons_self
    refine eachStep_cons.mpr ⟨hadm, fun a' hstep => ?_⟩
    obtain ⟨b, hb, hinv, -⟩ := account_step hI hadm
    rw [hstep] at hb
    cases hb
    refine ih hinv ?_ fun fd hfd => hfds fd (List.mem_cons_of_mem _ hfd)
    obtain ⟨s, -, hs⟩ := exec_bind_inv hstep
    cases hs
    exact hd

/-- Three descriptors, the last of which replaces one; then closeall, destroy and closeall. -/
theorem close_accounting_run :
    let start := accountStart ⟨fun _ => -1, fun _ => 0, []⟩ ⟨7, 0, 5, fdZero⟩
    let calls := [3, 12, 5].map StoreCall.set ++ [.closeall, .destroy, .closeall]
    (∃ a, run accountStep start calls = .ok a) ∧ Always accountStep start calls Accounted ∧
      EachStep accountStep start calls fun a c =>
        ∀ a', accountStep a c = .ok a' → CloseRule a c a' :=
  close_accounting _ _ _ (sets_admissible (.inl ⟨rfl, fdstoreInit_valid _, trackedBy_nil rfl⟩) rfl
    (by decide) (by decide))

end Fembot
