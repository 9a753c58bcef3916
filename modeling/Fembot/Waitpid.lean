/-
  File:      Fembot/Waitpid.lean
  Subject:   `bstg_waitpid` (`src/lib/bstg_waitpid.c`): what a parent does while it waits for a child,
             for every stream of answers of the `waitpid` call.

  * `waitpidLoop`, `bstgWaitpid` -- the function, with the signals, polls and pauses it makes in
    their order;
  * `waitpidLoop_skip` -- polls that do not answer with the child: the loop goes on;
  * `LateKills`, `waitpid_kills_late` -- a child that is reaped by poll m: one signal before each poll
    behind the first ticks + 1, and no other;
  * `EndsOnFailure`, `waitpid_never_fails` -- a poll that fails is answered by going on: the
    `return -1` behind the loop is never come to (`waitpid_unanswered`).
-/
import Mathlib.Data.Stream.Init
import Mathlib.Data.List.Range
import Mathlib.Data.Int.Order.Basic

namespace Fembot

/-! ## 1. The function -/

/-- What `waitpid(childpid, status, WNOHANG)` answers: 0, the number of a child that has ended and
    its status, or -1. -/
structure WaitAnswer where
  ret : Int
  status : Int
  deriving DecidableEq, Repr

/-- The calls the function makes. -/
inductive WaitEvent where
  | kill (pid sig : Int)
  | waitpid (pid : Int)
  | usleep (usec : Nat)
  deriving DecidableEq, Repr

def SIGKILL : Int := 9

/-- The largest `int`. -/
def INT_MAX : Nat := 2147483647

/-- The calls made, the value returned, and the status left. Without a value the loop has counted
    beyond the largest `int`. -/
structure Waited where
  events : List WaitEvent
  ret : Option Int
  status : Int
  deriving DecidableEq, Repr

/-- The calls of one round up to its poll. -/
def pollEvents (childpid ticks : Int) (count : Nat) : List WaitEvent :=
  (if (count : Int) > ticks then [.kill childpid SIGKILL] else []) ++ [.waitpid childpid]

/-- The loop of `bstg_waitpid`, with the rounds that are left before `count` overflows. -/
def waitpidLoop (childpid ticks : Int) : Nat → Nat → Int → Stream' WaitAnswer → Waited
  | 0, _, status, _ => ⟨[], none, status⟩
  | rounds + 1, count, status, answers =>
    let polled := pollEvents childpid ticks count
    -- the status is written for a child that has ended
    let status := if answers.head.ret > 0 then answers.head.status else status
    if answers.head.ret = childpid then ⟨polled, some childpid, status⟩
    else
      let rest := waitpidLoop childpid ticks rounds (count + 1) status answers.tail
      ⟨polled ++ .usleep 250000 :: rest.events, rest.ret, rest.status⟩

/-- `bstg_waitpid`. -/
def bstgWaitpid (childpid status ticks : Int) (answers : Stream' WaitAnswer) : Waited :=
  waitpidLoop childpid ticks (INT_MAX + 1) 0 status answers

/-! ## 2. Rounds -/

/-- The calls of `n` rounds from `count` on, each with its pause. -/
def waitRounds (childpid ticks : Int) (count n : Nat) : List WaitEvent :=
  (List.range' count n).flatMap fun i => pollEvents childpid ticks i ++ [.usleep 250000]

theorem waitRounds_succ (childpid ticks : Int) (count n : Nat) :
    waitRounds childpid ticks count (n + 1) =
      pollEvents childpid ticks count ++ .usleep 250000 :: waitRounds childpid ticks (count + 1) n := by
  simp [waitRounds, List.range'_succ, List.flatMap_cons]

theorem waitRounds_add (childpid ticks : Int) (count m n : Nat) :
    waitRounds childpid ticks count (m + n) =
      waitRounds childpid ticks count m ++ waitRounds childpid ticks (count + m) n := by
  rw [waitRounds, ← List.range'_append_1, List.flatMap_append]
  rfl

/-- Rounds whose polls do not answer with the child. -/
theorem waitpidLoop_skip {childpid : Int} (ticks : Int) {answers : Stream' WaitAnswer} {n : Nat}
    (hskip : ∀ i < n, (answers.get i).ret ≠ childpid) (rounds count : Nat) (status : Int) :
    ∃ status', waitpidLoop childpid ticks (rounds + n) count status answers =
      let rest := waitpidLoop childpid ticks rounds (count + n) status' (answers.drop n)
      ⟨waitRounds childpid ticks count n ++ rest.events, rest.ret, rest.status⟩ := by
  induction n generalizing answers count status with
  | zero => exact ⟨status, rfl⟩
  | succ n ih =>
    have hhead : answers.head.ret ≠ childpid := hskip 0 (Nat.succ_pos n)
    have htail : ∀ i < n, (answers.tail.get i).ret ≠ childpid :=
      fun i hi => hskip (i + 1) (Nat.succ_lt_succ hi)
    obtain ⟨status', hrest⟩ := ih htail (count + 1)
      (if answers.head.ret > 0 then answers.head.status else status)
    refine ⟨status', ?_⟩
    rw [← Nat.add_assoc, waitpidLoop]
    dsimp only
    rw [if_neg hhead, hrest, waitRounds_succ, Nat.add_right_comm count 1 n]
    simp only [List.append_assoc, List.cons_append, Nat.add_assoc]
    rfl

/-- The round whose poll answers with the child. -/
theorem waitpidLoop_reaped {childpid ticks : Int} {answers : Stream' WaitAnswer}
    (hreaped : (answers.get 0).ret = childpid) (hchild : 0 < childpid) (rounds count : Nat)
    (status : Int) :
    waitpidLoop childpid ticks (rounds + 1) count status answers =
      ⟨pollEvents childpid ticks count, some childpid, (answers.get 0).status⟩ := by
  have hhead : answers.head.ret = childpid := hreaped
  rw [waitpidLoop]
  dsimp only
  rw [if_pos hhead, hhead, if_pos hchild]

/-- Polls none of which answers with the child: the loop ends in the overflow of its counter, and
    returns nothing. -/
theorem waitpid_unanswered {childpid : Int} (status ticks : Int) {answers : Stream' WaitAnswer}
    (h : ∀ i, (answers.get i).ret ≠ childpid) :
    (bstgWaitpid childpid status ticks answers).ret = none ∧
      (bstgWaitpid childpid status ticks answers).events =
        waitRounds childpid ticks 0 (INT_MAX + 1) := by
  obtain ⟨status', hloop⟩ := waitpidLoop_skip ticks (fun i (_ : i < INT_MAX + 1) => h i) 0 0 status
  rw [Nat.zero_add] at hloop
  unfold bstgWaitpid
  rw [hloop]
  exact ⟨rfl, List.append_nil _⟩

/-- A value that is returned is the child's number. -/
theorem waitpidLoop_ret (childpid ticks : Int) (rounds count : Nat) (status : Int)
    (answers : Stream' WaitAnswer) :
    (waitpidLoop childpid ticks rounds count status answers).ret = none ∨
      (waitpidLoop childpid ticks rounds count status answers).ret = some childpid := by
  induction rounds generalizing count status answers with
  | zero => exact .inl rfl
  | succ rounds ih =>
    rw [waitpidLoop]
    dsimp only
    by_cases hhead : answers.head.ret = childpid
    · rw [if_pos hhead]
      exact .inr rfl
    · rw [if_neg hhead]
      exact ih _ _ _

/-! ## 3. A child that is reaped -/

/-- The calls of a wait that ends with poll `m`, counted from 0: it makes the polls 0 to m, all of the
    child, and a pause between two; before each poll behind the first ticks + 1 it sends the child one
    SIGKILL, and it sends no other signal; the last call is poll `m`. -/
structure LateKills (childpid ticks : Int) (m : Nat) (events : List WaitEvent) : Prop where
  polls : events.count (.waitpid childpid) = m + 1
  child : ∀ pid, .waitpid pid ∈ events → pid = childpid
  pauses : events.count (.usleep 250000) = m
  once : ∀ i : Nat, ticks < i → i ≤ m →
    ∃! pre, pre ++ [.kill childpid SIGKILL] <+: events ∧ pre.count (.waitpid childpid) = i
  only : ∀ pre pid sig, pre ++ [.kill pid sig] <+: events →
    pid = childpid ∧ sig = SIGKILL ∧ ticks < pre.count (.waitpid childpid) ∧
      pre.count (.waitpid childpid) ≤ m
  last : ∃ pre, events = pre ++ [.waitpid childpid]

theorem count_pollEvents (childpid ticks : Int) (count : Nat) :
    (pollEvents childpid ticks count).count (.waitpid childpid) = 1 := by
  unfold pollEvents
  split <;> simp

theorem pauses_pollEvents (childpid ticks : Int) (count : Nat) :
    (pollEvents childpid ticks count).count (.usleep 250000) = 0 := by
  unfold pollEvents
  split <;> simp

theorem count_waitRounds (childpid ticks : Int) (count n : Nat) :
    (waitRounds childpid ticks count n).count (.waitpid childpid) = n := by
  induction n generalizing count with
  | zero => rfl
  | succ n ih =>
    rw [waitRounds_succ, List.count_append, count_pollEvents, List.count_cons_of_ne (by simp), ih,
      Nat.add_comm]

theorem waitpid_of_mem_rounds {childpid ticks pid : Int} {m : Nat}
    (h : .waitpid pid ∈ waitRounds childpid ticks 0 m ++ pollEvents childpid ticks m) :
    pid = childpid := by
  have hpoll : ∀ count, .waitpid pid ∈ pollEvents childpid ticks count → pid = childpid := by
    intro count hmem
    unfold pollEvents at hmem
    split at hmem <;> simpa using hmem
  rcases List.mem_append.mp h with hmem | hmem
  · obtain ⟨count, -, hmem⟩ := List.mem_flatMap.mp hmem
    rcases List.mem_append.mp hmem with hmem | hmem
    · exact hpoll count hmem
    · cases List.mem_singleton.mp hmem
  · exact hpoll m hmem

theorem pauses_waitRounds (childpid ticks : Int) (count n : Nat) :
    (waitRounds childpid ticks count n).count (.usleep 250000) = n := by
  induction n generalizing count with
  | zero => rfl
  | succ n ih =>
    rw [waitRounds_succ, List.count_append, List.count_cons_self, ih, pauses_pollEvents,
      Nat.zero_add]

/-- A signal at the start of a round, or behind its poll. -/
theorem kill_behind {childpid ticks pid sig : Int} {count : Nat} {pre rest : List WaitEvent}
    (h : pre ++ [.kill pid sig] <+: pollEvents childpid ticks count ++ rest) :
    (pre = [] ∧ ticks < count ∧ pid = childpid ∧ sig = SIGKILL) ∨
      ∃ pre', pre = pollEvents childpid ticks count ++ pre' ∧ pre' ++ [.kill pid sig] <+: rest := by
  have hpoll : ∀ pre, pre ++ [.kill pid sig] <+: .waitpid childpid :: rest →
      ∃ pre', pre = .waitpid childpid :: pre' ∧ pre' ++ [.kill pid sig] <+: rest := by
    intro pre h
    cases pre with
    | nil => cases (List.cons_prefix_cons.mp h).1
    | cons first pre =>
      obtain ⟨rfl, hrest⟩ := List.cons_prefix_cons.mp h
      exact ⟨pre, rfl, hrest⟩
  unfold pollEvents at h ⊢
  by_cases hlate : (count : Int) > ticks
  · rw [if_pos hlate] at h ⊢
    cases pre with
    | nil =>
      cases (List.cons_prefix_cons.mp h).1
      exact .inl ⟨rfl, hlate, rfl, rfl⟩
    | cons first pre =>
      obtain ⟨rfl, hrest⟩ := List.cons_prefix_cons.mp h
      obtain ⟨pre', rfl, hpre'⟩ := hpoll pre hrest
      exact .inr ⟨pre', rfl, hpre'⟩
  · rw [if_neg hlate] at h ⊢
    exact .inr (hpoll pre h)

/-- Where the signals stand in a wait: one in front of each round behind `ticks`. -/
theorem kill_prefix_iff {childpid ticks pid sig : Int} {count m : Nat} {pre : List WaitEvent} :
    pre ++ [.kill pid sig] <+:
        waitRounds childpid ticks count m ++ pollEvents childpid ticks (count + m) ↔
      pid = childpid ∧ sig = SIGKILL ∧ ∃ i ≤ m, ticks < (count + i : Nat) ∧
        pre = waitRounds childpid ticks count i := by
  constructor
  · intro h
    induction m generalizing count pre with
    | zero =>
      rw [← List.append_nil (pollEvents _ _ _)] at h
      obtain ⟨rfl, hlate, hpid, hsig⟩ | ⟨pre', -, hpre'⟩ := kill_behind h
      · exact ⟨hpid, hsig, 0, Nat.le_refl 0, hlate, rfl⟩
      · exact absurd (List.prefix_nil.mp hpre') (by simp)
    | succ m ih =>
      rw [waitRounds_succ, List.append_assoc, List.cons_append] at h
      obtain ⟨rfl, hlate, hpid, hsig⟩ | ⟨pre', rfl, hpre'⟩ := kill_behind h
      · exact ⟨hpid, hsig, 0, Nat.zero_le _, hlate, rfl⟩
      · -- behind the poll comes the pause
        cases pre' with
        | nil => cases (List.cons_prefix_cons.mp hpre').1
        | cons first pre' =>
          obtain ⟨rfl, hrest⟩ := List.cons_prefix_cons.mp hpre'
          rw [← Nat.add_assoc, Nat.add_right_comm] at hrest
          obtain ⟨hpid, hsig, i, hi, hlate, rfl⟩ := ih hrest
          refine ⟨hpid, hsig, i + 1, by omega, ?_, (waitRounds_succ _ _ _ _).symm⟩
          rwa [← Nat.add_assoc, Nat.add_right_comm]
  · rintro ⟨rfl, rfl, i, hi, hlate, rfl⟩
    have hpoll : ∀ rest, [.kill pid SIGKILL] <+: pollEvents pid ticks (count + i) ++ rest := by
      intro rest
      rw [pollEvents, if_pos hlate]
      exact List.prefix_append _ _
    obtain ⟨n, rfl⟩ := Nat.exists_eq_add_of_le hi
    rw [waitRounds_add, List.append_assoc, List.prefix_append_right_inj]
    cases n with
    | zero =>
      rw [← List.append_nil (pollEvents _ _ _)]
      exact hpoll []
    | succ n =>
      rw [waitRounds_succ, List.append_assoc]
      exact hpoll _

theorem lateKills_of_order (childpid ticks : Int) (m : Nat) :
    LateKills childpid ticks m (waitRounds childpid ticks 0 m ++ pollEvents childpid ticks m) := by
  have hkill : ∀ {pre pid sig}, pre ++ [.kill pid sig] <+:
      waitRounds childpid ticks 0 m ++ pollEvents childpid ticks m ↔
        pid = childpid ∧ sig = SIGKILL ∧ ∃ i : Nat, i ≤ m ∧ ticks < i ∧
          pre = waitRounds childpid ticks 0 i := by
    intro pre pid sig
    have h : pre ++ [.kill pid sig] <+:
        waitRounds childpid ticks 0 m ++ pollEvents childpid ticks (0 + m) ↔ _ := kill_prefix_iff
    simpa only [Nat.zero_add] using h
  refine ⟨?_, fun pid => waitpid_of_mem_rounds, ?_, fun i hlate hi => ?_, fun pre pid sig h => ?_,
    _, (List.append_assoc _ _ _).symm⟩
  · rw [List.count_append, count_waitRounds, count_pollEvents]
  · rw [List.count_append, pauses_waitRounds, pauses_pollEvents, Nat.add_zero]
  · refine ⟨waitRounds childpid ticks 0 i, ⟨hkill.mpr ⟨rfl, rfl, i, hi, hlate, rfl⟩,
      count_waitRounds childpid ticks 0 i⟩, ?_⟩
    rintro pre ⟨hpre, hcount⟩
    obtain ⟨-, -, j, -, -, rfl⟩ := hkill.mp hpre
    rw [count_waitRounds] at hcount
    rw [hcount]
  · obtain ⟨hpid, hsig, i, hi, hlate, rfl⟩ := hkill.mp h
    rw [count_waitRounds]
    exact ⟨hpid, hsig, hlate, hi⟩

/-- A child whose end comes to light with poll `m`, before `count` runs out: the function returns it
    with the status of that poll, having made the calls of `LateKills`. -/
theorem waitpid_kills_late {childpid ticks : Int} (status : Int) {answers : Stream' WaitAnswer}
    {m : Nat} (hchild : 0 < childpid) (hm : m ≤ INT_MAX)
    (hreaped : (answers.get m).ret = childpid) (hrunning : ∀ i < m, (answers.get i).ret = 0) :
    (bstgWaitpid childpid status ticks answers).ret = some childpid ∧
      (bstgWaitpid childpid status ticks answers).status = (answers.get m).status ∧
      LateKills childpid ticks m (bstgWaitpid childpid status ticks answers).events := by
  have hskip : ∀ i < m, (answers.get i).ret ≠ childpid := by
    intro i hi hret
    rw [hrunning i hi] at hret
    omega
  obtain ⟨rounds, hrounds⟩ : ∃ rounds, INT_MAX + 1 = rounds + 1 + m := ⟨INT_MAX - m, by omega⟩
  obtain ⟨status', hloop⟩ := waitpidLoop_skip ticks hskip (rounds + 1) 0 status
  have hget : (answers.drop m).get 0 = answers.get m := by rw [Stream'.get_drop, Nat.add_zero]
  rw [waitpidLoop_reaped (by rwa [hget]) hchild, ← hrounds, Nat.zero_add, hget] at hloop
  unfold bstgWaitpid
  rw [hloop]
  exact ⟨rfl, rfl, lateKills_of_order childpid ticks m⟩

/-- The stream of a child that is found at poll `m`. -/
def foundAt (childpid : Int) (m : Nat) : Stream' WaitAnswer :=
  fun i => if i < m then ⟨0, 0⟩ else ⟨childpid, 9⟩

/-- A child that is found at the fourth poll by a parent that is patient for one tick. -/
theorem waitpid_kills_late_run :
    (bstgWaitpid 42 0 1 (foundAt 42 3)).ret = some 42 ∧
      (bstgWaitpid 42 0 1 (foundAt 42 3)).status = 9 ∧
      LateKills 42 1 3 (bstgWaitpid 42 0 1 (foundAt 42 3)).events := by
  have hrunning : ∀ i < 3, ((foundAt 42 3).get i).ret = 0 := by
    intro i hi
    show (if i < 3 then (⟨0, 0⟩ : WaitAnswer) else ⟨42, 9⟩).ret = 0
    rw [if_pos hi]
  exact waitpid_kills_late 0 (by decide) (by decide) rfl hrunning

/-! ## 4. A poll that fails -/

/-- What the `return -1` of the function is for: poll `j` has failed, the function returns -1, and
    sends no signal behind that poll. -/
def EndsOnFailure (childpid : Int) (j : Nat) (w : Waited) : Prop :=
  w.ret = some (-1) ∧ ∀ pre post, w.events = pre ++ .kill childpid SIGKILL :: post →
    pre.count (.waitpid childpid) ≤ j

/-- For every child, every patience and every stream of answers with a failure before the child is
    found: the function does not end on it. -/
theorem waitpid_never_fails {childpid : Int} (status ticks : Int) {answers : Stream' WaitAnswer}
    {j : Nat} (hfail : (answers.get j).ret = -1)
    (hbefore : ∀ i ≤ j, (answers.get i).ret ≠ childpid) :
    ¬ EndsOnFailure childpid j (bstgWaitpid childpid status ticks answers) := by
  rintro ⟨hret, -⟩
  have hchild : childpid ≠ -1 := fun h => hbefore j (Nat.le_refl j) (hfail.trans h.symm)
  rcases waitpidLoop_ret childpid ticks (INT_MAX + 1) 0 status answers with hnone | hsome
  · exact absurd (hnone.symm.trans hret) (by simp)
  · exact hchild (Option.some.inj (hsome.symm.trans hret))

/-- A first poll that fails, and no other that succeeds. -/
theorem waitpid_never_fails_run :
    ¬ EndsOnFailure 42 0 (bstgWaitpid 42 0 4 (Stream'.const ⟨-1, 0⟩)) :=
  waitpid_never_fails 0 4 rfl (fun i _ => by rw [Stream'.get_const]; decide)

/-- The failing input: the process is no child, each poll fails. There is no end to it, and it is
    sent a signal behind the failing poll. -/
theorem waitpid_no_child :
    (bstgWaitpid 42 0 4 (Stream'.const ⟨-1, 0⟩)).ret = none ∧
      (∃ pre post, (bstgWaitpid 42 0 4 (Stream'.const ⟨-1, 0⟩)).events =
        pre ++ .kill 42 SIGKILL :: post ∧ pre.count (.waitpid 42) = 5) ∧
      ¬ EndsOnFailure 42 0 (bstgWaitpid 42 0 4 (Stream'.const ⟨-1, 0⟩)) := by
  have hnever : ∀ i, ((Stream'.const ⟨-1, 0⟩ : Stream' WaitAnswer).get i).ret ≠ 42 :=
    fun i => by rw [Stream'.get_const]; decide
  obtain ⟨hret, hevents⟩ := waitpid_unanswered 0 4 hnever
  obtain ⟨n, hn⟩ : ∃ n, INT_MAX + 1 = 5 + (n + 1) := ⟨INT_MAX - 5, by decide⟩
  refine ⟨hret, ⟨waitRounds 42 4 0 5, .waitpid 42 :: .usleep 250000 :: waitRounds 42 4 6 n, ?_,
    count_waitRounds 42 4 0 5⟩, fun h => ?_⟩
  · rw [hevents, hn, waitRounds_add, waitRounds_succ]
    rfl
  · exact absurd (hret.symm.trans h.1) (by simp)

end Fembot
