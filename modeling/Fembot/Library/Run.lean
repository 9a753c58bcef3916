/-
  File:      Fembot/Library/Run.lean
  Subject:   Runs of a fallible step function, and the two ways a property of every reached
             state is settled: by an invariant, or by the exact condition on the steps.

  A system is a step function `step : σ → α → Except ε σ`: an action either yields the next
  state or stops the run. `run step s as` executes the actions in order. Nothing here names a
  program; the modules above instantiate `σ`, `α`, `ε` and cite the rules by name.
-/
import Mathlib.Data.List.Infix
import Mathlib.Tactic.Common

namespace Library

variable {σ α ε : Type*}

/-! ## 1. Runs -/

/-- The run of `step` from `s` over the actions `as`: the final state, or the error that
    stopped it. -/
def run (step : σ → α → Except ε σ) : σ → List α → Except ε σ
  | s, [] => .ok s
  | s, a :: as =>
    match step s a with
    | .ok s' => run step s' as
    | .error e => .error e

variable {step : σ → α → Except ε σ}

@[simp] theorem run_nil (s : σ) : run step s [] = .ok s := rfl

theorem run_cons_ok {s s' : σ} {a : α} (as : List α) (h : step s a = .ok s') :
    run step s (a :: as) = run step s' as := by
  simp only [run, h]

theorem run_cons_error {s : σ} {a : α} {e : ε} (as : List α) (h : step s a = .error e) :
    run step s (a :: as) = .error e := by
  simp only [run, h]

/-- A run over at least one action that ends well starts with a step that ends well. -/
theorem run_cons_inv {s t : σ} {a : α} {as : List α} (h : run step s (a :: as) = .ok t) :
    ∃ s', step s a = .ok s' ∧ run step s' as = .ok t := by
  cases hs : step s a with
  | error e => rw [run_cons_error as hs] at h; cases h
  | ok s' => exact ⟨s', rfl, by rw [run_cons_ok as hs] at h; exact h⟩

theorem run_append_ok {s t : σ} {as : List α} (bs : List α) (h : run step s as = .ok t) :
    run step s (as ++ bs) = run step t bs := by
  induction as generalizing s with
  | nil => cases h; rfl
  | cons a as ih =>
    obtain ⟨s', hs, hr⟩ := run_cons_inv h
    rw [List.cons_append, run_cons_ok _ hs]
    exact ih hr

theorem run_append_error {s : σ} {as : List α} {e : ε} (bs : List α) (h : run step s as = .error e) :
    run step s (as ++ bs) = .error e := by
  induction as generalizing s with
  | nil => cases h
  | cons a as ih =>
    cases hs : step s a with
    | error e' =>
      rw [run_cons_error as hs] at h
      exact (run_cons_error (as ++ bs) hs).trans h
    | ok s' =>
      rw [run_cons_ok as hs] at h
      exact (run_cons_ok (as ++ bs) hs).trans (ih h)

/-! ## 2. Properties of every state reached -/

/-- `P` holds in every state the run over `as` reaches, the first and the last included. -/
def Always (step : σ → α → Except ε σ) (s : σ) (as : List α) (P : σ → Prop) : Prop :=
  ∀ pre, pre <+: as → ∀ t, run step s pre = .ok t → P t

/-- Every step the run over `as` comes to meets the condition `G`, stated on the state before
    the step and the action. -/
def EachStep (step : σ → α → Except ε σ) (s : σ) (as : List α) (G : σ → α → Prop) : Prop :=
  ∀ pre a, pre ++ [a] <+: as → ∀ t, run step s pre = .ok t → G t a

theorem always_nil {s : σ} {P : σ → Prop} : Always step s [] P ↔ P s := by
  constructor
  · intro h
    exact h [] List.prefix_rfl s rfl
  · intro h pre hp t ht
    rw [List.prefix_nil] at hp
    subst hp
    cases ht
    exact h

/-- The start is a state reached. -/
theorem Always.head {s : σ} {as : List α} {P : σ → Prop} (h : Always step s as P) : P s :=
  h [] List.nil_prefix s rfl

theorem always_cons {s : σ} {a : α} {as : List α} {P : σ → Prop} :
    Always step s (a :: as) P ↔ P s ∧ ∀ s', step s a = .ok s' → Always step s' as P := by
  constructor
  · intro h
    refine ⟨h [] (List.nil_prefix) s rfl, fun s' hs pre hp t ht => ?_⟩
    exact h (a :: pre) (List.cons_prefix_cons.mpr ⟨rfl, hp⟩) t (by rw [run_cons_ok pre hs]; exact ht)
  · rintro ⟨h0, hn⟩ pre hp t ht
    cases pre with
    | nil => cases ht; exact h0
    | cons b pre =>
      obtain ⟨rfl, hp'⟩ := List.cons_prefix_cons.mp hp
      obtain ⟨s', hs, hr⟩ := run_cons_inv ht
      exact hn s' hs pre hp' t hr

/-- A property of every state reached holds behind each step. -/
theorem Always.eachStep {P : σ → Prop} {s : σ} {as : List α} (h : Always step s as P) :
    EachStep step s as fun t a => ∀ t', step t a = .ok t' → P t' := by
  intro pre a hp t ht t' ht'
  refine h (pre ++ [a]) hp t' ?_
  rw [run_append_ok [a] ht, run_cons_ok [] ht', run_nil]

theorem EachStep.and {G H : σ → α → Prop} {s : σ} {as : List α} (hG : EachStep step s as G)
    (hH : EachStep step s as H) : EachStep step s as fun t a => G t a ∧ H t a :=
  fun pre a hp t ht => ⟨hG pre a hp t ht, hH pre a hp t ht⟩

/-- The condition holds at each step of the run that goes on from a state reached. -/
theorem EachStep.from {G : σ → α → Prop} {s t : σ} {pre mid as : List α}
    (h : EachStep step s as G) (hp : pre ++ mid <+: as) (ht : run step s pre = .ok t) :
    EachStep step t mid G := by
  intro pre' a hp' u hu
  have hpre : (pre ++ pre') ++ [a] <+: as := by
    rw [List.append_assoc]
    exact ((List.prefix_append_right_inj pre).mpr hp').trans hp
  refine h (pre ++ pre') a hpre u ?_
  rw [run_append_ok pre' ht]
  exact hu

theorem eachStep_nil {s : σ} {G : σ → α → Prop} : EachStep step s [] G := by
  intro pre a hp
  simp at hp

theorem eachStep_cons {s : σ} {a : α} {as : List α} {G : σ → α → Prop} :
    EachStep step s (a :: as) G ↔ G s a ∧ ∀ s', step s a = .ok s' → EachStep step s' as G := by
  constructor
  · intro h
    refine ⟨h [] a (List.cons_prefix_cons.mpr ⟨rfl, List.nil_prefix⟩) s rfl,
      fun s' hs pre b hp t ht => ?_⟩
    exact h (a :: pre) b (List.cons_prefix_cons.mpr ⟨rfl, hp⟩) t
      (by rw [run_cons_ok pre hs]; exact ht)
  · rintro ⟨h0, hn⟩ pre b hp t ht
    cases pre with
    | nil =>
      obtain ⟨rfl, -⟩ := List.cons_prefix_cons.mp hp
      cases ht
      exact h0
    | cons c pre =>
      obtain ⟨rfl, hp'⟩ := List.cons_prefix_cons.mp hp
      obtain ⟨s', hs, hr⟩ := run_cons_inv ht
      exact hn s' hs pre b hp' t hr

/-- A condition on the actions alone that every action meets. -/
theorem EachStep.of_forall {Q : α → Prop} {s : σ} {as : List α} (h : ∀ a ∈ as, Q a) :
    EachStep step s as fun _ a => Q a :=
  fun _ a hp _ _ => h a (hp.subset (List.mem_append_right _ List.mem_cons_self))

/-! ## 3. The rules -/

/-- The invariant rule: what every step preserves holds in every state reached. -/
theorem always_of_invariant {I : σ → Prop} {s : σ} (as : List α) (h0 : I s)
    (keep : ∀ s a s', I s → step s a = .ok s' → I s') : Always step s as I := by
  induction as generalizing s with
  | nil => exact always_nil.mpr h0
  | cons a as ih => exact always_cons.mpr ⟨h0, fun s' hs => ih (keep s a s' h0 hs)⟩

/-- The invariant rule under a condition on the steps. -/
theorem always_of_eachStep {I : σ → Prop} {G : σ → α → Prop} {s : σ} {as : List α} (h0 : I s)
    (keep : ∀ s a s', I s → G s a → step s a = .ok s' → I s') (hG : EachStep step s as G) :
    Always step s as I := by
  induction as generalizing s with
  | nil => exact always_nil.mpr h0
  | cons a as ih =>
    obtain ⟨hGa, hGn⟩ := eachStep_cons.mp hG
    exact always_cons.mpr ⟨h0, fun s' hs => ih (keep s a s' h0 hGa hs) (hGn s' hs)⟩

/-- The final state of a run that ends well is one of the states reached. -/
theorem Always.final {P : σ → Prop} {s t : σ} {as : List α} (h : Always step s as P)
    (ht : run step s as = .ok t) : P t :=
  h as List.prefix_rfl t ht

theorem Always.imp {P Q : σ → Prop} {s : σ} {as : List α} (h : Always step s as P)
    (hPQ : ∀ t, P t → Q t) : Always step s as Q :=
  fun pre hp t ht => hPQ t (h pre hp t ht)

/-- The exact condition for a property of every state reached: where a step that meets `G` keeps
    the invariant `I`, which gives `P`, and a step that misses `G` leads out of `P`, a run keeps `P`
    exactly when each of its steps meets `G`. -/
theorem always_iff_eachStep {I P : σ → Prop} {G : σ → α → Prop} {s : σ} (as : List α) (h0 : I s)
    (hP : ∀ s, I s → P s)
    (keep : ∀ s a s', I s → G s a → step s a = .ok s' → I s')
    (lose : ∀ s a, I s → ¬ G s a → ∃ s', step s a = .ok s' ∧ ¬ P s') :
    Always step s as P ↔ EachStep step s as G := by
  refine ⟨fun h => ?_, fun hG => (always_of_eachStep h0 keep hG).imp hP⟩
  induction as generalizing s with
  | nil => exact eachStep_nil
  | cons a as ih =>
    obtain ⟨-, hn⟩ := always_cons.mp h
    have hG : G s a := by
      by_contra hG
      obtain ⟨s', hs, hbad⟩ := lose s a h0 hG
      exact hbad (hn s' hs).head
    exact eachStep_cons.mpr ⟨hG, fun s' hs => ih (keep s a s' h0 hG hs) (hn s' hs)⟩

/-- The condition read off the end of a run: where a step that misses `G` leads from `I` to `J`,
    and `J` stays, a run that ends outside `J` met `G` at each step. -/
theorem eachStep_of_run {I J : σ → Prop} {G : σ → α → Prop} {s t : σ} {as : List α} (h0 : I s)
    (keep : ∀ s a s', I s → G s a → step s a = .ok s' → I s')
    (lose : ∀ s a s', I s → ¬ G s a → step s a = .ok s' → J s')
    (stay : ∀ s a s', J s → step s a = .ok s' → J s')
    (hrun : run step s as = .ok t) (hJ : ¬ J t) : EachStep step s as G := by
  induction as generalizing s with
  | nil => exact eachStep_nil
  | cons a as ih =>
    obtain ⟨s', hs, hr⟩ := run_cons_inv hrun
    have hG : G s a := by
      by_contra hG
      exact hJ ((always_of_invariant as (lose s a s' h0 hG hs) stay).final hr)
    refine eachStep_cons.mpr ⟨hG, fun u hu => ?_⟩
    rw [hs] at hu
    cases hu
    exact ih (keep s a s' h0 hG hs) hr

/-- What the invariant and the condition together give at each step. -/
theorem EachStep.of_invariant {I : σ → Prop} {G Q : σ → α → Prop} {s : σ} {as : List α} (h0 : I s)
    (keep : ∀ s a s', I s → G s a → step s a = .ok s' → I s')
    (hQ : ∀ s a, I s → G s a → Q s a) (hG : EachStep step s as G) : EachStep step s as Q := by
  intro pre a hp t ht
  have hI := always_of_eachStep h0 keep hG
  exact hQ t a (hI pre ((List.prefix_append pre [a]).trans hp) t ht) (hG pre a hp t ht)

/-- Where a step that meets `G` ends well and keeps `I`, a run whose steps meet `G` ends well. -/
theorem run_ok_of_eachStep {I : σ → Prop} {G : σ → α → Prop} {s : σ} {as : List α} (h0 : I s)
    (keep : ∀ s a, I s → G s a → ∃ s', step s a = .ok s' ∧ I s') (hG : EachStep step s as G) :
    ∃ t, run step s as = .ok t ∧ I t := by
  induction as generalizing s with
  | nil => exact ⟨s, rfl, h0⟩
  | cons a as ih =>
    obtain ⟨hGa, hGn⟩ := eachStep_cons.mp hG
    obtain ⟨s', hs, hI⟩ := keep s a h0 hGa
    rw [run_cons_ok as hs]
    exact ih hI (hGn s' hs)

/-- The exact condition for a run to be free of the errors `B`: where a step that meets `G` ends well
    and keeps `I`, and one that misses `G` stops with an error of `B`. `Q` is what is known of the
    actions beforehand. -/
theorem run_free_iff_eachStep {I : σ → Prop} {Q : α → Prop} {G : σ → α → Prop} {B : ε → Prop} {s : σ}
    {as : List α} (hQ : ∀ a ∈ as, Q a) (h0 : I s)
    (keep : ∀ s a, I s → Q a → G s a → ∃ s', step s a = .ok s' ∧ I s')
    (stop : ∀ s a, I s → Q a → ¬ G s a → ∃ e, step s a = .error e ∧ B e) :
    (∀ e, run step s as = .error e → ¬ B e) ↔ EachStep step s as G := by
  constructor
  · intro hfree
    induction as generalizing s with
    | nil => exact eachStep_nil
    | cons a as ih =>
      obtain ⟨ha, has⟩ := List.forall_mem_cons.mp hQ
      have hG : G s a := by
        by_contra hG
        obtain ⟨e, hs, hB⟩ := stop s a h0 ha hG
        exact hfree e (run_cons_error as hs) hB
      refine eachStep_cons.mpr ⟨hG, fun s' hs => ?_⟩
      obtain ⟨t, ht, hI⟩ := keep s a h0 ha hG
      rw [hs] at ht
      cases ht
      rw [run_cons_ok as hs] at hfree
      exact ih has hI hfree
  · intro hG e he
    have hGQ : EachStep step s as fun t a => G t a ∧ Q a := hG.and (.of_forall hQ)
    obtain ⟨t, ht, -⟩ := run_ok_of_eachStep h0 (fun t a hI h => keep t a hI h.2 h.1) hGQ
    rw [ht] at he
    cases he

/-- In a run that ends well every action is come to: a condition on the actions alone holds at
    each step exactly when it holds of every action. -/
theorem eachStep_forall {Q : α → Prop} {s t : σ} {as : List α} (h : run step s as = .ok t) :
    EachStep step s as (fun _ a => Q a) ↔ ∀ a ∈ as, Q a := by
  induction as generalizing s with
  | nil => exact ⟨fun _ a ha => absurd ha List.not_mem_nil, fun _ => eachStep_nil⟩
  | cons a as ih =>
    obtain ⟨s', hs, hr⟩ := run_cons_inv h
    rw [eachStep_cons, List.forall_mem_cons]
    constructor
    · rintro ⟨ha, hn⟩
      exact ⟨ha, (ih hr).mp (hn s' hs)⟩
    · rintro ⟨ha, hn⟩
      refine ⟨ha, fun u hu => ?_⟩
      rw [hs] at hu
      cases hu
      exact (ih hr).mpr hn

/-! ## 4. Runs and a reference -/

/-- Every prefix of the run ends well, and what `view` shows of its last state is what the reference
    `ref` makes of the same actions. -/
def Follows {ρ : Type*} (step : σ → α → Except ε σ) (view : σ → ρ) (ref : ρ → α → ρ) (s : σ)
    (as : List α) : Prop :=
  ∀ pre, pre <+: as → ∃ t, run step s pre = .ok t ∧ view t = pre.foldl ref (view s)

section

variable {ρ : Type*} {view : σ → ρ} {ref : ρ → α → ρ}

theorem follows_nil {s : σ} : Follows step view ref s [] := by
  intro pre hp
  rw [List.prefix_nil] at hp
  subst hp
  exact ⟨s, rfl, rfl⟩

theorem follows_cons {s : σ} {a : α} {as : List α} :
    Follows step view ref s (a :: as) ↔
      ∃ s', step s a = .ok s' ∧ view s' = ref (view s) a ∧ Follows step view ref s' as := by
  constructor
  · intro h
    obtain ⟨s', hrun, hview⟩ := h [a] (List.cons_prefix_cons.mpr ⟨rfl, List.nil_prefix⟩)
    obtain ⟨t, hs, ht⟩ := run_cons_inv hrun
    cases ht
    have hview : view s' = ref (view s) a := hview
    refine ⟨s', hs, hview, fun pre hp => ?_⟩
    obtain ⟨t, ht, hpre⟩ := h (a :: pre) (List.cons_prefix_cons.mpr ⟨rfl, hp⟩)
    rw [run_cons_ok pre hs] at ht
    rw [List.foldl_cons, ← hview] at hpre
    exact ⟨t, ht, hpre⟩
  · rintro ⟨s', hs, hview, h⟩ pre hp
    cases pre with
    | nil => exact ⟨s, rfl, rfl⟩
    | cons b pre =>
      obtain ⟨rfl, hp'⟩ := List.cons_prefix_cons.mp hp
      obtain ⟨t, ht, hpre⟩ := h pre hp'
      exact ⟨t, by rw [run_cons_ok pre hs]; exact ht, by rw [List.foldl_cons, ← hview]; exact hpre⟩

/-- The exact condition for a run to follow its reference: where a step that meets `G` keeps `I` and
    does what the reference does, and no other step does that, a run follows the reference exactly
    when each of its steps meets `G`. -/
theorem follows_iff_eachStep {I : σ → Prop} {G : σ → α → Prop} {s : σ} {as : List α} (h0 : I s)
    (keep : ∀ s a, I s → G s a → ∃ s', step s a = .ok s' ∧ I s' ∧ view s' = ref (view s) a)
    (lose : ∀ s a s', I s → ¬ G s a → step s a = .ok s' → view s' ≠ ref (view s) a) :
    Follows step view ref s as ↔ EachStep step s as G := by
  induction as generalizing s with
  | nil => exact ⟨fun _ => eachStep_nil, fun _ => follows_nil⟩
  | cons a as ih =>
    rw [follows_cons, eachStep_cons]
    constructor
    · rintro ⟨s', hs, hview, h⟩
      have hG : G s a := by
        by_contra hG
        exact lose s a s' h0 hG hs hview
      refine ⟨hG, fun t ht => ?_⟩
      obtain ⟨u, hu, hI, -⟩ := keep s a h0 hG
      cases hs.symm.trans hu
      cases hs.symm.trans ht
      exact (ih hI).mp h
    · rintro ⟨hG, h⟩
      obtain ⟨s', hs, hI, hview⟩ := keep s a h0 hG
      exact ⟨s', hs, hview, (ih hI).mpr (h s' hs)⟩

end

end Library
