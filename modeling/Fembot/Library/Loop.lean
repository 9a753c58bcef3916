/-
  File:      Fembot/Library/Loop.lean
  Subject:   Loops whose body may stop the computation, and their invariant rules.

  A `Reached` is the state a computation came to and what stopped it there, if something did:
  what was done before the stop is not lost. `forLoop` counts, `whileLoop` tests; each has one
  rule, which asks of the body what it keeps (`I`) and what holds where it stops (`E`).
-/
import Mathlib.Tactic.Common

namespace Library

variable {σ ε : Type*}

/-! ## 1. Computations that may stop -/

/-- The state reached, and what stopped the computation there. -/
structure Reached (σ ε : Type*) where
  state : σ
  stopped : Option ε

/-- What follows runs from the state reached, unless the computation has stopped. -/
def Reached.andThen (r : Reached σ ε) (f : σ → Reached σ ε) : Reached σ ε :=
  match r.stopped with
  | none => f r.state
  | some _ => r

/-- Where the computation went through, `P` holds of its state; where it stopped, `E`. -/
def Reached.Meets (r : Reached σ ε) (P : σ → Prop) (E : σ → ε → Prop) : Prop :=
  (r.stopped = none → P r.state) ∧ ∀ e, r.stopped = some e → E r.state e

theorem meets_ok {s : σ} {P : σ → Prop} {E : σ → ε → Prop} (h : P s) :
    (⟨s, none⟩ : Reached σ ε).Meets P E :=
  ⟨fun _ => h, fun _ he => nomatch he⟩

theorem meets_stop {s : σ} {e : ε} {P : σ → Prop} {E : σ → ε → Prop} (h : E s e) :
    (⟨s, some e⟩ : Reached σ ε).Meets P E := by
  refine ⟨(nomatch ·), fun e' he => ?_⟩
  cases he
  exact h

theorem Reached.Meets.imp {r : Reached σ ε} {P Q : σ → Prop} {E F : σ → ε → Prop}
    (h : r.Meets P E) (hPQ : ∀ s, P s → Q s) (hEF : ∀ s e, E s e → F s e) : r.Meets Q F :=
  ⟨fun hn => hPQ _ (h.1 hn), fun e he => hEF _ _ (h.2 e he)⟩

theorem Reached.Meets.andThen {r : Reached σ ε} {f : σ → Reached σ ε} {P Q : σ → Prop}
    {E : σ → ε → Prop} (h : r.Meets P E) (hf : ∀ s, P s → (f s).Meets Q E) :
    (r.andThen f).Meets Q E := by
  unfold Reached.andThen
  cases hr : r.stopped with
  | none => exact hf _ (h.1 hr)
  | some e =>
    refine ⟨fun hn => ?_, fun e' he => h.2 e' he⟩
    rw [hr] at hn
    cases hn

/-! ## 2. The counting loop -/

/-- `for (x = i; x < i + n; x++) body` -/
def forLoop (body : Nat → σ → Reached σ ε) : Nat → Nat → σ → Reached σ ε
  | _, 0, s => ⟨s, none⟩
  | i, n + 1, s => (body i s).andThen (forLoop body (i + 1) n)

/-- What each round turns from `I x` into `I (x + 1)` holds, at the bound, behind the loop. -/
theorem forLoop_meets {body : Nat → σ → Reached σ ε} {I : Nat → σ → Prop} {E : σ → ε → Prop}
    {i n : Nat} {s : σ}
    (hbody : ∀ x s, i ≤ x → x < i + n → I x s → (body x s).Meets (I (x + 1)) E) (h : I i s) :
    (forLoop body i n s).Meets (I (i + n)) E := by
  induction n generalizing i s with
  | zero => exact meets_ok h
  | succ n ih =>
    refine (hbody i s (Nat.le_refl i) (by omega) h).andThen fun s' hs' => ?_
    have hrest := ih (fun x t h1 h2 hx => hbody x t (by omega) (by omega) hx) hs'
    rwa [Nat.add_right_comm] at hrest

/-- A loop whose first round is stopped. -/
theorem forLoop_stopped {body : Nat → σ → Reached σ ε} {i n : Nat} {s t : σ} {e : ε}
    (hb : body i s = ⟨t, some e⟩) : forLoop body i (n + 1) s = ⟨t, some e⟩ := by
  rw [forLoop, hb]
  rfl

/-! ## 3. The testing loop -/

/-- `while (cond) body`, cut off after `fuel` rounds with the mark `cut`. -/
def whileLoop (cond : σ → Bool) (body : σ → Reached σ ε) (cut : ε) : Nat → σ → Reached σ ε
  | 0, s => ⟨s, some cut⟩
  | fuel + 1, s =>
    if cond s then (body s).andThen (whileLoop cond body cut fuel) else ⟨s, none⟩

theorem whileLoop_done {cond : σ → Bool} {body : σ → Reached σ ε} {cut : ε} {fuel : Nat} {s : σ}
    (hc : cond s = false) : whileLoop cond body cut (fuel + 1) s = ⟨s, none⟩ := by
  rw [whileLoop, hc, if_neg Bool.false_ne_true]

/-- A loop whose first round is stopped. -/
theorem whileLoop_stopped {cond : σ → Bool} {body : σ → Reached σ ε} {cut e : ε} {fuel : Nat}
    {s t : σ} (hc : cond s = true) (hb : body s = ⟨t, some e⟩) :
    whileLoop cond body cut (fuel + 1) s = ⟨t, some e⟩ := by
  rw [whileLoop, hc, if_pos rfl, hb]
  rfl

/-- A body that keeps `I` and lowers `variant` takes the loop to its end: it is not cut off, and
    behind it `I` holds and the condition does not. -/
theorem whileLoop_meets {cond : σ → Bool} {body : σ → Reached σ ε} {cut : ε} {I : σ → Prop}
    {E : σ → ε → Prop} (variant : σ → Nat)
    (hbody : ∀ s, I s → cond s = true →
      (body s).Meets (fun s' => I s' ∧ variant s' < variant s) E)
    {fuel : Nat} {s : σ} (h : I s) (hfuel : variant s < fuel) :
    (whileLoop cond body cut fuel s).Meets (fun s' => I s' ∧ cond s' = false) E := by
  induction fuel generalizing s with
  | zero => exact absurd hfuel (Nat.not_lt_zero _)
  | succ fuel ih =>
    unfold whileLoop
    cases hc : cond s with
    | false =>
      rw [if_neg Bool.false_ne_true]
      exact meets_ok ⟨h, hc⟩
    | true =>
      rw [if_pos rfl]
      exact (hbody s h hc).andThen fun s' hs' => ih hs'.1 (by omega)

/-- What each round keeps, whether it stops or not, holds of the state the loop comes to. -/
theorem whileLoop_keeps {cond : σ → Bool} {body : σ → Reached σ ε} {cut : ε} {I : σ → Prop}
    (hbody : ∀ s, I s → cond s = true → I (body s).state) {fuel : Nat} {s : σ} (h : I s) :
    I (whileLoop cond body cut fuel s).state := by
  induction fuel generalizing s with
  | zero => exact h
  | succ fuel ih =>
    unfold whileLoop
    cases hc : cond s with
    | false => exact h
    | true =>
      rw [if_pos rfl, Reached.andThen]
      have hround := hbody s h hc
      cases hstop : (body s).stopped with
      | none => exact ih hround
      | some e => exact hround

/-- What the rounds that go through keep holds where the loop goes through. -/
theorem whileLoop_through {cond : σ → Bool} {body : σ → Reached σ ε} {cut : ε} {I : σ → Prop}
    (hbody : ∀ s, I s → (body s).stopped = none → I (body s).state) {fuel : Nat} {s : σ} (h : I s)
    (hend : (whileLoop cond body cut fuel s).stopped = none) :
    I (whileLoop cond body cut fuel s).state := by
  induction fuel generalizing s with
  | zero => exact h
  | succ fuel ih =>
    unfold whileLoop at hend ⊢
    cases hc : cond s with
    | false => exact h
    | true =>
      rw [hc, if_pos rfl, Reached.andThen] at hend
      rw [if_pos rfl, Reached.andThen]
      cases hstop : (body s).stopped with
      | none =>
        rw [hstop] at hend
        exact ih (hbody s h hstop) hend
      | some e =>
        rw [hstop] at hend
        cases hstop.symm.trans hend

end Library
