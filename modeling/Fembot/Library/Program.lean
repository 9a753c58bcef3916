/-
  File:      Fembot/Library/Program.lean
  Subject:   Programs that make calls, and the rules of pre- and postconditions for them.

  A `Prog C R α` ends with a value, or makes a call `c : C` and goes on with the answer, of type
  `R c`. What a call does is fixed by a handler only: `exec` runs a program against one, and
  `Meets` says of such a run that each call is made in a state that meets `φ`, and that `Q` holds
  where the program ends. One program can be run against several handlers, each of which shows
  another side of it.

  * `meets_bind`, `Meets.imp` -- the rules of composition;
  * `Ends` -- the run comes to the end of the program, and `Q` holds there;
  * `Only`, `meets_of_only` -- the frame rule: a program keeps what each of its calls keeps;
  * `Within`, `meets_of_within` -- the same for calls that depend on what came before;
  * `exec_bind`, `Meets.exec`, `Makes` -- back to the run, and to the calls that it makes.
-/
import Mathlib.Tactic.Common

namespace Library

variable {C : Type} {R : C → Type} {α β σ ε : Type}

/-! ## 1. Programs -/

/-- A program: a value, or a call and what comes of each answer to it. -/
inductive Prog (C : Type) (R : C → Type) (α : Type) : Type where
  | ret (a : α)
  | call (c : C) (k : R c → Prog C R α)

namespace Prog

def bind : Prog C R α → (α → Prog C R β) → Prog C R β
  | .ret a, f => f a
  | .call c k, f => .call c fun r => bind (k r) f

instance : Monad (Prog C R) where
  pure := .ret
  bind := bind

/-- The program of one call. -/
def ask (c : C) : Prog C R (R c) := .call c .ret

theorem call_bind (c : C) (k : R c → Prog C R α) (f : α → Prog C R β) :
    Prog.call c k >>= f = .call c fun r => k r >>= f := rfl

/-! ## 2. Runs -/

section

variable (handle : (c : C) → σ → Except ε (R c × σ))

/-- The run of a program from the state `s`: its value and the state behind it, or what stopped a
    call. -/
def exec : Prog C R α → σ → Except ε (α × σ)
  | .ret a, s => .ok (a, s)
  | .call c k, s =>
    match handle c s with
    | .ok (r, s') => exec (k r) s'
    | .error e => .error e

/-- In the run from `s` each call is made in a state that meets `φ`, and where the program ends,
    `Q` holds of its value and the state behind it. -/
def Meets (φ : C → σ → Prop) : Prog C R α → σ → (α → σ → Prop) → Prop
  | .ret a, s, Q => Q a s
  | .call c k, s, Q => φ c s ∧ ∀ r s', handle c s = .ok (r, s') → Meets φ (k r) s' Q

variable {handle} {φ ψ : C → σ → Prop} {Q Q' : α → σ → Prop}

theorem exec_call_ok {c : C} {r : R c} {s s' : σ} (h : handle c s = .ok (r, s'))
    (k : R c → Prog C R α) : exec handle (.call c k) s = exec handle (k r) s' := by
  rw [exec, h]

theorem exec_call_error {c : C} {s : σ} {e : ε} (h : handle c s = .error e)
    (k : R c → Prog C R α) : exec handle (.call c k) s = .error e := by
  rw [exec, h]

/-- A run that ends well, behind its first call. -/
theorem exec_call_inv {c : C} {k : R c → Prog C R α} {s : σ} {a : α × σ}
    (h : exec handle (.call c k) s = .ok a) :
    ∃ r s', handle c s = .ok (r, s') ∧ exec handle (k r) s' = .ok a := by
  rw [exec] at h
  split at h
  · exact ⟨_, _, ‹_›, h⟩
  · cases h

/-- A run of one program behind another. -/
theorem exec_bind (p : Prog C R α) (f : α → Prog C R β) (s : σ) :
    exec handle (p >>= f) s =
      match exec handle p s with
      | .ok (a, s') => exec handle (f a) s'
      | .error e => .error e := by
  induction p generalizing s with
  | ret a => rfl
  | call c k ih =>
    rw [call_bind, exec, exec]
    cases handle c s with
    | error e => rfl
    | ok t => exact ih t.1 t.2

theorem meets_call {c : C} {k : R c → Prog C R α} {s : σ} :
    Meets handle φ (.call c k) s Q ↔
      φ c s ∧ ∀ r s', handle c s = .ok (r, s') → Meets handle φ (k r) s' Q := Iff.rfl

theorem meets_bind {p : Prog C R α} {f : α → Prog C R β} {s : σ} {Q : β → σ → Prop} :
    Meets handle φ (p >>= f) s Q ↔
      Meets handle φ p s fun a s' => Meets handle φ (f a) s' Q := by
  induction p generalizing s with
  | ret a => exact Iff.rfl
  | call c k ih =>
    rw [call_bind, meets_call, meets_call]
    exact and_congr_right fun _ => forall_congr' fun r => forall_congr' fun s' =>
      imp_congr_right fun _ => ih r

/-- The rule of consequence. -/
theorem Meets.imp {p : Prog C R α} {s : σ} (h : Meets handle φ p s Q) (hφ : ∀ c s, φ c s → ψ c s)
    (hQ : ∀ a s, Q a s → Q' a s) : Meets handle ψ p s Q' := by
  induction p generalizing s with
  | ret a => exact hQ a s h
  | call c k ih => exact ⟨hφ c s h.1, fun r s' hs => ih r (h.2 r s' hs)⟩

theorem Meets.post {p : Prog C R α} {s : σ} (h : Meets handle φ p s Q)
    (hQ : ∀ a s, Q a s → Q' a s) : Meets handle φ p s Q' :=
  h.imp (fun _ _ hc => hc) hQ

/-- What says nothing is met. -/
theorem meets_trivial (p : Prog C R α) (s : σ) :
    Meets handle (fun _ _ => True) p s fun _ _ => True := by
  induction p generalizing s with
  | ret a => trivial
  | call c k ih => exact ⟨trivial, fun r s' _ => ih r s'⟩

/-- What is met holds behind a run that ends well. -/
theorem Meets.exec {p : Prog C R α} {s s' : σ} {a : α} (h : Meets handle φ p s Q)
    (hrun : Prog.exec handle p s = .ok (a, s')) : Q a s' := by
  induction p generalizing s with
  | ret b =>
    cases hrun
    exact h
  | call c k ih =>
    rw [Prog.exec] at hrun
    cases hc : handle c s with
    | error e =>
      rw [hc] at hrun
      cases hrun
    | ok t =>
      rw [hc] at hrun
      exact ih t.1 (h.2 t.1 t.2 hc) hrun

/-- The run of the program from a state makes the call `c'` in the state `t`. -/
inductive Makes (handle : (c : C) → σ → Except ε (R c × σ)) (c' : C) (t : σ) :
    Prog C R α → σ → Prop
  | here (k : R c' → Prog C R α) : Makes handle c' t (.call c' k) t
  | later {c : C} {k : R c → Prog C R α} {r : R c} {s s' : σ} (h : handle c s = .ok (r, s'))
      (hm : Makes handle c' t (k r) s') : Makes handle c' t (.call c k) s

theorem Meets.makes {p : Prog C R α} {s t : σ} {c' : C} (h : Meets handle φ p s Q)
    (hm : Makes handle c' t p s) : φ c' t := by
  induction hm with
  | here k => exact h.1
  | later hs _ ih => exact ih (h.2 _ _ hs)

/-- What stops a run stops one of the calls that it makes. -/
theorem exec_error_makes {p : Prog C R α} {s : σ} {e : ε} (hrun : exec handle p s = .error e) :
    ∃ c' t, Makes handle c' t p s ∧ handle c' t = .error e := by
  induction p generalizing s with
  | ret b => cases hrun
  | call c k ih =>
    rw [exec] at hrun
    cases hc : handle c s with
    | error e' =>
      rw [hc] at hrun
      cases hrun
      exact ⟨c, s, .here k, hc⟩
    | ok t =>
      rw [hc] at hrun
      obtain ⟨c', u, hm, hu⟩ := ih t.1 hrun
      exact ⟨c', u, .later hc hm, hu⟩

/-- The run from `s` comes to the end of the program, and `Q` holds there. -/
def Ends (handle : (c : C) → σ → Except ε (R c × σ)) (p : Prog C R α) (s : σ) (Q : α → σ → Prop) :
    Prop :=
  ∃ a s', exec handle p s = .ok (a, s') ∧ Q a s'

theorem ends_ret {a : α} {s : σ} (h : Q a s) : Ends handle (.ret a : Prog C R α) s Q := ⟨a, s, rfl, h⟩

theorem ends_call {c : C} {k : R c → Prog C R α} {s s' : σ} {r : R c} (h : handle c s = .ok (r, s'))
    (hk : Ends handle (k r) s' Q) : Ends handle (.call c k) s Q := by
  obtain ⟨a, t, hrun, hQ⟩ := hk
  exact ⟨a, t, by rw [exec_call_ok h, hrun], hQ⟩

theorem Ends.bind {p : Prog C R α} {f : α → Prog C R β} {s : σ} {Q : β → σ → Prop}
    (h : Ends handle p s fun a s' => Ends handle (f a) s' Q) : Ends handle (p >>= f) s Q := by
  obtain ⟨a, s', hrun, b, t, hrun', hQ⟩ := h
  exact ⟨b, t, by rw [exec_bind, hrun]; exact hrun', hQ⟩

theorem Ends.post {p : Prog C R α} {s : σ} (h : Ends handle p s Q) (hQ : ∀ a s, Q a s → Q' a s) :
    Ends handle p s Q' := by
  obtain ⟨a, s', hrun, hq⟩ := h
  exact ⟨a, s', hrun, hQ a s' hq⟩

end

/-! ## 3. The calls of a program -/

/-- Every call that the program can make is one of `S`, whatever the answers. -/
def Only (S : C → Prop) : Prog C R α → Prop
  | .ret _ => True
  | .call c k => S c ∧ ∀ r, Only S (k r)

variable {S : C → Prop}

theorem Only.bind {p : Prog C R α} {f : α → Prog C R β} (h : Only S p) (hf : ∀ a, Only S (f a)) :
    Only S (p >>= f) := by
  induction p with
  | ret a => exact hf a
  | call c k ih => exact ⟨h.1, fun r => ih r (h.2 r)⟩

theorem Only.ite {P : Prop} [Decidable P] {p q : Prog C R α} (hp : Only S p) (hq : Only S q) :
    Only S (if P then p else q) := by
  split
  · exact hp
  · exact hq

theorem Only.imp {S' : C → Prop} {p : Prog C R α} (h : Only S p) (hS : ∀ c, S c → S' c) :
    Only S' p := by
  induction p with
  | ret a => trivial
  | call c k ih => exact ⟨hS c h.1, fun r => ih r (h.2 r)⟩

theorem only_all (hS : ∀ c, S c) (p : Prog C R α) : Only S p := by
  induction p with
  | ret a => trivial
  | call c k ih => exact ⟨hS c, ih⟩

/-- The frame rule: an invariant that every call of `S` keeps, and under which each is made as `φ`
    demands, is kept by a program that makes no other calls. -/
theorem meets_of_only {handle : (c : C) → σ → Except ε (R c × σ)} {φ : C → σ → Prop}
    {I : σ → Prop} (keep : ∀ c s r s', S c → I s → handle c s = .ok (r, s') → I s')
    (hφ : ∀ c s, S c → I s → φ c s) {p : Prog C R α} (h : Only S p) {s : σ} (hI : I s) :
    Meets handle φ p s fun _ => I := by
  induction p generalizing s with
  | ret a => exact hI
  | call c k ih =>
    exact ⟨hφ c s h.1 hI, fun r s' hs => ih r (h.2 r) (keep c s r s' h.1 hI hs)⟩

/-! ## 4. Calls that depend on what came before -/

section

variable {γ : Type} {U : γ → C → Prop} {next : γ → (c : C) → R c → γ}

/-- Every call that the program can make is one of `U g`, where `g` is what `next` makes of the calls
    before it and their answers. -/
def Within (U : γ → C → Prop) (next : γ → (c : C) → R c → γ) : γ → Prog C R α → Prop
  | _, .ret _ => True
  | g, .call c k => U g c ∧ ∀ r, Within U next (next g c r) (k r)

/-- What follows is within `U` for all that the program may have come to hold. -/
theorem Within.bind {V : γ → Prop} {p : Prog C R α} {f : α → Prog C R β} {g : γ}
    (hV : ∀ g c r, V g → V (next g c r)) (hg : V g) (h : Within U next g p)
    (hf : ∀ a g, V g → Within U next g (f a)) : Within U next g (p >>= f) := by
  induction p generalizing g with
  | ret a => exact hf a g hg
  | call c k ih => exact ⟨h.1, fun r => ih r (hV g c r hg) (h.2 r)⟩

theorem Within.ite {P : Prop} [Decidable P] {g : γ} {p q : Prog C R α} (hp : Within U next g p)
    (hq : Within U next g q) : Within U next g (if P then p else q) := by
  split
  · exact hp
  · exact hq

theorem Within.imp {U' : γ → C → Prop} {g : γ} {p : Prog C R α} (h : Within U next g p)
    (hU : ∀ g c, U g c → U' g c) : Within U' next g p := by
  induction p generalizing g with
  | ret a => trivial
  | call c k ih => exact ⟨hU g c h.1, fun r => ih r (h.2 r)⟩

/-- A program all of whose calls `U` allows whatever is held. -/
theorem Only.within {S : C → Prop} (hS : ∀ g c, S c → U g c) {p : Prog C R α} (h : Only S p) (g : γ) :
    Within U next g p := by
  induction p generalizing g with
  | ret a => trivial
  | call c k ih => exact ⟨hS g c h.1, fun r => ih r (h.2 r) _⟩

/-- The frame rule for such a program; `χ` is what is known of its calls already. -/
theorem meets_of_within {handle : (c : C) → σ → Except ε (R c × σ)} {χ φ : C → σ → Prop}
    {I : γ → σ → Prop} {Q : α → σ → Prop}
    (keep : ∀ g c s r s', U g c → χ c s → I g s → handle c s = .ok (r, s') → I (next g c r) s')
    (hφ : ∀ g c s, U g c → χ c s → I g s → φ c s) {p : Prog C R α} {g : γ}
    (h : Within U next g p) {s : σ} (hχ : Meets handle χ p s Q) (hI : I g s) :
    Meets handle φ p s fun a s' => Q a s' ∧ ∃ g', I g' s' := by
  induction p generalizing g s with
  | ret a => exact ⟨hχ, g, hI⟩
  | call c k ih =>
    exact ⟨hφ g c s h.1 hχ.1 hI, fun r s' hs =>
      ih r (h.2 r) (hχ.2 r s' hs) (keep g c s r s' h.1 hχ.1 hI hs)⟩

end

end Prog

end Library
