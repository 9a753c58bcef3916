/-
  File:      Fembot/Library/Terminated.lean
  Subject:   Texts ended by a stop symbol, when a text laid over an older one is read back
             without the older one's tail, and scans that do not pass the stop.
-/
import Mathlib.Data.List.TakeWhile
import Mathlib.Tactic.Common

namespace Library

variable {α : Type*} {stop : α}

/-! ## 1. Texts read back -/

section

variable [DecidableEq α]

/-- The symbols before the first `stop`; `none` where no `stop` stands. -/
def upTo (stop : α) (l : List α) : Option (List α) :=
  if stop ∈ l then some (l.takeWhile (· ≠ stop)) else none

theorem takeWhile_append_of_mem {d : List α} (r : List α) (h : stop ∈ d) :
    (d ++ r).takeWhile (· ≠ stop) = d.takeWhile (· ≠ stop) := by
  induction d with
  | nil => exact absurd h List.not_mem_nil
  | cons c d ih =>
    by_cases hc : c = stop
    · simp [hc]
    · have hd : stop ∈ d := (List.mem_cons.mp h).resolve_left fun e => hc e.symm
      simpa [hc] using ih hd

/-- A text that holds a stop is read back as it is, whatever follows it. -/
theorem upTo_append_of_mem {d : List α} (r : List α) (h : stop ∈ d) :
    upTo stop (d ++ r) = some (d.takeWhile (· ≠ stop)) := by
  rw [upTo, if_pos (List.mem_append_left r h), takeWhile_append_of_mem r h]

/-- A text without a stop is read on into what follows it. -/
theorem upTo_append_of_not_mem {d : List α} (r : List α) (h : stop ∉ d) :
    upTo stop (d ++ r) = (upTo stop r).map (d ++ ·) := by
  have hall : ∀ c ∈ d, decide (c ≠ stop) = true := by
    intro c hc
    exact decide_eq_true fun e => h (e ▸ hc)
  unfold upTo
  by_cases hr : stop ∈ r
  · rw [if_pos (List.mem_append_right d hr), if_pos hr, List.takeWhile_append_of_pos hall]
    rfl
  · rw [if_neg (by simp [h, hr]), if_neg hr]
    rfl

/-- The exact condition under which the text `d`, laid over an older text whose tail `r` stays
    behind it, is read back as `d` alone: `d` holds a stop, or one stands right behind it. -/
theorem upTo_append_iff (d r : List α) :
    upTo stop (d ++ r) = some (d.takeWhile (· ≠ stop)) ↔ stop ∈ d ∨ r.head? = some stop := by
  by_cases hd : stop ∈ d
  · exact ⟨fun _ => Or.inl hd, fun _ => upTo_append_of_mem r hd⟩
  · have hown : d.takeWhile (· ≠ stop) = d := by
      rw [List.takeWhile_eq_self_iff]
      intro c hc
      exact decide_eq_true fun e => hd (e ▸ hc)
    rw [upTo_append_of_not_mem r hd, hown]
    cases r with
    | nil => simp [upTo, hd]
    | cons c r =>
      by_cases hc : c = stop
      · simp [upTo, hc]
      · have hc' : stop ≠ c := fun e => hc e.symm
        by_cases hr : stop ∈ r
        · simp [upTo, hc, hd, hr]
        · simp [upTo, hc, hc', hd, hr]

end

/-! ## 2. Scans that the stop ends -/

section

variable {p : α → Bool}

/-- A scan that the stop ends takes nothing from behind it. -/
theorem takeWhile_append_stop (hp : p stop = false) (d r : List α) :
    (d ++ stop :: r).takeWhile p = d.takeWhile p := by
  induction d with
  | nil => simp [hp]
  | cons c d ih =>
    cases hc : p c with
    | true => simp [hc, ih]
    | false => simp [hc]

/-- What such a scan leaves still has the stop in it. -/
theorem dropWhile_append_stop (hp : p stop = false) (d r : List α) :
    (d ++ stop :: r).dropWhile p = d.dropWhile p ++ stop :: r := by
  induction d with
  | nil => simp [hp]
  | cons c d ih =>
    cases hc : p c with
    | true => simp [hc, ih]
    | false => simp [hc]

end

end Library
