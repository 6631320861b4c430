import Mathlib.Data.List.Basic
import Mathlib.Tactic.Common

/-! # Runs of a fallible step over a list

`List.foldlM` in `Except` is the run of a machine over its program: it stops at the first step that
fails. The rules here carry an invariant, a measure or a simulation from one step to a whole run. -/

namespace FallibleFold

variable {σ τ ι ε φ : Type}

/-- A run of no steps ends where it began. -/
@[simp] theorem run_nil (step : σ → ι → Except ε σ) (s : σ) :
    ([] : List ι).foldlM step s = .ok s := rfl

/-- A run that ends well does so through a first step that does. -/
theorem run_cons_eq_ok_iff {step : σ → ι → Except ε σ} {i : ι} {is : List ι} {s u : σ} :
    (i :: is).foldlM step s = .ok u ↔ ∃ t, step s i = .ok t ∧ is.foldlM step t = .ok u := by
  rw [List.foldlM_cons]
  cases step s i with
  | error e => simp [bind, Except.bind]
  | ok t => simp [bind, Except.bind]

/-- **The invariant rule**: a property of the executed program and the state that the empty program
has and every step keeps holds of every state a run reaches. -/
theorem run_invariant {step : σ → ι → Except ε σ} (inv : List ι → σ → Prop)
    (keep : ∀ done i s t, inv done s → step s i = .ok t → inv (done ++ [i]) t)
    {is : List ι} {s t : σ} (start : inv [] s) (run : is.foldlM step s = .ok t) : inv is t := by
  suffices general : ∀ (is done : List ι) (s : σ), inv done s → is.foldlM step s = .ok t →
      inv (done ++ is) t by
    simpa using general is [] s start run
  intro is
  induction is with
  | nil =>
    intro done s hs hrun
    rw [run_nil] at hrun
    cases hrun
    simpa using hs
  | cons i is ih =>
    intro done s hs hrun
    obtain ⟨u, hu, hrest⟩ := run_cons_eq_ok_iff.mp hrun
    have := ih (done ++ [i]) u (keep done i s u hs hu) hrest
    simpa using this

/-- A run that fails does so in one step, from the state the steps before it reached. -/
theorem run_eq_error {step : σ → ι → Except ε σ} {is : List ι} {s : σ} {e : ε}
    (run : is.foldlM step s = .error e) :
    ∃ done i rest t, is = done ++ i :: rest ∧ done.foldlM step s = .ok t ∧ step t i = .error e := by
  induction is generalizing s with
  | nil => cases run
  | cons i is ih =>
    cases hstep : step s i with
    | error e' =>
      rw [List.foldlM_cons, hstep] at run
      cases run
      exact ⟨[], i, is, s, rfl, rfl, hstep⟩
    | ok t =>
      rw [List.foldlM_cons, hstep] at run
      obtain ⟨done, j, rest, u, rfl, hdone, hfail⟩ := ih run
      exact ⟨i :: done, j, rest, u, rfl, run_cons_eq_ok_iff.mpr ⟨t, hstep, hdone⟩, hfail⟩

end FallibleFold
