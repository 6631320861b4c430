import Mathlib

/-! # Programs step by step

A program goes through a state in steps, each of which changes the state and decides on what it finds
there how to go on. So it can be looked at between any two steps, which is where it can be stopped; and
programs on one state can take their steps in turns, in any order. Programs that stay out of each
other's way then do what each of them does alone. -/

/-- A program that comes to an answer in steps. -/
inductive Stepwise (σ α : Type) where
  | done (answer : α)
  | step (effect : σ → σ) (next : σ → Stepwise σ α)

namespace Stepwise

variable {σ α β : Type}

/-- Go on with the answer. -/
def bind : Stepwise σ α → (α → Stepwise σ β) → Stepwise σ β
  | done answer, f => f answer
  | step effect next, f => step effect fun s => (next s).bind f

/-- The answer, and the state behind the last step. -/
def run : Stepwise σ α → σ → α × σ
  | done answer, s => (answer, s)
  | step effect next, s => (next s).run (effect s)

/-- One step; a program that is done stays as it is. -/
def advance : Stepwise σ α → σ → Stepwise σ α × σ
  | done answer, s => (done answer, s)
  | step effect next, s => (next s, effect s)

/-- What is left of the program after a number of steps, and the state then. -/
def after : Nat → Stepwise σ α → σ → Stepwise σ α × σ
  | 0, program, s => (program, s)
  | n + 1, program, s => after n (program.advance s).1 (program.advance s).2

/-- What a program has come to, once it is done. -/
def answered : Stepwise σ α → Option α
  | done answer => some answer
  | step _ _ => none

theorem eq_done_of_answered {program : Stepwise σ α} {answer : α}
    (h : program.answered = some answer) : program = done answer := by
  cases program with
  | done a => exact congrArg done (Option.some.inj h)
  | step effect next => cases h

theorem after_succ (n : Nat) (program : Stepwise σ α) (s : σ) :
    after (n + 1) program s = after n (program.advance s).1 (program.advance s).2 := rfl

@[simp] theorem after_done (n : Nat) (answer : α) (s : σ) :
    after n (done answer) s = (done answer, s) := by
  induction n with
  | zero => rfl
  | succ n ih => exact ih

theorem run_bind (program : Stepwise σ α) (f : α → Stepwise σ β) (s : σ) :
    (program.bind f).run s = (f (program.run s).1).run (program.run s).2 := by
  induction program generalizing s with
  | done answer => rfl
  | step effect next ih => exact ih s (effect s)

theorem run_advance (program : Stepwise σ α) (s : σ) :
    (program.advance s).1.run (program.advance s).2 = program.run s := by
  cases program <;> rfl

/-- Wherever a program has come to, it still ends where it would have. -/
theorem run_after (n : Nat) (program : Stepwise σ α) (s : σ) :
    (after n program s).1.run (after n program s).2 = program.run s := by
  induction n generalizing program s with
  | zero => rfl
  | succ n ih => rw [after_succ, ih, run_advance]

/-- A program that is done has come to its end. -/
theorem eq_run_of_done {n : Nat} {program : Stepwise σ α} {s : σ} {answer : α}
    (h : (after n program s).1 = done answer) :
    answer = (program.run s).1 ∧ (after n program s).2 = (program.run s).2 := by
  have hrun := run_after n program s
  rw [h, run] at hrun
  rw [← hrun]
  exact ⟨rfl, rfl⟩

/-- **Every program is done after some number of steps**, and stays so. -/
theorem exists_done (program : Stepwise σ α) (s : σ) :
    ∃ m, ∀ n, m ≤ n → after n program s = (done (program.run s).1, (program.run s).2) := by
  induction program generalizing s with
  | done answer => exact ⟨0, fun n _ => after_done n answer s⟩
  | step effect next ih =>
    obtain ⟨m, hdone⟩ := ih s (effect s)
    refine ⟨m + 1, fun n hn => ?_⟩
    obtain ⟨n, rfl⟩ : ∃ k, n = k + 1 := ⟨n - 1, by omega⟩
    exact hdone n (by omega)

/-! ### What holds between the steps -/

/-- `I` holds of the state at every moment, until the program is done with an answer of `Ends`. -/
def KeepsUntil (I : σ → Prop) (Ends : α → Prop) : Stepwise σ α → σ → Prop
  | done answer, s => I s ∨ Ends answer
  | step effect next, s => I s ∧ KeepsUntil I Ends (next s) (effect s)

section KeepsUntil

variable {I : σ → Prop} {Ends : α → Prop} {program : Stepwise σ α} {s : σ}

theorem KeepsUntil.start (h : KeepsUntil I Ends program s) :
    I s ∨ ∃ answer, program = done answer ∧ Ends answer := by
  cases program with
  | done answer => exact h.imp id fun hends => ⟨answer, rfl, hends⟩
  | step effect next => exact .inl h.1

/-- **Whenever the program is looked at**, the invariant holds or it is done. -/
theorem KeepsUntil.after (h : KeepsUntil I Ends program s) (n : Nat) :
    I (after n program s).2 ∨ ∃ answer, (after n program s).1 = done answer ∧ Ends answer := by
  induction n generalizing program s with
  | zero => exact h.start
  | succ n ih =>
    cases program with
    | done answer =>
      rw [after_done]
      exact h.start
    | step effect next => exact ih h.2

/-- At every moment of a program and then of what it goes on with. -/
theorem KeepsUntil.bind {f : β → Stepwise σ α} {program : Stepwise σ β}
    (h : KeepsUntil I (fun _ => False) program s)
    (hrest : KeepsUntil I Ends (f (program.run s).1) (program.run s).2) :
    KeepsUntil I Ends (program.bind f) s := by
  induction program generalizing s with
  | done answer => exact hrest
  | step effect next ih => exact ⟨h.1, ih s h.2 hrest⟩

end KeepsUntil

/-! ### Footprints -/

section Footprints

variable {κ ν : Type} {looks writes : Set κ}

/-- The program looks at the keys of `looks` only, and changes those of `writes` only. -/
def Confined (looks writes : Set κ) : Stepwise (κ → ν) α → Prop
  | done _ => True
  | step effect next =>
    (∀ s, Set.EqOn (effect s) s writesᶜ) ∧
      (∀ s t, Set.EqOn s t looks → next s = next t ∧ Set.EqOn (effect s) (effect t) looks) ∧
      ∀ s, Confined looks writes (next s)

theorem Confined.bind {program : Stepwise (κ → ν) α} {f : α → Stepwise (κ → ν) β}
    (h : program.Confined looks writes) (hf : ∀ answer, (f answer).Confined looks writes) :
    (program.bind f).Confined looks writes := by
  induction program with
  | done answer => exact hf answer
  | step effect next ih =>
    obtain ⟨hframe, hlocal, hnext⟩ := h
    refine ⟨hframe, fun s t hsame => ?_, fun s => ih s (hnext s)⟩
    obtain ⟨hgoes, hafter⟩ := hlocal s t hsame
    exact ⟨congrArg (fun program => program.bind f) hgoes, hafter⟩

section Step

variable {program : Stepwise (κ → ν) α} {s t : κ → ν}

theorem Confined.frame_advance (h : program.Confined looks writes) :
    Set.EqOn (program.advance s).2 s writesᶜ := by
  cases program with
  | done answer => exact fun _ _ => rfl
  | step effect next => exact h.1 s

theorem Confined.advance (h : program.Confined looks writes) :
    (program.advance s).1.Confined looks writes := by
  cases program with
  | done answer => trivial
  | step effect next => exact h.2.2 s

/-- On states that agree where it looks, a program takes the same step. -/
theorem Confined.local_advance (h : program.Confined looks writes) (hsame : Set.EqOn s t looks) :
    (program.advance s).1 = (program.advance t).1 ∧
      Set.EqOn (program.advance s).2 (program.advance t).2 looks := by
  cases program with
  | done answer => exact ⟨rfl, hsame⟩
  | step effect next => exact h.2.1 s t hsame

/-- At every moment, the keys outside are as they were. -/
theorem Confined.frame_after (h : program.Confined looks writes) (n : Nat) :
    Set.EqOn (after n program s).2 s writesᶜ := by
  induction n generalizing program s with
  | zero => exact fun _ _ => rfl
  | succ n ih => exact (ih h.advance).trans h.frame_advance

theorem Confined.frame_run (h : program.Confined looks writes) :
    Set.EqOn (program.run s).2 s writesᶜ := by
  obtain ⟨m, hdone⟩ := exists_done program s
  have hframe := h.frame_after (s := s) m
  rwa [hdone m le_rfl] at hframe

/-- An invariant that looks at nothing the program changes. -/
theorem Confined.keepsUntil (h : program.Confined looks writes) {I : (κ → ν) → Prop}
    {Ends : α → Prop} (hI : ∀ s t, Set.EqOn t s writesᶜ → I s → I t) (hs : I s) :
    KeepsUntil I Ends program s := by
  induction program generalizing s with
  | done answer => exact .inl hs
  | step effect next ih => exact ⟨hs, ih s (h.2.2 s) (hI s _ (h.1 s) hs)⟩

end Step

/-! ### Programs side by side -/

variable {ι : Type} [DecidableEq ι]

/-- The programs take steps as the schedule names them: what is left of each, and the state then. -/
def interleave (programs : ι → Stepwise σ α) (s : σ) : List ι → (ι → Stepwise σ α) × σ
  | [] => (programs, s)
  | i :: schedule =>
    interleave (Function.update programs i ((programs i).advance s).1) ((programs i).advance s).2
      schedule

/-- A step of one program leaves all of them confined. -/
theorem confined_update_advance {looks writes : ι → Set κ} {programs : ι → Stepwise (κ → ν) α}
    (hconfined : ∀ i, (programs i).Confined (looks i) (writes i)) (s : κ → ν) (j i : ι) :
    (Function.update programs j ((programs j).advance s).1 i).Confined (looks i) (writes i) := by
  by_cases hi : i = j
  · subst hi
    rw [Function.update_self]
    exact (hconfined i).advance
  · rw [Function.update_of_ne hi]
    exact hconfined i

/-- Every program has taken the steps it takes alone, from a state that agrees with the common one where
it looks. -/
theorem interleave_alone {looks writes : ι → Set κ} {programs : ι → Stepwise (κ → ν) α}
    (hconfined : ∀ i, (programs i).Confined (looks i) (writes i))
    (hapart : ∀ i j, i ≠ j → Disjoint (writes i) (looks j)) {s : κ → ν} {alone : ι → κ → ν}
    (hsame : ∀ i, Set.EqOn s (alone i) (looks i)) (schedule : List ι) (i : ι) :
    (interleave programs s schedule).1 i
        = (after (schedule.count i) (programs i) (alone i)).1 ∧
      Set.EqOn (interleave programs s schedule).2
        (after (schedule.count i) (programs i) (alone i)).2 (looks i) := by
  induction schedule generalizing programs s alone with
  | nil => exact ⟨rfl, hsame i⟩
  | cons j schedule ih =>
    obtain ⟨hgoes, hafter⟩ := (hconfined j).local_advance (hsame j)
    have hconfined' := confined_update_advance hconfined s j
    -- the others see nothing of the step
    have hsame' : ∀ k, Set.EqOn ((programs j).advance s).2
        (Function.update alone j ((programs j).advance (alone j)).2 k) (looks k) := by
      intro k
      by_cases hk : k = j
      · subst hk
        rw [Function.update_self]
        exact hafter
      · rw [Function.update_of_ne hk]
        intro key hkey
        have hout : key ∉ writes j := Set.disjoint_right.mp (hapart j k (Ne.symm hk)) hkey
        exact ((hconfined j).frame_advance hout).trans (hsame k hkey)
    have hrest := ih hconfined' hsame'
    -- the program whose turn it was has one step more behind it
    by_cases hi : i = j
    · subst hi
      rw [Function.update_self, Function.update_self, hgoes] at hrest
      rw [interleave, List.count_cons_self, after_succ, hgoes]
      exact hrest
    · rw [Function.update_of_ne hi, Function.update_of_ne hi] at hrest
      rw [interleave, List.count_cons_of_ne (Ne.symm hi)]
      exact hrest

/-- **Programs that are apart do what each does alone**, whatever the schedule. -/
theorem interleave_eq_after {looks writes : ι → Set κ} {programs : ι → Stepwise (κ → ν) α}
    (hconfined : ∀ i, (programs i).Confined (looks i) (writes i))
    (hapart : ∀ i j, i ≠ j → Disjoint (writes i) (looks j)) (s : κ → ν) (schedule : List ι) (i : ι) :
    (interleave programs s schedule).1 i = (after (schedule.count i) (programs i) s).1 ∧
      Set.EqOn (interleave programs s schedule).2 (after (schedule.count i) (programs i) s).2
        (looks i) :=
  interleave_alone hconfined hapart (fun _ _ _ => rfl) schedule i

/-- What no program changes stays as it was. -/
theorem interleave_frame {looks writes : ι → Set κ} {programs : ι → Stepwise (κ → ν) α}
    (hconfined : ∀ i, (programs i).Confined (looks i) (writes i)) (s : κ → ν) (schedule : List ι)
    {key : κ} (hkey : ∀ i, key ∉ writes i) : (interleave programs s schedule).2 key = s key := by
  induction schedule generalizing programs s with
  | nil => rfl
  | cons j schedule ih =>
    -- the step leaves the key alone, and so do those behind it
    have hconfined' := confined_update_advance hconfined s j
    exact (ih hconfined' _).trans ((hconfined j).frame_advance (hkey j))

end Footprints

end Stepwise
