import Mathlib.Logic.Basic
import Mathlib.Tactic.Common

/-! # Outcomes of calls that may fail or throw

A call of an exception-using language with error-valued return types comes back in one of three
ways: with a value, with an error of its declared return type, or not at all, because an exception
left it. `Outcome` is the monad of the three, `Effect` the same over a state that every way out
keeps. -/

/-- What a call comes back with: a value, a returned error, or an exception that left it. -/
inductive Outcome (ε χ α : Type) where
  /-- The call returned a value. -/
  | ok (value : α)
  /-- The call returned an error. -/
  | error (error : ε)
  /-- An exception left the call. -/
  | throws (exception : χ)
  deriving DecidableEq, Repr

namespace Outcome

variable {ε χ α β : Type}

/-- Continue with the value; an error or an exception ends the computation. -/
protected def bind : Outcome ε χ α → (α → Outcome ε χ β) → Outcome ε χ β
  | .ok a, f => f a
  | .error e, _ => .error e
  | .throws x, _ => .throws x

instance : Monad (Outcome ε χ) where
  pure := .ok
  bind := Outcome.bind

/-- An error-valued result, from a call no exception can leave. -/
def ofExcept : Except ε α → Outcome ε χ α
  | .ok a => .ok a
  | .error e => .error e

/-- The call came back with a value or an error: no exception left it. -/
def Returns (x : Outcome ε χ α) : Prop := ∀ thrown, x ≠ .throws thrown

@[simp] theorem pure_eq (a : α) : (pure a : Outcome ε χ α) = .ok a := rfl

@[simp] theorem ok_bind (a : α) (f : α → Outcome ε χ β) : (.ok a : Outcome ε χ α) >>= f = f a := rfl

@[simp] theorem error_bind (e : ε) (f : α → Outcome ε χ β) :
    (.error e : Outcome ε χ α) >>= f = .error e := rfl

@[simp] theorem throws_bind (x : χ) (f : α → Outcome ε χ β) :
    (.throws x : Outcome ε χ α) >>= f = .throws x := rfl

/-- A sequence comes back with a value exactly when both of its parts do. -/
theorem bind_eq_ok_iff {x : Outcome ε χ α} {f : α → Outcome ε χ β} {b : β} :
    x >>= f = .ok b ↔ ∃ a, x = .ok a ∧ f a = .ok b := by
  cases x <;> simp

@[simp] theorem ofExcept_ok (a : α) : (ofExcept (.ok a) : Outcome ε χ α) = .ok a := rfl

@[simp] theorem ofExcept_error (e : ε) : (ofExcept (.error e) : Outcome ε χ α) = .error e := rfl

@[simp] theorem ofExcept_eq_ok_iff {x : Except ε α} {a : α} :
    (ofExcept x : Outcome ε χ α) = .ok a ↔ x = .ok a := by
  cases x <;> simp

/-- No exception leaves a call that has none to throw. -/
theorem ofExcept_ne_throws (x : Except ε α) (thrown : χ) :
    ofExcept x ≠ .throws thrown := by
  cases x <;> simp

@[simp] theorem returns_ok (a : α) : Returns (.ok a : Outcome ε χ α) := by
  intro thrown; simp

@[simp] theorem returns_error (e : ε) : Returns (.error e : Outcome ε χ α) := by
  intro thrown; simp

@[simp] theorem not_returns_throws (x : χ) : ¬ Returns (.throws x : Outcome ε χ α) :=
  fun h => h x rfl

/-- An error-valued result comes back. -/
@[simp] theorem returns_ofExcept (x : Except ε α) : Returns (ofExcept x : Outcome ε χ α) :=
  ofExcept_ne_throws x

/-- A sequence comes back exactly if its first part does and its second part does on every value. -/
theorem returns_bind_iff {x : Outcome ε χ α} {f : α → Outcome ε χ β} :
    Returns (x >>= f) ↔ Returns x ∧ ∀ a, x = .ok a → Returns (f a) := by
  cases x with
  | ok a => simp
  | error e => simp
  | throws thrown => simp

/-- A sequence comes back if its first part does and its second part does on every value. -/
theorem returns_bind {x : Outcome ε χ α} {f : α → Outcome ε χ β} (hx : Returns x)
    (hf : ∀ a, x = .ok a → Returns (f a)) : Returns (x >>= f) :=
  returns_bind_iff.mpr ⟨hx, hf⟩

/-- Every exception that leaves the call is an allowed one. -/
def ThrowsOnly (allowed : χ → Prop) (x : Outcome ε χ α) : Prop :=
  ∀ thrown, x = .throws thrown → allowed thrown

section ThrowsOnly

variable {allowed : χ → Prop}

@[simp] theorem throwsOnly_ok (a : α) : ThrowsOnly allowed (.ok a : Outcome ε χ α) := by
  intro thrown h; cases h

@[simp] theorem throwsOnly_error (e : ε) : ThrowsOnly allowed (.error e : Outcome ε χ α) := by
  intro thrown h; cases h

/-- An error-valued result throws nothing. -/
@[simp] theorem throwsOnly_ofExcept (x : Except ε α) :
    ThrowsOnly allowed (ofExcept x : Outcome ε χ α) :=
  fun thrown h => absurd h (ofExcept_ne_throws x thrown)

/-- A sequence throws what one of its parts does. -/
theorem throwsOnly_bind {x : Outcome ε χ α} {f : α → Outcome ε χ β} (hx : x.ThrowsOnly allowed)
    (hf : ∀ a, (f a).ThrowsOnly allowed) : ThrowsOnly allowed (x >>= f) := by
  intro thrown h
  cases x with
  | ok a => exact hf a thrown h
  | error e => cases h
  | throws thrown' => cases h; exact hx thrown rfl

end ThrowsOnly

/-- A loop comes back with a value if every turn does. -/
theorem exists_foldlM_eq_ok {step : α → β → Outcome ε χ α} (hstep : ∀ a b, ∃ a', step a b = .ok a')
    (items : List β) (a : α) : ∃ a', items.foldlM step a = .ok a' := by
  induction items generalizing a with
  | nil => exact ⟨a, rfl⟩
  | cons item items ih =>
    obtain ⟨next, hnext⟩ := hstep a item
    obtain ⟨last, hlast⟩ := ih next
    exact ⟨last, by rw [List.foldlM_cons, hnext, ok_bind, hlast]⟩

end Outcome

/-- A call over a state: the state is handed on whichever way the call comes back. -/
def Effect (σ ε χ α : Type) := σ → Outcome ε χ α × σ

namespace Effect

variable {σ ε χ α β : Type}

/-- Run the second call on the state the first one left, if that came back with a value. -/
protected def bind (m : Effect σ ε χ α) (f : α → Effect σ ε χ β) : Effect σ ε χ β := fun s =>
  match m s with
  | (.ok a, s') => f a s'
  | (.error e, s') => (.error e, s')
  | (.throws x, s') => (.throws x, s')

instance : Monad (Effect σ ε χ) where
  pure a := fun s => (.ok a, s)
  bind := Effect.bind

/-- A stateless outcome as a call that leaves the state alone. -/
def lift (x : Outcome ε χ α) : Effect σ ε χ α := fun s => (x, s)

@[simp] theorem pure_apply (a : α) (s : σ) : (pure a : Effect σ ε χ α) s = (.ok a, s) := rfl

@[simp] theorem lift_apply (x : Outcome ε χ α) (s : σ) : (lift x : Effect σ ε χ α) s = (x, s) := rfl

/-- A sequence on a state, read off the first call's way out. -/
theorem bind_apply (m : Effect σ ε χ α) (f : α → Effect σ ε χ β) (s : σ) :
    (m >>= f) s = match m s with
      | (.ok a, s') => f a s'
      | (.error e, s') => (.error e, s')
      | (.throws x, s') => (.throws x, s') := rfl

/-- A sequence whose first call came back with a value runs on as its second call. -/
theorem bind_apply_ok {m : Effect σ ε χ α} {s s' : σ} {a : α} (h : m s = (.ok a, s'))
    (f : α → Effect σ ε χ β) : (m >>= f) s = f a s' := by
  rw [bind_apply, h]

/-! ### What a call does to the state -/

/-- Whichever way the call comes back, the state after it is related to the state before. -/
def Within (R : σ → σ → Prop) (m : Effect σ ε χ α) : Prop := ∀ s, R s (m s).2

/-- From related states the call comes back the same way, and leaves related states. -/
def Respects (R : σ → σ → Prop) (m : Effect σ ε χ α) : Prop :=
  ∀ s t, R s t → (m s).1 = (m t).1 ∧ R (m s).2 (m t).2

section Relations

variable {R : σ → σ → Prop}

theorem within_lift [Std.Refl R] (x : Outcome ε χ α) : Within R (lift x : Effect σ ε χ α) :=
  fun s => Std.Refl.refl s

/-- A sequence stays within what both of its parts do. -/
theorem Within.bind [IsTrans σ R] {m : Effect σ ε χ α}
    {f : α → Effect σ ε χ β} (hm : m.Within R) (hf : ∀ a, (f a).Within R) : (m >>= f).Within R := by
  intro s
  have hfirst := hm s
  rw [bind_apply]
  rcases hms : m s with ⟨a | e | x, s'⟩
  · rw [hms] at hfirst
    exact IsTrans.trans _ _ _ hfirst (hf a s')
  · rw [hms] at hfirst; exact hfirst
  · rw [hms] at hfirst; exact hfirst

theorem respects_lift (x : Outcome ε χ α) : Respects R (lift x : Effect σ ε χ α) :=
  fun _ _ h => ⟨rfl, h⟩

/-- A sequence respects what both of its parts respect. -/
theorem Respects.bind {m : Effect σ ε χ α} {f : α → Effect σ ε χ β} (hm : m.Respects R)
    (hf : ∀ a, (f a).Respects R) : (m >>= f).Respects R := by
  intro s t hst
  obtain ⟨hanswer, hstate⟩ := hm s t hst
  rw [bind_apply, bind_apply]
  rcases hms : m s with ⟨a | e | x, s'⟩ <;> rcases hmt : m t with ⟨b | e' | x', t'⟩ <;>
    rw [hms, hmt] at hanswer hstate <;> cases hanswer
  · exact hf a s' t' hstate
  · exact ⟨rfl, hstate⟩
  · exact ⟨rfl, hstate⟩

end Relations

end Effect
