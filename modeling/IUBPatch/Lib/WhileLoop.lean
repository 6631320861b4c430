import Mathlib.Logic.Relation
import Mathlib.Tactic.Common

/-! # While loops

The states in which `while (running s) s = step s` tests its condition, with the two ways to reason
about them: an invariant goes forward along the turns, and what the last state has is carried back over
them, as every turn brings a measure down. -/

namespace WhileLoop

variable {σ : Type} (running : σ → Prop) (step : σ → σ)

/-- One turn of the loop. -/
def Turn (s t : σ) : Prop := running s ∧ t = step s

/-- The loop started in `start` tests its condition in `s`. -/
def Visits (start s : σ) : Prop := Relation.ReflTransGen (Turn running step) start s

variable {running : σ → Prop} {step : σ → σ}

theorem Visits.refl (start : σ) : Visits running step start start := Relation.ReflTransGen.refl

/-- The state after a turn is visited. -/
theorem Visits.turn {start s : σ} (h : Visits running step start s) (hs : running s) :
    Visits running step start (step s) :=
  Relation.ReflTransGen.tail h ⟨hs, rfl⟩

/-- The first state is visited, and what the loop visits from the state after it. -/
theorem visits_iff {start s : σ} : Visits running step start s ↔
    s = start ∨ running start ∧ Visits running step (step start) s := by
  rw [Visits, Relation.ReflTransGen.cases_head_iff, eq_comm]
  constructor
  · rintro (h | ⟨t, ⟨hstart, rfl⟩, h⟩)
    · exact .inl h
    · exact .inr ⟨hstart, h⟩
  · rintro (h | ⟨hstart, h⟩)
    · exact .inl h
    · exact .inr ⟨_, ⟨hstart, rfl⟩, h⟩

/-- A turn with some property is the first one or one of the loop after it. -/
theorem exists_turn_iff {q : σ → Prop} {start : σ} :
    (∃ s, Visits running step start s ∧ running s ∧ q s) ↔
      running start ∧ (q start ∨ ∃ s, Visits running step (step start) s ∧ running s ∧ q s) := by
  constructor
  · rintro ⟨s, hvisits, hs, hq⟩
    rcases visits_iff.mp hvisits with rfl | ⟨hstart, hvisits⟩
    · exact ⟨hs, .inl hq⟩
    · exact ⟨hstart, .inr ⟨s, hvisits, hs, hq⟩⟩
  · rintro ⟨hstart, hq | ⟨s, hvisits, hs, hq⟩⟩
    · exact ⟨start, Visits.refl start, hstart, hq⟩
    · exact ⟨s, visits_iff.mpr (.inr ⟨hstart, hvisits⟩), hs, hq⟩

/-- **The forward rule**: what the first state has and every turn keeps, every visited state has. -/
theorem Visits.invariant {start s : σ} (h : Visits running step start s) (inv : σ → Prop)
    (hstart : inv start) (hkeep : ∀ t, running t → inv t → inv (step t)) : inv s := by
  induction h with
  | refl => exact hstart
  | tail _ hturn ih =>
    obtain ⟨hrunning, rfl⟩ := hturn
    exact hkeep _ hrunning ih

/-- **The backward rule**: for a loop whose turns bring a measure down, what every visited state has in
which the loop ends, and what comes back over every visited turn, the first state has. -/
theorem of_turns (measure : σ → Nat) (hdown : ∀ s, running s → measure (step s) < measure s)
    (p : σ → Prop) (start : σ) (hend : ∀ s, Visits running step start s → ¬ running s → p s)
    (hback : ∀ s, Visits running step start s → running s → p (step s) → p s) : p start := by
  suffices general : ∀ s, Visits running step start s → p s from general start (Visits.refl start)
  intro s hs
  induction hmeasure : measure s using Nat.strongRecOn generalizing s with
  | ind n ih =>
    by_cases hrunning : running s
    · have hdown := hmeasure ▸ hdown s hrunning
      exact hback s hs hrunning (ih _ hdown _ (hs.turn hrunning) rfl)
    · exact hend s hs hrunning

end WhileLoop
