import Mathlib.Data.List.GetD
import Mathlib.Data.Set.List
import Mathlib.Logic.Nontrivial.Basic
import Mathlib.Tactic.Common

/-! # Rearrangements of lists

A rearrangement says of each element of a list to make where it comes from: it is a fixed element, or
the one at a place of the list it is made from. Rearrangements compose, and they are told apart by what
they make of lists. -/

/-- Where an element comes from. -/
inductive Origin (α : Type*) where
  | literal (a : α)
  | place (i : Nat)
  deriving DecidableEq, Repr

namespace Origin

variable {α : Type*} (filler : α)

/-- The element that comes from there; `filler` stands outside the list. -/
def value (source : List α) : Origin α → α
  | literal a => a
  | place i => source.getD i filler

/-- A place of a list of `n` elements, or no place. -/
def Inside (n : Nat) : Origin α → Prop
  | literal _ => True
  | place i => i < n

/-- Make a list out of another one. -/
def rearrange (origins : List (Origin α)) (source : List α) : List α :=
  origins.map (value filler source)

@[simp] theorem length_rearrange (origins : List (Origin α)) (source : List α) :
    (rearrange filler origins source).length = origins.length := List.length_map _

theorem rearrange_append (origins more : List (Origin α)) (source : List α) :
    rearrange filler (origins ++ more) source
      = rearrange filler origins source ++ rearrange filler more source := List.map_append

@[simp] theorem rearrange_literals (data source : List α) :
    rearrange filler (data.map literal) source = data := by
  rw [rearrange, List.map_map]
  exact List.map_id' data

/-- The places of a list of `n` elements, in order. -/
def places (n : Nat) : List (Origin α) := (List.range n).map place

theorem inside_of_mem_places {n : Nat} {origin : Origin α} (h : origin ∈ (places n : List (Origin α))) :
    origin.Inside n := by
  obtain ⟨i, hi, rfl⟩ := List.mem_map.mp h
  exact List.mem_range.mp hi

/-- Every place in order makes the list itself. -/
theorem rearrange_places {n : Nat} {source : List α} (h : source.length = n) :
    rearrange filler (places n) source = source := by
  apply List.ext_getElem
  · simp [places, h]
  · intro i h₁ h₂
    simp [rearrange, places, value, h₂]

/-! ### Composition -/

/-- The rearrangement that makes a list by two, one after the other. -/
def compose (later earlier : List (Origin α)) : List (Origin α) :=
  later.map fun
    | literal a => literal a
    | place i => earlier.getD i (literal filler)

/-- **Rearrangements compose**, where the later one looks inside the list that the earlier one makes. -/
theorem rearrange_compose {later earlier : List (Origin α)}
    (h : ∀ origin ∈ later, origin.Inside earlier.length) (source : List α) :
    rearrange filler (compose filler later earlier) source
      = rearrange filler later (rearrange filler earlier source) := by
  rw [compose, rearrange, rearrange, List.map_map]
  refine List.map_congr_left fun origin hmem => ?_
  cases origin with
  | literal a => rfl
  | place i =>
    have hi : i < earlier.length := h _ hmem
    simp [value, rearrange, hi]

/-- What holds of the origins of the earlier one, and of the fixed elements of the later one, holds of
their composition. -/
theorem forall_mem_compose {later earlier : List (Origin α)} {Allowed : Origin α → Prop}
    (hinside : ∀ origin ∈ later, origin.Inside earlier.length)
    (hliteral : ∀ a, literal a ∈ later → Allowed (literal a))
    (hearlier : ∀ origin ∈ earlier, Allowed origin) :
    ∀ origin ∈ compose filler later earlier, Allowed origin := by
  intro origin hmem
  obtain ⟨other, hother, rfl⟩ := List.mem_map.mp hmem
  cases other with
  | literal a => exact hliteral a hother
  | place i =>
    have hi : i < earlier.length := hinside _ hother
    dsimp only
    rw [List.getD_eq_getElem _ _ hi]
    exact hearlier _ (List.getElem_mem hi)

/-- Origins that are places below `n` are a list of places. -/
theorem exists_map_place {n : Nat} {origins : List (Origin α)}
    (h : ∀ origin ∈ origins, ∃ i < n, place i = origin) :
    ∃ starts : List Nat, (∀ start ∈ starts, start < n) ∧ starts.map place = origins := by
  have hrange : origins ∈ Set.range (List.map fun i : Fin n => (place i.val : Origin α)) := by
    rw [Set.range_list_map]
    intro origin hmem
    obtain ⟨i, hi, rfl⟩ := h origin hmem
    exact ⟨⟨i, hi⟩, rfl⟩
  obtain ⟨below, rfl⟩ := hrange
  refine ⟨below.map Fin.val, ?_, List.map_map⟩
  rw [List.forall_mem_map]
  exact fun i _ => i.isLt

/-! ### Telling rearrangements apart -/

/-- Two origins that give the same element of every list of a length are the same. -/
theorem eq_of_value_eq [Nontrivial α] {n : Nat} {p q : Origin α} (hp : p.Inside n) (hq : q.Inside n)
    (h : ∀ source : List α, source.length = n → value filler source p = value filler source q) :
    p = q := by
  -- a list of one element, and one that differs from it at one place
  have hconst : ∀ (a : α) {i : Nat}, i < n → value filler (List.replicate n a) (place i) = a := by
    intro a i hi
    simp [value, hi]
  have hother : ∀ (a : α) {i : Nat}, i < n → ∃ b ≠ a, ∀ {j : Nat}, j < n →
      value filler ((List.replicate n a).set i b) (place j) = if i = j then b else a := by
    intro a i hi
    obtain ⟨b, hb⟩ := exists_ne a
    refine ⟨b, hb, fun {j} hj => ?_⟩
    simp [value, List.getElem_set, hj]
  have hlength : ∀ a : α, (List.replicate n a).length = n := fun a => List.length_replicate
  cases p with
  | literal a =>
    cases q with
    | literal b => exact congrArg literal (h (List.replicate n a) (hlength a))
    | place j =>
      obtain ⟨b, hb⟩ := exists_ne a
      have hsame := h (List.replicate n b) (hlength b)
      rw [hconst b hq] at hsame
      exact absurd hsame.symm hb
  | place i =>
    cases q with
    | literal a =>
      obtain ⟨b, hb⟩ := exists_ne a
      have hsame := h (List.replicate n b) (hlength b)
      rw [hconst b hp] at hsame
      exact absurd hsame hb
    | place j =>
      obtain ⟨b, hb, hset⟩ := hother filler hp
      have hsame := h ((List.replicate n filler).set i b) (by simp)
      rw [hset hp, hset hq, if_pos rfl] at hsame
      by_contra hne
      rw [if_neg fun heq => hne (congrArg place heq)] at hsame
      exact hb hsame

/-- **Rearrangements that make the same of every list of a length are the same.** -/
theorem eq_of_rearrange_eq [Nontrivial α] {n : Nat} {p q : List (Origin α)}
    (hp : ∀ origin ∈ p, origin.Inside n) (hq : ∀ origin ∈ q, origin.Inside n)
    (h : ∀ source : List α, source.length = n →
      rearrange filler p source = rearrange filler q source) : p = q := by
  have hlength : p.length = q.length := by
    -- a rearrangement shows its length in what it makes of any list
    have hone := congrArg List.length (h (List.replicate n filler) List.length_replicate)
    rwa [length_rearrange, length_rearrange] at hone
  apply List.ext_getElem hlength
  intro i h₁ h₂
  refine eq_of_value_eq filler (hp _ (List.getElem_mem h₁)) (hq _ (List.getElem_mem h₂)) ?_
  intro source hsource
  have hsame := congrArg (fun made : List α => made[i]?) (h source hsource)
  simpa [rearrange, h₁, h₂] using hsame

end Origin
