import Mathlib.Data.List.Basic
import Mathlib.Tactic.Common

/-! # Copying from the list being extended

The copy of a sliding-window decoder: each appended element is read from the list as it stands after
the ones before it, so a copy that runs past the old end repeats what it has just written. -/

namespace SelfCopy

variable {α : Type*}

/-- Append `count` elements read from position `start` on, out of the list as it grows. -/
def selfCopy : List α → (start count : Nat) → Option (List α)
  | out, _, 0 => some out
  | out, start, count + 1 =>
    match out[start]? with
    | none => none
    | some a => selfCopy (out ++ [a]) (start + 1) count

/-- A copy can be made in two parts. -/
theorem selfCopy_add (out : List α) (start a b : Nat) :
    selfCopy out start (a + b)
      = (selfCopy out start a).bind fun copied => selfCopy copied (start + a) b := by
  induction a generalizing out start with
  | zero => rw [Nat.zero_add, selfCopy, Option.bind_some, Nat.add_zero]
  | succ a ih =>
    rw [Nat.succ_add, selfCopy, selfCopy]
    cases out[start]? with
    | none => rfl
    | some x =>
      have hstart : start + 1 + a = start + (a + 1) := by omega
      dsimp only
      rw [ih, hstart]

/-- **Periodic extension**: a copy from inside the list succeeds, keeps what was there, and appends
the elements from `start` to the old end over and over. -/
theorem selfCopy_periodic {out : List α} {start : Nat} (h : start < out.length) (count : Nat) :
    ∃ tail, selfCopy out start count = some (out ++ tail) ∧ tail.length = count ∧
      ∀ i < count, tail[i]? = out[start + i % (out.length - start)]? := by
  induction count generalizing out start with
  | zero => exact ⟨[], by simp [selfCopy], rfl, by simp⟩
  | succ count ih =>
    have hget : out[start]? = some out[start] := List.getElem?_eq_getElem h
    have hinside : start + 1 < (out ++ [out[start]]).length := by simpa using h
    obtain ⟨tail, hcopy, hlen, htail⟩ := ih hinside
    refine ⟨out[start] :: tail, ?_, by rw [List.length_cons, hlen], ?_⟩
    · rw [selfCopy, hget]
      simpa using hcopy
    · have hperiod : (out ++ [out[start]]).length - (start + 1) = out.length - start := by simp
      set period := out.length - start with hp
      have hpos : 0 < period := by omega
      intro i hi
      cases i with
      | zero => simp
      | succ i =>
        have hmod := Nat.mod_lt i hpos
        rw [List.getElem?_cons_succ, htail i (by omega), hperiod]
        have hstep : (i + 1) % period = (i % period + 1) % period :=
          (Nat.mod_add_mod i period 1).symm
        by_cases hwrap : i % period + 1 = period
        · -- the copy has come round to the element it started from
          have hlast : start + 1 + i % period = out.length := by omega
          rw [hstep, hwrap, Nat.mod_self, hlast]
          simp [hget]
        · have hnext : start + (i % period + 1) = start + 1 + i % period := by omega
          rw [hstep, Nat.mod_eq_of_lt (show i % period + 1 < period by omega), hnext,
            List.getElem?_append_left (by omega)]

/-- The list a copy leaves behind; the list itself where the copy fails. -/
def extend (out : List α) (start count : Nat) : List α := (selfCopy out start count).getD out

theorem selfCopy_eq_extend {out : List α} {start : Nat} (h : start < out.length) (count : Nat) :
    selfCopy out start count = some (extend out start count) := by
  obtain ⟨tail, hcopy, -, -⟩ := selfCopy_periodic h count
  rw [extend, hcopy, Option.getD_some]

theorem length_extend {out : List α} {start : Nat} (h : start < out.length) (count : Nat) :
    (extend out start count).length = out.length + count := by
  obtain ⟨tail, hcopy, hlen, -⟩ := selfCopy_periodic h count
  rw [extend, hcopy, Option.getD_some, List.length_append, hlen]

/-- Extending goes on where it was left. -/
theorem extend_extend {out : List α} {start : Nat} (h : start < out.length) (a b : Nat) :
    extend (extend out start a) (start + a) b = extend out start (a + b) := by
  have hwhole := selfCopy_add out start a b
  have hsecond : start + a < (extend out start a).length := by
    rw [length_extend h]
    omega
  rw [selfCopy_eq_extend h, selfCopy_eq_extend h, Option.bind_some, selfCopy_eq_extend hsecond] at hwhole
  exact (Option.some.inj hwhole).symm

end SelfCopy
