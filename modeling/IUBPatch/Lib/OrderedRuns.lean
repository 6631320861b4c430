import IUBPatch.Lib.Overwrites
import Mathlib.Data.List.Chain

/-! # Runs in order

Runs that follow one another without an overlap. Being in order is a property of neighbours, so it can
be built from the right, and it keeps any two runs of the list apart. -/

namespace Run

variable {α : Type}

/-- The runs lie in order from `lower` on: none begins before the one in front of it ends. -/
def InOrder : (lower : Nat) → List (Run α) → Prop
  | _, [] => True
  | lower, run :: rest => lower ≤ run.start ∧ InOrder run.stop rest

/-- Every run of the list lies from `lower` on. -/
theorem InOrder.le_start {lower : Nat} {rs : List (Run α)} (h : InOrder lower rs) {run : Run α}
    (hmem : run ∈ rs) : lower ≤ run.start := by
  induction rs generalizing lower with
  | nil => cases hmem
  | cons first rest ih =>
    obtain ⟨hlower, hrest⟩ := h
    rcases List.mem_cons.mp hmem with rfl | hmem
    · exact hlower
    · have hlater := ih hrest hmem
      rw [stop] at hlater
      omega

/-- The first run, and its neighbours in pairs. -/
theorem inOrder_cons_iff_isChain {lower : Nat} {run : Run α} {rest : List (Run α)} :
    InOrder lower (run :: rest) ↔
      lower ≤ run.start ∧ (run :: rest).IsChain fun a b => a.stop ≤ b.start := by
  induction rest generalizing lower run with
  | nil => exact and_congr_right fun _ => iff_of_true trivial (List.isChain_singleton run)
  | cons next rest ih =>
    rw [List.isChain_cons_cons]
    exact and_congr_right fun _ => ih

/-- **Order is a matter of neighbours.** -/
theorem inOrder_zero_iff_isChain {rs : List (Run α)} :
    InOrder 0 rs ↔ rs.IsChain fun a b => a.stop ≤ b.start := by
  cases rs with
  | nil => exact iff_of_true trivial List.isChain_nil
  | cons run rest => rw [inOrder_cons_iff_isChain, and_iff_right (Nat.zero_le _)]

/-- **No position is covered twice** by runs in order. -/
theorem InOrder.pairwise {lower : Nat} {rs : List (Run α)} (h : InOrder lower rs) :
    rs.Pairwise fun a b => ∀ i, ¬ (a.Covers i ∧ b.Covers i) := by
  induction rs generalizing lower with
  | nil => exact List.Pairwise.nil
  | cons run rest ih =>
    refine List.Pairwise.cons ?_ (ih h.2)
    rintro later hlater i ⟨⟨-, hbefore⟩, hbehind, -⟩
    have hstart := h.2.le_start hlater
    omega

end Run
