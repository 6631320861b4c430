import Mathlib.Data.List.GetD
import Mathlib.Tactic.Common

/-! # Runs and overlays

A run is a block of elements with the position it starts at. `runs` splits a list into its maximal
runs of elements other than `zero`, and `overlay` combines, at every position, the elements that a
list of runs (overlapping, out of order, anything) puts there. -/

/-- A block of elements and the position of its first one. -/
structure Run (α : Type) where
  start : Nat
  data : List α
  deriving DecidableEq, Repr

namespace Run

variable {α : Type} (zero : α)

/-- The position behind the run. -/
def stop (run : Run α) : Nat := run.start + run.data.length

/-- What the run puts at a position: its element there, or `zero` outside it. -/
def valueAt (run : Run α) (i : Nat) : α :=
  if run.start ≤ i then run.data.getD (i - run.start) zero else zero

theorem valueAt_of_lt {run : Run α} {i : Nat} (h : i < run.start) : run.valueAt zero i = zero := by
  rw [Run.valueAt, if_neg (Nat.not_le.mpr h)]

@[simp] theorem valueAt_nil (start i : Nat) : (⟨start, []⟩ : Run α).valueAt zero i = zero := by
  simp [Run.valueAt]

@[simp] theorem valueAt_start (start : Nat) (a : α) (data : List α) :
    (⟨start, a :: data⟩ : Run α).valueAt zero start = a := by
  simp [Run.valueAt]

/-- A run with one more element in front. -/
theorem valueAt_cons {start i : Nat} {a : α} {data : List α} (h : i ≠ start) :
    (⟨start, a :: data⟩ : Run α).valueAt zero i = (⟨start + 1, data⟩ : Run α).valueAt zero i := by
  simp only [Run.valueAt]
  by_cases hle : start ≤ i
  · have hsub : i - start = i - (start + 1) + 1 := by omega
    rw [if_pos hle, if_pos (by omega), hsub, List.getD_cons_succ]
  · rw [if_neg hle, if_neg (by omega)]

/-! ### The maximal runs of a list -/

/-- An element in front of a list of runs: the first run takes it in if it is adjacent. -/
def prepend (position : Nat) (a : α) : List (Run α) → List (Run α)
  | [] => [⟨position, [a]⟩]
  | run :: rest =>
    if run.start = position + 1 then ⟨position, a :: run.data⟩ :: rest
    else ⟨position, [a]⟩ :: run :: rest

/-- The maximal runs of elements other than `zero`, of a list that begins at `position`. -/
def runs [DecidableEq α] : (position : Nat) → List α → List (Run α)
  | _, [] => []
  | position, a :: as =>
    if a = zero then runs (position + 1) as else prepend position a (runs (position + 1) as)

/-- The runs lie in order from `lower` on, each non-empty and free of `zero`, with at least one
position between one and the next. -/
def Separated : (lower : Nat) → List (Run α) → Prop
  | _, [] => True
  | lower, run :: rest =>
    lower ≤ run.start ∧ run.data ≠ [] ∧ (∀ a ∈ run.data, a ≠ zero) ∧ Separated (run.stop + 1) rest

variable {zero}

theorem Separated.mono {lower lower' : Nat} {rs : List (Run α)} (h : Separated zero lower' rs)
    (hle : lower ≤ lower') : Separated zero lower rs := by
  cases rs with
  | nil => trivial
  | cons run rest => exact ⟨Nat.le_trans hle h.1, h.2⟩

/-- Every run lies from `lower` on. -/
theorem Separated.le_start {lower : Nat} {rs : List (Run α)} (h : Separated zero lower rs)
    {run : Run α} (hmem : run ∈ rs) : lower ≤ run.start := by
  induction rs generalizing lower with
  | nil => cases hmem
  | cons first rest ih =>
    obtain ⟨hlower, -, -, hrest⟩ := h
    rcases List.mem_cons.mp hmem with rfl | hmem
    · exact hlower
    · have := ih hrest hmem
      rw [stop] at this
      omega

/-- The runs of the list are free of `zero`. -/
theorem Separated.ne_zero {lower : Nat} {rs : List (Run α)} (h : Separated zero lower rs)
    {run : Run α} (hmem : run ∈ rs) : ∀ a ∈ run.data, a ≠ zero := by
  induction rs generalizing lower with
  | nil => cases hmem
  | cons first rest ih =>
    obtain ⟨-, -, hdata, hrest⟩ := h
    rcases List.mem_cons.mp hmem with rfl | hmem
    · exact hdata
    · exact ih hrest hmem

/-- Taking an element other than `zero` in keeps runs separated. -/
theorem Separated.prepend {position : Nat} {a : α} {rs : List (Run α)} (ha : a ≠ zero)
    (h : Separated zero (position + 1) rs) : Separated zero position (prepend position a rs) := by
  cases rs with
  | nil => exact ⟨Nat.le_refl _, by simp, by simpa using ha, trivial⟩
  | cons run rest =>
    obtain ⟨hlower, hne, hdata, hrest⟩ := h
    rw [Run.prepend]
    by_cases hadjacent : run.start = position + 1
    · have hstop : (⟨position, a :: run.data⟩ : Run α).stop = run.stop := by
        simp [stop, hadjacent]; omega
      rw [if_pos hadjacent]
      exact ⟨Nat.le_refl _, by simp, by simpa using ⟨ha, hdata⟩, by rw [hstop]; exact hrest⟩
    · rw [if_neg hadjacent]
      refine ⟨Nat.le_refl _, by simp, by simpa using ha, ?_, hne, hdata, hrest⟩
      simp only [stop, List.length_singleton]
      omega

/-- **The maximal runs are separated.** -/
theorem separated_runs [DecidableEq α] (position : Nat) (as : List α) :
    Separated zero position (runs zero position as) := by
  induction as generalizing position with
  | nil => trivial
  | cons a as ih =>
    rw [runs]
    by_cases ha : a = zero
    · rw [if_pos ha]
      exact (ih (position + 1)).mono (Nat.le_succ position)
    · rw [if_neg ha]
      exact (ih (position + 1)).prepend ha

/-- A run of the list ends inside it. -/
theorem stop_le_of_mem_runs [DecidableEq α] {position : Nat} {as : List α} {run : Run α}
    (h : run ∈ runs zero position as) : run.stop ≤ position + as.length := by
  induction as generalizing position run with
  | nil => cases h
  | cons a as ih =>
    rw [runs] at h
    rw [List.length_cons]
    split at h
    · have := ih h; omega
    · revert h
      cases hruns : runs zero (position + 1) as with
      | nil => simp only [prepend, List.mem_singleton]; rintro rfl; simp [stop]
      | cons first rest =>
        have hfirst := ih (hruns ▸ List.mem_cons_self)
        have hrest : ∀ other ∈ rest, other.stop ≤ position + 1 + as.length :=
          fun other hother => ih (hruns ▸ List.mem_cons_of_mem first hother)
        rw [prepend]
        split
        · rename_i hadjacent
          rw [List.mem_cons]
          rintro (rfl | h)
          · simp only [stop, List.length_cons] at hfirst ⊢; omega
          · have := hrest run h; omega
        · rw [List.mem_cons, List.mem_cons]
          rintro (rfl | rfl | h)
          · simp [stop]
          · omega
          · have := hrest run h; omega

/-! ### Overlays -/

variable (zero) (op : α → α → α)

/-- What a list of runs puts at a position, all of it combined. -/
def overlay (rs : List (Run α)) (i : Nat) : α := rs.foldr (fun run a => op (run.valueAt zero i) a) zero

@[simp] theorem overlay_nil (i : Nat) : overlay zero op [] i = zero := rfl

@[simp] theorem overlay_cons (run : Run α) (rs : List (Run α)) (i : Nat) :
    overlay zero op (run :: rs) i = op (run.valueAt zero i) (overlay zero op rs i) := rfl

variable {zero op}

/-- **The order of the runs does not matter** to an operation that may be reordered. -/
theorem overlay_perm [Std.Commutative op] [Std.Associative op] {rs rs' : List (Run α)}
    (h : rs.Perm rs') (i : Nat) : overlay zero op rs i = overlay zero op rs' i := by
  refine h.foldr_eq' (fun x _ y _ a => ?_) zero
  ac_rfl

variable [identity : Std.LawfulIdentity op zero]

/-- Runs that all start past a position put nothing there. -/
theorem overlay_eq_zero {rs : List (Run α)} {i : Nat} (h : ∀ run ∈ rs, i < run.start) :
    overlay zero op rs i = zero := by
  induction rs with
  | nil => rfl
  | cons run rest ih =>
    rw [overlay_cons, valueAt_of_lt zero (h run (by simp)), ih (fun r hr => h r (by simp [hr])),
      identity.left_id]

/-- An element taken in front shows at its own position, if nothing else does. -/
theorem overlay_prepend {position i : Nat} {a : α} {rs : List (Run α)}
    (h : ∀ run ∈ rs, position < run.start) :
    overlay zero op (prepend position a rs) i
      = if i = position then a else overlay zero op rs i := by
  cases rs with
  | nil =>
    rw [prepend, overlay_cons, overlay_nil, identity.right_id]
    split
    · rename_i hi; rw [hi, valueAt_start]
    · rename_i hi; rw [valueAt_cons zero hi]; simp [Run.valueAt]
  | cons run rest =>
    have hrest : overlay zero op rest position = zero :=
      overlay_eq_zero fun r hr => h r (by simp [hr])
    have hall : overlay zero op (run :: rest) position = zero := overlay_eq_zero h
    rw [prepend]
    by_cases hadjacent : run.start = position + 1
    · obtain ⟨start, data⟩ := run
      simp only at hadjacent
      rw [if_pos (by exact hadjacent), overlay_cons]
      split
      · rename_i hi; rw [hi, valueAt_start, hrest, identity.right_id]
      · rename_i hi; rw [valueAt_cons zero hi, overlay_cons, hadjacent]
    · rw [if_neg hadjacent, overlay_cons]
      split
      · rename_i hi; rw [hi, valueAt_start, hall, identity.right_id]
      · rename_i hi; rw [valueAt_cons zero hi]; simp [Run.valueAt, identity.left_id]

/-- **The maximal runs show the list they were made from.** -/
theorem overlay_runs [DecidableEq α] (position : Nat) (as : List α) (i : Nat) :
    overlay zero op (runs zero position as) i = (⟨position, as⟩ : Run α).valueAt zero i := by
  induction as generalizing position with
  | nil => simp [runs, Run.valueAt]
  | cons a as ih =>
    rw [runs]
    by_cases ha : a = zero
    · rw [if_pos ha, ih]
      by_cases hi : i = position
      · rw [hi, valueAt_start, ha, valueAt_of_lt zero (Nat.lt_succ_self position)]
      · rw [valueAt_cons zero hi]
    · rw [if_neg ha, overlay_prepend, ih]
      · split
        · rename_i hi; rw [hi, valueAt_start]
        · rename_i hi; rw [valueAt_cons zero hi]
      · intro run hrun
        exact (separated_runs (position + 1) as).le_start hrun

end Run
