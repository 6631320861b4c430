import IUBPatch.Lib.Runs
import Mathlib.Logic.Nontrivial.Basic

/-! # Overwriting a growing buffer

Runs written one after the other over a buffer, which grows with filler as far as a run needs. What a
position holds in the end is what the last run that covers it put there, or what it held before. So
writing the same runs once more changes nothing. -/

namespace Run

variable {α : Type} (filler : α)

/-- The run has an element for the position. -/
def Covers (run : Run α) (i : Nat) : Prop := run.start ≤ i ∧ i < run.stop

instance (run : Run α) (i : Nat) : Decidable (run.Covers i) :=
  inferInstanceAs (Decidable (_ ∧ _))

/-- The buffer after a run is written over it. -/
def write (buffer : List α) (run : Run α) : List α :=
  let grown := buffer ++ List.replicate (run.stop - buffer.length) filler
  grown.take run.start ++ run.data ++ grown.drop run.stop

/-- The element of the last run that covers the position. -/
def lastAt : List (Run α) → Nat → Option α
  | [], _ => none
  | run :: rest, i =>
    (lastAt rest i).or (if run.Covers i then run.data[i - run.start]? else none)

/-- The furthest end of a run, from a first bound on. -/
def furthestStop (runs : List (Run α)) (bound : Nat) : Nat :=
  runs.foldl (fun furthest run => max furthest run.stop) bound

/-- The first bound can be taken out. -/
theorem furthestStop_eq_max (runs : List (Run α)) (bound : Nat) :
    furthestStop runs bound = max bound (furthestStop runs 0) := by
  induction runs generalizing bound with
  | nil => simp [furthestStop]
  | cons run rest ih =>
    have hcons : ∀ n, furthestStop (run :: rest) n = furthestStop rest (max n run.stop) :=
      fun n => rfl
    rw [hcons, hcons, ih, ih (max 0 run.stop)]
    omega

/-- Runs that all end by a limit reach no further. -/
theorem furthestStop_le {runs : List (Run α)} {bound limit : Nat} (hbound : bound ≤ limit)
    (h : ∀ run ∈ runs, run.stop ≤ limit) : furthestStop runs bound ≤ limit := by
  induction runs generalizing bound with
  | nil => exact hbound
  | cons run rest ih =>
    exact ih (Nat.max_le.mpr ⟨hbound, h run List.mem_cons_self⟩)
      fun r hr => h r (List.mem_cons_of_mem run hr)

/-- Writing grows the buffer to the end of the run. -/
@[simp] theorem length_write (buffer : List α) (run : Run α) :
    (write filler buffer run).length = max buffer.length run.stop := by
  simp only [write, stop, List.length_append, List.length_take, List.length_drop,
    List.length_replicate]
  omega

/-- The grown buffer holds the old elements, and filler behind them. -/
theorem getD_append_replicate (buffer : List α) (n i : Nat) :
    (buffer ++ List.replicate n filler).getD i filler = buffer.getD i filler := by
  by_cases hi : i < buffer.length
  · rw [List.getD_append _ _ _ _ hi]
  · rw [List.getD_append_right _ _ _ _ (Nat.not_lt.mp hi), List.getD_eq_getElem?_getD,
      List.getElem?_getD_replicate_default_eq,
      List.getD_eq_default _ _ (Nat.not_lt.mp hi)]

/-- What a position holds after one run: the element of the run, if that covers it. -/
theorem getD_write (buffer : List α) (run : Run α) (i : Nat) :
    (write filler buffer run).getD i filler
      = (lastAt [run] i).getD (buffer.getD i filler) := by
  set grown := buffer ++ List.replicate (run.stop - buffer.length) filler with hgrown
  have hlength : run.stop ≤ grown.length := by
    rw [hgrown, List.length_append, List.length_replicate]; omega
  have hfront : (grown.take run.start).length = run.start := by
    rw [List.length_take, Nat.min_eq_left]
    exact Nat.le_trans (Nat.le_add_right _ _) hlength
  have hheld : buffer.getD i filler = grown.getD i filler :=
    (getD_append_replicate filler buffer _ i).symm
  rw [lastAt, lastAt, Option.none_or, hheld, write, ← hgrown, List.getD_eq_getElem?_getD,
    List.getD_eq_getElem?_getD]
  by_cases hbefore : i < run.start
  · -- in front of the run
    rw [if_neg fun hcovers => Nat.not_le.mpr hbefore hcovers.1, Option.getD_none, List.append_assoc,
      List.getElem?_append_left (by omega), List.getElem?_take_of_lt hbefore]
  · have hstart := Nat.not_lt.mp hbefore
    by_cases hin : i < run.stop
    · -- inside it
      have helement : i - run.start < run.data.length := by rw [stop] at hin; omega
      rw [if_pos ⟨hstart, hin⟩, List.getElem?_append_left (by
          rw [List.length_append, hfront]; exact hin),
        List.getElem?_append_right (by omega), hfront, List.getElem?_eq_getElem helement]
      rfl
    · -- behind it
      have hbehind : run.start + run.data.length ≤ i := Nat.not_lt.mp hin
      rw [if_neg fun hcovers => hin hcovers.2, Option.getD_none,
        List.getElem?_append_right (by rw [List.length_append, hfront]; exact hbehind),
        List.length_append, hfront, List.getElem?_drop, stop, Nat.add_sub_cancel' hbehind]

/-! ### A list of runs -/

/-- **The last writer wins**: after a list of runs a position holds the element of the last run that
covers it, or what it held before. -/
theorem getD_foldl_write (runs : List (Run α)) (buffer : List α) (i : Nat) :
    (runs.foldl (write filler) buffer).getD i filler
      = (lastAt runs i).getD (buffer.getD i filler) := by
  induction runs generalizing buffer with
  | nil => rfl
  | cons run rest ih =>
    rw [List.foldl_cons, ih, getD_write, lastAt, lastAt, lastAt, Option.none_or]
    cases lastAt rest i <;> rfl

/-- The buffer grows to the furthest end of a run. -/
theorem length_foldl_write (runs : List (Run α)) (buffer : List α) :
    (runs.foldl (write filler) buffer).length = furthestStop runs buffer.length := by
  induction runs generalizing buffer with
  | nil => rfl
  | cons run rest ih =>
    rw [List.foldl_cons, ih, length_write]
    rfl

/-- **Writing the same runs again changes nothing.** -/
theorem foldl_write_foldl_write (runs : List (Run α)) (buffer : List α) :
    runs.foldl (write filler) (runs.foldl (write filler) buffer)
      = runs.foldl (write filler) buffer := by
  have hlength : (runs.foldl (write filler) (runs.foldl (write filler) buffer)).length
      = (runs.foldl (write filler) buffer).length := by
    rw [length_foldl_write, length_foldl_write, furthestStop_eq_max, furthestStop_eq_max _ buffer.length]
    omega
  apply List.ext_getElem hlength
  intro i h₁ h₂
  have hagain := getD_foldl_write filler runs (runs.foldl (write filler) buffer) i
  have honce := getD_foldl_write filler runs buffer i
  rw [List.getD_eq_getElem _ _ h₁] at hagain
  rw [List.getD_eq_getElem _ _ h₂] at honce hagain
  rw [hagain, honce]
  cases lastAt runs i <;> rfl

/-- A position that no run covers has no last writer. -/
theorem lastAt_eq_none {runs : List (Run α)} {i : Nat} (h : ∀ run ∈ runs, ¬ run.Covers i) :
    lastAt runs i = none := by
  induction runs with
  | nil => rfl
  | cons run rest ih =>
    rw [lastAt, ih fun r hr => h r (List.mem_cons_of_mem run hr), Option.none_or,
      if_neg (h run List.mem_cons_self)]

/-- The last writer of a position is the run behind which no other covers it. -/
theorem lastAt_append_cons {before after : List (Run α)} {run : Run α} {i : Nat}
    (hcovers : run.Covers i) (h : ∀ later ∈ after, ¬ later.Covers i) :
    lastAt (before ++ run :: after) i = run.data[i - run.start]? := by
  have hin : i - run.start < run.data.length := by
    obtain ⟨hstart, hstop⟩ := hcovers
    rw [stop] at hstop
    omega
  induction before with
  | nil => rw [List.nil_append, lastAt, lastAt_eq_none h, Option.none_or, if_pos hcovers]
  | cons first before ih =>
    rw [List.cons_append, lastAt, ih, List.getElem?_eq_getElem hin, Option.some_or]

/-! ### Lists of runs as functions of the buffer -/

/-- Later runs hide earlier ones. -/
theorem lastAt_append (rs ss : List (Run α)) (i : Nat) :
    lastAt (rs ++ ss) i = (lastAt ss i).or (lastAt rs i) := by
  induction rs with
  | nil => rw [List.nil_append, lastAt, Option.or_none]
  | cons run rest ih => rw [List.cons_append, lastAt, ih, lastAt, Option.or_assoc]

/-- A run ends by the furthest end. -/
theorem stop_le_furthestStop {runs : List (Run α)} {run : Run α} (hmem : run ∈ runs) (bound : Nat) :
    run.stop ≤ furthestStop runs bound := by
  induction runs generalizing bound with
  | nil => cases hmem
  | cons first rest ih =>
    have hcons : furthestStop (first :: rest) bound = furthestStop rest (max bound first.stop) := rfl
    rcases List.mem_cons.mp hmem with rfl | hmem
    · rw [hcons, furthestStop_eq_max]
      omega
    · exact ih hmem _

theorem furthestStop_append (rs ss : List (Run α)) :
    furthestStop (rs ++ ss) 0 = max (furthestStop rs 0) (furthestStop ss 0) := by
  have happend : furthestStop (rs ++ ss) 0 = furthestStop ss (furthestStop rs 0) := List.foldl_append
  rw [happend, furthestStop_eq_max]

/-- No run has an element for a position at the furthest end or past it. -/
theorem lastAt_eq_none_of_furthestStop_le {runs : List (Run α)} {i : Nat}
    (h : furthestStop runs 0 ≤ i) : lastAt runs i = none :=
  lastAt_eq_none fun _ hrun hcovers =>
    absurd hcovers.2 (Nat.not_lt.mpr (Nat.le_trans (stop_le_furthestStop hrun 0) h))

variable {rs ss : List (Run α)}

/-- Lists with one furthest end and the same last writers write the same. -/
theorem foldl_write_congr (hstop : furthestStop rs 0 = furthestStop ss 0)
    (hlast : ∀ i, lastAt rs i = lastAt ss i) (buffer : List α) :
    rs.foldl (write filler) buffer = ss.foldl (write filler) buffer := by
  have hlength : (rs.foldl (write filler) buffer).length
      = (ss.foldl (write filler) buffer).length := by
    rw [length_foldl_write, length_foldl_write, furthestStop_eq_max, furthestStop_eq_max ss, hstop]
  apply List.ext_getElem hlength
  intro i h₁ h₂
  rw [← List.getD_eq_getElem _ filler h₁, ← List.getD_eq_getElem _ filler h₂, getD_foldl_write,
    getD_foldl_write, hlast]

/-- **Two lists of runs write the same over every buffer exactly if they have one furthest end and the
same last writers**; buffers as long as the runs reach are enough to tell. -/
theorem foldl_write_eq_iff [Nontrivial α] {limit : Nat} (hrs : ∀ run ∈ rs, run.stop ≤ limit)
    (hss : ∀ run ∈ ss, run.stop ≤ limit) :
    (∀ buffer : List α, buffer.length ≤ limit →
        rs.foldl (write filler) buffer = ss.foldl (write filler) buffer) ↔
      furthestStop rs 0 = furthestStop ss 0 ∧ ∀ i, lastAt rs i = lastAt ss i := by
  refine ⟨fun h => ?_, fun h buffer _ => foldl_write_congr filler h.1 h.2 buffer⟩
  have hstop : furthestStop rs 0 = furthestStop ss 0 := by
    have hempty := congrArg List.length (h [] (Nat.zero_le _))
    rwa [length_foldl_write, length_foldl_write] at hempty
  refine ⟨hstop, fun i => ?_⟩
  by_cases hi : i < limit
  · -- a buffer of one element shows what is written where, but for that element itself
    have hshow : ∀ a : α, (lastAt rs i).getD a = (lastAt ss i).getD a := by
      intro a
      have hsame := congrArg (fun buffer : List α => buffer.getD i filler)
        (h (List.replicate limit a) (Nat.le_of_eq List.length_replicate))
      have hheld : (List.replicate limit a).getD i filler = a := by
        rw [List.getD_eq_getElem _ _ (by rw [List.length_replicate]; exact hi),
          List.getElem_replicate]
      simpa only [getD_foldl_write, hheld] using hsame
    obtain ⟨a, b, hab⟩ := exists_pair_ne α
    have ha := hshow a
    have hb := hshow b
    cases hr : lastAt rs i with
    | none =>
      cases hs : lastAt ss i with
      | none => rfl
      | some c =>
        rw [hr, hs, Option.getD_none, Option.getD_some] at ha hb
        exact absurd (ha.trans hb.symm) hab
    | some c =>
      cases hs : lastAt ss i with
      | none =>
        rw [hr, hs, Option.getD_none, Option.getD_some] at ha hb
        exact absurd (ha.symm.trans hb) hab
      | some d =>
        rw [hr, hs, Option.getD_some, Option.getD_some] at ha
        rw [ha]
  · have hfar : ∀ runs : List (Run α), (∀ run ∈ runs, run.stop ≤ limit) → lastAt runs i = none :=
      fun runs hruns => lastAt_eq_none_of_furthestStop_le
        (Nat.le_trans (furthestStop_le (Nat.zero_le _) hruns) (Nat.not_lt.mp hi))
    rw [hfar rs hrs, hfar ss hss]

/-- **Two lists of runs can be written in either order exactly if they agree wherever both write.** -/
theorem foldl_write_comm_iff [Nontrivial α] {limit : Nat} (hrs : ∀ run ∈ rs, run.stop ≤ limit)
    (hss : ∀ run ∈ ss, run.stop ≤ limit) :
    (∀ buffer : List α, buffer.length ≤ limit →
        ss.foldl (write filler) (rs.foldl (write filler) buffer)
          = rs.foldl (write filler) (ss.foldl (write filler) buffer)) ↔
      ∀ i a b, lastAt rs i = some a → lastAt ss i = some b → a = b := by
  have hboth : ∀ {rs ss : List (Run α)}, (∀ run ∈ rs, run.stop ≤ limit) →
      (∀ run ∈ ss, run.stop ≤ limit) → ∀ run ∈ rs ++ ss, run.stop ≤ limit := by
    intro rs ss hrs hss run hrun
    rcases List.mem_append.mp hrun with hrun | hrun
    · exact hrs run hrun
    · exact hss run hrun
  simp only [← List.foldl_append]
  rw [foldl_write_eq_iff filler (hboth hrs hss) (hboth hss hrs), furthestStop_append,
    furthestStop_append, Nat.max_comm, and_iff_right rfl]
  simp only [lastAt_append]
  constructor
  · intro h i a b ha hb
    have hi := h i
    rw [ha, hb, Option.some_or, Option.some_or] at hi
    exact (Option.some.inj hi).symm
  · intro h i
    cases hr : lastAt rs i with
    | none => rw [Option.or_none, Option.none_or]
    | some a =>
      cases hs : lastAt ss i with
      | none => rfl
      | some b => rw [h i a b hr hs]

/-- The last writer of a position that all its writers agree on. -/
theorem lastAt_eq_some {runs : List (Run α)} {i : Nat} {a : α} (hcovered : ∃ run ∈ runs, run.Covers i)
    (hdata : ∀ run ∈ runs, run.Covers i → run.data[i - run.start]? = some a) :
    lastAt runs i = some a := by
  induction runs with
  | nil => obtain ⟨run, hrun, -⟩ := hcovered; cases hrun
  | cons run rest ih =>
    have hrest : ∀ r ∈ rest, r.Covers i → r.data[i - r.start]? = some a :=
      fun r hr => hdata r (List.mem_cons_of_mem run hr)
    rw [lastAt]
    by_cases hlater : ∃ r ∈ rest, r.Covers i
    · rw [ih hlater hrest, Option.some_or]
    · have hnone : lastAt rest i = none :=
        lastAt_eq_none fun r hr hcovers => hlater ⟨r, hr, hcovers⟩
      obtain ⟨r, hr, hcovers⟩ := hcovered
      rcases List.mem_cons.mp hr with rfl | hr
      · rw [hnone, Option.none_or, if_pos hcovers, hdata _ List.mem_cons_self hcovers]
      · exact absurd ⟨r, hr, hcovers⟩ hlater

/-- **Runs cut from a list turn a buffer into it**, if they cover all the buffer does not have. -/
theorem foldl_write_eq_of_cut {T buffer : List α} {runs : List (Run α)}
    (hlength : buffer.length ≤ T.length) (hstop : ∀ run ∈ runs, run.stop ≤ T.length)
    (hdata : ∀ run ∈ runs, ∀ i, run.Covers i → run.data[i - run.start]? = T[i]?)
    (hcover : ∀ i < T.length, (∃ run ∈ runs, run.Covers i) ∨ buffer[i]? = T[i]?) :
    runs.foldl (write filler) buffer = T := by
  have hend : furthestStop runs buffer.length = T.length := by
    apply Nat.le_antisymm (furthestStop_le hlength hstop)
    by_contra hshort
    have hfirst : buffer.length ≤ furthestStop runs buffer.length := by
      rw [furthestStop_eq_max]; omega
    -- the last position of the list is past the buffer, so a run covers it
    set i := T.length - 1 with hi
    have hin : i < T.length := by omega
    rcases hcover i hin with ⟨run, hrun, hcovers⟩ | hheld
    · have hle := stop_le_furthestStop hrun buffer.length
      have hlt := hcovers.2
      omega
    · rw [List.getElem?_eq_none (by omega), List.getElem?_eq_getElem hin] at hheld
      cases hheld
  apply List.ext_getElem
  · rw [length_foldl_write, hend]
  · intro i h₁ h₂
    rw [← List.getD_eq_getElem _ filler h₁, getD_foldl_write]
    by_cases hcovered : ∃ run ∈ runs, run.Covers i
    · have hvalue : lastAt runs i = some T[i] := by
        apply lastAt_eq_some hcovered
        intro run hrun hcovers
        rw [hdata run hrun i hcovers, List.getElem?_eq_getElem h₂]
      rw [hvalue, Option.getD_some]
    · have hnone : lastAt runs i = none :=
        lastAt_eq_none fun run hrun hcovers => hcovered ⟨run, hrun, hcovers⟩
      rcases hcover i h₂ with hcovers | hheld
      · exact absurd hcovers hcovered
      · rw [hnone, Option.getD_none, List.getD_eq_getElem?_getD, hheld,
          List.getElem?_eq_getElem h₂, Option.getD_some]

end Run
