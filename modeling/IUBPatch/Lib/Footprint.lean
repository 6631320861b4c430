import Mathlib

/-! # Serial runs of operations with footprints

Operations on a state that shows a store, taken one after another. Each of them writes only some keys,
and what it does there depends only on the keys it reads. Where no operation of a run writes what
another one reads or writes, the run does to the keys of each what that operation does alone, in
whatever order they are taken. -/

namespace Footprint

variable {ι κ ν α σ : Type*} {step : ι → σ → α → σ → Prop} {view : σ → κ → ν}
  {reads writes : ι → Set κ}

/-- The operations `step`, each given as a relation of the state before, its answer and the state after,
stay within the keys `reads` and `writes`. What else the state holds may differ between two runs on the
same store. -/
structure Local (step : ι → σ → α → σ → Prop) (view : σ → κ → ν) (reads writes : ι → Set κ) :
    Prop where
  /-- An operation leaves the keys it does not write as they are. -/
  frame : ∀ {i s a s'}, step i s a s' → ∀ k ∉ writes i, view s' k = view s k
  /-- Where the store is the same on the keys it reads, an operation can do the same. -/
  locality : ∀ {i s a s'}, step i s a s' → ∀ t, Set.EqOn (view t) (view s) (reads i) →
    ∃ u u', view u = view t ∧ step i u a u' ∧ Set.EqOn (view u') (view s') (writes i)

/-- Two operations are apart: neither writes what the other one reads or writes. -/
def Apart (reads writes : ι → Set κ) (i j : ι) : Prop :=
  Disjoint (writes i) (reads j ∪ writes j) ∧ Disjoint (writes j) (reads i ∪ writes i)

/-- Operations taken one after another, with their answers. -/
inductive Serial (step : ι → σ → α → σ → Prop) : List (ι × α) → σ → σ → Prop
  | nil (s : σ) : Serial step [] s s
  | cons {i : ι} {a : α} {turns : List (ι × α)} {s s' s'' : σ} (first : step i s a s')
      (rest : Serial step turns s' s'') : Serial step ((i, a) :: turns) s s''

variable {turns turns' : List (ι × α)} {s s' s'' : σ}

theorem serial_cons_iff {turn : ι × α} :
    Serial step (turn :: turns) s s'' ↔ ∃ s', step turn.1 s turn.2 s' ∧ Serial step turns s' s'' := by
  constructor
  · rintro (_ | ⟨first, rest⟩)
    exact ⟨_, first, rest⟩
  · rintro ⟨s', first, rest⟩
    exact .cons first rest

/-- A run of two parts is a run of the first part and then one of the second. -/
theorem serial_append_iff :
    Serial step (turns ++ turns') s s'' ↔ ∃ s', Serial step turns s s' ∧ Serial step turns' s' s'' := by
  induction turns generalizing s with
  | nil =>
    refine ⟨fun h => ⟨s, .nil s, h⟩, ?_⟩
    rintro ⟨s', hnil, h⟩
    cases hnil
    exact h
  | cons turn turns ih =>
    rw [List.cons_append, serial_cons_iff]
    simp only [ih, serial_cons_iff]
    constructor
    · rintro ⟨s₁, first, s₂, rest, later⟩
      exact ⟨s₂, ⟨s₁, first, rest⟩, later⟩
    · rintro ⟨s₂, ⟨s₁, first, rest⟩, later⟩
      exact ⟨s₁, first, s₂, rest, later⟩

/-- A run leaves the keys that none of its operations writes as they are. -/
theorem Serial.frame (h : Local step view reads writes) (hrun : Serial step turns s s') {k : κ}
    (hk : ∀ turn ∈ turns, k ∉ writes turn.1) : view s' k = view s k := by
  induction hrun with
  | nil => rfl
  | cons first rest ih =>
    rw [List.forall_mem_cons] at hk
    rw [ih hk.2, h.frame first k hk.1]

/-- **Each operation of a run as if alone.** Where the operations of a run are apart, each of them can
give its answer on the store the run started from, and writes there what its keys hold at the end of the
run. -/
theorem Serial.exists_alone (h : Local step view reads writes) (hrun : Serial step turns s s')
    (hapart : turns.Pairwise fun turn later => Apart reads writes turn.1 later.1)
    {turn : ι × α} (hturn : turn ∈ turns) :
    ∃ u u', view u = view s ∧ step turn.1 u turn.2 u' ∧
      Set.EqOn (view u') (view s') (writes turn.1) := by
  induction hrun with
  | nil => cases hturn
  | @cons i a turns s s' s'' first rest ih =>
    obtain ⟨hfirst, hrest⟩ := List.pairwise_cons.mp hapart
    rcases List.mem_cons.mp hturn with rfl | hlater
    · -- the operations behind it leave its keys alone
      refine ⟨s, s', rfl, first, fun k hk => ?_⟩
      refine (rest.frame h fun later hlater hwrites => ?_).symm
      exact Set.disjoint_left.mp (hfirst later hlater).1 hk (.inr hwrites)
    · -- the operation in front of it leaves what it reads alone
      obtain ⟨u, u', hu, hstep, hwrites⟩ := ih hrest hlater
      have hreads : Set.EqOn (view s) (view u) (reads turn.1) := by
        intro k hk
        rw [hu]
        refine (h.frame first k fun hwrites => ?_).symm
        exact Set.disjoint_left.mp (hfirst turn hlater).1 hwrites (.inl hk)
      obtain ⟨v, v', hv, hstep', hwrites'⟩ := h.locality hstep s hreads
      exact ⟨v, v', hv, hstep', hwrites'.trans hwrites⟩

/-- An operation has one answer and one effect on a store. -/
def Functional (step : ι → σ → α → σ → Prop) (view : σ → κ → ν) : Prop :=
  ∀ {i s t a b s' t'}, view s = view t → step i s a s' → step i t b t' → a = b ∧ view s' = view t'

/-- An operation of two runs on the same store gives the same answer in both, and leaves the same on its
keys. -/
theorem Serial.same_turn (h : Local step view reads writes) (hfun : Functional step view)
    (hrun : Serial step turns s s') (hrun' : Serial step turns' s s'')
    (hapart : turns.Pairwise fun turn later => Apart reads writes turn.1 later.1)
    (hapart' : turns'.Pairwise fun turn later => Apart reads writes turn.1 later.1)
    {turn turn' : ι × α} (hturn : turn ∈ turns) (hturn' : turn' ∈ turns') (hitem : turn'.1 = turn.1) :
    turn.2 = turn'.2 ∧ Set.EqOn (view s') (view s'') (writes turn.1) := by
  obtain ⟨u, u', hu, hstep, hwrites⟩ := hrun.exists_alone h hapart hturn
  obtain ⟨v, v', hv, hstep', hwrites'⟩ := hrun'.exists_alone h hapart' hturn'
  rw [hitem] at hstep' hwrites'
  -- alone it has one answer and one effect, and both runs agree with that
  obtain ⟨hanswer, heffect⟩ := hfun (hu.trans hv.symm) hstep hstep'
  refine ⟨hanswer, fun k hk => ?_⟩
  rw [← hwrites hk, ← hwrites' hk, heffect]

/-- **Operations that are apart can be taken in any order.** Two runs of the same operations on the same
store, in whatever order, end on the same store. -/
theorem Serial.order (h : Local step view reads writes) (hfun : Functional step view)
    (hrun : Serial step turns s s') (hrun' : Serial step turns' s s'')
    (hapart : turns.Pairwise fun turn later => Apart reads writes turn.1 later.1)
    (hapart' : turns'.Pairwise fun turn later => Apart reads writes turn.1 later.1)
    (hperm : (turns.map Prod.fst).Perm (turns'.map Prod.fst)) : view s' = view s'' := by
  funext k
  by_cases hk : ∃ turn ∈ turns, k ∈ writes turn.1
  -- a key that some operation writes, and below one that none does
  · obtain ⟨turn, hturn, hwrites⟩ := hk
    obtain ⟨turn', hturn', hitem⟩ :=
      List.mem_map.mp (hperm.mem_iff.mp (List.mem_map_of_mem hturn))
    exact (hrun.same_turn h hfun hrun' hapart hapart' hturn hturn' hitem).2 hwrites
  · rw [hrun.frame h fun turn hturn hwrites => hk ⟨turn, hturn, hwrites⟩,
      hrun'.frame h fun turn' hturn' hwrites => ?_]
    obtain ⟨turn, hturn, hitem⟩ :=
      List.mem_map.mp (hperm.mem_iff.mpr (List.mem_map_of_mem hturn'))
    exact hk ⟨turn, hturn, hitem ▸ hwrites⟩

end Footprint
