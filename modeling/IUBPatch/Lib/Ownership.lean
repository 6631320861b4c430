import Mathlib.Data.List.Nodup
import Mathlib.Data.List.Perm.Basic
import Mathlib.Logic.Function.Basic
import Mathlib.Tactic.Common

/-! # Objects that own resources

A system holds resources under keys. Objects are created and destroyed in any order; creating one takes
resources from the system under keys that are free, and either keeps them in the object or, where it
fails, gives them back; destroying one gives back what it keeps. Then the system always holds what it
held at first and what the live objects keep, each resource kept by one of them, and nothing an object
keeps changes under it. -/

namespace Ownership

variable {κ ν ω α χ ε : Type*}

/-! ### Accounts -/

/-- The system holds what it held at first, `base`, and the resources `owned`, which are not of it. -/
structure Accounts (base : κ → Option ν) (owned : List (κ × ν)) (system : κ → Option ν) : Prop where
  distinct : (owned.map Prod.fst).Nodup
  free : ∀ key ∈ owned.map Prod.fst, base key = none
  held : ∀ holding ∈ owned, system holding.1 = some holding.2
  rest : ∀ key ∉ owned.map Prod.fst, system key = base key

variable {base system : κ → Option ν} {owned owned' : List (κ × ν)}

theorem accounts_nil (base : κ → Option ν) : Accounts base [] base :=
  ⟨List.nodup_nil, by simp, by simp, fun _ _ => rfl⟩

/-- With nothing owned the system is as it was at first. -/
theorem Accounts.eq_base (h : Accounts base [] system) : system = base :=
  funext fun key => h.rest key List.not_mem_nil

/-- The order of what is owned does not matter. -/
theorem Accounts.perm (h : Accounts base owned system) (hperm : owned.Perm owned') :
    Accounts base owned' system := by
  have hkeys := hperm.map Prod.fst
  refine ⟨hkeys.nodup_iff.mp h.distinct, fun key hkey => h.free key (hkeys.mem_iff.mpr hkey),
    fun holding hmem => h.held holding (hperm.mem_iff.mpr hmem), fun key hkey => h.rest key ?_⟩
  rwa [hkeys.mem_iff]

/-! ### Live objects -/

/-- The system and the live objects. -/
structure Process (κ ν ω : Type*) where
  system : κ → Option ν
  live : List ω

/-- **The invariant of a process**: every live object stands for its value, and the system holds what it
held at first and what they keep. -/
def Managed (Stands : ω → α → List (κ × ν) → Prop) (base : κ → Option ν) (process : Process κ ν ω)
    (values : List α) : Prop :=
  ∃ records : List (ω × α × List (κ × ν)),
    process.live = records.map Prod.fst ∧ values = records.map (fun record => record.2.1) ∧
      (∀ record ∈ records, Stands record.1 record.2.1 record.2.2) ∧
      Accounts base (records.flatMap fun record => record.2.2) process.system

section Managed

variable {Stands : ω → α → List (κ × ν) → Prop} {process : Process κ ν ω} {values : List α}

theorem managed_nil (base : κ → Option ν) : Managed Stands base { system := base, live := [] } [] :=
  ⟨[], rfl, rfl, by simp, accounts_nil base⟩

/-- **When no object is left, the system is as it was at first.** -/
theorem Managed.eq_base (h : Managed Stands base process values) (hnone : process.live = []) :
    process.system = base := by
  obtain ⟨records, hlive, -, -, haccounts⟩ := h
  rw [hnone, eq_comm, List.map_eq_nil_iff] at hlive
  rw [hlive, List.flatMap_nil] at haccounts
  exact haccounts.eq_base

end Managed

variable [DecidableEq κ]

/-! ### Taking and giving back -/

/-- Take a resource from the system. -/
def acquire (system : κ → Option ν) (key : κ) (value : ν) : κ → Option ν :=
  Function.update system key (some value)

/-- Give a resource back. -/
def release (system : κ → Option ν) (key : κ) : κ → Option ν := Function.update system key none

/-- Giving back what has just been taken. -/
@[simp] theorem release_acquire {system : κ → Option ν} {key : κ} (h : system key = none) (value : ν) :
    release (acquire system key value) key = system := by
  rw [release, acquire, Function.update_idem, ← h, Function.update_eq_self]

/-- The order of giving back does not matter. -/
theorem release_comm (system : κ → Option ν) (key other : κ) :
    release (release system key) other = release (release system other) key := by
  funext k
  simp only [release, Function.update_apply]
  by_cases hkey : k = key <;> by_cases hother : k = other <;> simp [hkey, hother]

/-- Take several resources. -/
def acquireAll (system : κ → Option ν) (holdings : List (κ × ν)) : κ → Option ν :=
  holdings.foldl (fun system holding => acquire system holding.1 holding.2) system

/-- Give several resources back. -/
def releaseAll (system : κ → Option ν) (keys : List κ) : κ → Option ν := keys.foldl release system

theorem releaseAll_apply (system : κ → Option ν) (keys : List κ) (key : κ) :
    releaseAll system keys key = if key ∈ keys then none else system key := by
  induction keys generalizing system with
  | nil => simp [releaseAll]
  | cons first keys ih =>
    rw [releaseAll, List.foldl_cons, ← releaseAll, ih, release]
    by_cases hkey : key = first
    · simp [hkey]
    · simp [hkey]

/-- **Taking a resource that is free.** -/
theorem Accounts.acquire (h : Accounts base owned system) {key : κ} (hfree : system key = none)
    (value : ν) : Accounts base ((key, value) :: owned) (acquire system key value) := by
  -- what is owned is in the system, so a free key is not owned
  have hfresh : key ∉ owned.map Prod.fst := by
    intro hmem
    obtain ⟨holding, hholding, rfl⟩ := List.mem_map.mp hmem
    rw [h.held holding hholding] at hfree
    cases hfree
  refine ⟨List.nodup_cons.mpr ⟨hfresh, h.distinct⟩, ?_, ?_, ?_⟩
  · rw [List.map_cons, List.forall_mem_cons]
    exact ⟨(h.rest key hfresh).symm.trans hfree, h.free⟩
  · rw [List.forall_mem_cons]
    refine ⟨by rw [Ownership.acquire, Function.update_self], fun holding hmem => ?_⟩
    have hne : holding.1 ≠ key := fun heq => hfresh (heq ▸ List.mem_map_of_mem hmem)
    rw [Ownership.acquire, Function.update_of_ne hne]
    exact h.held holding hmem
  · intro other hother
    rw [List.map_cons, List.mem_cons, not_or] at hother
    rw [Ownership.acquire, Function.update_of_ne hother.1]
    exact h.rest other hother.2

/-- Taking several resources that are free. -/
theorem Accounts.acquireAll (h : Accounts base owned system) {holdings : List (κ × ν)}
    (hdistinct : (holdings.map Prod.fst).Nodup) (hfree : ∀ holding ∈ holdings, system holding.1 = none) :
    Accounts base (holdings ++ owned) (acquireAll system holdings) := by
  induction holdings generalizing owned system with
  | nil => exact h
  | cons first holdings ih =>
    obtain ⟨hfresh, hdistinct⟩ := List.nodup_cons.mp hdistinct
    have hfirst := h.acquire (hfree first List.mem_cons_self) first.2
    -- the other keys are still free behind the first one
    have hothers : ∀ holding ∈ holdings, Ownership.acquire system first.1 first.2 holding.1 = none := by
      intro holding hmem
      have hne : holding.1 ≠ first.1 := fun heq => hfresh (heq ▸ List.mem_map_of_mem hmem)
      rw [Ownership.acquire, Function.update_of_ne hne]
      exact hfree holding (List.mem_cons_of_mem first hmem)
    exact (ih hfirst hdistinct hothers).perm List.perm_middle

/-- **Giving back what is owned.** -/
theorem Accounts.releaseAll {holdings : List (κ × ν)}
    (h : Accounts base (holdings ++ owned) system) :
    Accounts base owned (releaseAll system (holdings.map Prod.fst)) := by
  obtain ⟨hdistinct, hfree, hheld, hrest⟩ := h
  rw [List.map_append] at hdistinct hfree hrest
  have hapart := List.nodup_append.mp hdistinct
  refine ⟨hapart.2.1, fun key hkey => hfree key (List.mem_append_right _ hkey), ?_, ?_⟩
  · intro holding hmem
    -- no key is owned twice
    have hkept : holding.1 ∉ holdings.map Prod.fst := fun hgone =>
      hapart.2.2 _ hgone _ (List.mem_map_of_mem hmem) rfl
    rw [releaseAll_apply, if_neg hkept]
    exact hheld holding (List.mem_append_right _ hmem)
  · intro key hkey
    rw [releaseAll_apply]
    by_cases hgone : key ∈ holdings.map Prod.fst
    · rw [if_pos hgone, hfree key (List.mem_append_left _ hgone)]
    · rw [if_neg hgone]
      exact hrest key (by simp only [List.mem_append, not_or]; exact ⟨hgone, hkey⟩)

/-! ### Objects -/

/-- How objects are created from requests, and destroyed. -/
structure Manager (κ ν ω χ ε : Type*) where
  create : χ → (κ → Option ν) → Except ε ω × (κ → Option ν)
  destroy : ω → (κ → Option ν) → (κ → Option ν)

/-- Create an object, or destroy one of the live ones. -/
inductive Command (χ : Type*) where
  | create (request : χ)
  | destroy (index : Nat)
  deriving DecidableEq, Repr

/-- What is created is `fresh`. -/
def Command.Allowed (fresh : χ → (κ → Option ν) → Prop) (system : κ → Option ν) : Command χ → Prop
  | .create request => fresh request system
  | .destroy _ => True

namespace Manager

variable (manager : Manager κ ν ω χ ε)

/-- Carry a command out: the error, if creating an object fails, and the process after it. -/
def step (process : Process κ ν ω) : Command χ → Option ε × Process κ ν ω
  | .create request =>
    match manager.create request process.system with
    | (.ok object, system) => (none, { system, live := process.live ++ [object] })
    | (.error e, system) => (some e, { process with system })
  | .destroy index =>
    match process.live[index]? with
    | some object =>
      (none, { system := manager.destroy object process.system, live := process.live.eraseIdx index })
    | none => (none, process)

/-- Carry commands out: what each came to, and the process after them. -/
def run (process : Process κ ν ω) : List (Command χ) → List (Option ε) × Process κ ν ω
  | [] => ([], process)
  | command :: commands =>
    let (answer, process) := manager.step process command
    let (answers, process) := run process commands
    (answer :: answers, process)

/-- The system hands out only what is free: at each creation the request is `fresh`. -/
def Honest (fresh : χ → (κ → Option ν) → Prop) (process : Process κ ν ω) : List (Command χ) → Prop
  | [] => True
  | command :: commands =>
    command.Allowed fresh process.system ∧ Honest fresh (manager.step process command).2 commands

end Manager

/-- The same commands on the values that objects stand for, without a system. -/
def valueStep (value : χ → Except ε α) (values : List α) : Command χ → Option ε × List α
  | .create request =>
    match value request with
    | .ok a => (none, values ++ [a])
    | .error e => (some e, values)
  | .destroy index => (none, values.eraseIdx index)

/-- Commands on values one after the other. -/
def valueRun (value : χ → Except ε α) (values : List α) : List (Command χ) → List (Option ε) × List α
  | [] => ([], values)
  | command :: commands =>
    let (answer, values) := valueStep value values command
    let (answers, values) := valueRun value values commands
    (answer :: answers, values)

/-- What a manager has to do: `Stands object a holdings` says that an object stands for a value and
keeps these resources. -/
structure Sound (manager : Manager κ ν ω χ ε) (fresh : χ → (κ → Option ν) → Prop)
    (value : χ → Except ε α) (Stands : ω → α → List (κ × ν) → Prop) : Prop where
  /-- What cannot be created leaves the system as it was, and what is created keeps what was taken. -/
  created : ∀ {request system}, fresh request system →
    (∃ e, value request = .error e ∧ manager.create request system = (.error e, system)) ∨
      ∃ object a holdings, value request = .ok a ∧ Stands object a holdings ∧
        (holdings.map Prod.fst).Nodup ∧ (∀ holding ∈ holdings, system holding.1 = none) ∧
        manager.create request system = (.ok object, acquireAll system holdings)
  /-- What is destroyed gives back what it kept. -/
  destroyed : ∀ {object a holdings system}, Stands object a holdings →
    (∀ holding ∈ holdings, system holding.1 = some holding.2) →
    manager.destroy object system = releaseAll system (holdings.map Prod.fst)

section Sound

variable {manager : Manager κ ν ω χ ε} {fresh : χ → (κ → Option ν) → Prop} {value : χ → Except ε α}
  {Stands : ω → α → List (κ × ν) → Prop} {process : Process κ ν ω} {values : List α}

/-- What the objects keep, without those of one of them. -/
theorem perm_flatMap_eraseIdx {β γ : Type*} (f : β → List γ) {items : List β} {index : Nat} {item : β}
    (h : items[index]? = some item) :
    (items.flatMap f).Perm (f item ++ (items.eraseIdx index).flatMap f) := by
  obtain ⟨hlt, rfl⟩ := List.getElem?_eq_some_iff.mp h
  have hperm := (List.getElem_cons_eraseIdx_perm hlt).symm.flatMap_right f
  rwa [List.flatMap_cons] at hperm

/-- **One command keeps the invariant**, and answers like the same command on the values. -/
theorem Sound.step (hsound : Sound manager fresh value Stands) (h : Managed Stands base process values)
    {command : Command χ} (hallowed : command.Allowed fresh process.system) :
    (manager.step process command).1 = (valueStep value values command).1 ∧
      Managed Stands base (manager.step process command).2 (valueStep value values command).2 := by
  obtain ⟨records, hlive, hvalues, hstands, haccounts⟩ := h
  cases command with
  | create request =>
    rw [Manager.step, valueStep]
    rcases hsound.created hallowed with
      ⟨e, hvalue, hcreate⟩ | ⟨object, a, holdings, hvalue, hobject, hdistinct, hfree, hcreate⟩
    · rw [hcreate, hvalue]
      exact ⟨rfl, records, hlive, hvalues, hstands, haccounts⟩
    · rw [hcreate, hvalue]
      refine ⟨rfl, records ++ [(object, a, holdings)], by simp [hlive], by simp [hvalues], ?_, ?_⟩
      · rw [List.forall_mem_append, List.forall_mem_singleton]
        exact ⟨hstands, hobject⟩
      · rw [List.flatMap_append, List.flatMap_singleton]
        exact (haccounts.acquireAll hdistinct hfree).perm List.perm_append_comm
  | destroy index =>
    rw [Manager.step, valueStep]
    cases hobject : process.live[index]? with
    | none =>
      -- there is no such object, and no such value
      have hlength : records.length ≤ index := by
        rw [hlive, List.getElem?_eq_none_iff, List.length_map] at hobject
        exact hobject
      have hkept : values.eraseIdx index = values :=
        List.eraseIdx_of_length_le (by rw [hvalues, List.length_map]; exact hlength)
      exact ⟨rfl, records, hlive, hkept.trans hvalues, hstands, haccounts⟩
    | some object =>
      rw [hlive, List.getElem?_map, Option.map_eq_some_iff] at hobject
      obtain ⟨record, hrecord, rfl⟩ := hobject
      have hmem := List.mem_of_getElem? hrecord
      -- the object's holdings in front of those of the others
      have hsplit := haccounts.perm (perm_flatMap_eraseIdx (fun record => record.2.2) hrecord)
      have hgone := hsound.destroyed (hstands record hmem) fun holding hholding =>
        hsplit.held holding (List.mem_append_left _ hholding)
      refine ⟨rfl, records.eraseIdx index, ?_, ?_, fun other hother => hstands other ?_, ?_⟩
      · rw [hlive, List.eraseIdx_map]
      · rw [hvalues, List.eraseIdx_map]
      · exact List.mem_of_mem_eraseIdx hother
      · have hkept := hsplit.releaseAll
        rw [← hgone] at hkept
        exact hkept

/-- **A run keeps the invariant**, and answers like the same commands on the values. -/
theorem Sound.run (hsound : Sound manager fresh value Stands) (h : Managed Stands base process values)
    {commands : List (Command χ)} (hhonest : manager.Honest fresh process commands) :
    (manager.run process commands).1 = (valueRun value values commands).1 ∧
      Managed Stands base (manager.run process commands).2 (valueRun value values commands).2 := by
  induction commands generalizing process values with
  | nil => exact ⟨rfl, h⟩
  | cons command commands ih =>
    obtain ⟨hanswer, hnext⟩ := hsound.step h hhonest.1
    obtain ⟨hanswers, hlast⟩ := ih hnext hhonest.2
    refine ⟨?_, hlast⟩
    rw [Manager.run, valueRun]
    exact congrArg₂ List.cons hanswer hanswers

/-! ### Exact accounts -/

/-- **A manager keeps exact accounts**: if the system hands out only what is free, then whatever objects
are created and destroyed, in whatever order, and whatever fails, the commands answer as on the values,
and a view of a live object shows its value. What the system held at first it still holds, and of the
rest exactly the resources of the live objects, no two of which share one; so with no object left the
system is as it was at first. -/
def Manager.KeepsAccounts (manager : Manager κ ν ω χ ε) (fresh : χ → (κ → Option ν) → Prop)
    (value : χ → Except ε α) (view : ω → (κ → Option ν) → Option α) (resources : ω → List κ) : Prop :=
  ∀ (base : κ → Option ν) (commands : List (Command χ)),
    manager.Honest fresh { system := base, live := [] } commands →
      let run := manager.run { system := base, live := [] } commands
      let values := valueRun value [] commands
      run.1 = values.1 ∧
        run.2.live.map (fun object => view object run.2.system) = values.2.map some ∧
        (∀ key, base key ≠ none → run.2.system key = base key) ∧
        (run.2.live.flatMap resources).Nodup ∧
        (∀ key, run.2.system key ≠ none ↔ base key ≠ none ∨ key ∈ run.2.live.flatMap resources) ∧
        (run.2.live = [] → run.2.system = base)

/-- A sound manager keeps exact accounts, if views and resources fit what its objects stand for. -/
theorem Sound.keepsAccounts (hsound : Sound manager fresh value Stands)
    {view : ω → (κ → Option ν) → Option α} {resources : ω → List κ}
    (hview : ∀ {object a holdings system}, Stands object a holdings →
      (∀ holding ∈ holdings, system holding.1 = some holding.2) → view object system = some a)
    (hresources : ∀ {object a holdings}, Stands object a holdings →
      resources object = holdings.map Prod.fst) :
    manager.KeepsAccounts fresh value view resources := by
  intro base commands hhonest run values
  obtain ⟨hanswers, hmanaged⟩ := hsound.run (managed_nil base) hhonest
  refine ⟨hanswers, ?_⟩
  have hempty : run.2.live = [] → run.2.system = base := hmanaged.eq_base
  obtain ⟨records, hlive, hvalues, hstands, haccounts⟩ := hmanaged
  have hlive : run.2.live = records.map Prod.fst := hlive
  have hvalues : values.2 = records.map fun record => record.2.1 := hvalues
  -- the resources of the live objects are the keys of what they keep
  have hkeys : run.2.live.flatMap resources
      = (records.flatMap fun record => record.2.2).map Prod.fst := by
    rw [hlive, List.flatMap_map, List.map_flatMap]
    exact List.flatMap_congr fun record hmem => hresources (hstands record hmem)
  refine ⟨?_, fun key hkey => ?_, ?_, fun key => ?_, hempty⟩
  · rw [hlive, hvalues, List.map_map, List.map_map]
    refine List.map_congr_left fun record hmem => hview (hstands record hmem) fun holding hholding => ?_
    exact haccounts.held holding (List.mem_flatMap.mpr ⟨record, hmem, hholding⟩)
  · exact haccounts.rest key fun hmem => hkey (haccounts.free key hmem)
  · rw [hkeys]
    exact haccounts.distinct
  · rw [hkeys]
    by_cases hmem : key ∈ (records.flatMap fun record => record.2.2).map Prod.fst
    · obtain ⟨holding, hholding, rfl⟩ := List.mem_map.mp hmem
      have hheld : run.2.system holding.1 = some holding.2 := haccounts.held holding hholding
      simp [hheld, hmem]
    · have hrest : run.2.system key = base key := haccounts.rest key hmem
      simp [hrest, hmem]

end Sound

end Ownership
