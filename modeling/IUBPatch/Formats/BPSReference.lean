import IUBPatch.Formats.BPSReplay
import IUBPatch.SourceChecks

/-! # BPS replay against the format's own interpreter

The interpreter of the format description, over exact integers, and the comparison with the replayer
of the source. Both are split into a plan, which resolves every command to the range it copies and
looks at no byte, and the rendering of that plan. The two differ in the plan alone: the format reads
`SourceRead` at the output position and leaves the source cursor be, the source reads it at the
source cursor and moves it. -/

namespace IUBPatch.BPS

/-! ### The reference interpreter -/

/-- The state of the reference interpreter. -/
structure RefState where
  out : Bytes
  sRel : Int
  tRel : Int

/-- One command of the reference interpreter, on lists without `TargetRead`. -/
def refExec (source : Bytes) (st : RefState) (cmd : Command) : Option RefState :=
  let n := cmd.length.toNat
  match cmd.action with
  | .sourceRead =>
    if st.out.length + n ≤ source.length then
      some { st with out := st.out ++ slice source st.out.length n }
    else none
  | .targetRead => none
  | .sourceCopy =>
    let sRel := st.sRel + signedValue cmd.offsetDelta
    if 0 ≤ sRel ∧ sRel + n ≤ source.length then
      some { st with out := st.out ++ slice source sRel.toNat n, sRel := sRel + n }
    else none
  | .targetCopy =>
    let tRel := st.tRel + signedValue cmd.offsetDelta
    if 0 ≤ tRel ∧ tRel < st.out.length then
      (SelfCopy.selfCopy st.out tRel.toNat n).map fun out => { st with out, tRel := tRel + n }
    else none

/-- The reference replay of a list of commands from the empty output. -/
def refReplay (source : Bytes) (commands : List Command) : Option Bytes :=
  (commands.foldlM (refExec source) { out := [], sRel := 0, tRel := 0 }).map (·.out)

/-! ### Plans -/

/-- A resolved command: a range of the source, or of the output copied from itself. -/
inductive Segment where
  | source (start length : Nat)
  | target (start length : Nat)

namespace Segment

/-- The output after the segment. -/
def append (sourceBytes out : Bytes) : Segment → Bytes
  | .source start length => out ++ slice sourceBytes start length
  | .target start length => SelfCopy.extend out start length

/-- The source bytes the segment takes. -/
def taken (sourceBytes : Bytes) : Segment → Bytes
  | .source start length => slice sourceBytes start length
  | .target _ _ => []

end Segment

/-- The positions a plan is made from: the length of the output and the two cursors. -/
structure Walk where
  written : Nat
  source : Nat
  target : Nat

/-- The walk before the first command. -/
def Walk.start : Walk := ⟨0, 0, 0⟩

/-- Where `SourceRead` reads: at the output position, which leaves the source cursor be, or at the
source cursor, which moves on. -/
inductive Addressing where
  | output
  | cursor

/-- The position `SourceRead` reads at. -/
def Addressing.readStart (walk : Walk) : Addressing → Nat
  | .output => walk.written
  | .cursor => walk.source

/-- The source cursor after a `SourceRead` of `n` bytes. -/
def Addressing.afterRead (walk : Walk) (n : Nat) : Addressing → Nat
  | .output => walk.source
  | .cursor => walk.source + n

/-- One command resolved against a source of `sourceLength` bytes. -/
def planStep (addressing : Addressing) (sourceLength : Nat) (walk : Walk) (cmd : Command) :
    Option (Segment × Walk) :=
  let n := cmd.length.toNat
  match cmd.action with
  | .sourceRead =>
    let start := addressing.readStart walk
    if start + n ≤ sourceLength then
      some (.source start n,
        { walk with written := walk.written + n, source := addressing.afterRead walk n })
    else none
  | .targetRead => none
  | .sourceCopy =>
    let start : Int := walk.source + signedValue cmd.offsetDelta
    if 0 ≤ start ∧ start + n ≤ sourceLength then
      some (.source start.toNat n,
        { walk with written := walk.written + n, source := start.toNat + n })
    else none
  | .targetCopy =>
    let start : Int := walk.target + signedValue cmd.offsetDelta
    if 0 ≤ start ∧ start < walk.written then
      some (.target start.toNat n,
        { walk with written := walk.written + n, target := start.toNat + n })
    else none

/-- A list of commands resolved from a walk on. -/
def plan (addressing : Addressing) (sourceLength : Nat) : Walk → List Command → Option (List Segment)
  | _, [] => some []
  | walk, cmd :: commands =>
    match planStep addressing sourceLength walk cmd with
    | none => none
    | some (segment, next) => (plan addressing sourceLength next commands).map (segment :: ·)

/-- The output of a plan. -/
def render (source : Bytes) : Bytes → List Segment → Bytes
  | out, [] => out
  | out, segment :: segments => render source (segment.append source out) segments

/-- The bytes that the source ranges of a list of commands hold, if every range is in bounds. -/
def sourceRanges (addressing : Addressing) (source : Bytes) (commands : List Command) :
    Option (List Bytes) :=
  (plan addressing source.length .start commands).map (·.map (Segment.taken source))

/-! ### What one resolved command does -/

section Step

variable {addressing : Addressing} {source : Bytes} {walk next : Walk} {cmd : Command}
  {segment : Segment}

/-- The walk's cursors are inside the buffers they index. -/
structure Walk.Inside (sourceLength : Nat) (walk : Walk) : Prop where
  source_le : walk.source ≤ sourceLength
  target_le : walk.target ≤ walk.written

theorem Walk.inside_start (sourceLength : Nat) : Walk.start.Inside sourceLength :=
  ⟨Nat.zero_le _, Nat.zero_le _⟩

/-- A resolved command keeps the cursors inside and moves the output position by its length. -/
theorem planStep_inside (h : planStep addressing source.length walk cmd = some (segment, next))
    (hin : walk.Inside source.length) :
    next.Inside source.length ∧ next.written = walk.written + cmd.length.toNat := by
  obtain ⟨hsource, htarget⟩ := hin
  rw [planStep] at h
  cases haction : cmd.action <;> rw [haction] at h <;> dsimp only at h
  · split at h <;> cases h
    rename_i hread
    refine ⟨⟨?_, le_trans htarget (Nat.le_add_right _ _)⟩, rfl⟩
    cases addressing with
    | output => exact hsource
    | cursor => exact hread
  · cases h
  · split at h <;> cases h
    rename_i hstart
    exact ⟨⟨by dsimp only; omega, le_trans htarget (Nat.le_add_right _ _)⟩, rfl⟩
  · split at h <;> cases h
    rename_i hstart
    exact ⟨⟨hsource, by dsimp only; omega⟩, rfl⟩

/-- A resolved command appends its length to the output. -/
theorem length_append_of_planStep
    (h : planStep addressing source.length walk cmd = some (segment, next)) {out : Bytes}
    (hout : out.length = walk.written) :
    (segment.append source out).length = walk.written + cmd.length.toNat := by
  rw [planStep] at h
  cases haction : cmd.action <;> rw [haction] at h <;> dsimp only at h
  · split at h <;> cases h
    rename_i hread
    rw [Segment.append, List.length_append, length_slice hread, hout]
  · cases h
  · split at h <;> cases h
    rw [Segment.append, List.length_append, length_slice (by omega), hout]
  · split at h <;> cases h
    rw [Segment.append, SelfCopy.length_extend (by omega), hout]

end Step

/-! ### The two interpreters render their plans -/

section Render

variable {source : Bytes} {cmd : Command}

/-- One reference step renders the segment it is resolved to. -/
theorem refExec_eq {walk : Walk} {out : Bytes} (hout : out.length = walk.written) (cmd : Command) :
    refExec source ⟨out, walk.source, walk.target⟩ cmd
      = (planStep .output source.length walk cmd).map fun step =>
          ⟨step.1.append source out, step.2.source, step.2.target⟩ := by
  rw [refExec, planStep]
  cases haction : cmd.action <;> dsimp only
  · rw [Addressing.readStart, ← hout]
    split <;> rfl
  · rfl
  · by_cases hin : 0 ≤ (walk.source : Int) + signedValue cmd.offsetDelta ∧
        (walk.source : Int) + signedValue cmd.offsetDelta + cmd.length.toNat ≤ source.length
    · have hcast := Int.toNat_of_nonneg hin.1
      rw [if_pos hin, if_pos hin, Option.map_some]
      simp only [Segment.append, Nat.cast_add, hcast]
    · rw [if_neg hin, if_neg hin]; rfl
  · rw [← hout]
    by_cases hin : 0 ≤ (walk.target : Int) + signedValue cmd.offsetDelta ∧
        (walk.target : Int) + signedValue cmd.offsetDelta < out.length
    · have hcast := Int.toNat_of_nonneg hin.1
      rw [if_pos hin, if_pos hin, Option.map_some, SelfCopy.selfCopy_eq_extend (by omega),
        Option.map_some]
      simp only [Segment.append, Nat.cast_add, hcast]
    · rw [if_neg hin, if_neg hin]; rfl

/-- **The reference replay renders the output-addressed plan.** -/
theorem refReplay_eq (source : Bytes) (commands : List Command) :
    refReplay source commands = (plan .output source.length .start commands).map
      (render source []) := by
  suffices general : ∀ (walk : Walk) (out : Bytes), out.length = walk.written →
      walk.Inside source.length →
      (commands.foldlM (refExec source) ⟨out, walk.source, walk.target⟩).map (·.out)
        = (plan .output source.length walk commands).map (render source out) from
    general .start [] rfl (Walk.inside_start _)
  induction commands with
  | nil => intro walk out _ _; rfl
  | cons cmd commands ih =>
    intro walk out hout hin
    rw [List.foldlM_cons, refExec_eq hout, plan]
    cases hstep : planStep .output source.length walk cmd with
    | none => rfl
    | some step =>
      obtain ⟨segment, next⟩ := step
      obtain ⟨hin', hwritten⟩ := planStep_inside hstep hin
      have hout' := length_append_of_planStep hstep hout
      have := ih next (segment.append source out) (by rw [hout', hwritten]) hin'
      rw [Option.map_some, Option.bind_eq_bind, Option.bind_some, this, Option.map_map]
      rfl

/-- The locals of the replayer stand where the walk does. -/
structure Tracks (st : ReplayState) (walk : Walk) : Prop where
  written : st.output.length = walk.written
  source : st.sourceRelOffset.toNat = walk.source
  target : st.targetRelOffset.toNat = walk.target

/-- **One step of the simulation**: the replayer runs a command exactly when the cursor-addressed plan
resolves it, and then renders the segment. -/
theorem execCommand_simulates {patchData : Bytes} {st : ReplayState} {walk : Walk}
    (hsource : source.length ≤ maxSize) (hkind : cmd.action ≠ .targetRead)
    (htracks : Tracks st walk) (hin : walk.Inside source.length)
    (hfit : walk.written + cmd.length.toNat ≤ maxSize) :
    match planStep .cursor source.length walk cmd with
    | none => ∃ e, execCommand patchData source st cmd = .error e
    | some (segment, next) => ∃ st', execCommand patchData source st cmd = .ok st' ∧
        Tracks st' next ∧ st'.output = segment.append source st.output := by
  obtain ⟨hwritten, hsourceCursor, htargetCursor⟩ := htracks
  obtain ⟨hsourceLe, htargetLe⟩ := hin
  have hcursor : st.sourceRelOffset.toNat ≤ source.length := by omega
  have htarget : st.targetRelOffset.toNat ≤ st.output.length := by omega
  have houtput : st.output.length ≤ maxSize := by omega
  rw [planStep]
  cases haction : cmd.action with
  | sourceRead =>
    have hnext := toNat_add_length (le_trans hcursor hsource) cmd
    rw [execCommand_sourceRead haction hsource hcursor, hsourceCursor]
    dsimp only [Addressing.readStart]
    by_cases hread : walk.source + cmd.length.toNat ≤ source.length
    · rw [if_pos hread, if_pos hread]
      refine ⟨_, rfl, ⟨?_, ?_, htargetCursor⟩, rfl⟩
      · rw [List.length_append, length_slice hread, hwritten]
      · rw [hnext, hsourceCursor]; rfl
    · rw [if_neg hread, if_neg hread]
      exact ⟨_, rfl⟩
  | targetRead => exact absurd haction hkind
  | sourceCopy =>
    have hword : st.sourceRelOffset.toNat < 2 ^ 63 := by rw [maxSize] at hsource; omega
    rw [execCommand_sourceCopy haction hsource hcursor]
    dsimp only
    rw [← hsourceCursor, ← copyStart]
    by_cases hstart : 0 ≤ copyStart st.sourceRelOffset cmd.offsetDelta ∧
        copyStart st.sourceRelOffset cmd.offsetDelta + cmd.length.toNat ≤ source.length
    · rw [if_pos hstart, if_pos hstart]
      refine ⟨_, rfl, ⟨?_, ?_, htargetCursor⟩, rfl⟩
      · rw [List.length_append, length_slice (by omega), hwritten]
      · exact toNat_copyOffset_add_length hword hstart.1 (by omega) cmd
    · rw [if_neg hstart, if_neg hstart]
      exact ⟨_, rfl⟩
  | targetCopy =>
    have hword : st.targetRelOffset.toNat < 2 ^ 63 := by rw [maxSize] at houtput; omega
    rw [execCommand_targetCopy haction houtput htarget]
    dsimp only
    rw [← htargetCursor, ← copyStart, ← hwritten]
    by_cases hstart : 0 ≤ copyStart st.targetRelOffset cmd.offsetDelta ∧
        copyStart st.targetRelOffset cmd.offsetDelta < st.output.length
    · rw [if_pos hstart, if_pos hstart]
      refine ⟨_, rfl, ⟨?_, hsourceCursor, ?_⟩, rfl⟩
      · exact SelfCopy.length_extend (by omega) _
      · exact toNat_copyOffset_add_length hword hstart.1 (by omega) cmd
    · rw [if_neg hstart, if_neg hstart]
      exact ⟨_, rfl⟩

/-- **The replayer renders the cursor-addressed plan**, for every list of commands whose output fits
a vector. -/
theorem replay_eq_plan {patchData : Bytes} (hsource : source.length ≤ maxSize)
    {commands : List Command} (hkinds : ∀ cmd ∈ commands, cmd.action ≠ .targetRead)
    {st : ReplayState} {walk : Walk} (htracks : Tracks st walk) (hin : walk.Inside source.length)
    (hfit : walk.written + totalLength commands ≤ maxSize) (T : Bytes) :
    (∃ st', commands.foldlM (execCommand patchData source) st = .ok st' ∧ st'.output = T) ↔
      (plan .cursor source.length walk commands).map (render source st.output) = some T := by
  induction commands generalizing st walk with
  | nil =>
    constructor
    · rintro ⟨st', hrun, rfl⟩; cases hrun; rfl
    · intro h; cases h; exact ⟨st, rfl, rfl⟩
  | cons cmd commands ih =>
    rw [totalLength_cons] at hfit
    have hstep : match planStep .cursor source.length walk cmd with
        | none => ∃ e, execCommand patchData source st cmd = .error e
        | some (segment, next) => ∃ st', execCommand patchData source st cmd = .ok st' ∧
            Tracks st' next ∧ st'.output = segment.append source st.output :=
      execCommand_simulates hsource (hkinds cmd (by simp)) htracks hin (by omega)
    rw [plan]
    cases hplan : planStep .cursor source.length walk cmd with
    | none =>
      rw [hplan] at hstep
      obtain ⟨e, he⟩ := hstep
      simp only [FallibleFold.run_cons_eq_ok_iff, he]
      simp
    | some step =>
      obtain ⟨segment, next⟩ := step
      rw [hplan] at hstep
      obtain ⟨st', hexec, htracks', hout⟩ := hstep
      obtain ⟨hin', hwritten⟩ := planStep_inside hplan hin
      have := ih (fun c hc => hkinds c (by simp [hc])) htracks' hin' (by omega)
      simp only [FallibleFold.run_cons_eq_ok_iff, hexec, Except.ok.injEq, exists_eq_left']
      rw [this, hout, Option.map_map]
      rfl

/-- The replay of a whole list renders its cursor-addressed plan. -/
theorem replay_eq_ok_iff {patchData : Bytes} {dataOffset : Nat} (hsource : source.length ≤ maxSize)
    {commands : List Command} (hkinds : ∀ cmd ∈ commands, cmd.action ≠ .targetRead)
    (hfit : totalLength commands ≤ maxSize) (T : Bytes) :
    (∃ st, replay patchData source dataOffset commands = .ok st ∧ st.output = T) ↔
      (plan .cursor source.length .start commands).map (render source []) = some T :=
  replay_eq_plan hsource hkinds ⟨rfl, rfl, rfl⟩ (Walk.inside_start _)
    (by rw [Walk.start, Nat.zero_add]; exact hfit) T

end Render

/-! ### When two plans render the same output -/

section Compare

variable {source : Bytes}

/-- Addressing matters to `SourceRead` alone. -/
theorem planStep_of_ne_sourceRead (a b : Addressing) {sourceLength : Nat} {walk : Walk}
    {cmd : Command} (h : cmd.action ≠ .sourceRead) :
    planStep a sourceLength walk cmd = planStep b sourceLength walk cmd := by
  rw [planStep, planStep]
  cases haction : cmd.action with
  | sourceRead => exact absurd haction h
  | targetRead => rfl
  | sourceCopy => rfl
  | targetCopy => rfl

/-- **Without a `SourceRead` the two addressings name the same ranges.** -/
theorem sourceRanges_of_ne_sourceRead (a b : Addressing) (source : Bytes) {commands : List Command}
    (h : ∀ cmd ∈ commands, cmd.action ≠ .sourceRead) :
    sourceRanges a source commands = sourceRanges b source commands := by
  have hplan : ∀ walk, plan a source.length walk commands = plan b source.length walk commands := by
    induction commands with
    | nil => intro walk; rfl
    | cons cmd commands ih =>
      intro walk
      have hrest := ih fun c hc => h c (List.mem_cons_of_mem cmd hc)
      rw [plan, plan, planStep_of_ne_sourceRead a b (h cmd List.mem_cons_self)]
      cases planStep b source.length walk cmd with
      | none => rfl
      | some step => dsimp only; rw [hrest]
  rw [sourceRanges, sourceRanges, hplan]

end Compare

/-! ### Agreement of the replayer with the reference -/

end IUBPatch.BPS
