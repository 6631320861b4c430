import IUBPatch.Formats.BPSCursor
import IUBPatch.Formats.BPSLoad
import IUBPatch.Lib.FallibleFold

/-! # BPS replay stays inside its buffers

The invariant that ties the three cursors of the replayer to the buffers they index, kept by every
command of an accepted patch in any order, and what it gives for the next command: no bound sum
wraps and every byte read lies inside the buffer it is read from. -/

namespace IUBPatch.BPS

/-- The number of bytes a list of commands appends. -/
def totalLength (commands : List Command) : Nat := (commands.map (·.length.toNat)).sum

@[simp] theorem totalLength_nil : totalLength [] = 0 := rfl

@[simp] theorem totalLength_cons (cmd : Command) (commands : List Command) :
    totalLength (cmd :: commands) = cmd.length.toNat + totalLength commands := by
  simp [totalLength]

@[simp] theorem totalLength_append (front back : List Command) :
    totalLength (front ++ back) = totalLength front + totalLength back := by
  simp [totalLength]

/-- What holds of the locals of `apply` after the commands `executed`. -/
structure ReplayInvariant (patchData source : Bytes) (executed : List Command) (st : ReplayState) :
    Prop where
  length_output : st.output.length = totalLength executed
  source_le : st.sourceRelOffset.toNat ≤ source.length
  target_le : st.targetRelOffset.toNat ≤ st.output.length
  patch_le : st.patchDataOffset.toNat ≤ patchData.length - 12

/-- The part of the invariant that does not depend on the size of the output. -/
structure GrowthInvariant (patchData source : Bytes) (executed : List Command) (st : ReplayState) :
    Prop where
  length_output : st.output.length = totalLength executed
  source_le : st.sourceRelOffset.toNat ≤ source.length
  patch_le : st.patchDataOffset.toNat ≤ patchData.length - 12

theorem ReplayInvariant.growth {patchData source : Bytes} {executed : List Command} {st : ReplayState}
    (inv : ReplayInvariant patchData source executed st) :
    GrowthInvariant patchData source executed st :=
  ⟨inv.length_output, inv.source_le, inv.patch_le⟩

/-- The bound sums of the next command are exact in 64 bits: the cursor plus the length, and every
index of the byte loop of `TargetCopy`. -/
def SumsExact (st : ReplayState) (cmd : Command) : Prop :=
  match cmd.action with
  | .sourceRead =>
    (st.sourceRelOffset + cmd.length).toNat = st.sourceRelOffset.toNat + cmd.length.toNat
  | .targetRead =>
    (st.patchDataOffset + cmd.length).toNat = st.patchDataOffset.toNat + cmd.length.toNat
  | .sourceCopy =>
    let offset := copyOffset st.sourceRelOffset cmd.offsetDelta
    ¬ offset < 0 →
      (offset.toUInt64 + cmd.length).toNat = offset.toUInt64.toNat + cmd.length.toNat
  | .targetCopy =>
    let offset := copyOffset st.targetRelOffset cmd.offsetDelta
    ¬ offset < 0 →
      (offset.toUInt64 + cmd.length).toNat = offset.toUInt64.toNat + cmd.length.toNat ∧
        ∀ i : UInt64, i ≤ cmd.length →
          (offset.toUInt64 + i).toNat = offset.toUInt64.toNat + i.toNat

/-- The command took its bytes from inside a buffer: from the source, from the patch data before the
checksums, or, byte by byte, from the output as it grew. -/
def TakenInBounds (patchData source : Bytes) (st st' : ReplayState) (cmd : Command) : Prop :=
  let length := cmd.length.toNat
  match cmd.action with
  | .sourceRead =>
    let start := st.sourceRelOffset.toNat
    start + length ≤ source.length ∧ st'.output = st.output ++ slice source start length
  | .targetRead =>
    let start := st.patchDataOffset.toNat
    start + length ≤ patchData.length - 12 ∧ st'.output = st.output ++ slice patchData start length
  | .sourceCopy =>
    let start := (copyOffset st.sourceRelOffset cmd.offsetDelta).toUInt64.toNat
    start + length ≤ source.length ∧ st'.output = st.output ++ slice source start length
  | .targetCopy =>
    let start := (copyOffset st.targetRelOffset cmd.offsetDelta).toUInt64.toNat
    (∀ i < length, start + i < st.output.length + i) ∧
      SelfCopy.selfCopy st.output start length = some st'.output

/-- The error of the test inside the byte loop of `TargetCopy`. -/
def targetCopyOverrun : ErrorInfo := commandError "TargetCopy exceeds output size"

section Step

variable {patchData source : Bytes} {executed : List Command} {st st' : ReplayState} {cmd : Command}

/-- The byte loop of `TargetCopy` appends one byte a turn. -/
theorem length_targetCopyLoop {offset i : UInt64} {remaining : Nat} {output extended : Bytes}
    (h : targetCopyLoop offset remaining i output = .ok extended) :
    extended.length = output.length + remaining := by
  induction remaining generalizing i output with
  | zero => cases h; rfl
  | succ remaining ih =>
    rw [targetCopyLoop] at h
    split at h
    · cases h
    · have hlength := ih h
      rw [List.length_append, List.length_singleton] at hlength
      omega

/-- A `TargetCopy` that succeeds has run its loop, and moves the target cursor alone. -/
theorem exists_targetCopyLoop_of_execCommand (haction : cmd.action = .targetCopy)
    (h : execCommand patchData source st cmd = .ok st') :
    targetCopyLoop (copyOffset st.targetRelOffset cmd.offsetDelta).toUInt64 cmd.length.toNat 0 st.output
        = .ok st'.output ∧
      st'.sourceRelOffset = st.sourceRelOffset ∧ st'.patchDataOffset = st.patchDataOffset := by
  rw [execCommand, haction] at h
  dsimp only at h
  split at h
  · cases h
  · cases hloop : targetCopyLoop (copyOffset st.targetRelOffset cmd.offsetDelta).toUInt64
        cmd.length.toNat 0 st.output with
    | error e => rw [hloop] at h; cases h
    | ok extended => rw [hloop] at h; cases h; exact ⟨rfl, rfl, rfl⟩

/-- **One step of growth**: a command that succeeds appends its length, and keeps the two cursors it
reads through inside their buffers. -/
theorem GrowthInvariant.step (hpatch : patchData.length ≤ maxSize) (hlong : 12 ≤ patchData.length)
    (hsource : source.length ≤ maxSize) (inv : GrowthInvariant patchData source executed st)
    (h : execCommand patchData source st cmd = .ok st') :
    GrowthInvariant patchData source (executed ++ [cmd]) st' := by
  have htotal : totalLength (executed ++ [cmd]) = st.output.length + cmd.length.toNat := by
    simp [inv.length_output]
  have hpatchCursor : st.patchDataOffset.toNat ≤ patchData.length :=
    le_trans inv.patch_le (Nat.sub_le _ _)
  cases haction : cmd.action with
  -- the source cursor moves to the end of the range read
  | sourceRead =>
    rw [execCommand_sourceRead haction hsource inv.source_le] at h
    obtain ⟨hin, rfl⟩ := ite_eq_ok_iff.mp h
    have hnext := toNat_add_length (le_trans inv.source_le hsource) cmd
    constructor
    · rw [htotal, List.length_append, length_slice hin]
    · dsimp only; omega
    · exact inv.patch_le
  -- the patch cursor stays before the checksums
  | targetRead =>
    rw [execCommand_targetRead haction hpatch hlong hpatchCursor] at h
    obtain ⟨hin, rfl⟩ := ite_eq_ok_iff.mp h
    have hnext := toNat_add_length (le_trans hpatchCursor hpatch) cmd
    constructor
    · rw [htotal, List.length_append, length_slice (by omega)]
    · exact inv.source_le
    · dsimp only; omega
  -- the source cursor moves to the end of the range copied
  | sourceCopy =>
    have hword : st.sourceRelOffset.toNat < 2 ^ 63 := by
      have := inv.source_le
      unfold maxSize at hsource
      omega
    rw [execCommand_sourceCopy haction hsource inv.source_le] at h
    obtain ⟨hin, rfl⟩ := ite_eq_ok_iff.mp h
    have hnext := toNat_copyOffset_add_length hword hin.1 (by omega) cmd
    constructor
    · rw [htotal, List.length_append, length_slice (by omega)]
    · dsimp only; omega
    · exact inv.patch_le
  -- the bytes come from the output, whatever its size
  | targetCopy =>
    obtain ⟨hloop, hsourceSame, hpatchSame⟩ := exists_targetCopyLoop_of_execCommand haction h
    constructor
    · rw [htotal, length_targetCopyLoop hloop]
    · rw [hsourceSame]; exact inv.source_le
    · rw [hpatchSame]; exact inv.patch_le

/-- Only a `TargetCopy` moves the target cursor. -/
theorem targetRelOffset_of_execCommand (haction : cmd.action ≠ .targetCopy)
    (h : execCommand patchData source st cmd = .ok st') :
    st'.targetRelOffset = st.targetRelOffset := by
  rw [execCommand] at h
  cases hkind : cmd.action with
  | targetCopy => exact absurd hkind haction
  | sourceRead => rw [hkind] at h; dsimp only at h; split at h <;> cases h; rfl
  | targetRead => rw [hkind] at h; dsimp only at h; split at h <;> cases h; rfl
  | sourceCopy => rw [hkind] at h; dsimp only at h; split at h <;> cases h; rfl

/-- **One step of the invariant**: a command that succeeds keeps it. -/
theorem ReplayInvariant.step (hpatch : patchData.length ≤ maxSize) (hlong : 12 ≤ patchData.length)
    (hsource : source.length ≤ maxSize) (houtput : st.output.length ≤ maxSize)
    (inv : ReplayInvariant patchData source executed st)
    (h : execCommand patchData source st cmd = .ok st') :
    ReplayInvariant patchData source (executed ++ [cmd]) st' := by
  have hgrowth := inv.growth.step hpatch hlong hsource h
  have hlength : st'.output.length = st.output.length + cmd.length.toNat := by
    rw [hgrowth.length_output, totalLength_append, inv.length_output]
    simp
  refine ⟨hgrowth.length_output, hgrowth.source_le, ?_, hgrowth.patch_le⟩
  by_cases haction : cmd.action = .targetCopy
  · -- the target cursor starts inside the old output, so it ends inside the new one
    have hword : st.targetRelOffset.toNat < 2 ^ 63 := by
      have := inv.target_le
      unfold maxSize at houtput
      omega
    rw [execCommand_targetCopy haction houtput inv.target_le] at h
    obtain ⟨hin, rfl⟩ := ite_eq_ok_iff.mp h
    have hnext := toNat_copyOffset_add_length hword hin.1 (by omega) cmd
    dsimp only at hlength ⊢
    omega
  · -- no other command moves it, and the output grows
    have htarget := inv.target_le
    rw [targetRelOffset_of_execCommand haction h]
    omega

/-- None of the bound sums of the next command wraps. -/
theorem ReplayInvariant.sumsExact (hpatch : patchData.length ≤ maxSize)
    (hsource : source.length ≤ maxSize) (houtput : st.output.length ≤ maxSize)
    (inv : ReplayInvariant patchData source executed st) (cmd : Command) : SumsExact st cmd := by
  have hpatchCursor : st.patchDataOffset.toNat ≤ maxSize :=
    le_trans (le_trans inv.patch_le (Nat.sub_le _ _)) hpatch
  have hsourceCursor := le_trans inv.source_le hsource
  have htargetCursor := le_trans inv.target_le houtput
  have hlen := cmd.length_le
  rw [SumsExact]
  cases haction : cmd.action with
  | sourceRead => exact toNat_add_length hsourceCursor cmd
  | targetRead => exact toNat_add_length hpatchCursor cmd
  | sourceCopy =>
    intro hneg
    unfold maxSize at hsourceCursor
    have hword : st.sourceRelOffset.toNat < 2 ^ 63 := by omega
    rcases copyOffset_cases hword cmd.offsetDelta with ⟨hneg', -⟩ | ⟨-, hnonneg, hlt, hexact⟩
    · exact absurd hneg' hneg
    · exact toNat_add_length (by rw [maxSize]; omega) cmd
  | targetCopy =>
    intro hneg
    unfold maxSize at htargetCursor
    have hword : st.targetRelOffset.toNat < 2 ^ 63 := by omega
    rcases copyOffset_cases hword cmd.offsetDelta with ⟨hneg', -⟩ | ⟨-, hnonneg, hlt, hexact⟩
    · exact absurd hneg' hneg
    -- the loop index is at most the length, so its sums are below the last one
    · refine ⟨toNat_add_length (by rw [maxSize]; omega) cmd, ?_⟩
      intro i hi
      have hi' := UInt64.le_iff_toNat_le.mp hi
      rw [UInt64.toNat_add, Nat.mod_eq_of_lt (by omega)]

/-- The next command, if it succeeds, takes its bytes from inside a buffer. -/
theorem ReplayInvariant.takenInBounds (hpatch : patchData.length ≤ maxSize)
    (hlong : 12 ≤ patchData.length) (hsource : source.length ≤ maxSize)
    (houtput : st.output.length ≤ maxSize) (inv : ReplayInvariant patchData source executed st)
    (h : execCommand patchData source st cmd = .ok st') :
    TakenInBounds patchData source st st' cmd := by
  have hpatchCursor : st.patchDataOffset.toNat ≤ patchData.length :=
    le_trans inv.patch_le (Nat.sub_le _ _)
  have hsourceCursor := le_trans inv.source_le hsource
  have htargetCursor := le_trans inv.target_le houtput
  unfold maxSize at hsourceCursor htargetCursor
  rw [TakenInBounds]
  cases haction : cmd.action with
  | sourceRead =>
    rw [execCommand_sourceRead haction hsource inv.source_le] at h
    obtain ⟨hin, rfl⟩ := ite_eq_ok_iff.mp h
    exact ⟨hin, rfl⟩
  | targetRead =>
    rw [execCommand_targetRead haction hpatch hlong hpatchCursor] at h
    obtain ⟨hin, rfl⟩ := ite_eq_ok_iff.mp h
    exact ⟨hin, rfl⟩
  | sourceCopy =>
    rw [execCommand_sourceCopy haction hsource inv.source_le] at h
    obtain ⟨hin, rfl⟩ := ite_eq_ok_iff.mp h
    have hstart := toNat_copyOffset (by omega) hin.1 (by rw [maxSize] at hsource; omega)
    refine ⟨by omega, ?_⟩
    rw [hstart]
  | targetCopy =>
    rw [execCommand_targetCopy haction houtput inv.target_le] at h
    obtain ⟨hin, rfl⟩ := ite_eq_ok_iff.mp h
    have hstart := toNat_copyOffset (by omega) hin.1 (by rw [maxSize] at houtput; omega)
    refine ⟨by intro i hi; omega, ?_⟩
    rw [hstart]
    exact SelfCopy.selfCopy_eq_extend (by omega) _

/-- The next command does not fail inside the byte loop of `TargetCopy`. -/
theorem ReplayInvariant.ne_targetCopyOverrun (hpatch : patchData.length ≤ maxSize)
    (hlong : 12 ≤ patchData.length) (hsource : source.length ≤ maxSize)
    (houtput : st.output.length ≤ maxSize) (inv : ReplayInvariant patchData source executed st)
    (cmd : Command) : execCommand patchData source st cmd ≠ .error targetCopyOverrun := by
  have hpatchCursor : st.patchDataOffset.toNat ≤ patchData.length :=
    le_trans inv.patch_le (Nat.sub_le _ _)
  cases haction : cmd.action with
  | sourceRead =>
    rw [execCommand_sourceRead haction hsource inv.source_le]
    split <;> simp [targetCopyOverrun, commandError]
  | targetRead =>
    rw [execCommand_targetRead haction hpatch hlong hpatchCursor]
    split <;> simp [targetCopyOverrun, commandError]
  | sourceCopy =>
    rw [execCommand_sourceCopy haction hsource inv.source_le]
    split <;> simp [targetCopyOverrun, commandError]
  | targetCopy =>
    rw [execCommand_targetCopy haction houtput inv.target_le]
    split <;> simp [targetCopyOverrun, commandError]

end Step

/-- The locals before the first command satisfy the invariant, wherever the command region ends before
the checksums. -/
theorem replayInvariant_init {patchData : Bytes} (source : Bytes) {dataOffset : Nat}
    (hpatch : patchData.length ≤ maxSize) (hregion : dataOffset + 12 < patchData.length) :
    ReplayInvariant patchData source [] (ReplayState.init dataOffset) := by
  unfold maxSize at hpatch
  constructor
  · rfl
  · exact Nat.zero_le _
  · exact Nat.zero_le _
  · rw [ReplayState.init, UInt64.toNat_ofNat', Nat.mod_eq_of_lt (by omega)]
    omega

/-- **Growth over runs**: after any prefix of the commands that runs, the output is as long as they asked
for, however long that is. -/
theorem growthInvariant_of_replay {patchData source : Bytes} {dataOffset : Nat}
    (hpatch : patchData.length ≤ maxSize) (hsource : source.length ≤ maxSize)
    (hregion : dataOffset + 12 < patchData.length) {executed : List Command} {st : ReplayState}
    (hrun : replay patchData source dataOffset executed = .ok st) :
    GrowthInvariant patchData source executed st := by
  refine FallibleFold.run_invariant (fun done s => GrowthInvariant patchData source done s) ?_
    (replayInvariant_init source hpatch hregion).growth hrun
  intro done cmd s t hs hstep
  exact hs.step hpatch (by omega) hsource hstep

/-- **The invariant over runs**: every state a prefix of the commands reaches satisfies it, as long as
the output fits a vector. -/
theorem replayInvariant_of_replay {patchData source : Bytes} {dataOffset : Nat}
    (hpatch : patchData.length ≤ maxSize) (hsource : source.length ≤ maxSize)
    (hregion : dataOffset + 12 < patchData.length) {executed : List Command} {st : ReplayState}
    (hrun : replay patchData source dataOffset executed = .ok st)
    (houtput : st.output.length ≤ maxSize) : ReplayInvariant patchData source executed st := by
  -- the output only grows, so the bound on the last state bounds every state before it
  suffices hboth : GrowthInvariant patchData source executed st ∧
      (st.output.length ≤ maxSize → ReplayInvariant patchData source executed st) from
    hboth.2 houtput
  refine FallibleFold.run_invariant
    (fun done s => GrowthInvariant patchData source done s ∧
      (s.output.length ≤ maxSize → ReplayInvariant patchData source done s))
    ?_ ⟨(replayInvariant_init source hpatch hregion).growth,
      fun _ => replayInvariant_init source hpatch hregion⟩ hrun
  rintro done cmd s t ⟨hgrowth, hs⟩ hstep
  have hnext := hgrowth.step hpatch (by omega) hsource hstep
  refine ⟨hnext, fun ht => ?_⟩
  have hfit : s.output.length ≤ maxSize := by
    have htotal := hnext.length_output
    rw [totalLength_append, ← hgrowth.length_output] at htotal
    omega
  exact (hs hfit).step hpatch (by omega) hsource hfit hstep

/-- An accepted patch, after any commands that run, has appended the total of their lengths. -/
theorem length_output_of_replay {P source : Bytes} {patch : BPSPatch} (hpatch : P.length ≤ maxSize)
    (hload : BPSPatch.load P = .ok patch) (hsource : source.length ≤ maxSize)
    {executed rest : List Command} (hcommands : patch.commands = executed ++ rest) {st : ReplayState}
    (hrun : replay patch.patchData source patch.dataOffset executed = .ok st) :
    st.output.length = totalLength executed := by
  obtain ⟨-, rfl, -⟩ := BPSPatch.load_eq_ok hload
  by_cases hempty : patch.commands = []
  · rw [hempty] at hcommands
    obtain ⟨rfl, rfl⟩ := List.append_eq_nil_iff.mp hcommands.symm
    cases hrun
    rfl
  · have hregion := BPSPatch.dataOffset_le_of_load hload hempty
    exact (growthInvariant_of_replay hpatch hsource hregion hrun).length_output

/-- **BPS replay never indexes out of bounds.** For every accepted patch, every source and every
prefix of the command list that runs without error to an output below `2^63` bytes, the cursors are
inside their buffers; and for the command that comes next no bound sum wraps, what it inserts comes
from inside a buffer, and the byte loop of `TargetCopy` does not fail. -/
theorem replay_inBounds {P source : Bytes} {patch : BPSPatch} (hpatch : P.length ≤ maxSize)
    (hload : BPSPatch.load P = .ok patch) (hsource : source.length < 2 ^ 63)
    {executed rest : List Command} (hcommands : patch.commands = executed ++ rest)
    {st : ReplayState}
    (hrun : replay patch.patchData source patch.dataOffset executed = .ok st)
    (houtput : st.output.length < 2 ^ 63) :
    st.output.length = totalLength executed ∧
      st.sourceRelOffset.toNat ≤ source.length ∧
      st.targetRelOffset.toNat ≤ st.output.length ∧
      (patch.commands ≠ [] → st.patchDataOffset.toNat ≤ patch.patchData.length - 12) ∧
      ∀ cmd, rest.head? = some cmd →
        SumsExact st cmd ∧
        (∀ st', execCommand patch.patchData source st cmd = .ok st' →
          TakenInBounds patch.patchData source st st' cmd) ∧
        execCommand patch.patchData source st cmd ≠ .error targetCopyOverrun := by
  obtain ⟨hlong, rfl, -⟩ := BPSPatch.load_eq_ok hload
  have hsource' : source.length ≤ maxSize := by rw [maxSize]; omega
  have houtput' : st.output.length ≤ maxSize := by rw [maxSize]; omega
  by_cases hempty : patch.commands = []
  · -- no command: the locals are the initial ones
    rw [hempty] at hcommands
    obtain ⟨rfl, rfl⟩ := List.append_eq_nil_iff.mp hcommands.symm
    cases hrun
    exact ⟨rfl, Nat.zero_le _, Nat.zero_le _, fun hne => absurd hempty hne, by simp⟩
  · have hregion := BPSPatch.dataOffset_le_of_load hload hempty
    have inv := replayInvariant_of_replay hpatch hsource' hregion hrun houtput'
    refine ⟨inv.length_output, inv.source_le, inv.target_le, fun _ => inv.patch_le, ?_⟩
    intro cmd _
    exact ⟨inv.sumsExact hpatch hsource' houtput' cmd,
      fun st' hstep => inv.takenInBounds hpatch (by omega) hsource' houtput' hstep,
      inv.ne_targetCopyOverrun hpatch (by omega) hsource' houtput' cmd⟩

/-- **The byte loop of `TargetCopy` never makes `apply` fail.** Where every prefix of the commands that
runs leaves an output below `2^63` bytes, `apply` does not return the error of that loop. -/
theorem apply_ne_targetCopyOverrun {P source : Bytes} {patch : BPSPatch}
    (hpatch : P.length ≤ maxSize) (hload : BPSPatch.load P = .ok patch)
    (hsource : source.length ≤ maxSize)
    (houtput : ∀ executed rest st, patch.commands = executed ++ rest →
      replay patch.patchData source patch.dataOffset executed = .ok st →
        st.output.length ≤ maxSize) (options : PatchOptions) :
    patch.apply source options ≠ .error targetCopyOverrun := by
  obtain ⟨hlong, rfl, -⟩ := BPSPatch.load_eq_ok hload
  rw [BPSPatch.apply]
  split
  · simp [BPSPatch.sourceSizeError, targetCopyOverrun, commandError]
  split
  · simp [BPSPatch.sourceCrcError, targetCopyOverrun, commandError]
  rw [reserve]
  split
  · rw [Outcome.ok_bind]
    cases hreplay : replay patch.patchData source patch.dataOffset patch.commands with
    | error e =>
      -- the replay fails in one command, from a state the invariant holds of
      obtain ⟨executed, cmd, rest, st, hcommands, hrun, hfail⟩ := FallibleFold.run_eq_error hreplay
      have hfit := houtput executed (cmd :: rest) st hcommands hrun
      have hregion := BPSPatch.dataOffset_le_of_load hload (by rw [hcommands]; simp)
      have inv := replayInvariant_of_replay hpatch hsource hregion hrun hfit
      rw [Outcome.ofExcept_error, Outcome.error_bind, ne_eq, Outcome.error.injEq]
      rintro rfl
      exact inv.ne_targetCopyOverrun hpatch (by omega) hsource hfit cmd hfail
    | ok st =>
      rw [Outcome.ofExcept_ok, Outcome.ok_bind]
      split
      · -- the final size check has the same code and another message
        intro h
        have hmessage := congrArg ErrorInfo.message (Outcome.error.inj h)
        have hhead := congrArg (fun s => s.toList.head?) hmessage
        simp [BPSPatch.outputSizeError, targetCopyOverrun, commandError] at hhead
      split
      · simp [BPSPatch.targetCrcError, targetCopyOverrun, commandError]
      · simp
  · simp

/-! ### A copy and a read -/

/-- A patch of two bytes onto two: one byte copied from the source position 1, then one byte read. -/
def copyThenRead : Bytes :=
  bpsMagic ++ [0x82, 0x82, 0x80, 0x82, 0x82, 0x80] ++ List.replicate 12 0

/-- What `copyThenRead` loads as. -/
def copyThenReadPatch : BPSPatch where
  patchData := copyThenRead
  srcSize := 2
  targetSize := 2
  metadataSize := 0
  metadataString := []
  srcCrc := 0
  targetCrc := 0
  patchCrc := 0
  commands := [Command.ofEncoded 2 2, Command.ofEncoded 0 0]
  dataOffset := 7

theorem load_copyThenRead : BPSPatch.load copyThenRead = .ok copyThenReadPatch := by
  decide +kernel

/-- The locals after the copy: the source cursor stands behind the byte copied. -/
theorem replay_inBounds_copyThenRead :
    SumsExact ⟨[20], 2, 0, 7⟩ (Command.ofEncoded 0 0) ∧
      execCommand copyThenRead [10, 20] ⟨[20], 2, 0, 7⟩ (Command.ofEncoded 0 0)
        ≠ .error targetCopyOverrun := by
  have hrun : replay copyThenRead [10, 20] 7 [Command.ofEncoded 2 2] = .ok ⟨[20], 2, 0, 7⟩ := by
    decide
  have hbounds := replay_inBounds (by decide) load_copyThenRead (show [10, 20].length < 2 ^ 63 by decide)
    (show copyThenReadPatch.commands = [Command.ofEncoded 2 2] ++ [Command.ofEncoded 0 0] from rfl)
    hrun (by decide)
  obtain ⟨hexact, -, hoverrun⟩ := hbounds.2.2.2.2 (Command.ofEncoded 0 0) rfl
  exact ⟨hexact, hoverrun⟩

end IUBPatch.BPS
