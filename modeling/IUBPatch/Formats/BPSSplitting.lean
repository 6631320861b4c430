import IUBPatch.Formats.BPSReplay

/-! # Commands in parts

A command can be written in two, wherever in a patch it stands: where the second part goes on at the
cursor the first one left, the replay ends the same, in the same target or the same error. -/

namespace IUBPatch.BPS

/-- The two commands are the parts of the whole: one kind, the lengths add up, and the second goes on
where the first one ended. -/
structure Splits (whole first second : Command) : Prop where
  first_action : first.action = whole.action
  second_action : second.action = whole.action
  length : whole.length = first.length + second.length
  first_delta : first.offsetDelta = whole.offsetDelta
  second_delta : second.offsetDelta = 0

section Split

variable {patchData source : Bytes} {st : ReplayState} {whole first second : Command}

/-- The lengths add up as numbers. -/
theorem Splits.toNat_length (h : Splits whole first second) :
    whole.length.toNat = first.length.toNat + second.length.toNat := by
  have hfirst := first.length_le
  have hsecond := second.length_le
  rw [h.length, UInt64.toNat_add, Nat.mod_eq_of_lt (by omega)]

/-- A range in two parts. -/
theorem slice_add (data : Bytes) (start a b : Nat) :
    slice data start (a + b) = slice data start a ++ slice data (start + a) b := by
  rw [slice, slice, slice, List.take_add, List.drop_drop]

/-- A copy that goes on begins at its cursor. -/
theorem copyStart_zero (cursor : UInt64) : copyStart cursor 0 = cursor.toNat := by
  rw [copyStart, signedValue, UInt64.toNat_zero, if_neg (by decide), Nat.zero_div, Int.natCast_zero,
    Int.add_zero]

/-- And its cursor moves from there. -/
theorem toUInt64_copyOffset_zero {cursor : UInt64} (h : cursor.toNat < 2 ^ 63) :
    (copyOffset cursor 0).toUInt64 = cursor := by
  apply UInt64.toNat_inj.mp
  rw [toNat_copyOffset h, copyStart_zero, Int.toNat_natCast]
  · rw [copyStart_zero]; exact Int.natCast_nonneg _
  · rw [copyStart_zero]; exact_mod_cast h

variable (hpatch : patchData.length ≤ maxSize) (hlong : 12 ≤ patchData.length)
  (hsource : source.length ≤ maxSize)

include hsource in
/-- `SourceRead` in two parts. -/
theorem execCommand_splits_sourceRead (h : Splits whole first second)
    (haction : whole.action = .sourceRead) (hcursor : st.sourceRelOffset.toNat ≤ source.length) :
    execCommand patchData source st whole
      = execCommand patchData source st first >>= fun mid =>
          execCommand patchData source mid second := by
  -- the cursor behind the first part, as a number
  have hnext := toNat_add_length (le_trans hcursor hsource) first
  rw [execCommand_sourceRead haction hsource hcursor,
    execCommand_sourceRead (h.first_action.trans haction) hsource hcursor, h.toNat_length]
  by_cases hfirst : st.sourceRelOffset.toNat + first.length.toNat ≤ source.length
  · rw [if_pos hfirst]
    show _ = execCommand patchData source
      { st with
        output := st.output ++ slice source st.sourceRelOffset.toNat first.length.toNat
        sourceRelOffset := st.sourceRelOffset + first.length } second
    rw [execCommand_sourceRead (h.second_action.trans haction) hsource (by dsimp only; omega)]
    dsimp only
    rw [hnext, Nat.add_assoc, slice_add, h.length, UInt64.add_assoc, List.append_assoc]
  -- where the first part does not fit, neither does the whole, and the error is the same
  · rw [if_neg hfirst, if_neg (by omega)]
    rfl

include hpatch hlong in
/-- `TargetRead` in two parts. -/
theorem execCommand_splits_targetRead (h : Splits whole first second)
    (haction : whole.action = .targetRead)
    (hcursor : st.patchDataOffset.toNat ≤ patchData.length - 12) :
    execCommand patchData source st whole
      = execCommand patchData source st first >>= fun mid =>
          execCommand patchData source mid second := by
  have hcursor' : st.patchDataOffset.toNat ≤ patchData.length := by omega
  -- the cursor behind the first part, as a number
  have hnext := toNat_add_length (le_trans hcursor' hpatch) first
  rw [execCommand_targetRead haction hpatch hlong hcursor',
    execCommand_targetRead (h.first_action.trans haction) hpatch hlong hcursor', h.toNat_length]
  by_cases hfirst : st.patchDataOffset.toNat + first.length.toNat ≤ patchData.length - 12
  · rw [if_pos hfirst]
    show _ = execCommand patchData source
      { st with
        output := st.output ++ slice patchData st.patchDataOffset.toNat first.length.toNat
        patchDataOffset := st.patchDataOffset + first.length } second
    rw [execCommand_targetRead (h.second_action.trans haction) hpatch hlong (by dsimp only; omega)]
    dsimp only
    rw [hnext, Nat.add_assoc, slice_add, h.length, UInt64.add_assoc, List.append_assoc]
  · rw [if_neg hfirst, if_neg (by omega)]
    rfl

include hsource in
/-- `SourceCopy` in two parts. -/
theorem execCommand_splits_sourceCopy (h : Splits whole first second)
    (haction : whole.action = .sourceCopy) (hcursor : st.sourceRelOffset.toNat ≤ source.length) :
    execCommand patchData source st whole
      = execCommand patchData source st first >>= fun mid =>
          execCommand patchData source mid second := by
  have hbound := hsource
  unfold maxSize at hbound
  rw [execCommand_sourceCopy haction hsource hcursor,
    execCommand_sourceCopy (h.first_action.trans haction) hsource hcursor, h.toNat_length,
    h.first_delta]
  by_cases hfirst : 0 ≤ copyStart st.sourceRelOffset whole.offsetDelta ∧
      copyStart st.sourceRelOffset whole.offsetDelta + first.length.toNat ≤ source.length
  · have hnext := toNat_copyOffset_add_length (show st.sourceRelOffset.toNat < 2 ^ 63 by omega)
      hfirst.1 (by rw [maxSize]; omega) first
    have hword : ((copyOffset st.sourceRelOffset whole.offsetDelta).toUInt64
        + first.length).toNat < 2 ^ 63 := by omega
    rw [if_pos hfirst]
    show _ = execCommand patchData source
      { st with
        output := st.output ++ slice source
          (copyStart st.sourceRelOffset whole.offsetDelta).toNat first.length.toNat
        sourceRelOffset :=
          (copyOffset st.sourceRelOffset whole.offsetDelta).toUInt64 + first.length } second
    rw [execCommand_sourceCopy (h.second_action.trans haction) hsource (by dsimp only; omega)]
    dsimp only
    rw [h.second_delta, copyStart_zero, toUInt64_copyOffset_zero hword, hnext, slice_add, h.length,
      UInt64.add_assoc, List.append_assoc, Int.toNat_natCast]
    refine if_congr ?_ rfl rfl
    omega
  · rw [if_neg hfirst, if_neg (by omega)]
    rfl

/-- `TargetCopy` in two parts. -/
theorem execCommand_splits_targetCopy (h : Splits whole first second)
    (haction : whole.action = .targetCopy) (hcursor : st.targetRelOffset.toNat ≤ st.output.length)
    (hfit : st.output.length + whole.length.toNat ≤ maxSize) :
    execCommand patchData source st whole
      = execCommand patchData source st first >>= fun mid =>
          execCommand patchData source mid second := by
  have hlength := h.toNat_length
  have hbound := hfit
  unfold maxSize at hbound
  rw [execCommand_targetCopy haction (by omega) hcursor,
    execCommand_targetCopy (h.first_action.trans haction) (by omega) hcursor, h.first_delta]
  by_cases hin : 0 ≤ copyStart st.targetRelOffset whole.offsetDelta ∧
      copyStart st.targetRelOffset whole.offsetDelta < st.output.length
  · set start := (copyStart st.targetRelOffset whole.offsetDelta).toNat with hstart
    have hlt : start < st.output.length := by omega
    -- the first part has grown the output that the second one copies from
    have hextended := SelfCopy.length_extend hlt first.length.toNat
    have hnext := toNat_copyOffset_add_length (show st.targetRelOffset.toNat < 2 ^ 63 by omega)
      hin.1 (by rw [maxSize]; omega) first
    rw [← hstart] at hnext
    have hword : ((copyOffset st.targetRelOffset whole.offsetDelta).toUInt64
        + first.length).toNat < 2 ^ 63 := by omega
    rw [if_pos hin, if_pos hin]
    show _ = execCommand patchData source
      { st with
        output := SelfCopy.extend st.output start first.length.toNat
        targetRelOffset :=
          (copyOffset st.targetRelOffset whole.offsetDelta).toUInt64 + first.length } second
    rw [execCommand_targetCopy (h.second_action.trans haction) (by dsimp only; omega)
      (by dsimp only; omega)]
    dsimp only
    rw [h.second_delta, copyStart_zero, toUInt64_copyOffset_zero hword, hnext, hextended,
      if_pos (by omega), Int.toNat_natCast, SelfCopy.extend_extend hlt, h.length, UInt64.add_assoc,
      ← h.length, h.toNat_length]
  -- only the start is checked, and both begin at it
  · rw [if_neg hin, if_neg hin]
    rfl

include hpatch hlong hsource in
/-- **A command in two parts** does what the whole does, from every state a replay can reach. -/
theorem execCommand_splits {executed : List Command} (h : Splits whole first second)
    (inv : ReplayInvariant patchData source executed st)
    (hfit : st.output.length + whole.length.toNat ≤ maxSize) :
    execCommand patchData source st whole
      = execCommand patchData source st first >>= fun mid =>
          execCommand patchData source mid second := by
  cases haction : whole.action with
  | sourceRead => exact execCommand_splits_sourceRead hsource h haction inv.source_le
  | targetRead => exact execCommand_splits_targetRead hpatch hlong h haction inv.patch_le
  | sourceCopy => exact execCommand_splits_sourceCopy hsource h haction inv.source_le
  | targetCopy => exact execCommand_splits_targetCopy h haction inv.target_le hfit

end Split

/-- **Commands can be written in parts.** Of two patches that differ in that one command of the one is
written in two parts in the other, wherever it stands, `apply` makes the same of every source: the same
target, the same error or the same exception. Patch, source and what the commands add up to fit a
vector. -/
theorem apply_splits {patch : BPSPatch} (hpatch : patch.patchData.length ≤ maxSize)
    (hregion : patch.dataOffset + 12 < patch.patchData.length) {source : Bytes}
    (hsource : source.length ≤ maxSize) {before after : List Command} {whole first second : Command}
    (h : Splits whole first second) (hfit : totalLength (before ++ whole :: after) ≤ maxSize)
    (options : PatchOptions) :
    BPSPatch.apply { patch with commands := before ++ whole :: after } source options
      = BPSPatch.apply { patch with commands := before ++ first :: second :: after } source
          options := by
  have hreplay : replay patch.patchData source patch.dataOffset (before ++ whole :: after)
      = replay patch.patchData source patch.dataOffset (before ++ first :: second :: after) := by
    rw [replay, replay, List.foldlM_append, List.foldlM_append]
    cases hbefore : before.foldlM (execCommand patch.patchData source)
        (ReplayState.init patch.dataOffset) with
    | error e => rfl
    | ok st =>
      -- whatever came before, the replay stands in a state with its cursors inside
      have hgrowth := growthInvariant_of_replay hpatch hsource hregion hbefore
      rw [totalLength_append, totalLength_cons] at hfit
      have houtput := hgrowth.length_output
      have inv := replayInvariant_of_replay hpatch hsource hregion hbefore (by omega)
      show (whole :: after).foldlM (execCommand patch.patchData source) st
        = (first :: second :: after).foldlM (execCommand patch.patchData source) st
      rw [List.foldlM_cons, List.foldlM_cons,
        execCommand_splits hpatch (by omega) hsource h inv (by omega), bind_assoc]
      rfl
  simp only [BPSPatch.apply, hreplay, BPSPatch.sourceSizeError, BPSPatch.sourceCrcError,
    BPSPatch.outputSizeError, BPSPatch.targetCrcError]

/-- A `SourceRead` of three bytes, and one of one byte before one of two. -/
theorem apply_splits_threeBytes :
    BPSPatch.apply
        { copyThenReadPatch with srcSize := 3, targetSize := 3, commands := [Command.ofEncoded 8 0] }
        [1, 2, 3] { verifyChecksums := false }
      = BPSPatch.apply
          { copyThenReadPatch with
            srcSize := 3, targetSize := 3
            commands := [Command.ofEncoded 0 0, Command.ofEncoded 4 0] }
          [1, 2, 3] { verifyChecksums := false } := by
  have hsplits : Splits (Command.ofEncoded 8 0) (Command.ofEncoded 0 0) (Command.ofEncoded 4 0) :=
    ⟨by decide, by decide, by decide, rfl, rfl⟩
  have hpatch : copyThenReadPatch.patchData.length ≤ maxSize := by decide
  have hregion : copyThenReadPatch.dataOffset + 12 < copyThenReadPatch.patchData.length := by decide
  exact @apply_splits { copyThenReadPatch with srcSize := 3, targetSize := 3 } hpatch hregion [1, 2, 3]
    (by decide) [] [] _ _ _ hsplits (by decide) _

end IUBPatch.BPS
