import IUBPatch.Formats.BPSReplay
import IUBPatch.Validation

/-! # How far the output of BPS replay grows

No command looks at the declared target size: it is compared with the output once, after the last
command. So at every moment the output holds what the commands have asked for so far, and only where
they ask for the target size in all is it bounded by that. -/

namespace IUBPatch.BPS

/-- An output that the command loop of `apply` holds at some moment, and how many bytes it has been
asked for by then: between two commands, or inside the byte loop of a `TargetCopy`. -/
inductive Moment (patch : BPSPatch) (source : Bytes) : (asked : Nat) → Bytes → Prop
  | between {executed rest : List Command} {st : ReplayState}
      (hcommands : patch.commands = executed ++ rest)
      (hrun : replay patch.patchData source patch.dataOffset executed = .ok st) :
      Moment patch source (totalLength executed) st.output
  | copying {executed rest : List Command} {cmd : Command} {st : ReplayState} {k : Nat} {output : Bytes}
      (hcommands : patch.commands = executed ++ cmd :: rest)
      (hrun : replay patch.patchData source patch.dataOffset executed = .ok st)
      (haction : cmd.action = .targetCopy) (hk : k ≤ cmd.length.toNat)
      (hstart : ¬ (copyOffset st.targetRelOffset cmd.offsetDelta < 0 ∨
        (copyOffset st.targetRelOffset cmd.offsetDelta).toUInt64 ≥ size st.output))
      (hloop : targetCopyLoop (copyOffset st.targetRelOffset cmd.offsetDelta).toUInt64 k 0 st.output
        = .ok output) :
      Moment patch source (totalLength executed + k) output

section Growth

variable {P source : Bytes} {patch : BPSPatch} (hpatch : P.length ≤ maxSize)
  (hload : BPSPatch.load P = .ok patch) (hsource : source.length ≤ maxSize)

include hpatch hload hsource

/-- At every moment the output holds what has been asked for, and that is part of what all commands
ask for. -/
theorem Moment.length_eq {asked : Nat} {output : Bytes} (h : Moment patch source asked output) :
    output.length = asked ∧ asked ≤ totalLength patch.commands := by
  cases h with
  | between hcommands hrun =>
    refine ⟨length_output_of_replay hpatch hload hsource hcommands hrun, ?_⟩
    rw [hcommands, totalLength_append]
    exact Nat.le_add_right _ _
  | copying hcommands hrun haction hk hstart hloop =>
    have hlength := length_output_of_replay hpatch hload hsource hcommands hrun
    refine ⟨by rw [length_targetCopyLoop hloop, hlength], ?_⟩
    rw [hcommands, totalLength_append, totalLength_cons]
    omega

/-- Commands whose replay succeeds ask for the declared size in all. -/
theorem totalLength_of_replayTarget {T : Bytes} (hreplay : patch.replayTarget source = .ok T)
    (hfit : T.length ≤ maxSize) : totalLength patch.commands = patch.targetSize.toNat := by
  obtain ⟨-, hsize, st, hrun, rfl⟩ := BPSPatch.replayTarget_eq_ok_iff.mp hreplay
  rw [← length_output_of_replay hpatch hload hsource (List.append_nil _).symm hrun, ← hsize,
    toNat_size hfit]

/-- Commands that ask for more than the declared size, and no more than fits a vector, are rejected:
the replay ends in an error, of a command or of the size check behind the last one. -/
theorem replayTarget_of_lt_totalLength
    (hmore : patch.targetSize.toNat < totalLength patch.commands)
    (hfit : totalLength patch.commands ≤ maxSize) :
    ∃ e, patch.replayTarget source = .error e ∧ e.code = .invalidPatchFormat := by
  cases hreplay : patch.replayTarget source with
  | error e => exact ⟨e, rfl, BPSPatch.code_of_replayTarget_eq_error hreplay⟩
  | throws thrown =>
    have hreturns := (patch.returns_replayTarget_iff source).mpr (by omega)
    rw [hreplay] at hreturns
    exact absurd hreturns (Outcome.not_returns_throws thrown)
  | ok T =>
    obtain ⟨-, -, st, hrun, rfl⟩ := BPSPatch.replayTarget_eq_ok_iff.mp hreplay
    have hlength := length_output_of_replay hpatch hload hsource (List.append_nil _).symm hrun
    have htotal := totalLength_of_replayTarget hpatch hload hsource hreplay (hlength ▸ hfit)
    omega

/-- **The output of BPS replay grows with the commands, and the declared size is checked last.** For
every accepted patch and every source: at every moment the output holds what the commands so far have
asked for, so it stays within the declared size if all of them ask for no more; in a call that succeeds
it does; and on a source that passes its checks, commands that ask for more, and no more than a vector
can hold, are rejected with `InvalidPatchFormat`. -/
theorem output_follows_commands (options : PatchOptions) :
    (∀ asked output, Moment patch source asked output →
      output.length = asked ∧ asked ≤ totalLength patch.commands) ∧
    (totalLength patch.commands ≤ patch.targetSize.toNat →
      ∀ asked output, Moment patch source asked output → output.length ≤ patch.targetSize.toNat) ∧
    (∀ T, patch.apply source options = .ok T → T.length ≤ maxSize →
      T.length = patch.targetSize.toNat ∧
        ∀ asked output, Moment patch source asked output → output.length ≤ patch.targetSize.toNat) ∧
    (¬ patch.RejectsSource source options → patch.targetSize.toNat < totalLength patch.commands →
      totalLength patch.commands ≤ maxSize →
      ∃ e, patch.apply source options = .error e ∧ e.code = .invalidPatchFormat) := by
  have hmoment : ∀ asked output, Moment patch source asked output →
      output.length = asked ∧ asked ≤ totalLength patch.commands :=
    fun asked output h => h.length_eq hpatch hload hsource
  have hbounded : totalLength patch.commands ≤ patch.targetSize.toNat →
      ∀ asked output, Moment patch source asked output → output.length ≤ patch.targetSize.toNat := by
    intro htotal asked output h
    obtain ⟨hlength, hasked⟩ := hmoment asked output h
    omega
  refine ⟨hmoment, hbounded, ?_, ?_⟩
  · intro T happly hfit
    obtain ⟨-, hreplay, -⟩ := (patch.apply_eq_ok_iff source T options).mp happly
    have htotal := totalLength_of_replayTarget hpatch hload hsource hreplay hfit
    obtain ⟨-, hsize, -⟩ := BPSPatch.replayTarget_eq_ok_iff.mp hreplay
    exact ⟨by rw [← hsize, toNat_size hfit], hbounded (Nat.le_of_eq htotal)⟩
  · intro hpass hmore hfit
    obtain ⟨e, he, hcode⟩ := replayTarget_of_lt_totalLength hpatch hload hsource hmore hfit
    rw [BPSPatch.apply_of_not_rejects hpass, he]
    exact ⟨e, rfl, hcode⟩

end Growth

/-- A patch onto nothing that reads the one byte of its source and copies it seven more times. -/
def excess : Bytes := bpsMagic ++ [0x81, 0x80, 0x80, 0x80, 0x9B, 0x80] ++ List.replicate 12 0

/-- What `excess` loads as. -/
def excessPatch : BPSPatch where
  patchData := excess
  srcSize := 1
  targetSize := 0
  metadataSize := 0
  metadataString := []
  srcCrc := 0
  targetCrc := 0
  patchCrc := 0
  commands := [Command.ofEncoded 0 0, Command.ofEncoded 27 0]
  dataOffset := 7

theorem load_excess : BPSPatch.load excess = .ok excessPatch := by
  decide +kernel

/-- The declared size is zero; after the first command the output holds a byte, three bytes into the copy
it holds four, and only then is the patch rejected. -/
theorem not_output_bounded :
    BPSPatch.load excess = .ok excessPatch ∧ excessPatch.targetSize = 0 ∧
      Moment excessPatch [7] 1 [7] ∧ Moment excessPatch [7] (1 + 3) [7, 7, 7, 7] ∧
      ∃ e, excessPatch.apply [7] { verifyChecksums := false } = .error e ∧
        e.message = "Output size mismatch: expected 0, got 8" := by
  have hrun : replay excessPatch.patchData [7] excessPatch.dataOffset [Command.ofEncoded 0 0]
      = .ok ⟨[7], 1, 0, 7⟩ := by decide
  refine ⟨load_excess, rfl, Moment.between rfl hrun, ?_, ?_⟩
  · exact Moment.copying (show excessPatch.commands = [Command.ofEncoded 0 0]
      ++ Command.ofEncoded 27 0 :: [] from rfl) hrun rfl (by decide) (by decide) (by decide)
  · exact ⟨excessPatch.outputSizeError [7, 7, 7, 7, 7, 7, 7, 7], by decide +kernel, by decide +kernel⟩

/-- `copyThenRead` stays within its two bytes; `excess` asks for eight and declares none. -/
theorem output_follows_commands_twoPatches :
    (∀ asked output, Moment copyThenReadPatch [10, 20] asked output → output.length ≤ 2) ∧
      ∃ e, excessPatch.apply [7] { verifyChecksums := false } = .error e ∧
        e.code = .invalidPatchFormat := by
  obtain ⟨-, hbounded, -, -⟩ := output_follows_commands (by decide) load_copyThenRead
    (show [10, 20].length ≤ maxSize by decide) {}
  obtain ⟨-, -, -, hrejected⟩ := output_follows_commands (by decide) load_excess
    (show [7].length ≤ maxSize by decide) { verifyChecksums := false }
  have hpass : ¬ excessPatch.RejectsSource [7] { verifyChecksums := false } := by
    simp [BPSPatch.RejectsSource, excessPatch, size]
  exact ⟨hbounded (by decide), hrejected hpass (by decide) (by decide)⟩

end IUBPatch.BPS
