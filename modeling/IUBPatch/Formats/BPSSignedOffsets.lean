import IUBPatch.Formats.BPSReplay

/-! # The signed arithmetic of copy offsets

Both copy commands cast a cursor to `int64` and add a signed delta to it. The cursors of a replay stay
inside their buffers and half a delta is below `2^63`, so of all the values on the way only the sum can
be no `int64`: where the copy moves forward, past `2^63`. The check for a negative offset comes after
that sum. -/

namespace IUBPatch.BPS

/-- The integer is a value of `std::int64_t`. -/
def InInt64 (n : Int) : Prop := -(2 ^ 63) ≤ n ∧ n ≤ 2 ^ 63 - 1

instance (n : Int) : Decidable (InInt64 n) := inferInstanceAs (Decidable (_ ∧ _))

/-- The values that `offset` is computed from, and `offset`, all are values of `int64`: the cursor, half
the delta, its negation, and the sum of the cursor and the one or the other. -/
structure OffsetDefined (cursor offsetDelta : UInt64) : Prop where
  cursorFits : InInt64 cursor.toNat
  halfFits : InInt64 (offsetDelta >>> 1).toNat
  negationFits : InInt64 (-(offsetDelta >>> 1).toNat)
  sumFits : InInt64 (cursor.toNat +
    if offsetDelta &&& 1 ≠ 0 then -((offsetDelta >>> 1).toNat : Int) else (offsetDelta >>> 1).toNat)

/-- The cursor that a copy command moves. -/
def copyCursor (st : ReplayState) (cmd : Command) : UInt64 :=
  if cmd.action = .sourceCopy then st.sourceRelOffset else st.targetRelOffset

/-- For a cursor inside a buffer, the computation of the offset is defined exactly if the copy moves
back, or forward within `int64`. -/
theorem offsetDefined_iff {cursor : UInt64} (h : cursor.toNat ≤ maxSize) (offsetDelta : UInt64) :
    OffsetDefined cursor offsetDelta ↔
      offsetDelta.toNat % 2 = 1 ∨ offsetDelta.toNat + 2 * cursor.toNat < 2 ^ 64 := by
  have hlt := offsetDelta.toNat_lt
  have hshift : (offsetDelta >>> 1).toNat = offsetDelta.toNat / 2 := by
    rw [UInt64.toNat_shiftRight, Nat.shiftRight_eq_div_pow]; rfl
  unfold maxSize at h
  constructor
  · rintro ⟨-, -, -, hsum⟩
    unfold InInt64 at hsum
    by_cases hodd : offsetDelta.toNat % 2 = 1
    · exact .inl hodd
    · rw [if_neg (mt (and_one_ne_zero_iff _).mp hodd), hshift] at hsum
      exact .inr (by omega)
  · intro hmove
    refine ⟨?_, ?_, ?_, ?_⟩
    · unfold InInt64; omega
    · unfold InInt64; omega
    · unfold InInt64; omega
    · unfold InInt64
      by_cases hodd : offsetDelta.toNat % 2 = 1
      · rw [if_pos ((and_one_ne_zero_iff _).mpr hodd), hshift]; omega
      · rw [if_neg (mt (and_one_ne_zero_iff _).mp hodd), hshift]; omega

/-- The cursor of the next copy is inside its buffer. -/
theorem ReplayInvariant.copyCursor_le {patchData source : Bytes} {executed : List Command}
    {st : ReplayState} (inv : ReplayInvariant patchData source executed st)
    (hsource : source.length ≤ maxSize) (houtput : st.output.length ≤ maxSize) (cmd : Command) :
    (copyCursor st cmd).toNat ≤ maxSize := by
  unfold copyCursor
  split
  · exact le_trans inv.source_le hsource
  · exact le_trans inv.target_le houtput

/-- **When the signed arithmetic of a copy is defined.** For every accepted patch, every source and
every prefix of the commands that runs without an error to an output that fits a vector: if a copy comes
next, none of its values leaves `int64`, exactly if its delta is odd (it moves back) or, with twice the
cursor, below `2^64`. -/
theorem copy_offsetDefined_iff {P source : Bytes} {patch : BPSPatch} (hpatch : P.length ≤ maxSize)
    (hload : BPSPatch.load P = .ok patch) (hsource : source.length < 2 ^ 63)
    {executed rest : List Command} {cmd : Command}
    (hcommands : patch.commands = executed ++ cmd :: rest) {st : ReplayState}
    (hrun : replay patch.patchData source patch.dataOffset executed = .ok st)
    (houtput : st.output.length ≤ maxSize) :
    OffsetDefined (copyCursor st cmd) cmd.offsetDelta ↔
      cmd.offsetDelta.toNat % 2 = 1 ∨
        cmd.offsetDelta.toNat + 2 * (copyCursor st cmd).toNat < 2 ^ 64 := by
  obtain ⟨-, rfl, -⟩ := BPSPatch.load_eq_ok hload
  have hsource' : source.length ≤ maxSize := by rw [maxSize]; omega
  have hregion := BPSPatch.dataOffset_le_of_load hload (by rw [hcommands]; simp)
  have inv := replayInvariant_of_replay hpatch hsource' hregion hrun houtput
  exact offsetDefined_iff (inv.copyCursor_le hsource' houtput cmd) cmd.offsetDelta

/-- A patch that reads the one byte of its source, and then copies from `2^63 - 1` further on. -/
def forwardCopy : Bytes :=
  bpsMagic ++ [0x81, 0x80, 0x80, 0x80, 0x82]
    ++ [0x7E, 0x7E, 0x7E, 0x7E, 0x7E, 0x7E, 0x7E, 0x7E, 0x7E, 0x80] ++ List.replicate 12 0

/-- The sum of cursor and delta is `2^63`. -/
theorem not_copy_offsetDefined :
    ∃ patch st cmd, BPSPatch.load forwardCopy = .ok patch ∧ patch.srcSize = 1 ∧
      patch.commands = [Command.ofEncoded 0 0, cmd] ∧
      replay patch.patchData [7] patch.dataOffset [Command.ofEncoded 0 0] = .ok st ∧
      cmd.action = .sourceCopy ∧ ¬ OffsetDefined (copyCursor st cmd) cmd.offsetDelta := by
  refine ⟨⟨forwardCopy, 1, 0, 0, [], 0, 0, 0, [Command.ofEncoded 0 0, Command.ofEncoded 2 (2 ^ 64 - 2)],
    7⟩, ⟨[7], 1, 0, 7⟩, Command.ofEncoded 2 (2 ^ 64 - 2), by decide +kernel, rfl, rfl, by decide, rfl, ?_⟩
  rw [offsetDefined_iff (by decide)]
  decide +kernel

/-- A patch of three bytes onto two: the first byte read, and then the third one copied. -/
def readThenCopy : Bytes :=
  bpsMagic ++ [0x83, 0x82, 0x80, 0x80, 0x82, 0x82] ++ List.replicate 12 0

/-- What `readThenCopy` loads as. -/
def readThenCopyPatch : BPSPatch where
  patchData := readThenCopy
  srcSize := 3
  targetSize := 2
  metadataSize := 0
  metadataString := []
  srcCrc := 0
  targetCrc := 0
  patchCrc := 0
  commands := [Command.ofEncoded 0 0, Command.ofEncoded 2 2]
  dataOffset := 7

theorem load_readThenCopy : BPSPatch.load readThenCopy = .ok readThenCopyPatch := by
  decide +kernel

/-- Behind the byte read the cursor stands at 1, from where the copy moves forward by 1. -/
theorem copy_offsetDefined_readThenCopy :
    copyCursor ⟨[10], 1, 0, 7⟩ (Command.ofEncoded 2 2) = 1 ∧
      OffsetDefined (copyCursor ⟨[10], 1, 0, 7⟩ (Command.ofEncoded 2 2)) 2 := by
  have hrun : replay readThenCopy [10, 20, 30] 7 [Command.ofEncoded 0 0] = .ok ⟨[10], 1, 0, 7⟩ := by
    decide
  have hiff := copy_offsetDefined_iff (by decide) load_readThenCopy
    (show [10, 20, 30].length < 2 ^ 63 by decide)
    (show readThenCopyPatch.commands = [Command.ofEncoded 0 0] ++ Command.ofEncoded 2 2 :: [] from rfl)
    hrun (by decide)
  exact ⟨rfl, hiff.mpr (.inr (by decide))⟩

end IUBPatch.BPS
