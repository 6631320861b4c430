import IUBPatch.Formats.BPS
import IUBPatch.Lib.SelfCopy

/-! # The commands of BPS replay in natural numbers

The replayer computes in 64-bit words. For cursors inside their buffers each command is given here
by the exact numbers: what it accepts, and what it appends. -/

namespace IUBPatch.BPS

/-! ### Copy offsets -/

/-- The relative offset a delta stands for. -/
def signedValue (offsetDelta : UInt64) : Int :=
  if offsetDelta.toNat % 2 = 1 then -(offsetDelta.toNat / 2 : Nat) else (offsetDelta.toNat / 2 : Nat)

/-- A word below `2^63` keeps its value as a signed word. -/
theorem toInt_toInt64 {n : UInt64} (h : n.toNat < 2 ^ 63) : n.toInt64.toInt = n.toNat :=
  BitVec.toInt_eq_toNat_of_lt (x := n.toBitVec) (by rw [UInt64.toNat_toBitVec]; omega)

theorem and_one_ne_zero_iff (n : UInt64) : n &&& 1 ≠ 0 ↔ n.toNat % 2 = 1 := by
  rw [ne_eq, ← UInt64.toNat_inj, UInt64.toNat_and, UInt64.toNat_one, Nat.and_one_is_mod]
  simp

/-- The negation of a halved delta does not overflow: it is at least `-(2^63 - 1)`. -/
theorem toInt_signedDelta (offsetDelta : UInt64) :
    (signedDelta offsetDelta).toInt = signedValue offsetDelta := by
  have hlt := offsetDelta.toNat_lt
  have hshift : (offsetDelta >>> 1).toNat = offsetDelta.toNat / 2 := by
    rw [UInt64.toNat_shiftRight, Nat.shiftRight_eq_div_pow]; rfl
  have hcast : (offsetDelta >>> 1).toInt64.toInt = (offsetDelta.toNat / 2 : Nat) := by
    rw [toInt_toInt64 (by omega), hshift]
  rw [signedDelta, signedValue]
  by_cases hodd : offsetDelta.toNat % 2 = 1
  · rw [if_pos ((and_one_ne_zero_iff _).mpr hodd), if_pos hodd, Int64.toInt_neg, hcast]
    exact Int.bmod_eq_of_le (by omega) (by omega)
  · rw [if_neg (mt (and_one_ne_zero_iff _).mp hodd), if_neg hodd, hcast]

/-- The start of a copy: the cursor moved by the delta, as an integer. -/
def copyStart (cursor offsetDelta : UInt64) : Int := cursor.toNat + signedValue offsetDelta

/-- The signed sum of a copy is non-negative exactly when the exact start is and fits; then it is that
start. A start past `2^63` wraps to a negative number. -/
theorem copyOffset_cases {cursor : UInt64} (h : cursor.toNat < 2 ^ 63) (offsetDelta : UInt64) :
    (copyOffset cursor offsetDelta < 0 ∧
        (copyStart cursor offsetDelta < 0 ∨ 2 ^ 63 ≤ copyStart cursor offsetDelta)) ∨
      (¬ copyOffset cursor offsetDelta < 0 ∧ 0 ≤ copyStart cursor offsetDelta ∧
        copyStart cursor offsetDelta < 2 ^ 63 ∧
        ((copyOffset cursor offsetDelta).toUInt64.toNat : Int) = copyStart cursor offsetDelta) := by
  have hlt := offsetDelta.toNat_lt
  have hsum : (copyOffset cursor offsetDelta).toInt
      = (copyStart cursor offsetDelta).bmod (2 ^ 64) := by
    rw [copyOffset, Int64.toInt_add, toInt_toInt64 h, toInt_signedDelta, copyStart]
  have hlow : -(2 ^ 63) < copyStart cursor offsetDelta := by
    rw [copyStart, signedValue]; split <;> omega
  have hhigh : copyStart cursor offsetDelta < 2 ^ 64 := by
    rw [copyStart, signedValue]; split <;> omega
  rw [Int64.lt_iff_toInt_lt, Int64.toInt_zero, hsum]
  set start := copyStart cursor offsetDelta
  by_cases hfit : start < 2 ^ 63
  -- the exact start fits: the signed sum is it, negative or not
  · have hexact : start.bmod (2 ^ 64) = start := Int.bmod_eq_of_le (by omega) (by omega)
    rw [hexact] at hsum ⊢
    by_cases hneg : start < 0
    · exact .inl ⟨hneg, .inl hneg⟩
    · right
      refine ⟨hneg, by omega, hfit, ?_⟩
      have hle : (0 : Int64) ≤ copyOffset cursor offsetDelta := by
        rw [Int64.le_iff_toInt_le, Int64.toInt_zero, hsum]; omega
      rw [Int64.toNat_toUInt64_of_le hle, Int64.toNatClampNeg, hsum]
      omega
  -- a start past `2^63` wraps once, to a negative number
  · left
    have hwrap : start.bmod (2 ^ 64) = start - 2 ^ 64 := by
      rw [Int.bmod_def, Int.emod_eq_of_lt (by omega) (by omega), if_neg (by omega)]
      rfl
    rw [hwrap]
    exact ⟨by omega, .inr (by omega)⟩

/-- Where the start of a copy is a position, the signed sum is that position. -/
theorem toNat_copyOffset {cursor offsetDelta : UInt64} (h : cursor.toNat < 2 ^ 63)
    (hnonneg : 0 ≤ copyStart cursor offsetDelta) (hlt : copyStart cursor offsetDelta < 2 ^ 63) :
    (copyOffset cursor offsetDelta).toUInt64.toNat = (copyStart cursor offsetDelta).toNat := by
  rcases copyOffset_cases h offsetDelta with ⟨-, hout⟩ | ⟨-, -, -, hexact⟩
  · omega
  · omega

/-! ### Bound sums -/

/-- Adding a command's length to a cursor inside a buffer does not wrap. -/
theorem toNat_add_length {cursor : UInt64} (h : cursor.toNat ≤ maxSize) (cmd : Command) :
    (cursor + cmd.length).toNat = cursor.toNat + cmd.length.toNat := by
  have hlen := cmd.length_le
  unfold maxSize at h
  rw [UInt64.toNat_add, Nat.mod_eq_of_lt (by omega)]

/-- The cursor a copy leaves: its start moved by its length, exactly. -/
theorem toNat_copyOffset_add_length {cursor offsetDelta : UInt64} (h : cursor.toNat < 2 ^ 63)
    (hnonneg : 0 ≤ copyStart cursor offsetDelta) (hle : copyStart cursor offsetDelta ≤ maxSize)
    (cmd : Command) :
    ((copyOffset cursor offsetDelta).toUInt64 + cmd.length).toNat
      = (copyStart cursor offsetDelta).toNat + cmd.length.toNat := by
  unfold maxSize at hle
  have hstart := toNat_copyOffset h hnonneg (by omega)
  rw [toNat_add_length (by rw [hstart, maxSize]; omega), hstart]

/-- The bound test of a command against a word `bound` is the test of the exact sum. -/
theorem add_length_gt_iff {cursor : UInt64} (h : cursor.toNat ≤ maxSize) (cmd : Command)
    (bound : UInt64) :
    cursor + cmd.length > bound ↔ ¬ cursor.toNat + cmd.length.toNat ≤ bound.toNat := by
  rw [gt_iff_lt, UInt64.lt_iff_toNat_lt, toNat_add_length h, Nat.not_le]

/-- The end of the patch data that `TargetRead` may read. -/
theorem toNat_size_sub_twelve {patchData : Bytes} (hfit : patchData.length ≤ maxSize)
    (hlong : 12 ≤ patchData.length) : (size patchData - 12).toNat = patchData.length - 12 := by
  have hle : (12 : UInt64) ≤ size patchData := by
    rw [UInt64.le_iff_toNat_le, toNat_size hfit]; exact hlong
  rw [UInt64.toNat_sub_of_le _ _ hle, toNat_size hfit]
  rfl

/-- The byte loop of `TargetCopy` is the copy of a list from itself. -/
theorem targetCopyLoop_eq {offset i : UInt64} {remaining : Nat}
    (h : offset.toNat + i.toNat + remaining < 2 ^ 64) (output : Bytes) :
    targetCopyLoop offset remaining i output
      = match SelfCopy.selfCopy output (offset.toNat + i.toNat) remaining with
        | some extended => .ok extended
        | none => .error (commandError "TargetCopy exceeds output size") := by
  induction remaining generalizing i output with
  | zero => rfl
  | succ remaining ih =>
    have hindex : (offset + i).toNat = offset.toNat + i.toNat := by
      rw [UInt64.toNat_add, Nat.mod_eq_of_lt (by omega)]
    have hnext : (i + 1).toNat = i.toNat + 1 := by
      rw [UInt64.toNat_add, UInt64.toNat_one, Nat.mod_eq_of_lt (by omega)]
    rw [targetCopyLoop, SelfCopy.selfCopy, hindex]
    cases output[offset.toNat + i.toNat]? with
    | none => rfl
    | some byte =>
      dsimp only
      rw [ih (by omega), hnext, Nat.add_assoc]

/-- **Overlapping `TargetCopy` is periodic extension.** From an offset inside the output the byte loop
ends without an error, leaves the bytes of the output as they are and appends as many as asked for: the
bytes from the offset to the old end, over and over. -/
theorem targetCopyLoop_periodic {output : Bytes} {offset : Int64} (hnonneg : 0 ≤ offset)
    (hin : offset.toInt < output.length) (n : UInt64) (hfit : output.length + n.toNat < 2 ^ 63) :
    ∃ tail, targetCopyLoop offset.toUInt64 n.toNat 0 output = .ok (output ++ tail) ∧
      tail.length = n.toNat ∧
      ∀ i < n.toNat,
        tail[i]? = output[offset.toInt.toNat + i % (output.length - offset.toInt.toNat)]? := by
  have hstart : offset.toUInt64.toNat = offset.toInt.toNat := by
    rw [Int64.toNat_toUInt64_of_le hnonneg, Int64.toNatClampNeg]
  have hinside : offset.toInt.toNat < output.length := by
    have hpos : (0 : Int64).toInt ≤ offset.toInt := Int64.le_iff_toInt_le.mp hnonneg
    rw [Int64.toInt_zero] at hpos
    omega
  obtain ⟨tail, hcopy, hlength, hbytes⟩ := SelfCopy.selfCopy_periodic hinside n.toNat
  have hloop := targetCopyLoop_eq
    (show offset.toUInt64.toNat + (0 : UInt64).toNat + n.toNat < 2 ^ 64 by
      rw [hstart, UInt64.toNat_zero]; omega) output
  rw [UInt64.toNat_zero, Nat.add_zero, hstart, hcopy] at hloop
  exact ⟨tail, hloop, hlength, hbytes⟩

/-- Five bytes from the last two of three: both of them twice, and the first once more. -/
theorem targetCopyLoop_periodic_twice :
    ∃ tail, targetCopyLoop 1 5 0 [7, 8, 9] = .ok ([7, 8, 9] ++ tail) ∧ tail.length = 5 ∧
      tail[4]? = some 8 := by
  have hin : (1 : Int64).toInt < ([7, 8, 9] : Bytes).length := by decide
  obtain ⟨tail, hcopy, hlength, hbytes⟩ := targetCopyLoop_periodic (by decide) hin 5 (by decide)
  exact ⟨tail, hcopy, hlength, hbytes 4 (by decide)⟩

/-! ### The commands -/

section Commands

variable {patchData source : Bytes} {st : ReplayState} {cmd : Command}

/-- `SourceRead` reads at the source cursor. -/
theorem execCommand_sourceRead (haction : cmd.action = .sourceRead)
    (hfit : source.length ≤ maxSize) (hcursor : st.sourceRelOffset.toNat ≤ source.length) :
    execCommand patchData source st cmd
      = if st.sourceRelOffset.toNat + cmd.length.toNat ≤ source.length then
          .ok { st with
            output := st.output ++ slice source st.sourceRelOffset.toNat cmd.length.toNat
            sourceRelOffset := st.sourceRelOffset + cmd.length }
        else .error (commandError "SourceRead exceeds source size") := by
  have htest := add_length_gt_iff (le_trans hcursor hfit) cmd (size source)
  rw [toNat_size hfit] at htest
  rw [execCommand, haction]
  dsimp only
  rw [if_congr htest rfl rfl, ite_not]

/-- `TargetRead` reads at the patch data cursor, up to the checksums. -/
theorem execCommand_targetRead (haction : cmd.action = .targetRead)
    (hfit : patchData.length ≤ maxSize) (hlong : 12 ≤ patchData.length)
    (hcursor : st.patchDataOffset.toNat ≤ patchData.length) :
    execCommand patchData source st cmd
      = if st.patchDataOffset.toNat + cmd.length.toNat ≤ patchData.length - 12 then
          .ok { st with
            output := st.output ++ slice patchData st.patchDataOffset.toNat cmd.length.toNat
            patchDataOffset := st.patchDataOffset + cmd.length }
        else .error (commandError "TargetRead exceeds patch data") := by
  have htest := add_length_gt_iff (le_trans hcursor hfit) cmd (size patchData - 12)
  rw [toNat_size_sub_twelve hfit hlong] at htest
  rw [execCommand, haction]
  dsimp only
  rw [if_congr htest rfl rfl, ite_not]

/-- `SourceCopy` reads at the moved source cursor, if that is inside the source. -/
theorem execCommand_sourceCopy (haction : cmd.action = .sourceCopy)
    (hfit : source.length ≤ maxSize) (hcursor : st.sourceRelOffset.toNat ≤ source.length) :
    execCommand patchData source st cmd
      = if 0 ≤ copyStart st.sourceRelOffset cmd.offsetDelta ∧
            copyStart st.sourceRelOffset cmd.offsetDelta + cmd.length.toNat ≤ source.length then
          .ok { st with
            output := st.output ++ slice source
              (copyStart st.sourceRelOffset cmd.offsetDelta).toNat cmd.length.toNat
            sourceRelOffset :=
              (copyOffset st.sourceRelOffset cmd.offsetDelta).toUInt64 + cmd.length }
        else .error (commandError "SourceCopy offset out of bounds") := by
  have hsource := hfit
  unfold maxSize at hsource
  rw [execCommand, haction]
  dsimp only
  have hword : st.sourceRelOffset.toNat < 2 ^ 63 := by omega
  rcases copyOffset_cases hword cmd.offsetDelta with
    ⟨hneg, hstart⟩ | ⟨hneg, hstart, hlt, hexact⟩
  -- rejected for its sign: the start lies before the source, or past any source
  · have hpos := cmd.length_pos
    rw [if_pos (.inl hneg), if_neg (by omega)]
  · set offset := (copyOffset st.sourceRelOffset cmd.offsetDelta).toUInt64 with hoffset
    have hoffsetLe : offset.toNat ≤ maxSize := by rw [maxSize]; omega
    have htest := add_length_gt_iff hoffsetLe cmd (size source)
    rw [toNat_size hfit] at htest
    have hstartNat : (copyStart st.sourceRelOffset cmd.offsetDelta).toNat = offset.toNat := by omega
    rw [hstartNat]
    by_cases hin : offset.toNat + cmd.length.toNat ≤ source.length
    · rw [if_neg (not_or.mpr ⟨hneg, htest.not.mpr (not_not.mpr hin)⟩), if_pos (by omega)]
    · rw [if_pos (.inr (htest.mpr hin)), if_neg (by omega)]

/-- `TargetCopy` copies the output from itself, if the moved target cursor is inside it. -/
theorem execCommand_targetCopy (haction : cmd.action = .targetCopy)
    (hfit : st.output.length ≤ maxSize)
    (hcursor : st.targetRelOffset.toNat ≤ st.output.length) :
    execCommand patchData source st cmd
      = if 0 ≤ copyStart st.targetRelOffset cmd.offsetDelta ∧
            copyStart st.targetRelOffset cmd.offsetDelta < st.output.length then
          .ok { st with
            output := SelfCopy.extend st.output
              (copyStart st.targetRelOffset cmd.offsetDelta).toNat cmd.length.toNat
            targetRelOffset :=
              (copyOffset st.targetRelOffset cmd.offsetDelta).toUInt64 + cmd.length }
        else .error (commandError "TargetCopy offset out of bounds") := by
  have houtput := hfit
  unfold maxSize at houtput
  have hlen := cmd.length_le
  rw [execCommand, haction]
  dsimp only
  have hword : st.targetRelOffset.toNat < 2 ^ 63 := by omega
  rcases copyOffset_cases hword cmd.offsetDelta with
    ⟨hneg, hstart⟩ | ⟨hneg, hstart, hlt, hexact⟩
  -- rejected for its sign: the start lies before the output, or past any output
  · rw [if_pos (.inl hneg), if_neg (by omega)]
  · set offset := (copyOffset st.targetRelOffset cmd.offsetDelta).toUInt64 with hoffset
    have hstartNat : (copyStart st.targetRelOffset cmd.offsetDelta).toNat = offset.toNat := by omega
    rw [hstartNat]
    by_cases hin : offset.toNat < st.output.length
    · have hge : ¬ offset ≥ size st.output := by
        rw [ge_iff_le, UInt64.le_iff_toNat_le, toNat_size hfit]; omega
      -- the loop counts from zero, and no index of it wraps
      have hbound : offset.toNat + (0 : UInt64).toNat + cmd.length.toNat < 2 ^ 64 := by
        rw [UInt64.toNat_zero]; omega
      have hloop := targetCopyLoop_eq hbound st.output
      rw [UInt64.toNat_zero, Nat.add_zero, SelfCopy.selfCopy_eq_extend hin] at hloop
      rw [if_neg (not_or.mpr ⟨hneg, hge⟩), if_pos (by omega), hloop]
      rfl
    · have hge : offset ≥ size st.output := by
        rw [ge_iff_le, UInt64.le_iff_toNat_le, toNat_size hfit]; omega
      rw [if_pos (.inr hge), if_neg (by omega)]

end Commands

end IUBPatch.BPS
