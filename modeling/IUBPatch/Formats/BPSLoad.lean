import IUBPatch.Formats.BPS

/-! # What an accepted BPS patch is

The facts every successful load gives about the fields of the patch. -/

namespace IUBPatch.BPS

/-- **What becomes of the metadata**: the string is taken if it ends within the patch; past the end it
is rejected as long as its end is a 64-bit number, and else `assign` throws. -/
theorem parseMetadata_eq {patchData : Bytes} {offset : Nat} (hfit : patchData.length ≤ maxSize)
    (hoffset : offset ≤ patchData.length) (n : UInt64) :
    parseMetadata patchData n offset =
      if offset + n.toNat ≤ patchData.length then
        .ok (slice patchData offset n.toNat, offset + n.toNat)
      else if offset + n.toNat < 2 ^ 64 then
        .error { code := .invalidPatchFormat, message := "Metadata exceeds patch size" }
      else .throws .lengthError := by
  have hlt := n.toNat_lt
  have hbound := hfit
  unfold maxSize at hbound
  rw [parseMetadata]
  by_cases hzero : n = 0
  · subst hzero
    have hnone : slice patchData offset 0 = [] := List.take_zero
    rw [if_neg (by decide), UInt64.toNat_zero, Nat.add_zero, if_pos hoffset, hnone]
  have hpos : n > 0 := UInt64.pos_iff_ne_zero.mpr hzero
  have hsum : (UInt64.ofNat offset + n).toNat = (offset + n.toNat) % 2 ^ 64 := by
    rw [UInt64.toNat_add, UInt64.toNat_ofNat', Nat.mod_add_mod]
  have hcheck : UInt64.ofNat offset + n > size patchData ↔
      patchData.length < (offset + n.toNat) % 2 ^ 64 := by
    rw [gt_iff_lt, UInt64.lt_iff_toNat_lt, hsum, toNat_size hfit]
  rw [if_pos hpos]
  by_cases hin : offset + n.toNat ≤ patchData.length
  · rw [if_pos hin, if_neg (mt hcheck.mp (by rw [Nat.mod_eq_of_lt (by omega)]; omega)), assign,
      if_pos (by rw [maxSize]; omega)]
    rfl
  rw [if_neg hin]
  by_cases hexact : offset + n.toNat < 2 ^ 64
  · rw [if_pos hexact, if_pos (hcheck.mpr (by rw [Nat.mod_eq_of_lt hexact]; omega))]
  · -- the sum wraps to less than the offset, and passes the check
    have hwrapped : (offset + n.toNat) % 2 ^ 64 = offset + n.toNat - 2 ^ 64 := by omega
    rw [if_neg hexact, if_neg (mt hcheck.mp (by omega)), assign, if_neg (by rw [maxSize]; omega)]
    rfl

end IUBPatch.BPS

namespace IUBPatch.BPSPatch

open BPS

/-- An accepted patch keeps its bytes, of which there are at least sixteen, and its command list is
the one the command loop reads from where the metadata ends. -/
theorem load_eq_ok {P : Bytes} {patch : BPSPatch} (h : load P = .ok patch) :
    16 ≤ P.length ∧ patch.patchData = P ∧ patch.commands = parseCommands P patch.dataOffset := by
  rw [load] at h
  split at h
  · cases h
  · rename_i hsize
    split at h
    · cases h
    · rename_i hmagic
      rw [parse, if_neg hsize, if_neg hmagic] at h
      obtain ⟨metadata, -, hpatch⟩ := Outcome.bind_eq_ok_iff.mp h
      cases hpatch
      rw [bpsHeaderSize] at hsize
      exact ⟨by omega, rfl, rfl⟩

/-- A patch with a command has its command region before the checksums. -/
theorem dataOffset_le_of_load {P : Bytes} {patch : BPSPatch} (h : load P = .ok patch)
    (hne : patch.commands ≠ []) : patch.dataOffset + 12 < P.length := by
  obtain ⟨-, -, hcommands⟩ := load_eq_ok h
  by_contra hend
  rw [hcommands, parseCommands, if_neg hend] at hne
  exact hne rfl

end IUBPatch.BPSPatch
