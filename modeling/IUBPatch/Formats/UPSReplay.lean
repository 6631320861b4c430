import IUBPatch.Formats.UPS
import IUBPatch.Lib.Runs

/-! # UPS application in closed form

The replayer XORs block after block into a buffer that holds the longer of the two files and cuts it
to the target size. At each position that is the source byte, or zero past its end, XOR everything
the blocks put there. -/

namespace IUBPatch

namespace UPS

/-- The positions and bytes of a block. -/
def XORBlock.run (block : XORBlock) : Run Byte := ⟨block.offset.toNat, block.data⟩

instance : Std.LawfulIdentity (fun a b : Byte => a ^^^ b) 0 where
  left_id := fun _ => UInt8.zero_xor
  right_id := fun _ => UInt8.xor_zero

/-- The XOR of all block bytes at a position. -/
def mask (blocks : List XORBlock) (i : Nat) : Byte :=
  Run.overlay 0 (· ^^^ ·) (blocks.map XORBlock.run) i

@[simp] theorem length_xorBytes (position : UInt64) (data output : Bytes) :
    (xorBytes position data output).length = output.length := by
  induction data generalizing position output with
  | nil => rfl
  | cons b data ih =>
    rw [xorBytes]
    split
    · rw [ih, List.length_modify]
    · rfl

/-- The byte loop changes a byte exactly where the block covers it. -/
theorem getElem?_xorBytes (position : UInt64) (data : Bytes) {output : Bytes}
    (hfit : output.length ≤ maxSize) (i : Nat) :
    (xorBytes position data output)[i]?
      = output[i]?.map (· ^^^ (⟨position.toNat, data⟩ : Run Byte).valueAt 0 i) := by
  induction data generalizing position output with
  | nil => simp [xorBytes]
  | cons b data ih =>
    rw [xorBytes]
    by_cases hin : position.toNat < output.length
    · have hnext : (position + 1).toNat = position.toNat + 1 := by
        unfold maxSize at hfit
        rw [UInt64.toNat_add, UInt64.toNat_one, Nat.mod_eq_of_lt (by omega)]
      rw [if_pos hin, ih (position + 1) (by rwa [List.length_modify]), hnext, List.getElem?_modify,
        Option.map_eq_map, Option.map_map]
      congr 1
      funext a
      rw [Function.comp_apply]
      -- the first byte changes its own position, the rest of the block the ones behind it
      by_cases hi : i = position.toNat
      · rw [if_pos hi.symm, hi, Run.valueAt_start, Run.valueAt_of_lt 0 (Nat.lt_succ_self _),
          UInt8.xor_zero]
      · rw [if_neg (Ne.symm hi), Run.valueAt_cons 0 hi]
    · -- the loop breaks: every position of the output lies before the block
      rw [if_neg hin]
      by_cases hi : i < output.length
      · rw [Run.valueAt_of_lt 0 (by dsimp only; omega)]
        simp
      · rw [List.getElem?_eq_none (Nat.not_lt.mp hi)]
        rfl

/-- **The block loop XORs the mask into the output.** -/
theorem getElem?_foldl_xorBlock (blocks : List XORBlock) {output : Bytes}
    (hfit : output.length ≤ maxSize) (i : Nat) :
    (blocks.foldl xorBlock output)[i]? = output[i]?.map (· ^^^ mask blocks i) := by
  induction blocks generalizing output with
  | nil => simp [mask]
  | cons block blocks ih =>
    rw [List.foldl_cons, ih (by rwa [xorBlock, length_xorBytes]), xorBlock,
      getElem?_xorBytes _ _ hfit, Option.map_map]
    simp only [mask, List.map_cons, Run.overlay_cons, XORBlock.run]
    congr 1
    funext a
    exact UInt8.xor_assoc a _ _

theorem length_foldl_xorBlock (blocks : List XORBlock) (output : Bytes) :
    (blocks.foldl xorBlock output).length = output.length := by
  induction blocks generalizing output with
  | nil => rfl
  | cons block blocks ih => rw [List.foldl_cons, ih, xorBlock, length_xorBytes]

end UPS

namespace UPSPatch

open UPS

/-- The bytes the patch makes of a source: at each position below the target size the source byte, or
zero past its end, XOR the mask. -/
def target (patch : UPSPatch) (source : Bytes) : Bytes :=
  (List.range patch.targetSize.toNat).map fun i => source.getD i 0 ^^^ mask patch.blocks i

@[simp] theorem length_target (patch : UPSPatch) (source : Bytes) :
    (patch.target source).length = patch.targetSize.toNat := by
  rw [target, List.length_map, List.length_range]

/-- The buffer of the replayer: the source, and zeros up to the larger size. -/
theorem overwrite_replicate (source : Bytes) (n : Nat) :
    overwrite (List.replicate n 0) 0 source = source ++ List.replicate (n - source.length) 0 := by
  rw [overwrite, List.take_zero, List.nil_append, Nat.zero_add, List.drop_replicate]

/-- The size of the buffer is the larger of the two file sizes. -/
theorem toNat_max_size {source : Bytes} (hsource : source.length ≤ maxSize) (n : UInt64) :
    (max (size source) n).toNat = max source.length n.toNat := by
  rw [← toNat_size hsource]
  show (if size source ≤ n then n else size source).toNat = _
  by_cases hle : size source ≤ n
  · rw [if_pos hle, max_eq_right (UInt64.le_iff_toNat_le.mp hle)]
  · rw [if_neg hle, max_eq_left]
    exact Nat.le_of_not_le (mt UInt64.le_iff_toNat_le.mpr hle)

/-- The block loop on the buffer, cut to the target size, makes the target. -/
theorem take_foldl_xorBlock (patch : UPSPatch) {source : Bytes} {n : Nat}
    (hsource : source.length ≤ n) (htarget : patch.targetSize.toNat ≤ n) (hfit : n ≤ maxSize) :
    (patch.blocks.foldl xorBlock (source ++ List.replicate (n - source.length) 0)).take
      patch.targetSize.toNat = patch.target source := by
  have hlength : (source ++ List.replicate (n - source.length) (0 : Byte)).length = n := by
    rw [List.length_append, List.length_replicate]; omega
  have hbuffer : (source ++ List.replicate (n - source.length) (0 : Byte)).length ≤ maxSize :=
    hlength.trans_le hfit
  apply List.ext_getElem?
  intro i
  by_cases hi : i < patch.targetSize.toNat
  · have hsourceByte : (source ++ List.replicate (n - source.length) (0 : Byte))[i]?
        = some (source.getD i 0) := by
      rw [List.getD_eq_getElem?_getD]
      -- a position of the source, or of the zeros behind it
      by_cases hin : i < source.length
      · rw [List.getElem?_append_left hin, List.getElem?_eq_getElem hin, Option.getD_some]
      · rw [List.getElem?_append_right (Nat.not_lt.mp hin),
          List.getElem?_eq_none (Nat.not_lt.mp hin), List.getElem?_replicate, if_pos (by omega),
          Option.getD_none]
    rw [List.getElem?_take_of_lt hi, getElem?_foldl_xorBlock _ hbuffer, hsourceByte, target,
      List.getElem?_map, List.getElem?_range hi]
    rfl
  · rw [List.getElem?_eq_none (by rw [List.length_take]; omega),
      List.getElem?_eq_none (by rw [length_target]; omega)]

/-- **What `apply` computes**, for sizes that fit a vector: the two source checks, the target of the
closed form, and the target check. -/
theorem apply_eq {patch : UPSPatch} {source : Bytes} (hsource : source.length ≤ maxSize)
    (htarget : patch.targetSize.toNat ≤ maxSize) (options : PatchOptions) :
    patch.apply source options
      = if options.verifyChecksums ∧ size source ≠ patch.srcSize then
          .error (patch.sourceSizeError source)
        else if options.verifyChecksums ∧ calcCrc32 source ≠ patch.srcCrc then .error sourceCrcError
        else if options.verifyChecksums ∧ calcCrc32 (patch.target source) ≠ patch.targetCrc then
          .error targetCrcError
        else .ok (patch.target source) := by
  have hmax := toNat_max_size hsource patch.targetSize
  have hfit : max source.length patch.targetSize.toNat ≤ maxSize := max_le hsource htarget
  have hloop := take_foldl_xorBlock patch (le_max_left source.length patch.targetSize.toNat)
    (le_max_right _ _) hfit
  have hlength : patch.targetSize.toNat - (patch.blocks.foldl xorBlock (source ++
      List.replicate (max source.length patch.targetSize.toNat - source.length) 0)).length = 0 := by
    rw [length_foldl_xorBlock, List.length_append, List.length_replicate]; omega
  rw [apply, resize, if_pos (hmax.trans_le hfit), hmax, List.take_nil, List.nil_append,
    List.length_nil, Nat.sub_zero, Outcome.ok_bind, overwrite_replicate]
  dsimp only
  rw [resize, if_pos htarget, Outcome.ok_bind, hloop, hlength, List.replicate_zero,
    List.append_nil]

/-! ### Application as an XOR -/

/-- A byte of the target. -/
theorem getD_target (patch : UPSPatch) (source : Bytes) {i : Nat} (hi : i < patch.targetSize.toNat) :
    (patch.target source).getD i 0 = source.getD i 0 ^^^ mask patch.blocks i := by
  have hlength : i < (patch.target source).length := by rw [length_target]; exact hi
  rw [List.getD_eq_getElem _ _ hlength]
  simp only [target, List.getElem_map, List.getElem_range]

/-- The mask does not depend on the order of the blocks. -/
theorem mask_perm {blocks blocks' : List XORBlock} (h : blocks.Perm blocks') (i : Nat) :
    mask blocks i = mask blocks' i :=
  Run.overlay_perm (h.map XORBlock.run) i

/-- **XORing the mask twice gives the source back**, if it has the size of the target. -/
theorem target_target {patch : UPSPatch} {source : Bytes}
    (hlength : source.length = patch.targetSize.toNat) :
    patch.target (patch.target source) = source := by
  apply List.ext_getElem
  · rw [length_target, hlength]
  · intro i h₁ h₂
    have hi : i < patch.targetSize.toNat := hlength ▸ h₂
    rw [← List.getD_eq_getElem _ 0 h₁, ← List.getD_eq_getElem _ 0 h₂, getD_target _ _ hi,
      getD_target _ _ hi, UInt8.xor_assoc, UInt8.xor_self, UInt8.xor_zero]

/-- Without checksums `apply` returns the target, for sizes that fit a vector. -/
theorem apply_unverified {patch : UPSPatch} (htarget : patch.targetSize.toNat ≤ maxSize)
    {source : Bytes} (hsource : source.length ≤ maxSize) {options : PatchOptions}
    (hoff : options.verifyChecksums = false) :
    patch.apply source options = .ok (patch.target source) := by
  rw [apply_eq hsource htarget, hoff, if_neg (by simp), if_neg (by simp), if_neg (by simp)]

/-- **UPS application is XOR with the mask of the blocks.** For every patch and source that fit a
vector, without checksums: `apply` returns as many bytes as declared, each the source byte (zero past
its end) XOR all block bytes at its position; blocks in any other order give the same; and on a source
of the target size, applying the patch to its output gives the source back. -/
theorem apply_isXor {patch : UPSPatch} (htarget : patch.targetSize.toNat ≤ maxSize) {source : Bytes}
    (hsource : source.length ≤ maxSize) {options : PatchOptions}
    (hoff : options.verifyChecksums = false) :
    ∃ output, patch.apply source options = .ok output ∧
      output.length = patch.targetSize.toNat ∧
      (∀ j < patch.targetSize.toNat,
        output.getD j 0 = source.getD j 0 ^^^ mask patch.blocks j) ∧
      (∀ blocks, blocks.Perm patch.blocks →
        apply { patch with blocks } source options = .ok output) ∧
      (source.length = patch.targetSize.toNat → patch.apply output options = .ok source) := by
  refine ⟨patch.target source, apply_unverified htarget hsource hoff, length_target _ _,
    fun j hj => getD_target _ _ hj, ?_, ?_⟩
  · intro blocks hperm
    have hsame : target { patch with blocks } source = patch.target source := by
      simp only [target, mask_perm hperm]
    have hfit : (UPSPatch.targetSize { patch with blocks }).toNat ≤ maxSize := htarget
    rw [← hsame]
    exact apply_unverified hfit hsource hoff
  · intro hlength
    have hfit : (patch.target source).length ≤ maxSize := by rw [length_target]; exact htarget
    rw [apply_unverified htarget hfit hoff, target_target hlength]

/-- Two overlapping blocks, the second one past the end of a target of two bytes. -/
theorem apply_isXor_overlapping :
    ∃ output, apply ⟨[], 2, 2, 0, 0, 0, [⟨0, [1, 2]⟩, ⟨1, [4, 8]⟩]⟩ [5, 5]
        { verifyChecksums := false } = .ok output ∧
      output.getD 1 0 = 5 ^^^ mask [⟨0, [1, 2]⟩, ⟨1, [4, 8]⟩] 1 := by
  obtain ⟨output, happly, -, hbytes, -⟩ := apply_isXor
    (show (UPSPatch.targetSize ⟨[], 2, 2, 0, 0, 0, [⟨0, [1, 2]⟩, ⟨1, [4, 8]⟩]⟩).toNat ≤ maxSize by
      decide)
    (show ([5, 5] : Bytes).length ≤ maxSize by decide)
    (show PatchOptions.verifyChecksums { verifyChecksums := false } = false from rfl)
  exact ⟨output, happly, hbytes 1 (by decide)⟩

end UPSPatch

end IUBPatch
