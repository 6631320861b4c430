import IUBPatch.FileEffects
import IUBPatch.Formats.IPSAlgebra

/-! # What IPS patches can do

A target can be reached from a source by an IPS patch exactly if it is no shorter and does not differ
from it out of reach of the records. The patch that does it writes the target in chunks as long as a
record can be; the chunks begin at multiples of that length, none of which is the reserved offset, and
the last one at the largest offset there is. -/

namespace IUBPatch.IPS

/-! ### A target in chunks -/

/-- Where the `k`-th chunk begins. -/
def chunkOffset (k : Nat) : Fin (2 ^ 24) := ⟨min (k * 65535) (2 ^ 24 - 1), by omega⟩

/-- A chunk that begins inside the target has a byte. -/
theorem chunk_nonempty {T : Bytes} {start : Nat} (h : start < T.length) :
    0 < (slice T start 65535).length := by
  rw [slice, List.length_take, List.length_drop]
  omega

/-- A chunk fits a record. -/
theorem chunk_fits (T : Bytes) (start : Nat) : (slice T start 65535).length < 2 ^ 16 := by
  rw [slice, List.length_take]
  omega

/-- The `k`-th chunk of a target, if it is so long. -/
def chunk (T : Bytes) (k : Nat) : Option Hunk :=
  if h : (chunkOffset k).val < T.length then
    some (.data (chunkOffset k) (slice T (chunkOffset k).val 65535) (chunk_nonempty h) (chunk_fits T _))
  else none

/-- The chunks of a target, as far as records reach. -/
def chunks (T : Bytes) : List Hunk := (List.range 258).filterMap (chunk T)

/-- No chunk begins at the reserved offset. -/
theorem chunks_reserved (T : Bytes) : ∀ hunk ∈ chunks T, hunk.offset ≠ 0x454F46 := by
  intro hunk hhunk
  obtain ⟨k, -, hchunk⟩ := List.mem_filterMap.mp hhunk
  rw [chunk] at hchunk
  split at hchunk
  · cases hchunk
    rw [Hunk.offset, chunkOffset]
    dsimp only
    omega
  · cases hchunk

/-- The bytes a chunk writes, where it writes them. -/
theorem run_of_chunk {T : Bytes} {k : Nat} {hunk : Hunk} (h : chunk T k = some hunk) :
    hunk.record.run = ⟨chunkOffset k, slice T (chunkOffset k) 65535⟩ ∧
      (chunkOffset k).val < T.length := by
  rw [chunk] at h
  split at h
  · rename_i hin
    cases h
    refine ⟨?_, hin⟩
    have hoffset := (chunkOffset k).isLt
    rw [Record.run, Record.bytes, Hunk.record]
    dsimp only
    rw [if_neg Bool.false_ne_true, UInt32.toNat_ofNat', Nat.mod_eq_of_lt (by omega)]
  · cases h

/-- Every position within reach lies in a chunk. -/
theorem exists_chunk_covering {T : Bytes} {i : Nat} (hin : i < T.length) (hreach : i < reach) :
    ∃ hunk ∈ chunks T, hunk.record.run.Covers i := by
  -- the chunks stand end to end, but for the last, which starts at the highest offset there is
  obtain ⟨k, hk, hstart, hstop⟩ : ∃ k < 258, (chunkOffset k).val ≤ i ∧
      i < (chunkOffset k).val + 65535 := by
    rw [reach] at hreach
    by_cases hlast : i < 2 ^ 24 - 1
    · refine ⟨i / 65535, by omega, ?_, ?_⟩
      · rw [chunkOffset]; dsimp only; omega
      · rw [chunkOffset]; dsimp only; omega
    · refine ⟨257, by omega, ?_, ?_⟩
      · rw [chunkOffset]; dsimp only; omega
      · rw [chunkOffset]; dsimp only; omega
  have hlong : (chunkOffset k).val < T.length := Nat.lt_of_le_of_lt hstart hin
  have hchunk : chunk T k = some _ := dif_pos hlong
  refine ⟨_, List.mem_filterMap.mpr ⟨k, List.mem_range.mpr hk, hchunk⟩, ?_⟩
  rw [(run_of_chunk hchunk).1]
  refine ⟨hstart, ?_⟩
  rw [Run.stop, slice, List.length_take, List.length_drop]
  dsimp only
  omega

/-- **The chunks of a target turn every source into it** that is no longer and does not differ from it
out of their reach. -/
theorem foldl_write_chunks {S T : Bytes} (hlength : S.length ≤ T.length)
    (hfar : S.drop reach = T.drop reach) :
    ((chunks T).map fun hunk => hunk.record.run).foldl (Run.write 0) S = T := by
  -- a chunk writes what the target has at its place, and nothing behind its end
  have hcut : ∀ run ∈ (chunks T).map fun hunk => hunk.record.run,
      run.stop ≤ T.length ∧ ∀ i, run.Covers i → run.data[i - run.start]? = T[i]? := by
    intro run hrun
    obtain ⟨hunk, hhunk, rfl⟩ := List.mem_map.mp hrun
    obtain ⟨k, -, hchunk⟩ := List.mem_filterMap.mp hhunk
    obtain ⟨hrun, hin⟩ := run_of_chunk hchunk
    rw [hrun]
    constructor
    · rw [Run.stop, slice, List.length_take, List.length_drop]
      dsimp only
      omega
    · rintro i ⟨hstart, hstop⟩
      rw [Run.stop, slice, List.length_take] at hstop
      dsimp only at hstart hstop ⊢
      rw [slice, List.getElem?_take_of_lt (by omega), List.getElem?_drop,
        Nat.add_sub_cancel' hstart]
  -- a position within reach is covered by a chunk, any other is the same in both files
  refine Run.foldl_write_eq_of_cut 0 hlength (fun run hrun => (hcut run hrun).1)
    (fun run hrun => (hcut run hrun).2) fun i hi => ?_
  by_cases hreach : i < reach
  · obtain ⟨hunk, hhunk, hcovers⟩ := exists_chunk_covering hi hreach
    exact .inl ⟨_, List.mem_map_of_mem hhunk, hcovers⟩
  · right
    have hsame := congrArg (fun bytes : Bytes => bytes[i - reach]?) hfar
    simpa only [List.getElem?_drop, Nat.add_sub_cancel' (Nat.not_lt.mp hreach)] using hsame

/-! ### What can be reached -/

/-- An IPS patch shortens nothing and leaves alone what its records do not reach. -/
theorem reach_of_apply {patch : IPSPatch} {S T : Bytes} (hS : S.length ≤ maxSize)
    {options : PatchOptions} (h : patch.apply S options = .ok T) :
    S.length ≤ T.length ∧ S.drop reach = T.drop reach := by
  rw [IPSPatch.apply_eq_foldl_write patch hS] at h
  cases h
  change S.length ≤ (patch.runs.foldl (Run.write 0) S).length ∧
    S.drop reach = (patch.runs.foldl (Run.write 0) S).drop reach
  have hlength := Run.length_foldl_write 0 patch.runs S
  have hstop : Run.furthestStop patch.runs 0 ≤ reach :=
    Run.furthestStop_le (Nat.zero_le _) IPSPatch.stop_le_reach
  rw [Run.furthestStop_eq_max] at hlength
  refine ⟨by omega, ?_⟩
  apply List.ext_getElem
  · rw [List.length_drop, List.length_drop]; omega
  · intro i h₁ h₂
    rw [List.length_drop] at h₁ h₂
    -- no record covers a position out of reach, so it keeps the byte of the source
    have hnone := Run.lastAt_eq_none_of_furthestStop_le (Nat.le_trans hstop (Nat.le_add_right reach i))
    have hheld := Run.getD_foldl_write 0 patch.runs S (reach + i)
    rw [hnone, Option.getD_none, List.getD_eq_getElem _ _ (by omega),
      List.getD_eq_getElem _ _ (by omega)] at hheld
    rw [List.getElem_drop, List.getElem_drop, hheld]

/-- **What IPS patches can do.** For a source that fits a vector and any target: some file loads as an
IPS patch that turns the one into the other exactly if the target is no shorter and the two do not
differ from the byte 16842750 on. Then the file of the target's chunks is one, and with it `apply_patch`
writes the target, and nothing else. -/
theorem exists_patch_iff {S T : Bytes} (hS : S.length ≤ maxSize) (options : PatchOptions) :
    ((∃ P patch, loadPatchFromMemory P = .ok (.ips patch) ∧ patch.apply S options = .ok T) ↔
        S.length ≤ T.length ∧ S.drop 16842750 = T.drop 16842750) ∧
      (S.length ≤ T.length ∧ S.drop 16842750 = T.drop 16842750 →
        ∀ (patchPath sourcePath outputPath : Path) (world : World),
          world.files patchPath = some (serialize (chunks T) []) → world.files sourcePath = some S →
          ∃ n, applyPatch {} patchPath sourcePath outputPath options world
            = (.ok (), ({ world with reads := n } : World).put outputPath T)) := by
  have hreach : 16842750 = reach := rfl
  have hload := loadPatchFromMemory_eq_ok_iff.mpr
    (show Patch.LoadedBy (.ips _) _ from load_serialized [] (chunks_reserved T))
  have happly : S.length ≤ T.length ∧ S.drop 16842750 = T.drop 16842750 →
      IPSPatch.apply ⟨serialize (chunks T) [], false, (chunks T).map Hunk.record⟩ S options
        = .ok T := by
    rintro ⟨hlength, hfar⟩
    rw [IPSPatch.apply_eq_foldl_write _ hS, List.map_map]
    exact congrArg _ (foldl_write_chunks hlength (hreach ▸ hfar))
  refine ⟨⟨?_, fun h => ⟨_, _, hload, happly h⟩⟩, ?_⟩
  · rintro ⟨P, patch, -, h⟩
    exact hreach ▸ reach_of_apply hS h
  · intro h patchPath sourcePath outputPath world hpatch hsource
    exact applyPatch_of_makes patchPath sourcePath outputPath options world
      ⟨_, _, S, hpatch, hload, hsource, happly h⟩

/-- A target of two bytes is reached from a source of one, and not the other way. -/
theorem exists_patch_iff_growing :
    (∃ P patch, loadPatchFromMemory P = .ok (.ips patch) ∧ patch.apply [7] {} = .ok [1, 2]) ∧
      ¬ ∃ P patch, loadPatchFromMemory P = .ok (.ips patch) ∧ patch.apply [1, 2] {} = .ok [7] := by
  constructor
  · exact (exists_patch_iff (show ([7] : Bytes).length ≤ maxSize by decide) {}).1.mpr
      ⟨by decide, rfl⟩
  · intro h
    have hshort := ((exists_patch_iff (show ([1, 2] : Bytes).length ≤ maxSize by decide) {}).1.mp h).1
    exact absurd hshort (by decide)

end IUBPatch.IPS
