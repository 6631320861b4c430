import IUBPatch.Formats.IPSOverlay
import IUBPatch.PatchBase

/-! # IPS patches as functions

What two IPS patches have to share to do the same to every source, when they can be applied in either
order, and how two of them are made into one file. -/

namespace IUBPatch.IPS

/-- No record reaches further: the largest offset of three bytes, and the longest record behind it. -/
def reach : Nat := 2 ^ 24 - 1 + 65535

/-- A record ends within reach. -/
theorem Record.stop_le_reach (record : Record) : record.run.stop ≤ reach := by
  have hoffset := record.offset_lt
  have hlength := record.length.toNat_lt
  rw [Run.stop, Record.run, Record.length_bytes, reach]
  dsimp only
  omega

theorem reach_le_maxSize : reach ≤ maxSize := by decide

end IUBPatch.IPS

namespace IUBPatch.IPSPatch

open IPS

/-- The runs of the records in order. -/
def runs (patch : IPSPatch) : List (Run Byte) := patch.records.map Record.run

theorem stop_le_reach {patch : IPSPatch} : ∀ run ∈ patch.runs, run.stop ≤ reach := by
  intro run hrun
  obtain ⟨record, -, rfl⟩ := List.mem_map.mp hrun
  exact record.stop_le_reach

theorem stop_le_maxSize (patch : IPSPatch) : ∀ run ∈ patch.runs, run.stop ≤ maxSize :=
  fun run hrun => Nat.le_trans (stop_le_reach run hrun) reach_le_maxSize

instance : Nontrivial Byte := ⟨0, 1, by decide⟩

/-- The output of a patch, applied to a source that fits a vector, fits one too. -/
theorem length_foldl_write_le (patch : IPSPatch) {source : Bytes} (hsource : source.length ≤ maxSize) :
    (patch.runs.foldl (Run.write 0) source).length ≤ maxSize := by
  rw [Run.length_foldl_write]
  exact Run.furthestStop_le hsource patch.stop_le_maxSize

/-- The byte that the patch leaves at a position, if it writes one there: that of the last record over
it. -/
def lastByte (patch : IPSPatch) (i : Nat) : Option Byte := Run.lastAt patch.runs i

/-- Apply a second patch to what the first one makes. -/
def applyBoth (first second : IPSPatch) (source : Bytes) (options : PatchOptions) : Call Bytes := do
  let output ← first.apply source options
  second.apply output options

theorem applyBoth_eq (first second : IPSPatch) {source : Bytes} (hsource : source.length ≤ maxSize)
    (options : PatchOptions) :
    applyBoth first second source options
      = .ok (second.runs.foldl (Run.write 0) (first.runs.foldl (Run.write 0) source)) := by
  rw [applyBoth, apply_eq_foldl_write first hsource, Outcome.ok_bind]
  exact apply_eq_foldl_write second (first.length_foldl_write_le hsource) options

/-- **When two patches do the same.** They make the same of every source exactly if they report the same
target size and leave the same byte, or none, at every position. -/
theorem apply_eq_apply_iff (p q : IPSPatch) (options : PatchOptions) :
    (∀ source : Bytes, source.length ≤ maxSize → p.apply source options = q.apply source options) ↔
      p.getMetadata = q.getMetadata ∧ ∀ i, p.lastByte i = q.lastByte i := by
  have htarget : p.getMetadata = q.getMetadata ↔
      Run.furthestStop p.runs 0 = Run.furthestStop q.runs 0 := by
    -- the target size is all that the metadata of two patches can differ in
    have hmetadata : ∀ patch : IPSPatch, patch.getMetadata = .ok _ := fun _ => rfl
    have hp := targetSize_of_getMetadata (hmetadata p)
    have hq := targetSize_of_getMetadata (hmetadata q)
    rw [runs, runs, ← hp, ← hq, UInt64.toNat_inj]
    constructor
    · intro h
      exact congrArg PatchMetadata.targetSize (Except.ok.inj h)
    · intro h
      rw [getMetadata, getMetadata, Except.ok.injEq, PatchMetadata.mk.injEq]
      exact ⟨rfl, rfl, h, rfl, rfl, rfl⟩
  rw [htarget]
  simp only [lastByte]
  -- what is left is when two lists of runs leave the same on every buffer
  rw [← Run.foldl_write_eq_iff 0 p.stop_le_maxSize q.stop_le_maxSize]
  refine forall_congr' fun source => forall_congr' fun hsource => ?_
  rw [apply_eq_foldl_write p hsource, apply_eq_foldl_write q hsource, Outcome.ok.injEq]
  rfl

/-- Two patches can be applied in either order to every source exactly if they leave the same byte
wherever both write. -/
theorem applyBoth_comm (p q : IPSPatch) (options : PatchOptions) :
    (∀ source : Bytes, source.length ≤ maxSize →
        applyBoth p q source options = applyBoth q p source options) ↔
      ∀ i a b, p.lastByte i = some a → q.lastByte i = some b → a = b := by
  simp only [lastByte]
  rw [← Run.foldl_write_comm_iff 0 p.stop_le_maxSize q.stop_le_maxSize]
  refine forall_congr' fun source => forall_congr' fun hsource => ?_
  rw [applyBoth_eq p q hsource, applyBoth_eq q p hsource, Outcome.ok.injEq]

/-- The records of one patch behind those of another do what the two do in that order. -/
theorem applyBoth_of_append {p q merged : IPSPatch} (h : merged.records = p.records ++ q.records)
    {source : Bytes} (hsource : source.length ≤ maxSize) (options : PatchOptions) :
    merged.apply source options = applyBoth p q source options := by
  rw [apply_eq_foldl_write merged hsource, applyBoth_eq p q hsource, h, List.map_append,
    List.foldl_append, runs, runs]

/-- **Two patch files in one, and in either order.** For hunks none of which starts at the reserved
offset: the file of the hunks of two files, one after the other, loads as a patch that does to every
source what the two do in that order; and the order makes no difference to any source exactly if the
two leave the same byte wherever both write. -/
theorem merged_files {first second : List Hunk} (hfirst : ∀ hunk ∈ first, hunk.offset ≠ 0x454F46)
    (hsecond : ∀ hunk ∈ second, hunk.offset ≠ 0x454F46) (options : PatchOptions) :
    ∃ p q both, loadPatchFromMemory (serialize first []) = .ok (.ips p) ∧
      loadPatchFromMemory (serialize second []) = .ok (.ips q) ∧
      loadPatchFromMemory (serialize (first ++ second) []) = .ok (.ips both) ∧
      (∀ source : Bytes, source.length ≤ maxSize →
        both.apply source options = applyBoth p q source options) ∧
      ((∀ source : Bytes, source.length ≤ maxSize →
          applyBoth p q source options = applyBoth q p source options) ↔
        ∀ i a b, p.lastByte i = some a → q.lastByte i = some b → a = b) := by
  have hboth : ∀ hunk ∈ first ++ second, hunk.offset ≠ 0x454F46 := by
    intro hunk hhunk
    rcases List.mem_append.mp hhunk with hhunk | hhunk
    · exact hfirst hunk hhunk
    · exact hsecond hunk hhunk
  refine ⟨_, _, _, loadPatchFromMemory_eq_ok_iff.mpr (load_serialized [] hfirst),
    loadPatchFromMemory_eq_ok_iff.mpr (load_serialized [] hsecond),
    loadPatchFromMemory_eq_ok_iff.mpr (load_serialized [] hboth), ?_, applyBoth_comm _ _ options⟩
  intro source hsource
  exact applyBoth_of_append List.map_append hsource options

/-- Two patches of the same position. -/
theorem merged_files_overlapping : ∃ p q both,
    loadPatchFromMemory (serialize [.rle 0 1 0x41] []) = .ok (.ips p) ∧
    loadPatchFromMemory (serialize [.rle 0 1 0x42] []) = .ok (.ips q) ∧
    loadPatchFromMemory (serialize [.rle 0 1 0x41, .rle 0 1 0x42] []) = .ok (.ips both) ∧
    both.apply [7] {} = applyBoth p q [7] {} := by
  obtain ⟨p, q, both, hp, hq, hboth, hsame, -⟩ := merged_files
    (show ∀ hunk ∈ [Hunk.rle 0 1 0x41], hunk.offset ≠ 0x454F46 by decide)
    (show ∀ hunk ∈ [Hunk.rle 0 1 0x42], hunk.offset ≠ 0x454F46 by decide) {}
  exact ⟨p, q, both, hp, hq, hboth, hsame [7] (by decide)⟩

end IUBPatch.IPSPatch
