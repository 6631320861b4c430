import IUBPatch.Formats.IPSRoundTrip
import IUBPatch.Lib.Overwrites

/-! # IPS application in closed form

The replayer writes record after record over a buffer that grows as far as each record needs. What a
position holds in the end is what the last record that covers it wrote there, whatever the order, the
overlaps and the gaps. -/

namespace IUBPatch

namespace IPS

namespace Record

/-- The bytes a record writes. -/
def bytes (record : Record) : Bytes :=
  if record.isRle then List.replicate record.rleSize.toNat record.rleValue else record.data

/-- The bytes of a record where it writes them. -/
def run (record : Record) : Run Byte := ⟨record.offset.toNat, record.bytes⟩

/-- The position lies in the range `[offset, offset + length)` of the record. -/
def Covers (record : Record) (position : Nat) : Prop :=
  record.offset.toNat ≤ position ∧ position < record.offset.toNat + record.length.toNat

instance (record : Record) (position : Nat) : Decidable (record.Covers position) :=
  inferInstanceAs (Decidable (_ ∧ _))

/-- The byte a record writes at a position it covers: its data byte, or its fill byte. -/
def byteAt (record : Record) (position : Nat) : Byte :=
  if record.isRle then record.rleValue else record.data.getD (position - record.offset.toNat) 0

@[simp] theorem length_bytes (record : Record) : record.bytes.length = record.length.toNat := by
  rw [bytes, length]
  split
  · exact List.length_replicate
  · exact record.length_data

theorem run_covers_iff (record : Record) (position : Nat) :
    record.run.Covers position ↔ record.Covers position := by
  rw [Run.Covers, Covers, Run.stop, run, length_bytes]

/-- The element of a record's run is the byte it writes. -/
theorem getElem?_bytes {record : Record} {position : Nat} (h : record.Covers position) :
    record.bytes[position - record.offset.toNat]? = some (record.byteAt position) := by
  have hin : position - record.offset.toNat < record.bytes.length := by
    rw [length_bytes]
    have := h.2
    have := h.1
    omega
  rw [List.getElem?_eq_getElem hin, Option.some.injEq, byteAt]
  cases hrle : record.isRle with
  | true => simp [bytes, hrle]
  | false =>
    have hdata : record.bytes = record.data := by rw [bytes, hrle, if_neg Bool.false_ne_true]
    rw [if_neg Bool.false_ne_true, List.getD_eq_getElem _ _ (hdata ▸ hin)]
    simp only [hdata]

/-- The end of a record is computed without overflow. -/
theorem toNat_end (record : Record) :
    (record.offset + record.length.toUInt32).toUInt64.toNat = record.run.stop := by
  have hoffset := record.offset_lt
  have hlength := record.length.toNat_lt
  rw [UInt32.toNat_toUInt64, UInt32.toNat_add, UInt16.toNat_toUInt32, Nat.mod_eq_of_lt (by omega),
    Run.stop, run, length_bytes]

/-- A record ends far below the largest size of a vector. -/
theorem stop_le (record : Record) : record.run.stop ≤ maxSize := by
  have hoffset := record.offset_lt
  have hlength := record.length.toNat_lt
  rw [Run.stop, run, length_bytes, maxSize]
  dsimp only
  omega

end Record

end IPS

namespace IPSPatch

open IPS

/-- **One record**: the loop body writes the run of the record over the output. -/
theorem writeRecord_eq {output : Bytes} (hfit : output.length ≤ maxSize) (record : Record) :
    writeRecord output record = .ok (Run.write 0 output record.run) := by
  have hput : ∀ grown : Bytes, (if record.isRle then
        pure (overwrite grown record.offset.toNat
          (List.replicate record.rleSize.toNat record.rleValue))
      else pure (overwrite grown record.offset.toNat record.data) : Call Bytes)
        = .ok (overwrite grown record.offset.toNat record.bytes) := by
    intro grown
    rw [Record.bytes]
    split <;> rfl
  have hwrite : Run.write 0 output record.run
      = overwrite (output ++ List.replicate (record.run.stop - output.length) 0)
          record.offset.toNat record.bytes := rfl
  rw [writeRecord, hwrite]
  dsimp only
  by_cases hlong : (record.offset + record.length.toUInt32).toUInt64 > size output
  · -- the output grows to the end of the record
    have hlong' := UInt64.lt_iff_toNat_lt.mp hlong
    rw [toNat_size hfit, record.toNat_end] at hlong'
    rw [if_pos hlong, resize, record.toNat_end, if_pos record.stop_le, Outcome.ok_bind, hput,
      List.take_of_length_le (Nat.le_of_lt hlong')]
  · -- it is long enough
    have hshort := mt UInt64.lt_iff_toNat_lt.mpr hlong
    rw [toNat_size hfit, record.toNat_end] at hshort
    rw [if_neg hlong, Outcome.pure_eq, Outcome.ok_bind, hput,
      Nat.sub_eq_zero_of_le (Nat.not_lt.mp hshort), List.replicate_zero, List.append_nil]

/-- **All records**: the loop writes their runs one after the other. -/
theorem apply_eq_foldl_write (patch : IPSPatch) {source : Bytes} (hsource : source.length ≤ maxSize)
    (options : PatchOptions) :
    patch.apply source options
      = .ok ((patch.records.map Record.run).foldl (Run.write 0) source) := by
  rw [apply]
  induction patch.records generalizing source with
  | nil => rfl
  | cons record records ih =>
    have hfit : (Run.write 0 source record.run).length ≤ maxSize := by
      rw [Run.length_write]
      exact max_le hsource record.stop_le
    rw [List.foldlM_cons, writeRecord_eq hsource, Outcome.ok_bind, ih hfit, List.map_cons,
      List.foldl_cons]

/-- The target size of the metadata is the furthest end of a record. -/
theorem targetSize_of_getMetadata {patch : IPSPatch} {metadata : PatchMetadata}
    (h : patch.getMetadata = .ok metadata) :
    metadata.targetSize.toNat = Run.furthestStop (patch.records.map Record.run) 0 := by
  cases h
  dsimp only
  suffices general : ∀ (records : List Record) (furthest : UInt64),
      (records.foldl (fun maxOffset record =>
        let recEnd := (record.offset + record.length.toUInt32).toUInt64
        if recEnd > maxOffset then recEnd else maxOffset) furthest).toNat
      = Run.furthestStop (records.map Record.run) furthest.toNat from general patch.records 0
  intro records
  induction records with
  | nil => intro furthest; rfl
  | cons record records ih =>
    intro furthest
    have hcons : Run.furthestStop ((record :: records).map Record.run) furthest.toNat
        = Run.furthestStop (records.map Record.run) (max furthest.toNat record.run.stop) := rfl
    rw [List.foldl_cons, ih, hcons]
    congr 1
    dsimp only
    split
    · rename_i hlt
      have hlt' := UInt64.lt_iff_toNat_lt.mp hlt
      rw [record.toNat_end] at hlt' ⊢
      exact (Nat.max_eq_right (Nat.le_of_lt hlt')).symm
    · rename_i hle
      have hle' := mt UInt64.lt_iff_toNat_lt.mpr hle
      rw [record.toNat_end] at hle'
      exact (Nat.max_eq_left (Nat.not_lt.mp hle')).symm

/-- **IPS application is an overlay in which the last writer wins.** For every patch and every source
that fits a vector, `apply` returns an output as long as the longer of the source and the target size
of the metadata; a position holds the byte of the last record that covers it, or the source byte, or
zero past its end; and applying the patch to the output returns the output. -/
theorem apply_lastWriterWins (patch : IPSPatch) {source : Bytes} (hsource : source.length ≤ maxSize)
    (options : PatchOptions) :
    ∃ output metadata, patch.apply source options = .ok output ∧
      patch.getMetadata = .ok metadata ∧
      output.length = max source.length metadata.targetSize.toNat ∧
      (∀ position < output.length,
        (∀ before record after, patch.records = before ++ record :: after →
          record.Covers position → (∀ later ∈ after, ¬ later.Covers position) →
          output.getD position 0 = record.byteAt position) ∧
        ((∀ record ∈ patch.records, ¬ record.Covers position) →
          output.getD position 0 = source.getD position 0)) ∧
      patch.apply output options = .ok output := by
  have hlength := Run.length_foldl_write (0 : Byte) (patch.records.map Record.run) source
  have hoverlay := Run.getD_foldl_write (0 : Byte) (patch.records.map Record.run) source
  have hmetadata : patch.getMetadata = .ok _ := rfl
  have htarget := targetSize_of_getMetadata hmetadata
  refine ⟨_, _, patch.apply_eq_foldl_write hsource options, hmetadata, ?_, ?_, ?_⟩
  · rw [htarget, ← Run.furthestStop_eq_max]; exact hlength
  · intro position _
    constructor
    · intro before record after hsplit hcovers hlater
      have hlast : Run.lastAt (patch.records.map Record.run) position
          = record.bytes[position - record.offset.toNat]? := by
        rw [hsplit, List.map_append, List.map_cons]
        apply Run.lastAt_append_cons ((record.run_covers_iff position).mpr hcovers)
        intro run hrun
        obtain ⟨later, hmem, rfl⟩ := List.mem_map.mp hrun
        exact mt (later.run_covers_iff position).mp (hlater later hmem)
      rw [hoverlay, hlast, Record.getElem?_bytes hcovers, Option.getD_some]
    · intro hnone
      have hlast : Run.lastAt (patch.records.map Record.run) position = none := by
        apply Run.lastAt_eq_none
        intro run hrun
        obtain ⟨record, hmem, rfl⟩ := List.mem_map.mp hrun
        exact mt (record.run_covers_iff position).mp (hnone record hmem)
      rw [hoverlay, hlast, Option.getD_none]
  · -- the output fits a vector too, and the same runs change nothing in it
    have hfit : ((patch.records.map Record.run).foldl (Run.write 0) source).length ≤ maxSize := by
      rw [hlength]
      apply Run.furthestStop_le hsource
      intro run hrun
      obtain ⟨record, -, rfl⟩ := List.mem_map.mp hrun
      exact record.stop_le
    rw [patch.apply_eq_foldl_write hfit, Run.foldl_write_foldl_write]

/-- Two bytes at position 1, and behind them a run of two sevens at position 2. -/
def overlapping : IPSPatch where
  patchData := []
  isIps32Format := false
  records := [(Hunk.data 1 [5, 6] (by decide) (by decide)).record, (Hunk.rle 2 2 7).record]

/-- The records overlap at position 2, where the second one wins. -/
theorem apply_lastWriterWins_overlapping :
    ∃ output, overlapping.apply [9] {} = .ok output ∧ output.length = 4 ∧ output.getD 2 0 = 7 ∧
      overlapping.apply output {} = .ok output := by
  have hsource : ([9] : Bytes).length ≤ maxSize := by decide
  obtain ⟨output, metadata, happly, hmetadata, hlength, hpositions, hagain⟩ :=
    apply_lastWriterWins overlapping hsource {}
  cases hmetadata
  have hfour : output.length = 4 := hlength
  have hlast := (hpositions 2 (by omega)).1 [_] _ [] rfl (by decide) (by simp)
  exact ⟨output, happly, hfour, hlast, hagain⟩

end IPSPatch

end IUBPatch
