import IUBPatch.FileReaders

/-! # Reading a range of a file

Every reader checks a range by the 64-bit sum of its offset and its length. The check is exact as long
as that sum is; a request that takes it past `2^64` passes if what is left is at most the file size, and
the reader then forms a range outside the file. -/

namespace IUBPatch

/-! ### Memory-mapped files on Windows -/

/-- Which calls of opening a file as a memory map fail on Windows. -/
structure WindowsMappingFaults where
  openFails : Bool := false
  sizeFails : Bool := false
  mappingFails : Bool := false
  viewFails : Bool := false

namespace MappedFileReader

/-- `MappedFileReader::open` of `mmap_windows.cc`, with `IUB_ENABLE_MMAP`. The reads that follow are
those of `mmap_posix.cc`. -/
def openMapWindows (faults : WindowsMappingFaults) (files : Path → Option Bytes) (path : Path) :
    Result MappedFileReader :=
  match files path with
  | none => .error (cannotOpenError path)
  | some data =>
    if faults.openFails then .error (cannotOpenError path)
    else if faults.sizeFails then
      .error { code := .fileReadError, message := "Cannot get file size: " ++ path }
    else if IUBPatch.size data > 0 then
      if faults.mappingFails then
        .error { code := .mmapFailed, message := "Cannot create file mapping: " ++ path }
      else if faults.viewFails then
        .error { code := .mmapFailed, message := "Cannot map view of file: " ++ path }
      else .ok { mappedData := some data, fileSize := IUBPatch.size data }
    else .ok { mappedData := none, fileSize := IUBPatch.size data }

/-- Without faults both platforms open the same reader. -/
theorem openMapWindows_faultless (files : Path → Option Bytes) (path : Path) :
    openMapWindows {} files path = openMap {} files path := by
  rw [openMapWindows, openMap]
  cases files path with
  | none => rfl
  | some data => simp

end MappedFileReader

namespace FileReader

/-! ### Exact answers -/

/-- The reader answers the request exactly: with the bytes of the range where it lies in the file, and
with `InvalidArgument` where it does not. -/
def AnswersExactly (reader : FileReader) (c : Bytes) (offset length : UInt64) : Prop :=
  if offset.toNat + length.toNat ≤ c.length then
    reader.readRange offset length = .ok (slice c offset.toNat length.toNat)
  else ∃ e, reader.readRange offset length = .error e ∧ e.code = .invalidArgument

/-- The check of a range is a check of its end reduced to 64 bits. -/
theorem check_iff {c : Bytes} (hfits : c.length ≤ maxSize) (offset length : UInt64) :
    offset + length > IUBPatch.size c ↔ c.length < (offset.toNat + length.toNat) % 2 ^ 64 := by
  rw [gt_iff_lt, UInt64.lt_iff_toNat_lt, toNat_size hfits, UInt64.toNat_add]

/-- A reader that makes this check answers exactly if and only if the end of the range is a 64-bit
number, or wraps to more than the file size. -/
theorem answersExactly_iff {reader : FileReader} {c : Bytes} (hfits : c.length ≤ maxSize)
    (hread : ∀ offset length, reader.readRange offset length =
      if offset + length > IUBPatch.size c then .error readRangeError
      else .ok (slice c offset.toNat length.toNat)) (offset length : UInt64) :
    reader.AnswersExactly c offset length ↔
      offset.toNat + length.toNat < 2 ^ 64 ∨
        2 ^ 64 + c.length < offset.toNat + length.toNat := by
  have hoffset := offset.toNat_lt
  have hlength := length.toNat_lt
  rw [AnswersExactly, hread]
  by_cases hexact : offset.toNat + length.toNat < 2 ^ 64
  · refine iff_of_true ?_ (.inl hexact)
    rw [readRange_check hfits hexact]
    by_cases hin : offset.toNat + length.toNat ≤ c.length
    · rw [if_pos hin, if_pos hin]
    · rw [if_neg hin, if_neg hin]
      exact ⟨_, rfl, rfl⟩
  -- the end wraps once, and the range lies outside the file
  · have hwrapped : (offset.toNat + length.toNat) % 2 ^ 64
        = offset.toNat + length.toNat - 2 ^ 64 := by omega
    have hcheck := check_iff hfits offset length
    unfold maxSize at hfits
    rw [hwrapped] at hcheck
    rw [if_neg (by omega), or_iff_right hexact]
    by_cases hrejected : offset + length > IUBPatch.size c
    · have hover := hcheck.mp hrejected
      rw [if_pos hrejected]
      exact iff_of_true ⟨_, rfl, rfl⟩ (by omega)
    · have hpasses := mt hcheck.mpr hrejected
      rw [if_neg hrejected]
      refine iff_of_false ?_ (by omega)
      rintro ⟨e, h, -⟩
      cases h

theorem answersExactly_buffered_iff {c : Bytes} (hfits : c.length ≤ maxSize) (offset length : UInt64) :
    (buffered { data := c, fileSize := IUBPatch.size c }).AnswersExactly c offset length ↔
      offset.toNat + length.toNat < 2 ^ 64 ∨ 2 ^ 64 + c.length < offset.toNat + length.toNat :=
  answersExactly_iff hfits (fun _ _ => rfl) offset length

theorem answersExactly_mapped_iff {c : Bytes} (hfits : c.length ≤ maxSize) (offset length : UInt64) :
    (mapped { mappedData := some c, fileSize := IUBPatch.size c }).AnswersExactly c offset length ↔
      offset.toNat + length.toNat < 2 ^ 64 ∨ 2 ^ 64 + c.length < offset.toNat + length.toNat :=
  answersExactly_iff hfits (fun _ _ => rfl) offset length

/-- **When range reads are exact.** For every file that is not empty and every 64-bit offset and length:
the buffered reader and the mapped readers of both platforms answer exactly if and only if the end of
the range is below `2^64`, or past `2^64` by more than the file is long. -/
theorem readRange_exact_iff {world : World} {path : Path} {c : Bytes}
    (hfile : world.files path = some c) (hfits : c.length ≤ maxSize) (hne : c ≠ []) :
    ∃ (plain preferred : FileReader) (windows : MappedFileReader),
      (openFileReader {} {} path false world).1 = .ok plain ∧
      (openFileReader {} {} path true world).1 = .ok preferred ∧
      MappedFileReader.openMapWindows {} world.files path = .ok windows ∧
      ∀ reader ∈ [plain, preferred, mapped windows], ∀ offset length : UInt64,
        reader.AnswersExactly c offset length ↔
          offset.toNat + length.toNat < 2 ^ 64 ∨
            2 ^ 64 + c.length < offset.toNat + length.toNat := by
  have hmap := openMap_faultless hfile hfits
  rw [if_neg hne] at hmap
  have hpreferred : (openFileReader {} {} path true world).1
      = .ok (mapped { mappedData := some c, fileSize := IUBPatch.size c }) := by
    simp only [openFileReader, hmap, if_true]
  refine ⟨_, _, _, openBuffered_faultless hfile {}, hpreferred,
    (MappedFileReader.openMapWindows_faultless _ _).trans hmap, ?_⟩
  intro reader hreader
  simp only [List.mem_cons, List.not_mem_nil, or_false] at hreader
  rcases hreader with rfl | rfl | rfl
  · exact answersExactly_buffered_iff hfits
  · exact answersExactly_mapped_iff hfits
  · exact answersExactly_mapped_iff hfits

/-- One byte asked for right before a file of one byte: the end of the range wraps to zero, and every
reader lets the request pass. -/
theorem not_readRange_exact :
    ∃ (plain preferred : FileReader) (windows : MappedFileReader),
      (openFileReader {} {} "rom" false (oneFile "rom" [7])).1 = .ok plain ∧
      (openFileReader {} {} "rom" true (oneFile "rom" [7])).1 = .ok preferred ∧
      MappedFileReader.openMapWindows {} (oneFile "rom" [7]).files "rom" = .ok windows ∧
      ∀ reader ∈ [plain, preferred, mapped windows],
        ¬ reader.AnswersExactly [7] 0xFFFFFFFFFFFFFFFF 1 := by
  refine ⟨buffered { data := [7], fileSize := 1 }, mapped { mappedData := some [7], fileSize := 1 },
    { mappedData := some [7], fileSize := 1 }, by decide, by decide, by decide, ?_⟩
  intro reader hreader
  simp only [List.mem_cons, List.not_mem_nil, or_false] at hreader
  rcases hreader with rfl | rfl | rfl
  · exact mt (answersExactly_buffered_iff (by decide) _ _).mp (by decide)
  · exact mt (answersExactly_mapped_iff (by decide) _ _).mp (by decide)
  · exact mt (answersExactly_mapped_iff (by decide) _ _).mp (by decide)

/-- The readers of a file of one byte, at a range whose end wraps to one byte more. -/
theorem readRange_exact_oneByte :
    ∃ plain : FileReader, (openFileReader {} {} "rom" false (oneFile "rom" [7])).1 = .ok plain ∧
      plain.AnswersExactly [7] 0xFFFFFFFFFFFFFFFF 3 := by
  obtain ⟨plain, preferred, windows, hplain, -, -, hexact⟩ := readRange_exact_iff
    (show (oneFile "rom" [7]).files "rom" = some [7] by decide) (by decide) (by decide)
  exact ⟨plain, hplain, (hexact plain (by simp) 0xFFFFFFFFFFFFFFFF 3).mpr (.inr (by decide))⟩

end FileReader

end IUBPatch
