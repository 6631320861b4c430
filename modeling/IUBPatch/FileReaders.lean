import IUBPatch.FileIO

/-! # The two file readers

`open_file_reader` hands out a memory-mapped reader where the mapping succeeds, and a buffered one
otherwise. The two agree on every file but the empty one, which is never mapped: there the mapped reader
reports its size and refuses every read. -/

namespace IUBPatch

/-! ### Memory-mapped files -/

/-- Which calls of opening a file as a memory map fail. -/
structure MappingFaults where
  openFails : Bool := false
  statFails : Bool := false
  mmapFails : Bool := false

/-- `MappedFileReader::Impl`: no data where the pointer is null. Opening never leaves `impl_` null. -/
structure MappedFileReader where
  mappedData : Option Bytes
  fileSize : UInt64
  deriving DecidableEq, Repr

/-- The error of a file without a size. -/
def cannotStatError (path : Path) : ErrorInfo :=
  { code := .fileReadError, message := "Cannot stat file: " ++ path }

/-- The error of a file that cannot be mapped. -/
def mappingFailedError (path : Path) : ErrorInfo :=
  { code := .mmapFailed, message := "Memory mapping failed: " ++ path }

/-- The error of a reader without mapped data. -/
def noMappedDataError : ErrorInfo := { code := .mmapFailed, message := "No mapped data" }

/-- The error of a range that reaches past the file. -/
def readRangeError : ErrorInfo := { code := .invalidArgument, message := "Read range out of bounds" }

namespace MappedFileReader

/-- `MappedFileReader::open`, with `IUB_ENABLE_MMAP`: an empty file is not mapped. -/
def openMap (faults : MappingFaults) (files : Path → Option Bytes) (path : Path) :
    Result MappedFileReader :=
  match files path with
  | none => .error (cannotOpenError path)
  | some data =>
    if faults.openFails then .error (cannotOpenError path)
    else if faults.statFails then .error (cannotStatError path)
    else if IUBPatch.size data > 0 then
      if faults.mmapFails then .error (mappingFailedError path)
      else .ok { mappedData := some data, fileSize := IUBPatch.size data }
    else .ok { mappedData := none, fileSize := IUBPatch.size data }

/-- `MappedFileReader::read_all`. -/
def readAll (reader : MappedFileReader) : Result Bytes :=
  match reader.mappedData with
  | none => .error noMappedDataError
  | some data => .ok (slice data 0 reader.fileSize.toNat)

/-- `MappedFileReader::size`. -/
def size (reader : MappedFileReader) : Result UInt64 := .ok reader.fileSize

/-- `MappedFileReader::read_range`; the end of the range is a 64-bit sum. -/
def readRange (reader : MappedFileReader) (offset length : UInt64) : Result Bytes :=
  match reader.mappedData with
  | none => .error noMappedDataError
  | some data =>
    if offset + length > reader.fileSize then .error readRangeError
    else .ok (slice data offset.toNat length.toNat)

end MappedFileReader

/-! ### Buffered files -/

namespace BufferedFileReader

/-- `BufferedFileReader::size`. -/
def size (reader : BufferedFileReader) : Result UInt64 := .ok reader.fileSize

/-- `BufferedFileReader::read_range`; the end of the range is a 64-bit sum. -/
def readRange (reader : BufferedFileReader) (offset length : UInt64) : Result Bytes :=
  if offset + length > reader.fileSize then .error readRangeError
  else .ok (slice reader.data offset.toNat length.toNat)

end BufferedFileReader

/-! ### Either reader -/

/-- `FileReader`: an object of one of its two derived classes. -/
inductive FileReader where
  | mapped (reader : MappedFileReader)
  | buffered (reader : BufferedFileReader)
  deriving DecidableEq, Repr

namespace FileReader

/-- `FileReader::read_all`. -/
def readAll : FileReader → Result Bytes
  | mapped reader => reader.readAll
  | buffered reader => reader.readAll

/-- `FileReader::size`. -/
def size : FileReader → Result UInt64
  | mapped reader => reader.size
  | buffered reader => reader.size

/-- `FileReader::read_range`. -/
def readRange (reader : FileReader) (offset length : UInt64) : Result Bytes :=
  match reader with
  | mapped reader => reader.readRange offset length
  | buffered reader => reader.readRange offset length

/-- `open_file_reader`: what goes wrong with the mapping is forgotten, and the file buffered. -/
def openFileReader (faults : MappingFaults) (env : Environment) (path : Path) (preferMmap : Bool) :
    FileM FileReader :=
  let openBuffered : FileM FileReader := do
    let reader ← IUBPatch.openFileReader env path
    pure (buffered reader)
  fun world =>
    if preferMmap then
      match MappedFileReader.openMap faults world.files path with
      | .ok reader => (.ok (mapped reader), world)
      | .error _ => openBuffered world
    else openBuffered world

/-- Where the mapping fails, the preference for it makes no difference. -/
theorem openFileReader_of_openMap_error {faults : MappingFaults} {world : World} {path : Path}
    {e : ErrorInfo} (h : MappedFileReader.openMap faults world.files path = .error e)
    (env : Environment) :
    openFileReader faults env path true world = openFileReader faults env path false world := by
  simp only [openFileReader, h, if_true]
  rfl

/-! ### What a reader of given bytes answers -/

/-- The reader answers as a reader of the bytes `c` does, to every range that ends below 2⁶⁴. -/
structure Serves (reader : FileReader) (c : Bytes) : Prop where
  size : reader.size = .ok (IUBPatch.size c)
  readAll : reader.readAll = .ok c
  readRange : ∀ offset length : UInt64, offset.toNat + length.toNat < 2 ^ 64 →
    reader.readRange offset length =
      if offset.toNat + length.toNat ≤ c.length then .ok (slice c offset.toNat length.toNat)
      else .error readRangeError

/-- No size, no read of all and no range that ends below 2⁶⁴ tells the two readers apart. -/
structure Interchangeable (reader reader' : FileReader) : Prop where
  size : reader.size = reader'.size
  readAll : reader.readAll = reader'.readAll
  readRange : ∀ offset length : UInt64, offset.toNat + length.toNat < 2 ^ 64 →
    reader.readRange offset length = reader'.readRange offset length

/-- Two readers of the same bytes are interchangeable. -/
theorem Serves.interchangeable {reader reader' : FileReader} {c : Bytes} (h : reader.Serves c)
    (h' : reader'.Serves c) : Interchangeable reader reader' where
  size := h.size.trans h'.size.symm
  readAll := h.readAll.trans h'.readAll.symm
  readRange offset length hend := by rw [h.readRange offset length hend, h'.readRange offset length hend]

/-- The check of a range that ends below 2⁶⁴ is exact. -/
theorem readRange_check {c : Bytes} (hfits : c.length ≤ maxSize) {offset length : UInt64}
    (hend : offset.toNat + length.toNat < 2 ^ 64) :
    (if offset + length > IUBPatch.size c then .error readRangeError
      else .ok (slice c offset.toNat length.toNat) : Result Bytes)
      = if offset.toNat + length.toNat ≤ c.length then .ok (slice c offset.toNat length.toNat)
        else .error readRangeError := by
  have hsum : (offset + length).toNat = offset.toNat + length.toNat := by
    rw [UInt64.toNat_add, Nat.mod_eq_of_lt hend]
  have hcheck : offset + length > IUBPatch.size c ↔ ¬ offset.toNat + length.toNat ≤ c.length := by
    rw [gt_iff_lt, UInt64.lt_iff_toNat_lt, hsum, toNat_size hfits, Nat.not_le]
  by_cases hin : offset.toNat + length.toNat ≤ c.length
  · rw [if_neg (mt hcheck.mp (not_not.mpr hin)), if_pos hin]
  · rw [if_pos (hcheck.mpr hin), if_neg hin]

/-- A buffered file is served, the empty one too. -/
theorem serves_buffered {c : Bytes} (hfits : c.length ≤ maxSize) :
    (buffered { data := c, fileSize := IUBPatch.size c }).Serves c where
  size := rfl
  readAll := rfl
  readRange _ _ hend := readRange_check hfits hend

/-- A mapped file is served. -/
theorem serves_mapped {c : Bytes} (hfits : c.length ≤ maxSize) :
    (mapped { mappedData := some c, fileSize := IUBPatch.size c }).Serves c where
  size := rfl
  readAll := by
    show Except.ok (slice c 0 (IUBPatch.size c).toNat) = _
    rw [toNat_size hfits, slice, List.drop_zero, List.take_length]
  readRange _ _ hend := readRange_check hfits hend

/-! ### The two ways to open a file -/

/-- Without faults the mapping has the bytes of the file, or of an empty file none. -/
theorem openMap_faultless {files : Path → Option Bytes} {path : Path} {c : Bytes}
    (hfile : files path = some c) (hfits : c.length ≤ maxSize) :
    MappedFileReader.openMap {} files path
      = .ok { mappedData := if c = [] then none else some c, fileSize := IUBPatch.size c } := by
  rw [MappedFileReader.openMap, hfile]
  have hpos : IUBPatch.size c > 0 ↔ c ≠ [] := by
    rw [gt_iff_lt, UInt64.lt_iff_toNat_lt, toNat_size hfits, ← List.length_pos_iff]
    rfl
  by_cases hempty : c = []
  · rw [if_pos hempty]
    simp only [Bool.false_eq_true, if_false]
    rw [if_neg (mt hpos.mp (not_not.mpr hempty))]
  · rw [if_neg hempty]
    simp only [Bool.false_eq_true, if_false]
    rw [if_pos (hpos.mpr hempty)]

/-- Without faults the buffer has the bytes of the file. -/
theorem openBuffered_faultless {world : World} {path : Path} {c : Bytes}
    (hfile : world.files path = some c) (faults : MappingFaults) :
    (openFileReader faults {} path false world).1
      = .ok (buffered { data := c, fileSize := IUBPatch.size c }) := by
  have hopen : IUBPatch.openFileReader {} path world
      = (.ok { data := c, fileSize := IUBPatch.size c }, { world with reads := world.reads + 1 }) := by
    rw [IUBPatch.openFileReader, readOutcome_faultless hfile]
    rfl
  simp only [openFileReader, Bool.false_eq_true, if_false]
  rw [Effect.bind_apply_ok hopen]
  rfl

/-- Whatever goes wrong while a file is being mapped, the reader handed out serves its content: the
fallback is sound. Only a mapping that succeeds can do worse. -/
theorem serves_of_openMap_error {faults : MappingFaults} {world : World} {path : Path} {c : Bytes}
    {e : ErrorInfo} (hfile : world.files path = some c) (hfits : c.length ≤ maxSize)
    (h : MappedFileReader.openMap faults world.files path = .error e) :
    ∃ reader : FileReader, (openFileReader faults {} path true world).1 = .ok reader ∧
      reader.Serves c := by
  rw [openFileReader_of_openMap_error h]
  exact ⟨_, openBuffered_faultless hfile faults, serves_buffered hfits⟩

/-- **When the two readers are interchangeable.** Without faults, for a file of any content: opening it
with and without the preference for a mapping gives two readers, of which the buffered one serves the
content; the other does the same exactly if the file is not empty. -/
theorem interchangeable_iff {world : World} {path : Path} {c : Bytes}
    (hfile : world.files path = some c) (hfits : c.length ≤ maxSize) :
    ∃ preferred plain : FileReader,
      (openFileReader {} {} path true world).1 = .ok preferred ∧
      (openFileReader {} {} path false world).1 = .ok plain ∧
      plain.Serves c ∧ (Interchangeable preferred plain ↔ c ≠ []) := by
  refine ⟨mapped { mappedData := if c = [] then none else some c, fileSize := IUBPatch.size c },
    buffered { data := c, fileSize := IUBPatch.size c }, ?_, openBuffered_faultless hfile {},
    serves_buffered hfits, ?_⟩
  · simp only [openFileReader, openMap_faultless hfile hfits, if_true]
  · constructor
    · rintro h rfl
      -- the buffer of an empty file is read, its missing mapping is not
      cases h.readAll
    · intro hne
      rw [if_neg hne]
      exact (serves_mapped hfits).interchangeable (serves_buffered hfits)

/-- A file system with one file. -/
def oneFile (path : Path) (c : Bytes) : World where
  files := Function.update (fun _ => none) path (some c)

/-- An empty file: both readers open and report its size, and only the buffered one reads it. -/
theorem not_interchangeable_empty :
    ∃ preferred plain : FileReader,
      (openFileReader {} {} "rom" true (oneFile "rom" [])).1 = .ok preferred ∧
      (openFileReader {} {} "rom" false (oneFile "rom" [])).1 = .ok plain ∧
      preferred.size = .ok 0 ∧ plain.size = .ok 0 ∧
      preferred.readAll = .error noMappedDataError ∧ plain.readAll = .ok [] ∧
      preferred.readRange 0 0 = .error noMappedDataError ∧ plain.readRange 0 0 = .ok [] :=
  ⟨mapped { mappedData := none, fileSize := 0 }, buffered { data := [], fileSize := 0 },
    by decide, by decide, rfl, rfl, rfl, rfl, rfl, by decide⟩

/-- The readers of a file of one byte. -/
theorem interchangeable_oneByte :
    ∃ preferred plain : FileReader,
      (openFileReader {} {} "rom" true (oneFile "rom" [7])).1 = .ok preferred ∧
      (openFileReader {} {} "rom" false (oneFile "rom" [7])).1 = .ok plain ∧
      plain.Serves [7] ∧ (Interchangeable preferred plain ↔ ([7] : Bytes) ≠ []) :=
  interchangeable_iff (by decide) (by decide)

end FileReader

end IUBPatch
