import IUBPatch.Bytes
import IUBPatch.Lib.OutputStream
import Mathlib.Logic.Function.Basic

/-! # Files

The part of `io.cc` that the operations on files use, over a file system that maps paths to contents
and an environment that decides which of its calls fail. -/

namespace IUBPatch

/-- Paths are `std::string`s; different strings are different files. -/
abbrev Path := String

/-- The file system, with the number of files opened for reading so far. -/
structure World where
  files : Path → Option Bytes
  reads : Nat := 0

namespace World

/-- The file system with a file written. -/
def put (world : World) (path : Path) (data : Bytes) : World :=
  { world with files := Function.update world.files path (some data) }

/-- The file system with a file removed. -/
def erase (world : World) (path : Path) : World :=
  { world with files := Function.update world.files path none }

@[simp] theorem files_put (world : World) (path : Path) (data : Bytes) :
    (world.put path data).files = Function.update world.files path (some data) := rfl

@[simp] theorem files_erase (world : World) (path : Path) :
    (world.erase path).files = Function.update world.files path none := rfl

end World

/-- Which calls of an operation fail. Reads are told apart by how many came before; the others happen
at most once in an operation. -/
structure Environment where
  /-- The file opened as the `n`-th one for reading cannot be opened. -/
  openFails : Nat → Bool := fun _ => false
  /-- The `n`-th file opened for reading cannot be read. -/
  readFails : Nat → Bool := fun _ => false
  /-- `copy_file` throws; the destination is left alone or with some content. -/
  copyFault : Option (Option Bytes) := none
  /-- The file to write cannot be created. -/
  createFails : Bool := false
  /-- The transfers to the device during `write`. -/
  duringWrite : List Transfer := []
  /-- The transfer of `flush` fails after this many bytes. -/
  duringFlush : Option Nat := none
  /-- How many bytes the destructor brings to the device, from the start of the buffer. -/
  duringClose : Nat := 0
  /-- `remove` throws. -/
  removeFails : Bool := false
  /-- `rename` throws. -/
  renameFails : Bool := false
  /-- The `what()` of the exceptions thrown. -/
  what : String := ""

/-- A call on files. -/
abbrev FileM (α : Type) := Effect World ErrorInfo StdException α

variable (env : Environment)

/-! ### Reading -/

/-- `BufferedFileReader::Impl`. -/
structure BufferedFileReader where
  data : Bytes
  fileSize : UInt64
  deriving DecidableEq, Repr

/-- The error of a file that cannot be opened. -/
def cannotOpenError (path : Path) : ErrorInfo :=
  { code := .fileNotFound, message := "Cannot open file: " ++ path }

/-- The error of a file that cannot be read. -/
def cannotReadError (path : Path) : ErrorInfo :=
  { code := .fileReadError, message := "Cannot read file: " ++ path }

/-- What opening and reading the file at `path` comes to, as the `n`-th file opened for reading. -/
def readOutcome (files : Path → Option Bytes) (n : Nat) (path : Path) : Result Bytes :=
  match files path with
  | none => .error (cannotOpenError path)
  | some data =>
    if env.openFails n then .error (cannotOpenError path)
    else if env.readFails n then .error (cannotReadError path)
    else .ok data

/-- Without faults a file that is there is read. -/
theorem readOutcome_faultless {files : Path → Option Bytes} {path : Path} {data : Bytes}
    (h : files path = some data) (n : Nat) : readOutcome {} files n path = .ok data := by
  rw [readOutcome, h]
  rfl

/-- What was read is what the file holds. -/
theorem files_of_readOutcome {env : Environment} {files : Path → Option Bytes} {n : Nat} {path : Path}
    {data : Bytes} (h : readOutcome env files n path = .ok data) : files path = some data := by
  rw [readOutcome] at h
  split at h
  · cases h
  · rename_i contents hfiles
    by_cases hopen : env.openFails n = true
    · rw [if_pos hopen] at h; cases h
    · by_cases hread : env.readFails n = true
      · rw [if_neg hopen, if_pos hread] at h; cases h
      · rw [if_neg hopen, if_neg hread] at h; cases h; exact hfiles

/-- `BufferedFileReader::open`, by way of `open_file_reader` without memory mapping: the whole file is
read at once. -/
def openFileReader (path : Path) : FileM BufferedFileReader := fun world =>
  (.ofExcept ((readOutcome env world.files world.reads path).map fun data =>
      { data, fileSize := size data }),
    { world with reads := world.reads + 1 })

/-- `BufferedFileReader::read_all`. -/
def BufferedFileReader.readAll (reader : BufferedFileReader) : Result Bytes := .ok reader.data

/-- `read_file`. -/
def readFile (path : Path) : FileM Bytes := do
  let reader ← openFileReader env path
  Effect.lift (.ofExcept reader.readAll)

/-- Reading a file changes no file. -/
theorem readFile_apply (path : Path) (world : World) :
    readFile env path world
      = (.ofExcept (readOutcome env world.files world.reads path),
          { world with reads := world.reads + 1 }) := by
  rw [readFile, Effect.bind_apply, openFileReader]
  cases readOutcome env world.files world.reads path with
  | error e => rfl
  | ok data => rfl

/-! ### Writing -/

/-- The error of a file that cannot be created. -/
def cannotCreateError (path : Path) : ErrorInfo :=
  { code := .fileWriteError, message := "Cannot create file: " ++ path }

/-- The error of a write that sets the failure state. -/
def writeError : ErrorInfo := { code := .fileWriteError, message := "Write failed" }

/-- `BufferedFileWriter::create`, by way of `create_file_writer`: an empty file. -/
def createFileWriter (path : Path) : Result (OutputStream Byte Bytes) :=
  if env.createFails then .error (cannotCreateError path) else .ok (.opened [])

/-- `BufferedFileWriter::write`: the stream after it, and the result. -/
def BufferedFileWriter.write (writer : OutputStream Byte Bytes) (data : Bytes) :
    Result Unit × OutputStream Byte Bytes :=
  let writer := OutputStream.write .appending writer data env.duringWrite
  (if writer.good then .ok () else .error writeError, writer)

/-- `BufferedFileWriter::flush`: the failure state is not looked at. -/
def BufferedFileWriter.flush (writer : OutputStream Byte Bytes) :
    Result Unit × OutputStream Byte Bytes :=
  (.ok (), OutputStream.flush .appending writer env.duringFlush)

/-- `write_file`. The writer is destroyed, and its file closed, on every way out. -/
def writeFile (path : Path) (data : Bytes) : FileM Unit := fun world =>
  match createFileWriter env path with
  | .error e => (.error e, world)
  | .ok writer =>
    let (written, writer) := BufferedFileWriter.write env writer data
    match written with
    | .error e => (.error e, world.put path (writer.close .appending env.duringClose))
    | .ok () =>
      let (flushed, writer) := BufferedFileWriter.flush env writer
      (.ofExcept flushed, world.put path (writer.close .appending env.duringClose))

/-- `write_file` reports a failure: the file cannot be created, or a transfer during `write` fails. -/
def Environment.WriteFails : Prop :=
  env.createFails = true ∨ ∃ t ∈ env.duringWrite, t.fails = true

instance : Decidable env.WriteFails :=
  inferInstanceAs (Decidable (_ ∨ ∃ t ∈ env.duringWrite, t.fails = true))

/-- What is on the device after `write_file` reported success. -/
def landed (data : Bytes) : Bytes :=
  OutputStream.reached data env.duringWrite env.duringFlush env.duringClose

/-- **What `write_file` does**: it fails as the environment says, with some bytes in the file if that
was created, or reports success with what landed in the file. -/
theorem writeFile_apply (path : Path) (data : Bytes) (world : World) :
    (env.WriteFails ∧ ∃ e world', writeFile env path data world = (.error e, world') ∧
        (world' = world ∨ ∃ part, world' = world.put path part)) ∨
      (¬ env.WriteFails ∧ writeFile env path data world
        = (.ok (), world.put path (landed env data))) := by
  rw [writeFile, createFileWriter, Environment.WriteFails]
  by_cases hcreate : env.createFails = true
  · rw [if_pos hcreate]
    exact .inl ⟨.inl hcreate, _, _, rfl, .inl rfl⟩
  · rw [if_neg hcreate]
    simp only [BufferedFileWriter.write, BufferedFileWriter.flush]
    have hiff : ((OutputStream.opened []).write .appending data env.duringWrite).good = true ↔
        ∀ t ∈ env.duringWrite, t.fails = false :=
      (OutputStream.good_write_iff data env.duringWrite).trans (and_iff_right rfl)
    by_cases hgood : ((OutputStream.opened []).write .appending data env.duringWrite).good = true
    · rw [if_pos hgood]
      have htransfers := hiff.mp hgood
      right
      refine ⟨?_, ?_⟩
      · rintro (hcreate' | ⟨t, ht, hfails⟩)
        · exact hcreate hcreate'
        · rw [htransfers t ht] at hfails; cases hfails
      · rw [OutputStream.close_flush_write [] htransfers, landed]
        rfl
    · rw [if_neg hgood]
      -- a failure state is the trace of a failed transfer
      have hfailing : ∃ t ∈ env.duringWrite, t.fails = true := by
        by_contra hnone
        refine hgood (hiff.mpr fun t ht => ?_)
        by_contra hfails
        exact hnone ⟨t, ht, by simpa using hfails⟩
      exact .inl ⟨.inr hfailing, _, _, rfl, .inr ⟨_, rfl⟩⟩

/-! ### The rest of the file system -/

/-- `std::filesystem::copy_file` with `overwrite_existing`: throws if there is no such file, or if the
two paths are one file. -/
def copyFile (source target : Path) : FileM Unit := fun world =>
  match world.files source with
  | none => (.throws (.filesystemError env.what), world)
  | some data =>
    if source = target then (.throws (.filesystemError env.what), world)
    else match env.copyFault with
      | some none => (.throws (.filesystemError env.what), world)
      | some (some part) => (.throws (.filesystemError env.what), world.put target part)
      | none => (.ok (), world.put target data)

/-- `std::filesystem::remove`: no file is no error. -/
def removeFile (path : Path) : FileM Unit := fun world =>
  if env.removeFails then (.throws (.filesystemError env.what), world)
  else (.ok (), world.erase path)

/-- `std::filesystem::rename`, which replaces an existing target. -/
def renameFile (source target : Path) : FileM Unit := fun world =>
  match world.files source with
  | none => (.throws (.filesystemError env.what), world)
  | some data =>
    if env.renameFails then (.throws (.filesystemError env.what), world)
    else (.ok (), (world.erase source).put target data)

end IUBPatch
