import IUBPatch.FileIO
import IUBPatch.PatchBase

/-! # Operations on patch files

`apply.cc` and the file side of the patch classes: loading a patch from a file, applying it from file
to file or in place, and validating it against a source file. -/

namespace IUBPatch

variable (env : Environment)

/-- A call whose `filesystem_error`s are caught and returned, as `catch` does in `apply.cc`. -/
def catchFilesystemError {α : Type} (message : String) (call : FileM α) : FileM α := fun world =>
  match call world with
  | (.throws (.filesystemError what), world') =>
    (.error { code := .fileWriteError, message := message ++ what }, world')
  | result => result

/-- `create_backup`. -/
def createBackup (filePath : Path) (options : PatchOptions) : FileM Path :=
  if ¬ options.createBackup then
    Effect.lift (.error { code := .invalidArgument, message := "Backup not requested" })
  else do
    let backupPath := filePath ++ options.backupSuffix
    catchFilesystemError "Failed to create backup: " (copyFile env filePath backupPath)
    pure backupPath

/-- `load_patch`. -/
def loadPatch (patchPath : Path) : FileM Patch := do
  let data ← readFile env patchPath
  Effect.lift (loadPatchFromMemory data)

/-- `Patch::apply_to_file`, the same in the three formats. -/
def Patch.applyToFile (patch : Patch) (sourcePath outputPath : Path) (options : PatchOptions) :
    FileM Unit := do
  let source ← readFile env sourcePath
  let patched ← Effect.lift (patch.apply source options)
  writeFile env outputPath patched

/-- `apply_patch`. -/
def applyPatch (patchPath sourcePath outputPath : Path) (options : PatchOptions) : FileM Unit := do
  let patch ← loadPatch env patchPath
  patch.applyToFile env sourcePath outputPath options

/-- The path `apply_patch_inplace` writes to before it renames. -/
def tempPath (filePath : Path) : Path := filePath ++ ".tmp"

/-- What `apply_patch_inplace` does once `apply_patch` has returned: remove the temporary file after an
error, else rename it over the file. -/
def finishInplace (filePath : Path) : Call Unit → FileM Unit
  -- nothing catches what `apply_patch` throws
  | .throws thrown => Effect.lift (.throws thrown)
  | .error e => do
    -- outside of any `try`: what `remove` throws leaves the function
    removeFile env (tempPath filePath)
    Effect.lift (.error e)
  | .ok () =>
    catchFilesystemError "Failed to replace original file: "
      (renameFile env (tempPath filePath) filePath)

/-- What `apply_patch_inplace` does behind the backup. -/
def applyAndRename (patchPath filePath : Path) (options : PatchOptions) : FileM Unit := fun world =>
  let (result, world') := applyPatch env patchPath filePath (tempPath filePath) options world
  finishInplace env filePath result world'

/-- `apply_patch_inplace`. -/
def applyPatchInplace (patchPath filePath : Path) (options : PatchOptions) : FileM Unit :=
  if options.createBackup then do
    let _ ← createBackup env filePath options
    applyAndRename env patchPath filePath options
  else applyAndRename env patchPath filePath options

/-- The source checks of `validate_patch`: the size, unless it is declared as zero, and the
checksum. -/
def checkSource (metadata : PatchMetadata) (source : Bytes) : Result Unit :=
  if metadata.srcSize > 0 ∧ size source ≠ metadata.srcSize then
    .error
      { code := .sourceSizeMismatch
        message := "Source size mismatch: expected " ++ toString metadata.srcSize ++ ", got "
          ++ toString (size source) }
  else if calcCrc32 source ≠ metadata.sourceChecksum then
    .error
      { code := .checksumMismatch
        message := "Source CRC32 mismatch: expected " ++ toString metadata.sourceChecksum
          ++ ", got " ++ toString (calcCrc32 source) }
  else .ok ()

/-- `validate_patch`; the options play no part. -/
def validatePatch (patchPath sourcePath : Path) (_options : PatchOptions) : FileM Unit := do
  let patch ← loadPatch env patchPath
  Effect.lift (.ofExcept patch.validate)
  let metadata ← Effect.lift (.ofExcept patch.getMetadata)
  if metadata.hasChecksums then
    let source ← readFile env sourcePath
    Effect.lift (.ofExcept (checkSource metadata source))
  else pure ()

end IUBPatch
