import IUBPatch.FileEffects
import IUBPatch.PatchInfo
import IUBPatch.Programs.Process
import IUBPatch.Validation

/-! # The command-line tool

`tools/iubpatch_cli.cc`: the commands `apply`, `info` and `validate`, with everything they print. What a
command does to the files, and its exit code, depend on its paths and on whether `--no-checksum` is
among its options; `--backup` is read and never acted on. -/

namespace IUBPatch.CommandLine

open Program

/-- The version numbers the build puts into `version.h`. -/
structure Version where
  major : Nat
  minor : Nat
  patch : Nat

/-- `get_version_string`, and the numbers as `print_version` prints them. -/
def Version.text (version : Version) : String :=
  toString version.major ++ "." ++ toString version.minor ++ "." ++ toString version.patch

variable (version : Version) (env : Environment) (programName : String)

/-! ### The program -/

/-- `print_usage`. -/
def printUsage : Program Unit := do
  printOut ("IUBPatchLib v" ++ version.text ++ "\n\n")
  printOut "Usage:\n"
  printOut ("  " ++ programName ++ " apply <patch> <source> <output> [options]\n")
  printOut ("  " ++ programName ++ " info <patch>\n")
  printOut ("  " ++ programName ++ " validate <patch> <source>\n")
  printOut ("  " ++ programName ++ " --version\n")
  printOut ("  " ++ programName ++ " --help\n\n")
  printOut "Commands:\n"
  printOut "  apply      Apply patch to source file, creating output\n"
  printOut "  info       Display patch information\n"
  printOut "  validate   Validate patch against source file\n\n"
  printOut "Options:\n"
  printOut "  --no-checksum  Skip checksum verification\n"
  printOut "  --backup       Create backup of original file\n"
  printOut "  --no-mmap      Disable memory-mapped I/O\n"

/-- `print_version`. -/
def printVersion : Program Unit := do
  printOut ("IUBPatchLib version " ++ version.text ++ "\n")
  printOut "Modern C++ library for IPS, UPS, and BPS patch formats\n"

/-- The body of the option loop of `cmd_apply`. -/
def readOption (options : PatchOptions) (argument : String) : Program PatchOptions :=
  if argument = "--no-checksum" then pure { options with verifyChecksums := false }
  else if argument = "--backup" then pure { options with createBackup := true }
  -- `use_mmap`, a field that nothing reads
  else if argument = "--no-mmap" then pure options
  else do
    printErr ("Warning: Unknown option: " ++ argument ++ "\n")
    pure options

/-- `cmd_apply`, on the arguments behind the command. -/
def cmdApply : List String → Program Nat
  | patchPath :: sourcePath :: outputPath :: arguments => do
    let options ← arguments.foldlM readOption {}
    printOut ("Applying patch: " ++ patchPath ++ "\n")
    printOut ("Source: " ++ sourcePath ++ "\n")
    printOut ("Output: " ++ outputPath ++ "\n")
    let result ← call (applyPatch env patchPath sourcePath outputPath options)
    match result with
    | .ok () => do
      printOut "Patch applied successfully!\n"
      pure 0
    | .error e => do
      printErr ("Error: " ++ e.message ++ "\n")
      if e.context ≠ "" then printErr ("  Context: " ++ e.context ++ "\n") else pure ()
      pure 1
  | _ => do
    printErr "Error: 'apply' requires 3 arguments\n"
    pure 1

/-- A number printed with `std::hex`. -/
def hexText (n : UInt32) : String := String.ofList (Nat.toDigits 16 n.toNat)

/-- What `cmd_info` prints of the metadata. -/
def printMetadata (patchPath : Path) (metadata : PatchMetadata) : Program Unit := do
  printOut "Patch Information:\n"
  printOut ("  File:   " ++ patchPath ++ "\n")
  printOut ("  Format: " ++ formatToString metadata.format ++ "\n")
  if metadata.srcSize > 0 then
    printOut ("  Source Size: " ++ toString metadata.srcSize ++ " bytes\n")
  else pure ()
  if metadata.targetSize > 0 then
    printOut ("  Target Size: " ++ toString metadata.targetSize ++ " bytes\n")
  else pure ()
  if metadata.hasChecksums then do
    printOut "  Checksums: Available\n"
    printOut ("    Source: 0x" ++ hexText metadata.sourceChecksum ++ "\n")
    printOut ("    Target: 0x" ++ hexText metadata.targetChecksum ++ "\n")
  else printOut "  Checksums: Not available\n"

/-- `cmd_info`. -/
def cmdInfo : List String → Program Nat
  | patchPath :: _ => do
    let info ← call (getPatchInfo env patchPath)
    match info with
    | .ok metadata => do
      printMetadata patchPath metadata
      pure 0
    | .error e => do
      printErr ("Error: " ++ e.message ++ "\n")
      pure 1
  | _ => do
    printErr "Error: 'info' requires a patch file\n"
    pure 1

/-- `cmd_validate`. -/
def cmdValidate : List String → Program Nat
  | patchPath :: sourcePath :: _ => do
    printOut ("Validating patch: " ++ patchPath ++ "\n")
    printOut ("Against source: " ++ sourcePath ++ "\n")
    let result ← call (validatePatch env patchPath sourcePath {})
    match result with
    | .ok () => do
      printOut "Patch is valid and can be applied\n"
      pure 0
    | .error e => do
      printErr ("Validation failed: " ++ e.message ++ "\n")
      pure 1
  | _ => do
    printErr "Error: 'validate' requires patch and source files\n"
    pure 1

/-- `main`, on the arguments behind the program's name: the exit code. -/
def main : List String → Program Nat
  | [] => do
    printUsage version programName
    pure 1
  | command :: arguments =>
    if command = "--help" ∨ command = "-h" then do
      printUsage version programName
      pure 0
    else if command = "--version" ∨ command = "-v" then do
      printVersion version
      pure 0
    else if command = "apply" then cmdApply env arguments
    else if command = "info" then cmdInfo env arguments
    else if command = "validate" then cmdValidate env arguments
    else do
      printErr ("Error: Unknown command '" ++ command ++ "'\n")
      printErr ("Run '" ++ programName ++ " --help' for usage information\n")
      pure 1

/-! ### What the arguments ask for -/

/-- What a command line asks for. -/
inductive Request where
  /-- The usage or the version. -/
  | text
  | apply (patchPath sourcePath outputPath : Path) (verify : Bool)
  | info (patchPath : Path)
  | validate (patchPath sourcePath : Path)
  /-- Nothing the tool can do: an error. -/
  | invalid
  deriving DecidableEq

/-- The request of the arguments. -/
def request : List String → Request
  | "--help" :: _ => .text
  | "-h" :: _ => .text
  | "--version" :: _ => .text
  | "-v" :: _ => .text
  | "apply" :: patchPath :: sourcePath :: outputPath :: arguments =>
    .apply patchPath sourcePath outputPath ("--no-checksum" ∉ arguments)
  | "info" :: patchPath :: _ => .info patchPath
  | "validate" :: patchPath :: sourcePath :: _ => .validate patchPath sourcePath
  | _ => .invalid

/-- What a request comes to: its exit code, and the file system behind it. -/
def Request.outcome (world : World) : Request → Outcome Empty StdException Nat × World
  | .text => (.ok 0, world)
  | .invalid => (.ok 1, world)
  | .apply patchPath sourcePath outputPath verify =>
    let run := applyPatch env patchPath sourcePath outputPath { verifyChecksums := verify } world
    (exitCode run.1, run.2)
  | .info patchPath =>
    let run := getPatchInfo env patchPath world
    (exitCode run.1, run.2)
  | .validate patchPath sourcePath =>
    let run := validatePatch env patchPath sourcePath {} world
    (exitCode run.1, run.2)

/-! ### The tool does what the arguments ask for -/

/-- The options with an argument read. -/
theorem quiet_readOption (options : PatchOptions) (argument : String) :
    Quiet (readOption options argument)
      { options with
        verifyChecksums := options.verifyChecksums && argument ≠ "--no-checksum"
        createBackup := options.createBackup || argument = "--backup" } := by
  rw [readOption]
  by_cases hchecksum : argument = "--no-checksum"
  · subst hchecksum
    simpa using quiet_pure _
  · rw [if_neg hchecksum]
    by_cases hbackup : argument = "--backup"
    · subst hbackup
      simpa using quiet_pure _
    · rw [if_neg hbackup]
      simp only [hchecksum, hbackup, ne_eq, not_false_eq_true, decide_true, Bool.and_true, decide_false,
        Bool.or_false]
      exact quiet_ite _ (quiet_pure _) ((quiet_printErr _).bind (quiet_pure _))

/-- The options with all arguments read: each of the two switches is among them or not. -/
theorem quiet_readOptions (arguments : List String) (options : PatchOptions) :
    Quiet (arguments.foldlM readOption options)
      { options with
        verifyChecksums := options.verifyChecksums && "--no-checksum" ∉ arguments
        createBackup := options.createBackup || "--backup" ∈ arguments } := by
  induction arguments generalizing options with
  | nil => simpa using quiet_pure options
  | cons argument arguments ih =>
    rw [List.foldlM_cons]
    refine (quiet_readOption options argument).bind ?_
    have hrest := ih { options with
      verifyChecksums := options.verifyChecksums && argument ≠ "--no-checksum"
      createBackup := options.createBackup || argument = "--backup" }
    simpa [Bool.and_assoc, Bool.or_assoc, eq_comm, not_or] using hrest

/-- Applying a patch looks at nothing in the options but whether to verify. -/
theorem apply_withVerification (patch : Patch) (source : Bytes) (options : PatchOptions) :
    patch.apply source options = patch.apply source { verifyChecksums := options.verifyChecksums } := by
  cases patch <;> rfl

theorem applyPatch_withVerification (patchPath sourcePath outputPath : Path) (options : PatchOptions) :
    applyPatch env patchPath sourcePath outputPath options
      = applyPatch env patchPath sourcePath outputPath
          { verifyChecksums := options.verifyChecksums } := by
  rw [applyPatch, applyPatch]
  simp only [Patch.applyToFile, apply_withVerification _ _ options]

/-- `cmd_apply` makes its call with the verification the options leave. -/
theorem cmdApply_comes (patchPath sourcePath outputPath : Path) (arguments : List String) :
    Comes (cmdApply env (patchPath :: sourcePath :: outputPath :: arguments))
      fun world => Request.outcome env world
        (.apply patchPath sourcePath outputPath ("--no-checksum" ∉ arguments)) := by
  refine (quiet_readOptions arguments {}).bind_comes ?_
  refine (quiet_printOut _).bind_comes ?_
  refine (quiet_printOut _).bind_comes ?_
  refine (quiet_printOut _).bind_comes ?_
  -- `--backup` is read and never looked at
  rw [applyPatch_withVerification]
  refine comes_call (fun _ => (quiet_printOut _).then_pure 0) fun e => ?_
  refine (quiet_printErr _).bind ?_
  exact quiet_ite _ ((quiet_printErr _).then_pure 1) (quiet_pure 1)

theorem quiet_printUsage : Quiet (printUsage version programName) () := by
  rw [printUsage]
  repeat' apply Quiet.bind (quiet_printOut _)
  exact quiet_printOut _

theorem quiet_printVersion : Quiet (printVersion version) () :=
  (quiet_printOut _).bind (quiet_printOut _)

theorem quiet_printMetadata (patchPath : Path) (metadata : PatchMetadata) :
    Quiet (printMetadata patchPath metadata) () := by
  have hchecksums : Quiet (if metadata.hasChecksums then do
      printOut "  Checksums: Available\n"
      printOut ("    Source: 0x" ++ hexText metadata.sourceChecksum ++ "\n")
      printOut ("    Target: 0x" ++ hexText metadata.targetChecksum ++ "\n")
    else printOut "  Checksums: Not available\n") () := by
    refine quiet_ite _ ?_ (quiet_printOut _)
    exact (quiet_printOut _).bind ((quiet_printOut _).bind (quiet_printOut _))
  -- a line that is printed or not, in front of the rest
  have hline : ∀ (c : Prop) [Decidable c] (text : String) (rest : Program Unit), Quiet rest () →
      Quiet (if c then printOut text >>= fun _ => rest else rest) () :=
    fun c _ text rest hrest => quiet_ite c ((quiet_printOut text).bind hrest) hrest
  refine (quiet_printOut _).bind ((quiet_printOut _).bind ((quiet_printOut _).bind ?_))
  exact hline _ _ _ (hline _ _ _ hchecksums)

theorem cmdInfo_comes (patchPath : Path) (arguments : List String) :
    Comes (cmdInfo env (patchPath :: arguments)) fun world =>
      Request.outcome env world (.info patchPath) :=
  comes_call (fun metadata => (quiet_printMetadata patchPath metadata).then_pure 0)
    fun _ => (quiet_printErr _).then_pure 1

theorem cmdValidate_comes (patchPath sourcePath : Path) (arguments : List String) :
    Comes (cmdValidate env (patchPath :: sourcePath :: arguments))
      fun world => Request.outcome env world (.validate patchPath sourcePath) := by
  refine (quiet_printOut _).bind_comes ?_
  refine (quiet_printOut _).bind_comes ?_
  exact comes_call (fun _ => (quiet_printOut _).then_pure 0)
    fun _ => (quiet_printErr _).then_pure 1

/-- **The tool does what its arguments ask for**, under any failures: its exit code and the files it
leaves are those of the request. -/
theorem main_comes (arguments : List String) :
    Comes (main version env programName arguments)
      fun world => (request arguments).outcome env world := by
  cases arguments with
  | nil => exact ((quiet_printUsage version programName).then_pure 1).comes
  | cons command arguments =>
    rw [main]
    -- the commands in the order in which `main` compares them
    by_cases hhelp : command = "--help" ∨ command = "-h"
    · rw [if_pos hhelp]
      rcases hhelp with rfl | rfl <;>
        exact ((quiet_printUsage version programName).then_pure 0).comes
    rw [if_neg hhelp]
    by_cases hversion : command = "--version" ∨ command = "-v"
    · rw [if_pos hversion]
      rcases hversion with rfl | rfl <;>
        exact ((quiet_printVersion version).then_pure 0).comes
    rw [if_neg hversion]
    by_cases happly : command = "apply"
    · rw [if_pos happly]
      subst happly
      match arguments with
      | [] => exact ((quiet_printErr _).then_pure 1).comes
      | [_] => exact ((quiet_printErr _).then_pure 1).comes
      | [_, _] => exact ((quiet_printErr _).then_pure 1).comes
      | patchPath :: sourcePath :: outputPath :: arguments =>
        exact cmdApply_comes env patchPath sourcePath outputPath arguments
    rw [if_neg happly]
    by_cases hinfo : command = "info"
    · rw [if_pos hinfo]
      subst hinfo
      match arguments with
      | [] => exact ((quiet_printErr _).then_pure 1).comes
      | patchPath :: arguments => exact cmdInfo_comes env patchPath arguments
    rw [if_neg hinfo]
    by_cases hvalidate : command = "validate"
    · rw [if_pos hvalidate]
      subst hvalidate
      match arguments with
      | [] => exact ((quiet_printErr _).then_pure 1).comes
      | [_] => exact ((quiet_printErr _).then_pure 1).comes
      | patchPath :: sourcePath :: arguments =>
        exact cmdValidate_comes env patchPath sourcePath arguments
    rw [if_neg hvalidate]
    have hrequest : request (command :: arguments) = .invalid := by
      unfold request
      split <;> simp_all
    rw [hrequest]
    exact ((quiet_printErr _).bind ((quiet_printErr _).then_pure 1)).comes

/-- **What the options of `apply` can change.** Whatever fails, no path but the output changes, so that
`--backup` makes no backup; and two lists of options that both contain `--no-checksum` or both do not,
whatever else is in them and in whatever order, come to the same exit code and leave the same files. -/
theorem apply_options (patchPath sourcePath outputPath : Path) {options options' : List String}
    (hsame : "--no-checksum" ∈ options ↔ "--no-checksum" ∈ options') (p : Process) :
    let run := main version env programName
      ("apply" :: patchPath :: sourcePath :: outputPath :: options) p
    let run' := main version env programName
      ("apply" :: patchPath :: sourcePath :: outputPath :: options') p
    (∀ path, path ≠ outputPath → run.2.world.files path = p.world.files path) ∧
      run.1 = run'.1 ∧ run.2.world = run'.2.world := by
  intro run run'
  have hrun := main_comes version env programName
    ("apply" :: patchPath :: sourcePath :: outputPath :: options) p
  have hrun' := main_comes version env programName
    ("apply" :: patchPath :: sourcePath :: outputPath :: options') p
  have hrequest : request ("apply" :: patchPath :: sourcePath :: outputPath :: options)
      = request ("apply" :: patchPath :: sourcePath :: outputPath :: options') := by
    simp only [request, hsame]
  rw [← hrequest, ← hrun, Prod.mk.injEq] at hrun'
  refine ⟨fun path hpath => ?_, hrun'.1.symm, hrun'.2.symm⟩
  have hworld := congrArg Prod.snd hrun
  have hwithin := within_applyPatch (K := {outputPath}) env patchPath sourcePath
    { verifyChecksums := decide ("--no-checksum" ∉ options) } (Set.mem_singleton outputPath) p.world
  have hkept := hwithin path hpath
  rw [← hkept]
  exact congrArg (fun world => world.files path) hworld

/-- A backup asked for, an option misspelt. -/
theorem apply_options_backup :
    (main ⟨1, 0, 0⟩ {} "iubpatch" ["apply", "patch", "file", "out", "--back-up", "--backup"]
        { world := plainWorld }).2.world.files "file.bak" = none := by
  have hsame : "--no-checksum" ∈ ["--back-up", "--backup"] ↔ "--no-checksum" ∈ ([] : List String) := by
    decide
  exact (apply_options ⟨1, 0, 0⟩ {} "iubpatch" "patch" "file" "out" hsame { world := plainWorld }).1
    "file.bak" (by decide)

/-! ### The exit code -/

/-- The files meet the request: the patch makes something of the source; or it loads; or it is valid, and
if it has checksums it accepts the source. -/
def Request.Met (files : Path → Option Bytes) : Request → Prop
  | .text => True
  | .apply patchPath sourcePath _ verify =>
    ∃ T, Makes files patchPath sourcePath { verifyChecksums := verify } T
  | .info patchPath => ∃ P patch, files patchPath = some P ∧ loadPatchFromMemory P = .ok patch
  | .validate patchPath sourcePath =>
    ∃ P patch, files patchPath = some P ∧ loadPatchFromMemory P = .ok patch ∧
      patch.validate = .ok () ∧
      (patch.HasChecksums → ∃ S, files sourcePath = some S ∧ patch.AcceptsSource S)
  | .invalid => False

/-- The files that a request leaves: `apply` puts at its output what the patch makes of the source. -/
def Request.Leaves (files files' : Path → Option Bytes) : Request → Prop
  | .apply patchPath sourcePath outputPath verify =>
    (∀ T, Makes files patchPath sourcePath { verifyChecksums := verify } T →
      files' = Function.update files outputPath (some T)) ∧
    ((¬ ∃ T, Makes files patchPath sourcePath { verifyChecksums := verify } T) → files' = files)
  | _ => files' = files

/-- The outcome of a request is an exit code, or the exception of a container past its limit. -/
def Exits (outcome : Outcome Empty StdException Nat) : Prop :=
  outcome = .ok 0 ∨ outcome = .ok 1 ∨ outcome = .throws .lengthError

/-- Without faults `load_patch` is loading what the file holds. -/
theorem loadPatch_faultless (patchPath : Path) (world : World) :
    ∃ n, loadPatch {} patchPath world
      = (match world.files patchPath with
          | none => .error (cannotOpenError patchPath)
          | some P => loadPatchFromMemory P, { world with reads := n }) := by
  refine ⟨world.reads + 1, ?_⟩
  rw [loadPatch, Effect.bind_apply, readFile_apply]
  cases hfile : world.files patchPath with
  | none => rw [readOutcome, hfile]; rfl
  | some P => rw [readOutcome_faultless hfile]; rfl

theorem outcome_apply (patchPath sourcePath outputPath : Path) (verify : Bool) (world : World) :
    let outcome := Request.outcome {} world (.apply patchPath sourcePath outputPath verify)
    (outcome.1 = .ok 0 ↔ Request.Met world.files (.apply patchPath sourcePath outputPath verify)) ∧
      Exits outcome.1 ∧
      Request.Leaves world.files outcome.2.files (.apply patchPath sourcePath outputPath verify) := by
  intro outcome
  obtain ⟨n, hrun⟩ := applyPatch_eq {} patchPath sourcePath outputPath { verifyChecksums := verify } world
  -- without faults it does not matter which read it is
  have hreads : produced {} world.files world.reads patchPath sourcePath { verifyChecksums := verify }
      = produced {} world.files 0 patchPath sourcePath { verifyChecksums := verify } := rfl
  rw [hreads] at hrun
  have hthrows := throwsOnly_produced {} world.files 0 patchPath sourcePath { verifyChecksums := verify }
  have houtcome : outcome = (exitCode (applyPatch {} patchPath sourcePath outputPath
      { verifyChecksums := verify } world).1, (applyPatch {} patchPath sourcePath outputPath
      { verifyChecksums := verify } world).2) := rfl
  have hmakes : ∀ T, Makes world.files patchPath sourcePath { verifyChecksums := verify } T ↔
      produced {} world.files 0 patchPath sourcePath { verifyChecksums := verify } = .ok T :=
    fun T => (produced_eq_ok_iff patchPath sourcePath { verifyChecksums := verify }).symm
  rw [houtcome, hrun]
  simp only [Request.Met, Request.Leaves, hmakes]
  -- nothing is written unless there is a target, and then all of it
  cases hmade : produced {} world.files 0 patchPath sourcePath { verifyChecksums := verify } with
  | error e => simp [Effect.bind_apply, exitCode, Exits]
  | throws thrown =>
    have hlength : thrown = .lengthError := hthrows thrown hmade
    simp [Effect.bind_apply, exitCode, Exits, hlength]
  | ok T =>
    rw [Effect.bind_apply_ok (Effect.lift_apply _ _), writeFile_faultless]
    simp [exitCode, Exits]

/-- Every patch has metadata. -/
theorem exists_metadata (patch : Patch) : ∃ metadata, patch.getMetadata = .ok metadata := by
  cases patch <;> exact ⟨_, rfl⟩

theorem outcome_info (patchPath : Path) (world : World) :
    let outcome := Request.outcome {} world (.info patchPath)
    (outcome.1 = .ok 0 ↔ Request.Met world.files (.info patchPath)) ∧ Exits outcome.1 ∧
      Request.Leaves world.files outcome.2.files (.info patchPath) := by
  intro outcome
  obtain ⟨n, hload⟩ := loadPatch_faultless patchPath world
  have houtcome : outcome = (exitCode (getPatchInfo {} patchPath world).1,
      (getPatchInfo {} patchPath world).2) := rfl
  -- loading can fail, reading the metadata cannot
  rw [houtcome, getPatchInfo, Effect.bind_apply, hload]
  simp only [Request.Met, Request.Leaves]
  cases hfile : world.files patchPath with
  | none => simp [exitCode, Exits]
  | some P =>
    have hthrows := throwsOnly_loadPatchFromMemory P
    cases hpatch : loadPatchFromMemory P with
    | error e => simp [exitCode, Exits, hpatch]
    | throws thrown =>
      have hlength : thrown = .lengthError := hthrows thrown hpatch
      simp [exitCode, Exits, hpatch, hlength]
    | ok patch =>
      obtain ⟨metadata, hmetadata⟩ := exists_metadata patch
      simp [exitCode, Exits, hpatch, hmetadata]

/-- What the metadata of a patch with checksums wants of a source is what the patch wants. -/
theorem checkSource_metadata_iff {patch : Patch} {metadata : PatchMetadata}
    (hmetadata : patch.getMetadata = .ok metadata) (S : Bytes) :
    (metadata.hasChecksums = true ↔ patch.HasChecksums) ∧
      (patch.HasChecksums → (checkSource metadata S = .ok () ↔ patch.AcceptsSource S)) := by
  cases patch with
  | ips patch => cases hmetadata; exact ⟨⟨(fun h => by cases h), False.elim⟩, False.elim⟩
  | ups patch => cases hmetadata; exact ⟨iff_of_true rfl trivial, fun _ => checkSource_eq_ok_iff _ S⟩
  | bps patch => cases hmetadata; exact ⟨iff_of_true rfl trivial, fun _ => checkSource_eq_ok_iff _ S⟩

theorem outcome_validate (patchPath sourcePath : Path) (world : World) :
    let outcome := Request.outcome {} world (.validate patchPath sourcePath)
    (outcome.1 = .ok 0 ↔ Request.Met world.files (.validate patchPath sourcePath)) ∧ Exits outcome.1 ∧
      Request.Leaves world.files outcome.2.files (.validate patchPath sourcePath) := by
  intro outcome
  obtain ⟨n, hload⟩ := loadPatch_faultless patchPath world
  have houtcome : outcome = (exitCode (validatePatch {} patchPath sourcePath {} world).1,
      (validatePatch {} patchPath sourcePath {} world).2) := rfl
  rw [houtcome]
  simp only [Request.Met, Request.Leaves]
  cases hfile : world.files patchPath with
  | none =>
    rw [hfile] at hload
    simp [validatePatch, Effect.bind_apply, hload, exitCode, Exits]
  | some P =>
    rw [hfile] at hload
    dsimp only at hload
    have hthrows := throwsOnly_loadPatchFromMemory P
    cases hpatch : loadPatchFromMemory P with
    | error e =>
      rw [hpatch] at hload
      simp [validatePatch, Effect.bind_apply, hload, exitCode, Exits, hpatch]
    | throws thrown =>
      have hlength : thrown = .lengthError := hthrows thrown hpatch
      rw [hpatch] at hload
      simp [validatePatch, Effect.bind_apply, hload, exitCode, Exits, hpatch, hlength]
    | ok patch =>
      rw [hpatch] at hload
      obtain ⟨metadata, hmetadata⟩ := exists_metadata patch
      have hchecks := checkSource_metadata_iff hmetadata
      rw [validatePatch, Effect.bind_apply_ok hload]
      cases hvalid : patch.validate with
      | error e => simp [Effect.bind_apply, exitCode, Exits, hpatch, hvalid]
      | ok _ =>
        simp only [Outcome.ofExcept_ok, hmetadata, Effect.bind_apply, Effect.lift_apply]
        -- the source is read only for a patch with checksums, and else anything is accepted
        by_cases hchecksums : patch.HasChecksums
        · rw [if_pos ((hchecks []).1.mpr hchecksums), Effect.bind_apply, readFile_apply]
          cases hsource : world.files sourcePath with
          | none => simp [readOutcome, hsource, exitCode, Exits, hpatch, hchecksums]
          | some S =>
            have haccepts := (hchecks S).2 hchecksums
            simp only [readOutcome_faultless hsource, Outcome.ofExcept_ok, Effect.lift_apply]
            cases hcheck : checkSource metadata S with
            | error e =>
              have hrejects : ¬ patch.AcceptsSource S := by
                rw [← haccepts, hcheck]
                exact fun h => by cases h
              simp [exitCode, Exits, hpatch, hchecksums, hrejects]
            | ok _ =>
              have haccepted : patch.AcceptsSource S := haccepts.mp hcheck
              simp [exitCode, Exits, hpatch, hvalid, hchecksums, haccepted]
        · rw [if_neg (mt (hchecks []).1.mp hchecksums)]
          simp [exitCode, Exits, hpatch, hvalid, hchecksums]

/-- **The exit code of the tool means what it says.** Without faults, for every command line: it is zero
exactly if the files meet the request, and else one, unless a container runs past its limit; and no file
changes, but that an `apply` that meets its request has put at its output what the patch makes of the
source. -/
theorem main_exitCode (arguments : List String) (p : Process) :
    let run := main version {} programName arguments p
    (run.1 = .ok 0 ↔ (request arguments).Met p.world.files) ∧ Exits run.1 ∧
      (request arguments).Leaves p.world.files run.2.world.files := by
  intro run
  have hrun : (run.1, run.2.world) = (request arguments).outcome {} p.world :=
    main_comes version {} programName arguments p
  have hcode := congrArg Prod.fst hrun
  have hworld := congrArg (fun outcome => outcome.2.files) hrun
  dsimp only at hcode hworld
  rw [hcode, hworld]
  cases request arguments with
  | text => exact ⟨iff_of_true rfl trivial, .inl rfl, rfl⟩
  | invalid => exact ⟨iff_of_false (fun h => by cases h) id, .inr (.inl rfl), rfl⟩
  | apply patchPath sourcePath outputPath verify =>
    exact outcome_apply patchPath sourcePath outputPath verify p.world
  | info patchPath => exact outcome_info patchPath p.world
  | validate patchPath sourcePath => exact outcome_validate patchPath sourcePath p.world

end IUBPatch.CommandLine
