import IUBPatch.Apply
import IUBPatch.FileFootprint
import IUBPatch.Lib.Stepwise

/-! # The operations on files, step by step

The operations of `apply.cc` as the file system sees them, one change after the other. Run to its end, an
operation in steps is the operation; between the steps is what other programs see of it, and what is left
of it where the process is killed. -/

namespace IUBPatch

/-- The files, by their paths. -/
abbrev Files := Path → Option Bytes

/-- A call on files, in steps. -/
def FileSteps (α : Type) := Stepwise Files (Call α)

namespace FileSteps

variable {α β : Type}

/-- What the call comes back with, and the files it leaves. -/
def run (steps : FileSteps α) (files : Files) : Call α × Files := Stepwise.run steps files

/-- A call that leaves the files alone. -/
def lift (answer : Call α) : FileSteps α := Stepwise.done answer

/-- Go on with the value; an error or an exception ends the call. -/
protected def bind (steps : FileSteps α) (f : α → FileSteps β) : FileSteps β :=
  Stepwise.bind steps fun
    | .ok a => f a
    | .error e => lift (.error e)
    | .throws thrown => lift (.throws thrown)

instance : Monad FileSteps where
  pure a := lift (.ok a)
  bind := FileSteps.bind

/-- A call that is one step, with `n` files opened for reading before. -/
def atomic (n : Nat) (m : FileM α) : FileSteps α :=
  Stepwise.step (fun files => (m { files, reads := n }).2.files) fun files =>
    lift (m { files, reads := n }).1

/-- Put the contents into a file, one after the other, and come back. -/
def putAll (path : Path) (answer : Call α) : List Bytes → FileSteps α
  | [] => lift answer
  | data :: more =>
    Stepwise.step (fun files => Function.update files path (some data)) fun _ =>
      putAll path answer more

variable (env : Environment)

/-- What is on the device between the transfers of a `write`. -/
def devices (data : Bytes) (transfers : List Transfer) : List Bytes :=
  (transfers.scanl (OutputStream.transfer .appending)
    { pending := data, device := [], good := true }).map OutputStream.device

/-- `write_file`: the file is created empty, and grows with every transfer. -/
def writeFile (path : Path) (data : Bytes) : FileSteps Unit :=
  match createFileWriter env path with
  | .error e => lift (.error e)
  | .ok writer =>
    let (written, writer) := BufferedFileWriter.write env writer data
    match written with
    | .error e =>
      putAll path (.error e)
        (devices data env.duringWrite ++ [writer.close .appending env.duringClose])
    | .ok () =>
      let (flushed, writer) := BufferedFileWriter.flush env writer
      putAll path (.ofExcept flushed)
        (devices data env.duringWrite ++ [writer.device, writer.close .appending env.duringClose])

/-- What `copy_file` does once it has looked for the file to copy; `copying` is what the target holds on
the way. -/
def copyInto (copying : List Bytes) (source target : Path) : Option Bytes → FileSteps Unit
  | none => lift (.throws (.filesystemError env.what))
  | some data =>
    if source = target then lift (.throws (.filesystemError env.what))
    else match env.copyFault with
      | some none => lift (.throws (.filesystemError env.what))
      | some (some part) => putAll target (.throws (.filesystemError env.what)) (copying ++ [part])
      | none => putAll target (.ok ()) (copying ++ [data])

/-- `copy_file`. -/
def copyFile (copying : List Bytes) (source target : Path) : FileSteps Unit :=
  Stepwise.step id fun files => copyInto env copying source target (files source)

/-- `catch` around a call. -/
def catchFilesystemError (message : String) (steps : FileSteps α) : FileSteps α :=
  Stepwise.bind steps fun
    | .throws (.filesystemError what) =>
      lift (.error { code := .fileWriteError, message := message ++ what })
    | answer => lift answer

/-- `create_backup`. -/
def createBackup (copying : List Bytes) (filePath : Path) (options : PatchOptions) : FileSteps Path :=
  if ¬ options.createBackup then
    lift (.error { code := .invalidArgument, message := "Backup not requested" })
  else do
    let backupPath := filePath ++ options.backupSuffix
    catchFilesystemError "Failed to create backup: " (copyFile env copying filePath backupPath)
    pure backupPath

/-- `load_patch`, with `n` files opened for reading before. -/
def loadPatch (n : Nat) (patchPath : Path) : FileSteps Patch := do
  let data ← atomic n (readFile env patchPath)
  lift (loadPatchFromMemory data)

/-- `Patch::apply_to_file`. -/
def applyToFile (n : Nat) (patch : Patch) (sourcePath outputPath : Path) (options : PatchOptions) :
    FileSteps Unit := do
  let source ← atomic n (readFile env sourcePath)
  let patched ← lift (patch.apply source options)
  writeFile env outputPath patched

/-- `apply_patch`. -/
def applyPatch (n : Nat) (patchPath sourcePath outputPath : Path) (options : PatchOptions) :
    FileSteps Unit := do
  let patch ← loadPatch env n patchPath
  applyToFile env (n + 1) patch sourcePath outputPath options

/-- What `apply_patch_inplace` does once `apply_patch` has returned: removing and renaming a file is one
step. -/
def finishInplace (filePath : Path) : Call Unit → FileSteps Unit
  | .throws thrown => lift (.throws thrown)
  | .error e => do
    atomic 0 (removeFile env (tempPath filePath))
    lift (.error e)
  | .ok () =>
    catchFilesystemError "Failed to replace original file: "
      (atomic 0 (renameFile env (tempPath filePath) filePath))

/-- What `apply_patch_inplace` does behind the backup. -/
def applyAndRename (n : Nat) (patchPath filePath : Path) (options : PatchOptions) : FileSteps Unit :=
  Stepwise.bind (applyPatch env n patchPath filePath (tempPath filePath) options)
    (finishInplace env filePath)

/-- `apply_patch_inplace`. -/
def applyPatchInplace (copying : List Bytes) (n : Nat) (patchPath filePath : Path)
    (options : PatchOptions) : FileSteps Unit :=
  if options.createBackup then do
    let _ ← createBackup env copying filePath options
    applyAndRename env n patchPath filePath options
  else applyAndRename env n patchPath filePath options

/-! ### Run to the end -/

/-- Run to the end, the steps come back as the call does and leave the same files. Where the call has a
value, it has read `k` files. -/
def Performs (steps : Nat → FileSteps α) (k : Nat) (m : FileM α) : Prop :=
  ∀ world : World, (steps world.reads).run world.files = ((m world).1, (m world).2.files) ∧
    ∀ a, (m world).1 = .ok a → (m world).2.reads = world.reads + k

theorem performs_lift (answer : Call α) : Performs (fun _ => lift answer) 0 (Effect.lift answer) :=
  fun _ => ⟨rfl, fun _ _ => rfl⟩

theorem performs_readFile (path : Path) :
    Performs (fun n => atomic n (readFile env path)) 1 (readFile env path) := by
  intro world
  refine ⟨rfl, fun data _ => ?_⟩
  rw [readFile_apply]

theorem run_bind (steps : FileSteps α) (f : α → FileSteps β) (files : Files) :
    (steps >>= f).run files = match steps.run files with
      | (.ok a, files') => (f a).run files'
      | (.error e, files') => (.error e, files')
      | (.throws thrown, files') => (.throws thrown, files') := by
  have hbind : (steps >>= f).run files = _ := Stepwise.run_bind steps _ files
  rw [hbind, run]
  rcases Stepwise.run steps files with ⟨a | e | thrown, files'⟩ <;> rfl

theorem Performs.bind {steps : Nat → FileSteps α} {k l : Nat} {m : FileM α}
    {rest : α → Nat → FileSteps β} {f : α → FileM β} (h : Performs steps k m)
    (hrest : ∀ a, Performs (rest a) l (f a)) :
    Performs (fun n => steps n >>= fun a => rest a (n + k)) (k + l) (m >>= f) := by
  intro world
  obtain ⟨hrun, hreads⟩ := h world
  rw [run_bind, hrun, Effect.bind_apply]
  rcases hm : m world with ⟨a | e | thrown, world'⟩
  · -- the second part goes on where the first one has left the count of reads
    rw [hm] at hreads
    obtain ⟨hrun', hreads'⟩ := hrest a world'
    rw [hreads a rfl] at hrun' hreads'
    exact ⟨hrun', fun b hb => (hreads' b hb).trans (Nat.add_assoc _ _ _)⟩
  · exact ⟨rfl, fun b hb => by cases hb⟩
  · exact ⟨rfl, fun b hb => by cases hb⟩

/-- Of contents put one after the other the last one stays. -/
theorem run_putAll (path : Path) (answer : Call α) (contents : List Bytes) (last : Bytes)
    (files : Files) : (putAll path answer (contents ++ [last])).run files
      = (answer, Function.update files path (some last)) := by
  induction contents generalizing files with
  | nil => rfl
  | cons data contents ih =>
    have hrest := ih (Function.update files path (some data))
    rw [Function.update_idem] at hrest
    exact hrest

theorem performs_writeFile (path : Path) (data : Bytes) :
    Performs (fun _ => writeFile env path data) 0 (IUBPatch.writeFile env path data) := by
  intro world
  dsimp only
  rw [writeFile, IUBPatch.writeFile]
  cases createFileWriter env path with
  | error e => exact ⟨rfl, fun a h => by cases h⟩
  | ok writer =>
    dsimp only
    cases hwritten : (BufferedFileWriter.write env writer data).1 with
    | error e => exact ⟨run_putAll _ _ _ _ _, fun a h => by cases h⟩
    | ok _ =>
      dsimp only
      rw [List.append_cons]
      exact ⟨run_putAll _ _ _ _ _, fun a h => rfl⟩

theorem run_copyFile (copying : List Bytes) (source target : Path) (world : World) :
    (copyFile env copying source target).run world.files
      = ((IUBPatch.copyFile env source target world).1,
          (IUBPatch.copyFile env source target world).2.files) := by
  -- the first step only looks, and decides what to copy
  have hlook : (copyFile env copying source target).run world.files
      = (copyInto env copying source target (world.files source)).run world.files := rfl
  rw [hlook, IUBPatch.copyFile]
  cases world.files source with
  | none => rfl
  | some data =>
    dsimp only [copyInto]
    by_cases hsame : source = target
    · rw [if_pos hsame, if_pos hsame]
      rfl
    · rw [if_neg hsame, if_neg hsame]
      cases env.copyFault with
      | none => exact run_putAll _ _ _ _ _
      | some fault =>
        cases fault with
        | none => rfl
        | some part => exact run_putAll _ _ _ _ _

theorem reads_copyFile (source target : Path) (world : World) :
    (IUBPatch.copyFile env source target world).2.reads = world.reads := by
  rw [IUBPatch.copyFile]
  cases world.files source with
  | none => rfl
  | some data =>
    dsimp only
    split
    · rfl
    · split <;> rfl

theorem run_catchFilesystemError (message : String) {steps : FileSteps α} {m : FileM α}
    {world : World} (h : steps.run world.files = ((m world).1, (m world).2.files)) :
    (catchFilesystemError message steps).run world.files
      = ((IUBPatch.catchFilesystemError message m world).1,
          (IUBPatch.catchFilesystemError message m world).2.files) := by
  have hbind : (catchFilesystemError message steps).run world.files = _ := Stepwise.run_bind steps _ _
  have h : Stepwise.run steps world.files = _ := h
  rw [hbind, h, IUBPatch.catchFilesystemError]
  rcases m world with ⟨a | e | thrown, world'⟩
  · rfl
  · rfl
  · cases thrown <;> rfl

theorem performs_createBackup (copying : List Bytes) (filePath : Path) (options : PatchOptions) :
    Performs (fun _ => createBackup env copying filePath options) 0
      (IUBPatch.createBackup env filePath options) := by
  simp only [createBackup, IUBPatch.createBackup]
  split
  · exact performs_lift _
  · refine Performs.bind (k := 0) (fun world => ?_) fun _ => performs_lift (.ok _)
    refine ⟨run_catchFilesystemError _ (run_copyFile env copying filePath _ world), fun a h => ?_⟩
    have hreads := reads_copyFile env filePath (filePath ++ options.backupSuffix) world
    rw [IUBPatch.catchFilesystemError] at h ⊢
    split at h
    · cases h
    · exact hreads

theorem performs_applyPatch (patchPath sourcePath outputPath : Path) (options : PatchOptions) :
    Performs (fun n => applyPatch env n patchPath sourcePath outputPath options) 2
      (IUBPatch.applyPatch env patchPath sourcePath outputPath options) := by
  have hload : Performs (fun n => loadPatch env n patchPath) 1 (IUBPatch.loadPatch env patchPath) :=
    (performs_readFile env patchPath).bind fun data => performs_lift (loadPatchFromMemory data)
  have happly : ∀ patch : Patch, Performs
      (fun n => applyToFile env n patch sourcePath outputPath options) (1 + (0 + 0))
      (patch.applyToFile env sourcePath outputPath options) := fun patch =>
    (performs_readFile env sourcePath).bind fun source =>
      (performs_lift (patch.apply source options)).bind fun patched =>
        performs_writeFile env outputPath patched
  exact hload.bind happly

/-- The answer and the files of what follows `apply_patch`. -/
theorem run_finishInplace (filePath : Path) (answer : Call Unit) (world : World) :
    (finishInplace env filePath answer).run world.files
      = ((IUBPatch.finishInplace env filePath answer world).1,
          (IUBPatch.finishInplace env filePath answer world).2.files) := by
  cases answer with
  | throws thrown => rfl
  | error e =>
    rw [finishInplace, run_bind, IUBPatch.finishInplace, Effect.bind_apply]
    simp only [atomic, run, Stepwise.run, lift, removeFile]
    cases env.removeFails <;> rfl
  | ok _ =>
    refine run_catchFilesystemError _ ?_
    simp only [atomic, run, Stepwise.run, lift, renameFile]
    cases world.files (tempPath filePath) with
    | none => rfl
    | some data => cases env.renameFails <;> rfl

/-- **Run to the end, the steps are `apply_patch_inplace`.** -/
theorem run_applyPatchInplace (copying : List Bytes) (patchPath filePath : Path)
    (options : PatchOptions) (world : World) :
    (applyPatchInplace env copying world.reads patchPath filePath options).run world.files
      = ((IUBPatch.applyPatchInplace env patchPath filePath options world).1,
          (IUBPatch.applyPatchInplace env patchPath filePath options world).2.files) := by
  have hrest : ∀ world : World,
      (applyAndRename env world.reads patchPath filePath options).run world.files
        = ((IUBPatch.applyAndRename env patchPath filePath options world).1,
            (IUBPatch.applyAndRename env patchPath filePath options world).2.files) := by
    intro world
    obtain ⟨happly, -⟩ := performs_applyPatch env patchPath filePath (tempPath filePath) options world
    have hbind : (applyAndRename env world.reads patchPath filePath options).run world.files = _ :=
      Stepwise.run_bind _ _ _
    rw [run] at happly
    rw [hbind, happly]
    exact run_finishInplace env filePath _ _
  rw [applyPatchInplace, IUBPatch.applyPatchInplace]
  split
  · -- the backup reads no file by way of `read_file`, so that the rest starts with the same count
    obtain ⟨hbackup, hreads⟩ := performs_createBackup env copying filePath options world
    rw [run_bind, hbackup, Effect.bind_apply]
    rcases hrun : IUBPatch.createBackup env filePath options world with ⟨path | e | thrown, world'⟩
    · rw [hrun] at hreads
      have hcount : world'.reads = world.reads := hreads path rfl
      rw [← hcount]
      exact hrest world'
    · rfl
    · rfl
  · exact hrest world

/-! ### Footprints -/

section Footprints

variable {env} {looks writes : Set Path}

/-- The steps look at the paths of `looks` only, and change those of `writes` only. -/
abbrev Confined (looks writes : Set Path) (steps : FileSteps α) : Prop :=
  Stepwise.Confined looks writes steps

theorem confined_lift (answer : Call α) : Confined looks writes (lift answer) := trivial

protected theorem Confined.bind {steps : FileSteps α} {f : α → FileSteps β}
    (h : Confined looks writes steps) (hf : ∀ a, Confined looks writes (f a)) :
    Confined looks writes (steps >>= f) := by
  refine Stepwise.Confined.bind h fun answer => ?_
  cases answer with
  | ok a => exact hf a
  | error e => trivial
  | throws thrown => trivial

/-- A step has the footprint of its call. -/
theorem confined_atomic {m : FileM α} (hwithin : m.Within (KeepsOutside writes))
    (hrespects : m.Respects (SameWithin env looks)) (n : Nat) :
    Confined looks writes (atomic n m) := by
  refine ⟨fun files path hpath => hwithin { files, reads := n } path hpath, fun files files' hsame => ?_,
    fun _ => trivial⟩
  obtain ⟨hanswer, hafter⟩ := hrespects { files, reads := n } { files := files', reads := n }
    ⟨hsame, fun _ => rfl, fun _ => rfl⟩
  exact ⟨congrArg lift hanswer, hafter.files⟩

theorem confined_putAll {path : Path} (hpath : path ∈ writes) (answer : Call α)
    (contents : List Bytes) : Confined looks writes (putAll path answer contents) := by
  induction contents with
  | nil => trivial
  | cons data contents ih =>
    refine ⟨fun files other hother => ?_, fun files files' hsame => ⟨rfl, fun other hother => ?_⟩,
      fun _ => ih⟩
    · exact Function.update_of_ne (ne_of_mem_of_not_mem hpath hother).symm _ _
    · dsimp only
      by_cases hput : other = path
      · rw [hput, Function.update_self, Function.update_self]
      · rw [Function.update_of_ne hput, Function.update_of_ne hput]
        exact hsame hother

theorem confined_readFile {path : Path} (hpath : path ∈ looks) (n : Nat) :
    Confined looks writes (atomic n (readFile env path)) :=
  confined_atomic (within_readFile env path) (respects_readFile hpath) n

theorem confined_writeFile {path : Path} (hpath : path ∈ writes) (data : Bytes) :
    Confined looks writes (writeFile env path data) := by
  rw [writeFile]
  cases createFileWriter env path with
  | error e => trivial
  | ok writer =>
    dsimp only
    cases (BufferedFileWriter.write env writer data).1 with
    | error e => exact confined_putAll hpath _ _
    | ok _ => exact confined_putAll hpath _ _

/-- Copying changes the target, unless that is the file itself. -/
theorem confined_copyFile (copying : List Bytes) {source target : Path} (hsource : source ∈ looks)
    (htarget : source ≠ target → target ∈ writes) :
    Confined looks writes (copyFile env copying source target) := by
  refine ⟨fun _ _ _ => rfl, fun files files' hsame => ⟨?_, hsame⟩, fun files => ?_⟩
  · dsimp only
    rw [hsame hsource]
  · dsimp only
    cases files source with
    | none => trivial
    | some data =>
      dsimp only [copyInto]
      split
      · trivial
      · -- only here is the target another file
        rename_i hne
        have hwrites := htarget hne
        split
        · trivial
        · exact confined_putAll hwrites _ _
        · exact confined_putAll hwrites _ _

theorem confined_catchFilesystemError (message : String) {steps : FileSteps α}
    (h : Confined looks writes steps) :
    Confined looks writes (catchFilesystemError message steps) := by
  refine Stepwise.Confined.bind h fun answer => ?_
  cases answer with
  | ok a => trivial
  | error e => trivial
  | throws thrown => cases thrown <;> trivial

theorem confined_createBackup (copying : List Bytes) {filePath : Path} {options : PatchOptions}
    (hfile : filePath ∈ looks)
    (hbackup : filePath ≠ filePath ++ options.backupSuffix →
      filePath ++ options.backupSuffix ∈ writes) :
    Confined looks writes (createBackup env copying filePath options) := by
  rw [createBackup]
  split
  · trivial
  · exact (confined_catchFilesystemError _ (confined_copyFile copying hfile hbackup)).bind
      fun _ => trivial

variable {patchPath sourcePath outputPath filePath : Path} {options : PatchOptions}

theorem confined_applyPatch (hpatch : patchPath ∈ looks) (hsource : sourcePath ∈ looks)
    (houtput : outputPath ∈ writes) (n : Nat) :
    Confined looks writes (applyPatch env n patchPath sourcePath outputPath options) := by
  have hload : Confined looks writes (loadPatch env n patchPath) :=
    (confined_readFile hpatch n).bind fun _ => trivial
  refine hload.bind fun patch => ?_
  refine (confined_readFile hsource (n + 1)).bind fun source => ?_
  exact (confined_lift _).bind fun patched => confined_writeFile houtput patched

theorem confined_finishInplace (hlook : tempPath filePath ∈ looks) (hfile : filePath ∈ writes)
    (htemp : tempPath filePath ∈ writes) (answer : Call Unit) :
    Confined looks writes (finishInplace env filePath answer) := by
  cases answer with
  | throws thrown => trivial
  | error e =>
    refine Confined.bind ?_ fun _ => trivial
    exact confined_atomic (within_removeFile env htemp) (respects_removeFile _) 0
  | ok _ =>
    refine confined_catchFilesystemError _ ?_
    exact confined_atomic (within_renameFile env htemp hfile) (respects_renameFile hlook filePath) 0

theorem confined_applyAndRename (hpatch : patchPath ∈ looks) (hsource : filePath ∈ looks)
    (hlook : tempPath filePath ∈ looks) (hfile : filePath ∈ writes)
    (htemp : tempPath filePath ∈ writes) (n : Nat) :
    Confined looks writes (applyAndRename env n patchPath filePath options) :=
  Stepwise.Confined.bind (confined_applyPatch hpatch hsource htemp n)
    (confined_finishInplace hlook hfile htemp)

end Footprints

end FileSteps

end IUBPatch
