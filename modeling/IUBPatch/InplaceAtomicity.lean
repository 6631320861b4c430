import IUBPatch.Apply
import Mathlib.Data.List.TakeDrop

/-! # Patching in place

Every way `apply_patch_inplace` can go, from any file system and under any failures: which files it
leaves changed, and when what it leaves is what it was asked for. The temporary file is the weak
point: nothing asks whether its path is free, it stays behind when the rename fails, and it is renamed
even if flushing it has failed. -/

namespace IUBPatch

variable (env : Environment)

/-! ### Writing a file -/

/-- The data lands whole: the flush succeeds; or, of what the transfers of `write` have left in the
buffer, the failing flush and the destructor, each from its start, move together as many bytes as there
are, and from where the flush stops these are their own beginning. So it is where the one moves nothing
and the other everything. -/
def Environment.Lands (data : Bytes) : Prop :=
  OutputStream.Complete data env.duringWrite env.duringFlush env.duringClose

instance (data : Bytes) : Decidable (env.Lands data) :=
  inferInstanceAs (Decidable (OutputStream.Complete data _ _ _))

/-- What landed is the data exactly when it landed whole. -/
theorem landed_eq_iff (data : Bytes) : landed env data = data ↔ env.Lands data :=
  OutputStream.reached_eq_iff data env.duringWrite env.duringFlush env.duringClose

/-! ### Applying a patch from file to file -/

/-- What `apply_patch` has made when it comes to write its output: the patch and the source read (the
`n`-th file read and the one after it), and the one applied to the other. -/
def produced (files : Path → Option Bytes) (n : Nat) (patchPath sourcePath : Path)
    (options : PatchOptions) : Call Bytes := do
  let patchData ← .ofExcept (readOutcome env files n patchPath)
  let patch ← loadPatchFromMemory patchData
  let source ← .ofExcept (readOutcome env files (n + 1) sourcePath)
  patch.apply source options

/-- The patch file makes `T` out of the source file. -/
def Makes (files : Path → Option Bytes) (patchPath sourcePath : Path) (options : PatchOptions)
    (T : Bytes) : Prop :=
  ∃ patchData patch source, files patchPath = some patchData ∧
    loadPatchFromMemory patchData = .ok patch ∧ files sourcePath = some source ∧
    patch.apply source options = .ok T

section Makes

variable {files : Path → Option Bytes}

/-- It makes one thing. -/
theorem Makes.unique {patchPath sourcePath : Path} {options : PatchOptions} {T T' : Bytes}
    (h : Makes files patchPath sourcePath options T) (h' : Makes files patchPath sourcePath options T') :
    T = T' := by
  obtain ⟨P, patch, S, hP, hload, hS, happly⟩ := h
  obtain ⟨P', patch', S', hP', hload', hS', happly'⟩ := h'
  cases hP.symm.trans hP'
  cases hS.symm.trans hS'
  cases hload.symm.trans hload'
  exact Outcome.ok.inj (happly.symm.trans happly')

/-- It makes the same of the same files. -/
theorem Makes.congr {files' : Path → Option Bytes} {patchPath sourcePath : Path}
    {options : PatchOptions} {T : Bytes} (h : Makes files patchPath sourcePath options T)
    (hpatch : files' patchPath = files patchPath) (hsource : files' sourcePath = files sourcePath) :
    Makes files' patchPath sourcePath options T := by
  obtain ⟨P, patch, S, hP, hload, hS, happly⟩ := h
  exact ⟨P, patch, S, hpatch.trans hP, hload, hsource.trans hS, happly⟩

/-- Whatever fails, what `apply_patch` has made is what the patch makes. -/
theorem makes_of_produced {env : Environment} {n : Nat} {patchPath sourcePath : Path}
    {options : PatchOptions} {T : Bytes}
    (h : produced env files n patchPath sourcePath options = .ok T) :
    Makes files patchPath sourcePath options T := by
  rw [produced] at h
  obtain ⟨P, hread, h⟩ := Outcome.bind_eq_ok_iff.mp h
  obtain ⟨patch, hload, h⟩ := Outcome.bind_eq_ok_iff.mp h
  obtain ⟨S, hsource, happly⟩ := Outcome.bind_eq_ok_iff.mp h
  rw [Outcome.ofExcept_eq_ok_iff] at hread hsource
  exact ⟨P, patch, S, files_of_readOutcome hread, hload, files_of_readOutcome hsource, happly⟩

/-- Without faults a file is read exactly if it is there. -/
theorem ofExcept_readOutcome_eq_ok_iff {n : Nat} {path : Path} {data : Bytes} :
    (Outcome.ofExcept (readOutcome {} files n path) : Call Bytes) = .ok data ↔
      files path = some data := by
  rw [Outcome.ofExcept_eq_ok_iff]
  cases hfile : files path with
  | none =>
    rw [readOutcome, hfile]
    refine iff_of_false ?_ ?_
    · intro h; cases h
    · intro h; cases h
  | some content => rw [readOutcome_faultless hfile, Except.ok.injEq, Option.some.injEq]

/-- Without faults that is all there is to it. -/
theorem produced_eq_ok_iff (patchPath filePath : Path) (options : PatchOptions) {n : Nat} {T : Bytes} :
    produced {} files n patchPath filePath options = .ok T ↔
      Makes files patchPath filePath options T := by
  simp only [produced, Outcome.bind_eq_ok_iff, ofExcept_readOutcome_eq_ok_iff, Makes]
  constructor
  · rintro ⟨patchData, hpatchFile, patch, hload, source, hsource, happly⟩
    exact ⟨patchData, patch, source, hpatchFile, hload, hsource, happly⟩
  · rintro ⟨patchData, patch, source, hpatchFile, hload, hsource, happly⟩
    exact ⟨patchData, hpatchFile, patch, hload, source, hsource, happly⟩

end Makes

variable (patchPath sourcePath outputPath filePath : Path) (options : PatchOptions) (world : World)

/-- `apply_patch` returns an error: of what it reads and computes, or of writing the output. -/
def ApplyFails : Prop :=
  (∃ e, produced env world.files world.reads patchPath sourcePath options = .error e) ∨
    (∃ T, produced env world.files world.reads patchPath sourcePath options = .ok T) ∧ env.WriteFails

/-- `apply_patch` up to its write: it changes no file. -/
theorem applyPatch_eq :
    ∃ n, applyPatch env patchPath sourcePath outputPath options world
      = (Effect.lift (produced env world.files world.reads patchPath sourcePath options)
          >>= writeFile env outputPath : FileM Unit) { world with reads := n } := by
  rw [applyPatch, produced]
  simp only [loadPatch, Patch.applyToFile, Effect.bind_apply, readFile_apply, Effect.lift_apply]
  cases readOutcome env world.files world.reads patchPath with
  | error e => exact ⟨world.reads + 1, rfl⟩
  | ok patchData =>
    simp only [Outcome.ofExcept_ok, Outcome.ok_bind]
    cases loadPatchFromMemory patchData with
    | error e => exact ⟨world.reads + 1, rfl⟩
    | throws thrown => exact ⟨world.reads + 1, rfl⟩
    | ok patch =>
      refine ⟨world.reads + 1 + 1, ?_⟩
      simp only [Outcome.ok_bind]
      cases readOutcome env world.files (world.reads + 1) sourcePath with
      | error e => rfl
      | ok source =>
        simp only [Outcome.ofExcept_ok, Outcome.ok_bind]

/-- **Every way `apply_patch` can go**: an exception or an error of the computation, with no file
changed; an error of the write, with some bytes in the output; or success, with what landed. -/
theorem applyPatch_cases :
    let run := applyPatch env patchPath sourcePath outputPath options world
    let made := produced env world.files world.reads patchPath sourcePath options
    (∃ thrown, made = .throws thrown ∧ run.1 = .throws thrown) ∨
      (ApplyFails env patchPath sourcePath options world ∧ (∃ e, run.1 = .error e) ∧
        (run.2.files = world.files ∨
          ∃ part, run.2.files = Function.update world.files outputPath (some part))) ∨
      (∃ T, made = .ok T ∧ ¬ env.WriteFails ∧ run.1 = .ok () ∧
        run.2.files = Function.update world.files outputPath (some (landed env T))) := by
  obtain ⟨n, hrun⟩ := applyPatch_eq env patchPath sourcePath outputPath options world
  intro run made
  have hrun' : run = _ := hrun
  rw [hrun', ApplyFails]
  cases hmade : produced env world.files world.reads patchPath sourcePath options with
  | throws thrown => exact .inl ⟨thrown, hmade, rfl⟩
  | error e => exact .inr (.inl ⟨.inl ⟨e, rfl⟩, ⟨e, rfl⟩, .inl rfl⟩)
  | ok T =>
    right
    rcases writeFile_apply env outputPath T { world with reads := n } with
      ⟨hfails, e, world', hwrite, hworld⟩ | ⟨hsucceeds, hwrite⟩
    · left
      rw [Effect.bind_apply, Effect.lift_apply]
      dsimp only
      rw [hwrite]
      refine ⟨.inr ⟨⟨T, rfl⟩, hfails⟩, ⟨e, rfl⟩, ?_⟩
      rcases hworld with rfl | ⟨part, rfl⟩
      · exact .inl rfl
      · exact .inr ⟨part, rfl⟩
    · right
      rw [Effect.bind_apply, Effect.lift_apply]
      dsimp only
      rw [hwrite]
      exact ⟨T, hmade, hsucceeds, rfl, rfl⟩

/-! ### The backup -/

/-- The path is the one a requested backup goes to. -/
def IsBackupPath (path : Path) : Prop :=
  options.createBackup = true ∧ path = filePath ++ options.backupSuffix

/-- The requested backup cannot be made: there is no such file, the backup would be the file itself, or
the copy fails. -/
def BackupFails : Prop :=
  options.createBackup = true ∧
    (world.files filePath = none ∨ filePath = filePath ++ options.backupSuffix ∨
      env.copyFault.isSome = true)

/-- The files after the backup. -/
def backedUp (files : Path → Option Bytes) : Path → Option Bytes :=
  if options.createBackup then
    Function.update files (filePath ++ options.backupSuffix) (files filePath)
  else files

/-- The backup changes no other path. -/
theorem backedUp_of_ne {path : Path} (h : ¬ IsBackupPath filePath options path)
    (files : Path → Option Bytes) : backedUp filePath options files path = files path := by
  rw [backedUp]
  split
  · rename_i hbackup
    exact Function.update_of_ne (fun hpath => h ⟨hbackup, hpath⟩) _ _
  · rfl

/-- **Every way `create_backup` can go**: an error, with no path but the backup's changed, or the
backup made. -/
theorem createBackup_cases (hrequested : options.createBackup = true) :
    let run := createBackup env filePath options world
    (BackupFails env filePath options world ∧ (∃ e, run.1 = .error e) ∧
        ∀ path, ¬ IsBackupPath filePath options path → run.2.files path = world.files path) ∨
      (¬ BackupFails env filePath options world ∧
        run = (.ok (filePath ++ options.backupSuffix),
          { world with files := backedUp filePath options world.files })) := by
  intro run
  have hrun : run = createBackup env filePath options world := rfl
  rw [createBackup, if_neg (not_not.mpr hrequested), Effect.bind_apply, catchFilesystemError,
    copyFile] at hrun
  rw [hrun]
  cases hfile : world.files filePath with
  | none => exact .inl ⟨⟨hrequested, .inl hfile⟩, ⟨_, rfl⟩, fun path _ => rfl⟩
  | some data =>
    dsimp only
    by_cases hsame : filePath = filePath ++ options.backupSuffix
    · rw [if_pos hsame]
      exact .inl ⟨⟨hrequested, .inr (.inl hsame)⟩, ⟨_, rfl⟩, fun path _ => rfl⟩
    · rw [if_neg hsame]
      cases hcopy : env.copyFault with
      | none =>
        right
        refine ⟨?_, ?_⟩
        · rintro ⟨-, hnone | hpath | hfault⟩
          · rw [hfile] at hnone; cases hnone
          · exact hsame hpath
          · rw [hcopy] at hfault; cases hfault
        · rw [backedUp, if_pos hrequested, hfile]
          rfl
      | some left =>
        left
        refine ⟨⟨hrequested, .inr (.inr (by rw [hcopy]; rfl))⟩, ?_⟩
        cases left with
        | none => exact ⟨⟨_, rfl⟩, fun path _ => rfl⟩
        | some part =>
          exact ⟨⟨_, rfl⟩, fun path hpath =>
            Function.update_of_ne (fun h => hpath ⟨hrequested, h⟩) _ _⟩

/-! ### Every way `apply_patch_inplace` can go -/

/-- The temporary file is not the file. -/
theorem tempPath_ne : tempPath filePath ≠ filePath := by
  intro h
  have hlength := congrArg String.length h
  rw [tempPath, String.length_append] at hlength
  simp at hlength

/-- The outcome of patching in place once the backup is made: an exception; an error, with the
temporary file removed, which was perhaps never written; or the temporary file renamed, or left behind
because the rename failed. -/
theorem applyAndRename_cases :
    let run := applyAndRename env patchPath filePath options world
    let made := produced env world.files world.reads patchPath filePath options
    (((∃ thrown, made = .throws thrown) ∨
        ApplyFails env patchPath filePath options world ∧ env.removeFails = true) ∧
        ∃ thrown, run.1 = .throws thrown) ∨
      (ApplyFails env patchPath filePath options world ∧ env.removeFails = false ∧
        (∃ e, run.1 = .error e) ∧
        run.2.files = Function.update world.files (tempPath filePath) none) ∨
      (∃ T, made = .ok T ∧ ¬ env.WriteFails ∧ env.renameFails = true ∧ (∃ e, run.1 = .error e) ∧
        run.2.files = Function.update world.files (tempPath filePath) (some (landed env T))) ∨
      (∃ T, made = .ok T ∧ ¬ env.WriteFails ∧ env.renameFails = false ∧ run.1 = .ok () ∧
        run.2.files = Function.update (Function.update world.files (tempPath filePath) none) filePath
          (some (landed env T))) := by
  intro run made
  have hrun : run = applyAndRename env patchPath filePath options world := rfl
  have happly := applyPatch_cases env patchPath filePath (tempPath filePath) options world
  rw [applyAndRename] at hrun
  rw [hrun]
  rcases hresult : applyPatch env patchPath filePath (tempPath filePath) options world with
    ⟨result, world'⟩
  rw [hresult] at happly
  rcases happly with ⟨thrown, hmade, rfl⟩ | ⟨hfails, ⟨e, rfl⟩, hfiles⟩ | ⟨T, hmade, hwrite, rfl, hfiles⟩
  · exact .inl ⟨.inl ⟨thrown, hmade⟩, thrown, rfl⟩
  · -- removing the temporary file undoes a partial write and removes an older file alike
    have herased : Function.update world'.files (tempPath filePath) none
        = Function.update world.files (tempPath filePath) none := by
      rcases hfiles with hfiles | ⟨part, hfiles⟩
      · rw [hfiles]
      · rw [hfiles, Function.update_idem]
    dsimp only [finishInplace]
    rw [Effect.bind_apply, removeFile]
    cases env.removeFails with
    | true => exact .inl ⟨.inr ⟨hfails, rfl⟩, _, rfl⟩
    | false => exact .inr (.inl ⟨hfails, rfl, ⟨e, rfl⟩, herased⟩)
  · have htemp : world'.files (tempPath filePath) = some (landed env T) := by
      dsimp only at hfiles
      rw [hfiles, Function.update_self]
    dsimp only at hfiles
    dsimp only [finishInplace]
    rw [catchFilesystemError, renameFile, htemp]
    cases env.renameFails with
    | true =>
      refine .inr (.inr (.inl ⟨T, hmade, hwrite, rfl, ⟨_, rfl⟩, hfiles⟩))
    | false =>
      refine .inr (.inr (.inr ⟨T, hmade, hwrite, rfl, rfl, ?_⟩))
      show Function.update (Function.update world'.files (tempPath filePath) none) filePath _ = _
      rw [hfiles, Function.update_idem]

/-- `apply_patch_inplace` is the backup, if one is asked for, and what comes behind it. -/
theorem applyPatchInplace_cases :
    let run := applyPatchInplace env patchPath filePath options world
    (BackupFails env filePath options world ∧ (∃ e, run.1 = .error e) ∧
        ∀ path, ¬ IsBackupPath filePath options path → run.2.files path = world.files path) ∨
      (¬ BackupFails env filePath options world ∧
        run = applyAndRename env patchPath filePath options
          { world with files := backedUp filePath options world.files }) := by
  intro run
  have hrun : run = applyPatchInplace env patchPath filePath options world := rfl
  rw [applyPatchInplace] at hrun
  rw [hrun]
  by_cases hrequested : options.createBackup = true
  · rw [if_pos hrequested]
    rcases createBackup_cases env filePath options world hrequested with
      ⟨hfails, ⟨e, he⟩, hfiles⟩ | ⟨hmade, hbackup⟩
    · left
      refine ⟨hfails, ?_⟩
      rcases hresult : createBackup env filePath options world with ⟨result, world'⟩
      rw [hresult] at he hfiles
      cases he
      rw [Effect.bind_apply, hresult]
      exact ⟨⟨e, rfl⟩, hfiles⟩
    · right
      refine ⟨hmade, ?_⟩
      rw [Effect.bind_apply_ok hbackup]
  · right
    have hnone : backedUp filePath options world.files = world.files := by
      rw [backedUp, if_neg hrequested]
    rw [if_neg hrequested, hnone]
    exact ⟨fun hfails => hrequested hfails.1, rfl⟩

/-- Where `apply_patch_inplace` succeeds, the backup did, and the temporary file was renamed over the
file with what landed in it. -/
theorem applyPatchInplace_of_ok
    (hok : (applyPatchInplace env patchPath filePath options world).1 = .ok ()) :
    ¬ BackupFails env filePath options world ∧
      ∃ T, produced env (backedUp filePath options world.files) world.reads patchPath filePath options
          = .ok T ∧
        (applyPatchInplace env patchPath filePath options world).2.files
          = Function.update (Function.update (backedUp filePath options world.files)
              (tempPath filePath) none) filePath (some (landed env T)) := by
  rcases applyPatchInplace_cases env patchPath filePath options world with
    ⟨-, ⟨e, he⟩, -⟩ | ⟨hbackup, hrun⟩
  · rw [he] at hok; cases hok
  · have hcases := applyAndRename_cases env patchPath filePath options
      { world with files := backedUp filePath options world.files }
    rw [← hrun] at hcases
    rcases hcases with ⟨-, thrown, hthrows⟩ | ⟨-, -, ⟨e, he⟩, -⟩ | ⟨T, -, -, -, ⟨e, he⟩, -⟩
        | ⟨T, hmade, -, -, -, hfiles⟩
    · rw [hthrows] at hok; cases hok
    · rw [he] at hok; cases hok
    · rw [he] at hok; cases hok
    · exact ⟨hbackup, T, hmade, hfiles⟩

/-! ### Atomicity -/

/-- Patching in place is atomic on a file system: an error leaves every path but the backup's as it
was, and success leaves the patched bytes in the file and every other path as it was. -/
structure InplaceAtomic : Prop where
  error : ∀ e, (applyPatchInplace env patchPath filePath options world).1 = .error e →
    ∀ path, ¬ IsBackupPath filePath options path →
      (applyPatchInplace env patchPath filePath options world).2.files path = world.files path
  ok : (applyPatchInplace env patchPath filePath options world).1 = .ok () →
    (∃ T, produced {} world.files 0 patchPath filePath options = .ok T ∧
      (applyPatchInplace env patchPath filePath options world).2.files filePath = some T) ∧
    ∀ path, path ≠ filePath → ¬ IsBackupPath filePath options path →
      (applyPatchInplace env patchPath filePath options world).2.files path = world.files path

/-- Nothing is lost by removing the temporary file: its path is the backup's, or held no file. -/
def TempUnused : Prop :=
  IsBackupPath filePath options (tempPath filePath) ∨ world.files (tempPath filePath) = none

/-- What lands is what was asked for: the backup has left the patch alone, and the bytes made land whole;
or it has replaced the patch by the file, and what lands of that is what the patch that was there makes
of the file. -/
def ServesAsAsked (T : Bytes) : Prop :=
  (¬ IsBackupPath filePath options patchPath ∧ env.Lands T) ∨
    (IsBackupPath filePath options patchPath ∧
      ∃ asked, Makes world.files patchPath filePath options asked ∧ landed env T = asked)

/-- The stage at which patching in place ends does no harm: the backup fails; or, behind the backup,
an exception leaves; or applying fails, and removing the temporary file throws or loses nothing; or the
rename fails, and the temporary file left behind is the backup's or was there before; or the rename
succeeds, removing the temporary file loses nothing, and the bytes made land whole, unless the backup
went to the path of the patch: then the file was patched with its own bytes, and the patch that was
there has to make of it what landed of that. -/
def EndsHarmlessly : Prop :=
  let backed : World := { world with files := backedUp filePath options world.files }
  let made := produced env backed.files world.reads patchPath filePath options
  BackupFails env filePath options world ∨
    (∃ thrown, made = .throws thrown) ∨
    (ApplyFails env patchPath filePath options backed ∧
      (env.removeFails = true ∨ TempUnused filePath options world)) ∨
    (∃ T, made = .ok T ∧ ¬ env.WriteFails ∧ env.renameFails = true ∧
      (IsBackupPath filePath options (tempPath filePath) ∨
        world.files (tempPath filePath) = some (landed env T))) ∨
    (∃ T, made = .ok T ∧ ¬ env.WriteFails ∧ env.renameFails = false ∧
      TempUnused filePath options world ∧ ServesAsAsked env patchPath filePath options world T)

/-- Files changed at the temporary path are as before everywhere but at the backup's path exactly when
that is the temporary path, or nothing was changed. -/
theorem update_temp_unchanged_iff (content : Option Bytes) :
    (∀ path, ¬ IsBackupPath filePath options path →
      Function.update (backedUp filePath options world.files) (tempPath filePath) content path
        = world.files path) ↔
      IsBackupPath filePath options (tempPath filePath) ∨
        world.files (tempPath filePath) = content := by
  constructor
  · intro h
    by_cases hbackup : IsBackupPath filePath options (tempPath filePath)
    · exact .inl hbackup
    · have htemp := h (tempPath filePath) hbackup
      rw [Function.update_self] at htemp
      exact .inr htemp.symm
  · intro h path hpath
    by_cases htemp : path = tempPath filePath
    · subst htemp
      rw [Function.update_self]
      exact (h.resolve_left hpath).symm
    · rw [Function.update_of_ne htemp, backedUp_of_ne filePath options hpath]

/-- The same behind the rename, which changes the file itself as well. -/
theorem update_file_unchanged_iff (content : Option Bytes) :
    (∀ path, path ≠ filePath → ¬ IsBackupPath filePath options path →
      Function.update (Function.update (backedUp filePath options world.files) (tempPath filePath)
        none) filePath content path = world.files path) ↔
      TempUnused filePath options world := by
  constructor
  · intro h
    by_cases hbackup : IsBackupPath filePath options (tempPath filePath)
    · exact .inl hbackup
    · have htemp := h (tempPath filePath) (tempPath_ne filePath) hbackup
      rw [Function.update_of_ne (tempPath_ne filePath), Function.update_self] at htemp
      exact .inr htemp.symm
  · intro h path hfile hpath
    rw [Function.update_of_ne hfile]
    exact (update_temp_unchanged_iff filePath options world none).mpr h path hpath

variable {env patchPath sourcePath filePath options world}

/-- A failing `apply_patch` throws nothing. -/
theorem ApplyFails.ne_throws (h : ApplyFails env patchPath sourcePath options world)
    (thrown : StdException) :
    produced env world.files world.reads patchPath sourcePath options ≠ .throws thrown := by
  intro hthrows
  rcases h with ⟨e, he⟩ | ⟨⟨T, hT⟩, -⟩
  · rw [hthrows] at he; cases he
  · rw [hthrows] at hT; cases hT

/-- If it has made its output, it fails to write it. -/
theorem ApplyFails.writeFails (h : ApplyFails env patchPath sourcePath options world) {T : Bytes}
    (hT : produced env world.files world.reads patchPath sourcePath options = .ok T) :
    env.WriteFails := by
  rcases h with ⟨e, he⟩ | ⟨-, hwrite⟩
  · rw [hT] at he; cases he
  · exact hwrite

/-- Where it throws, patching in place leaves nothing to be asked of it. -/
theorem inplaceAtomic_of_throws {thrown : StdException}
    (hthrows : (applyPatchInplace env patchPath filePath options world).1 = .throws thrown) :
    InplaceAtomic env patchPath filePath options world := by
  refine ⟨fun e he => ?_, fun hok => ?_⟩
  · rw [hthrows] at he; cases he
  · rw [hthrows] at hok; cases hok

/-- Where it returns an error, nothing but the backup may have changed. -/
theorem inplaceAtomic_iff_of_error {e : ErrorInfo}
    (he : (applyPatchInplace env patchPath filePath options world).1 = .error e) :
    InplaceAtomic env patchPath filePath options world ↔
      ∀ path, ¬ IsBackupPath filePath options path →
        (applyPatchInplace env patchPath filePath options world).2.files path = world.files path := by
  refine ⟨fun hatomic => hatomic.error e he, fun hfiles => ⟨fun _ _ => hfiles, fun hok => ?_⟩⟩
  rw [he] at hok
  cases hok

/-- Where it succeeds, the file holds the patched bytes and no other path has changed. -/
theorem inplaceAtomic_iff_of_ok
    (hok : (applyPatchInplace env patchPath filePath options world).1 = .ok ()) :
    InplaceAtomic env patchPath filePath options world ↔
      (∃ T, produced {} world.files 0 patchPath filePath options = .ok T ∧
        (applyPatchInplace env patchPath filePath options world).2.files filePath = some T) ∧
      ∀ path, path ≠ filePath → ¬ IsBackupPath filePath options path →
        (applyPatchInplace env patchPath filePath options world).2.files path = world.files path := by
  refine ⟨fun hatomic => hatomic.ok hok, fun hfiles => ⟨fun e he => ?_, fun _ => hfiles⟩⟩
  rw [hok] at he
  cases he

section Stages

variable {T : Bytes} (hbackup : ¬ BackupFails env filePath options world)

include hbackup

/-- A run whose `apply_patch` fails does no harm exactly if clearing the temporary path loses
nothing. -/
theorem endsHarmlessly_iff_of_applyFails
    (happly : ApplyFails env patchPath filePath options
      { world with files := backedUp filePath options world.files })
    (hremove : env.removeFails = false) :
    EndsHarmlessly env patchPath filePath options world ↔ TempUnused filePath options world := by
  constructor
  · rintro (hfails | ⟨thrown, hmade⟩ | ⟨-, hremove' | hunused⟩ | ⟨T, hmade, hwrite, -⟩
      | ⟨T, hmade, hwrite, -⟩)
    · exact absurd hfails hbackup
    · exact absurd hmade (happly.ne_throws thrown)
    · rw [hremove] at hremove'; cases hremove'
    · exact hunused
    · exact absurd (happly.writeFails hmade) hwrite
    · exact absurd (happly.writeFails hmade) hwrite
  · intro hunused
    exact .inr (.inr (.inl ⟨happly, .inr hunused⟩))

variable (hmade : produced env (backedUp filePath options world.files) world.reads patchPath filePath
  options = .ok T)

include hmade

/-- Behind the backup, what landed is what the patch makes of the file exactly if it is what was asked
for. -/
theorem makes_landed_iff : Makes world.files patchPath filePath options (landed env T) ↔
    ServesAsAsked env patchPath filePath options world T := by
  by_cases hreplaced : IsBackupPath filePath options patchPath
  · constructor
    · exact fun h => .inr ⟨hreplaced, landed env T, h, rfl⟩
    · rintro (⟨hkept, -⟩ | ⟨-, asked, h, rfl⟩)
      · exact absurd hreplaced hkept
      · exact h
  · -- the patch and the file are what they were before the backup
    have hown : ¬ IsBackupPath filePath options filePath :=
      fun hsame => hbackup ⟨hsame.1, .inr (.inl hsame.2)⟩
    have hbefore : Makes world.files patchPath filePath options T :=
      (makes_of_produced hmade).congr (backedUp_of_ne filePath options hreplaced world.files).symm
        (backedUp_of_ne filePath options hown world.files).symm
    have hlands : Makes world.files patchPath filePath options (landed env T) ↔ env.Lands T := by
      rw [← landed_eq_iff]
      exact ⟨fun h => h.unique hbefore, fun h => h.symm ▸ hbefore⟩
    rw [hlands]
    exact ⟨fun h => .inl ⟨hreplaced, h⟩, fun h => (h.resolve_right fun h => hreplaced h.1).2⟩

variable (hwrite : ¬ env.WriteFails)

include hwrite

/-- A run whose rename fails does no harm exactly if the temporary file is the backup's or was there
before. -/
theorem endsHarmlessly_iff_of_renameFails (hrename : env.renameFails = true) :
    EndsHarmlessly env patchPath filePath options world ↔
      IsBackupPath filePath options (tempPath filePath) ∨
        world.files (tempPath filePath) = some (landed env T) := by
  constructor
  · rintro (hfails | ⟨thrown, hmade'⟩ | ⟨happly, -⟩ | ⟨T', hmade', -, -, htemp⟩
      | ⟨T', hmade', -, hrename', -⟩)
    · exact absurd hfails hbackup
    · rw [hmade] at hmade'; cases hmade'
    · exact absurd (happly.writeFails hmade) hwrite
    · rw [hmade] at hmade'; cases hmade'; exact htemp
    · rw [hrename] at hrename'; cases hrename'
  · intro htemp
    exact .inr (.inr (.inr (.inl ⟨T, hmade, hwrite, hrename, htemp⟩)))

/-- A run whose rename succeeds does no harm exactly if the temporary path was free and what was asked
for landed. -/
theorem endsHarmlessly_iff_of_renamed (hrename : env.renameFails = false) :
    EndsHarmlessly env patchPath filePath options world ↔
      TempUnused filePath options world ∧ ServesAsAsked env patchPath filePath options world T := by
  constructor
  · rintro (hfails | ⟨thrown, hmade'⟩ | ⟨happly, -⟩ | ⟨T', hmade', -, hrename', -⟩
      | ⟨T', hmade', -, -, hdone⟩)
    · exact absurd hfails hbackup
    · rw [hmade] at hmade'; cases hmade'
    · exact absurd (happly.writeFails hmade) hwrite
    · rw [hrename] at hrename'; cases hrename'
    · rw [hmade] at hmade'; cases hmade'; exact hdone
  · intro hdone
    exact .inr (.inr (.inr (.inr ⟨T, hmade, hwrite, hrename, hdone⟩)))

end Stages

variable (env patchPath filePath options world)

/-- **When patching in place is atomic.** For every file system, every paths, every options and every
failures, `apply_patch_inplace` leaves things as they should be exactly when the stage it ends at does
no harm. -/
theorem inplaceAtomic_iff :
    InplaceAtomic env patchPath filePath options world ↔
      EndsHarmlessly env patchPath filePath options world := by
  rcases applyPatchInplace_cases env patchPath filePath options world with
    ⟨hfails, ⟨e, he⟩, hfiles⟩ | ⟨hbackup, hrun⟩
  · -- the backup fails: no other path is touched
    exact iff_of_true ((inplaceAtomic_iff_of_error he).mpr hfiles) (.inl hfails)
  · have hcases := applyAndRename_cases env patchPath filePath options
      { world with files := backedUp filePath options world.files }
    rw [← hrun] at hcases
    dsimp only at hcases
    rcases hcases with ⟨hstage, thrown, hthrows⟩ | ⟨happly, hremove, ⟨e, he⟩, hfiles⟩
        | ⟨T, hmade, hwrite, hrename, ⟨e, he⟩, hfiles⟩ | ⟨T, hmade, hwrite, hrename, hok, hfiles⟩
    · -- an exception leaves
      refine iff_of_true (inplaceAtomic_of_throws hthrows) ?_
      rcases hstage with hmade | ⟨happly, hremove⟩
      · exact .inr (.inl hmade)
      · exact .inr (.inr (.inl ⟨happly, .inl hremove⟩))
    · -- applying fails, and the temporary path is cleared
      rw [inplaceAtomic_iff_of_error he, hfiles,
        endsHarmlessly_iff_of_applyFails hbackup happly hremove]
      exact update_temp_unchanged_iff filePath options world none
    · -- the rename fails, and the temporary file stays
      rw [inplaceAtomic_iff_of_error he, hfiles,
        endsHarmlessly_iff_of_renameFails hbackup hmade hwrite hrename]
      exact update_temp_unchanged_iff filePath options world (some (landed env T))
    · -- the rename succeeds: the file holds what landed
      rw [inplaceAtomic_iff_of_ok hok, hfiles, Function.update_self,
        update_file_unchanged_iff filePath options world,
        endsHarmlessly_iff_of_renamed hbackup hmade hwrite hrename, and_comm,
        ← makes_landed_iff hbackup hmade]
      simp only [Option.some.injEq, exists_eq_right', produced_eq_ok_iff]

/-- A patch that changes nothing, and a file to apply it to. -/
def plainWorld : World where
  files path := if path = "patch" then some (ipsMagic ++ ipsEof) else if path = "file" then some [1]
    else none

/-- A rename that fails leaves the temporary file behind; and without any failure, an older file at
the temporary path is gone. -/
theorem not_inplaceAtomic :
    ¬ InplaceAtomic { renameFails := true } "patch" "file" {} plainWorld ∧
      ¬ InplaceAtomic {} "patch" "file" {} (plainWorld.put "file.tmp" [9]) := by
  constructor
  · intro hatomic
    have hleft := hatomic.error
      { code := .fileWriteError, message := "Failed to replace original file: " }
      (by decide +kernel) "file.tmp" (fun hbackup => by cases hbackup.1)
    revert hleft
    decide +kernel
  · intro hatomic
    have hlost := (hatomic.ok (by decide +kernel)).2 "file.tmp" (by decide)
      (fun hbackup => by cases hbackup.1)
    revert hlost
    decide +kernel

/-! ### Silent short writes -/

/-- **When a write that reports success is complete.** Under given failures, `write_file` never
reports success for an incomplete file exactly when it reports a failure or the data reaches the device
to its end; and where `apply_patch_inplace` succeeds, the file holds the bytes it made exactly when
these do. -/
theorem writeFile_complete_iff :
    (∀ data : Bytes,
      (∀ (path : Path) (world : World), (writeFile env path data world).1 = .ok () →
        (writeFile env path data world).2.files path = some data) ↔
          env.WriteFails ∨ env.Lands data) ∧
    (∀ (patchPath filePath : Path) (options : PatchOptions) (world : World),
      (applyPatchInplace env patchPath filePath options world).1 = .ok () →
        ∃ T, produced env (backedUp filePath options world.files) world.reads patchPath filePath options
            = .ok T ∧
          ((applyPatchInplace env patchPath filePath options world).2.files filePath = some T ↔
            env.Lands T)) := by
  constructor
  · intro data
    constructor
    · intro hcomplete
      rcases writeFile_apply env "" data ⟨fun _ => none, 0⟩ with ⟨hfails, -⟩ | ⟨-, hwrite⟩
      · exact .inl hfails
      · have hheld := hcomplete "" ⟨fun _ => none, 0⟩ (by rw [hwrite])
        rw [hwrite, World.files_put, Function.update_self, Option.some.injEq] at hheld
        exact .inr ((landed_eq_iff env data).mp hheld)
    · intro hgood path world hok
      rcases writeFile_apply env path data world with ⟨-, e, world', hwrite, -⟩ | ⟨hsucceeds, hwrite⟩
      · rw [hwrite] at hok; cases hok
      · have hlands := hgood.resolve_left hsucceeds
        rw [hwrite, World.files_put, Function.update_self, (landed_eq_iff env data).mpr hlands]
  · intro patchPath filePath options world hok
    obtain ⟨-, T, hmade, hfiles⟩ := applyPatchInplace_of_ok env patchPath filePath options world hok
    refine ⟨T, hmade, ?_⟩
    rw [hfiles, Function.update_self, Option.some.injEq, landed_eq_iff]

/-- A full disk met by the flush: `write_file` reports success, and the file is empty. -/
theorem not_writeFile_complete :
    ¬ ∀ (env : Environment) (path : Path) (data : Bytes) (world : World),
      (writeFile env path data world).1 = .ok () →
        (writeFile env path data world).2.files path = some data := by
  intro hcomplete
  have hempty := hcomplete { duringFlush := some 0 } "out" [1] ⟨fun _ => none, 0⟩ rfl
  revert hempty
  decide

/-- A flush that fails before its first byte, where the destructor brings both to the device; and a full
disk met by the flush of a temporary file, which is renamed, still empty, over the original. -/
theorem writeFile_complete_late :
    (writeFile { duringFlush := some 0, duringClose := 2 } "out" [1, 2] ⟨fun _ => none, 0⟩).2.files "out"
        = some [1, 2] ∧
      ∃ T, produced { duringFlush := some 0 } plainWorld.files 0 "patch" "file" {} = .ok T ∧
        ((applyPatchInplace { duringFlush := some 0 } "patch" "file" {} plainWorld).2.files "file"
          = some T ↔ Environment.Lands { duringFlush := some 0 } T) := by
  constructor
  · have hlate := (writeFile_complete_iff { duringFlush := some 0, duringClose := 2 }).1 [1, 2]
    exact hlate.mpr (.inr (by decide)) "out" ⟨fun _ => none, 0⟩ rfl
  · have hfull := (writeFile_complete_iff { duringFlush := some 0 }).2 "patch" "file" {} plainWorld
    exact hfull (by decide +kernel)

end IUBPatch
