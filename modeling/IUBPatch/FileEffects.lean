import IUBPatch.Formats.BPSSignedOffsets
import IUBPatch.Formats.BPSTotality
import IUBPatch.InplaceAtomicity
import IUBPatch.SourceChecks

/-! # What the file operations leave behind

On a file system without faults, `apply_patch` does all its reading and checking before it opens the
output, so it changes the output path or nothing, whichever of its paths are equal; but it only comes
back if the sizes that the patch declares are ones a container can have. It makes no backup;
`apply_patch_inplace` makes one, and keeps it unless the suffix makes it the temporary file. -/

namespace IUBPatch

/-! ### The exceptions of loading and applying -/

/-- The exception is the one of a container asked to grow past its `max_size`. -/
def IsLengthError (thrown : StdException) : Prop := thrown = .lengthError

/-- A request up to `max_size` is granted, and one past it throws that exception. -/
theorem throwsOnly_guard {α : Type} (p : Prop) [Decidable p] (a : α) :
    Outcome.ThrowsOnly IsLengthError (if p then .ok a else .throws .lengthError : Call α) := by
  split
  · exact Outcome.throwsOnly_ok a
  · intro thrown h; cases h; rfl

theorem throwsOnly_reserve (n : UInt64) : (reserve n).ThrowsOnly IsLengthError :=
  throwsOnly_guard _ _

theorem throwsOnly_resize (data : Bytes) (n : UInt64) :
    (resize data n).ThrowsOnly IsLengthError :=
  throwsOnly_guard _ _

theorem throwsOnly_assign (data : Bytes) (start : Nat) (n : UInt64) :
    (assign data start n).ThrowsOnly IsLengthError :=
  throwsOnly_guard _ _

/-- Loading a BPS patch throws at its metadata or not at all. -/
theorem BPSPatch.throwsOnly_load (P : Bytes) : (load P).ThrowsOnly IsLengthError := by
  have hmetadata : ∀ (size : UInt64) (offset : Nat),
      (BPS.parseMetadata P size offset).ThrowsOnly IsLengthError := by
    intro size offset
    rw [BPS.parseMetadata]
    split
    · split
      · exact Outcome.throwsOnly_error _
      · exact Outcome.throwsOnly_bind (throwsOnly_assign _ _ _) fun _ => Outcome.throwsOnly_ok _
    · exact Outcome.throwsOnly_ok _
  rw [load]
  split
  · exact Outcome.throwsOnly_error _
  split
  · exact Outcome.throwsOnly_error _
  rename_i hlong hmagic
  rw [parse, if_neg hlong, if_neg hmagic]
  exact Outcome.throwsOnly_bind (hmetadata _ _) fun _ => Outcome.throwsOnly_ok _

theorem throwsOnly_loadPatchFromMemory (P : Bytes) :
    (loadPatchFromMemory P).ThrowsOnly IsLengthError := by
  rw [loadPatchFromMemory]
  refine Outcome.throwsOnly_bind (Outcome.throwsOnly_ofExcept _) fun format => ?_
  cases format with
  | unknown => exact Outcome.throwsOnly_error _
  | ips =>
    exact Outcome.throwsOnly_bind (Outcome.throwsOnly_ofExcept _) fun _ => Outcome.throwsOnly_ok _
  | ups =>
    exact Outcome.throwsOnly_bind (Outcome.throwsOnly_ofExcept _) fun _ => Outcome.throwsOnly_ok _
  | bps =>
    exact Outcome.throwsOnly_bind (BPSPatch.throwsOnly_load P) fun _ => Outcome.throwsOnly_ok _

/-- The check of the target adds no exception. -/
theorem throwsOnly_targetCheck (p : Bytes → Prop) [DecidablePred p] (failure : Bytes → ErrorInfo)
    (target : Bytes) : Outcome.ThrowsOnly IsLengthError
      (if p target then .error (failure target) else .ok target : Call Bytes) := by
  split
  · exact Outcome.throwsOnly_error _
  · exact Outcome.throwsOnly_ok _

theorem Patch.throwsOnly_apply (patch : Patch) (source : Bytes) (options : PatchOptions) :
    (patch.apply source options).ThrowsOnly IsLengthError := by
  cases patch with
  | ips patch =>
    obtain ⟨target, htarget⟩ := patch.exists_apply_eq_ok source options
    show (patch.apply source options).ThrowsOnly IsLengthError
    rw [htarget]
    exact Outcome.throwsOnly_ok target
  | ups patch =>
    show (patch.apply source options).ThrowsOnly IsLengthError
    by_cases hreject : patch.RejectsSource source options
    · obtain ⟨e, he, -⟩ := UPSPatch.apply_of_rejects hreject
      rw [he]
      exact Outcome.throwsOnly_error e
    · rw [UPSPatch.apply_of_not_rejects hreject]
      refine Outcome.throwsOnly_bind ?_ (throwsOnly_targetCheck _ fun _ => UPSPatch.targetCrcError)
      exact Outcome.throwsOnly_bind (throwsOnly_resize _ _) fun _ => throwsOnly_resize _ _
  | bps patch =>
    show (patch.apply source options).ThrowsOnly IsLengthError
    by_cases hreject : patch.RejectsSource source options
    · obtain ⟨e, he, -⟩ := BPSPatch.apply_of_rejects hreject
      rw [he]
      exact Outcome.throwsOnly_error e
    · rw [BPSPatch.apply_of_not_rejects hreject, BPSPatch.replayTarget]
      refine Outcome.throwsOnly_bind ?_ (throwsOnly_targetCheck _ patch.targetCrcError)
      refine Outcome.throwsOnly_bind (throwsOnly_reserve _) fun _ => ?_
      refine Outcome.throwsOnly_bind (Outcome.throwsOnly_ofExcept _) fun st => ?_
      split
      · exact Outcome.throwsOnly_error _
      · exact Outcome.throwsOnly_ok _

/-- **Loading a patch and applying it throw nothing but length errors.** -/
theorem throwsOnly_produced (env : Environment) (files : Path → Option Bytes) (n : Nat)
    (patchPath sourcePath : Path) (options : PatchOptions) :
    (produced env files n patchPath sourcePath options).ThrowsOnly IsLengthError := by
  rw [produced]
  refine Outcome.throwsOnly_bind (Outcome.throwsOnly_ofExcept _) fun patchData => ?_
  refine Outcome.throwsOnly_bind (throwsOnly_loadPatchFromMemory patchData) fun patch => ?_
  refine Outcome.throwsOnly_bind (Outcome.throwsOnly_ofExcept _) fun source => ?_
  exact patch.throwsOnly_apply source options

/-- Loading a patch comes back, unless it is a BPS patch and the end of its metadata is no 64-bit
number. -/
theorem loadPatchFromMemory_comesBack_iff {P : Bytes} (hfit : P.length ≤ maxSize) :
    (loadPatchFromMemory P).Returns ↔
      P.length < bpsHeaderSize + 12 ∨ P.take bpsHeaderSize ≠ bpsMagic ∨
        BPS.metadataEnd P < 2 ^ 64 := by
  rw [← BPS.load_comesBack_iff hfit, loadPatchFromMemory]
  by_cases hbps : P.take bpsHeaderSize = bpsMagic
  · -- a file with this magic goes to the loader
    have hformat : detectFormatFromMemory P = .ok .bps := detectFormatFromMemory_of_take_eq_bpsMagic hbps
    rw [hformat, Outcome.ofExcept_ok, Outcome.ok_bind, Outcome.returns_bind_iff]
    exact and_iff_left fun patch _ => Outcome.returns_ok _
  · obtain ⟨e, he⟩ := BPS.load_eq_error (.inr hbps)
    refine iff_of_true ?_ (he ▸ Outcome.returns_error e)
    apply Outcome.returns_bind (Outcome.returns_ofExcept _)
    intro format hformat
    cases format with
    | unknown => exact Outcome.returns_error _
    | ips =>
      exact Outcome.returns_bind (Outcome.returns_ofExcept _) fun _ _ => Outcome.returns_ok _
    | ups =>
      exact Outcome.returns_bind (Outcome.returns_ofExcept _) fun _ _ => Outcome.returns_ok _
    | bps =>
      rw [he]
      exact Outcome.returns_error e

/-! ### `apply_patch` -/

section Faultless

variable (patchPath sourcePath filePath outputPath : Path) (options : PatchOptions) (world : World)

/-- Without faults `write_file` writes the file. -/
theorem writeFile_faultless (path : Path) (data : Bytes) :
    writeFile {} path data world = (.ok (), world.put path data) := by
  rcases writeFile_apply {} path data world with ⟨hfails, -⟩ | ⟨-, hwrite⟩
  · exact absurd hfails (by decide)
  · have hlanded : landed {} data = data := rfl
    rw [hwrite, hlanded]

/-- **`apply_patch` writes only on success, and only the output.** Without faults, for every paths
(equal or not): if reading, loading or applying returns an error, so does `apply_patch`, and no path
has changed; if they make a target, computed from the contents before the call, `apply_patch` succeeds,
the output path holds the target and every other path is as it was; and if they run out of what a
container can hold, that exception leaves, and no path has changed. -/
theorem applyPatch_effect :
    let run := applyPatch {} patchPath sourcePath outputPath options world
    match produced {} world.files 0 patchPath sourcePath options with
    | .error e => run.1 = .error e ∧ run.2.files = world.files
    | .ok target => run.1 = .ok () ∧ run.2.files outputPath = some target ∧
        ∀ path, path ≠ outputPath → run.2.files path = world.files path
    | .throws thrown => thrown = .lengthError ∧ run.1 = .throws thrown ∧
        run.2.files = world.files := by
  intro run
  obtain ⟨n, hrun⟩ := applyPatch_eq {} patchPath sourcePath outputPath options world
  -- without faults it does not matter how many files were read before
  have hreads : produced {} world.files world.reads patchPath sourcePath options
      = produced {} world.files 0 patchPath sourcePath options := rfl
  have hrun' : run = _ := hrun
  rw [hreads] at hrun'
  have hthrows := throwsOnly_produced {} world.files 0 patchPath sourcePath options
  rw [hrun']
  cases hmade : produced {} world.files 0 patchPath sourcePath options with
  | error e => exact ⟨rfl, rfl⟩
  | throws thrown => exact ⟨hthrows thrown hmade, rfl, rfl⟩
  | ok target =>
    dsimp only
    rw [Effect.bind_apply_ok (Effect.lift_apply _ _), writeFile_faultless]
    exact ⟨rfl, Function.update_self _ _ _, fun path hpath => Function.update_of_ne hpath _ _⟩

/-- What `apply_patch` is there for: the error of what it reads and computes comes back, and every path
is as it was; or success, and the output path holds what the patch makes of the source, both as they
were before the call, and every other path is as it was. -/
def WritesOnSuccess : Prop :=
  let run := applyPatch {} patchPath sourcePath outputPath options world
  (∃ e, produced {} world.files 0 patchPath sourcePath options = .error e ∧ run.1 = .error e ∧
      run.2.files = world.files) ∨
    ∃ target, Makes world.files patchPath sourcePath options target ∧ run.1 = .ok () ∧
      run.2.files outputPath = some target ∧
      ∀ path, path ≠ outputPath → run.2.files path = world.files path

/-- No container is asked to grow past its `max_size`: not for the metadata, where the patch file is a
BPS file with a header; nor for the target, unless the source checks reject the source before that. -/
def SizesFit : Prop :=
  ∀ P, world.files patchPath = some P →
    (P.length < bpsHeaderSize + 12 ∨ P.take bpsHeaderSize ≠ bpsMagic ∨
      BPS.metadataEnd P < 2 ^ 64) ∧
    ∀ patch source, loadPatchFromMemory P = .ok patch → world.files sourcePath = some source →
      patch.TargetFits ∨ patch.RejectsSource source options

/-- Reading, loading and applying come back exactly if the sizes fit. -/
theorem returns_produced_iff
    (hpatch : ∀ P, world.files patchPath = some P → P.length ≤ maxSize)
    (hsource : ∀ source, world.files sourcePath = some source → source.length ≤ maxSize) {n : Nat} :
    (produced {} world.files n patchPath sourcePath options).Returns ↔
      SizesFit patchPath sourcePath options world := by
  simp only [produced, Outcome.returns_bind_iff, Outcome.returns_ofExcept, true_and,
    ofExcept_readOutcome_eq_ok_iff, SizesFit]
  refine forall_congr' fun P => imp_congr_right fun hP => ?_
  refine and_congr (loadPatchFromMemory_comesBack_iff (hpatch P hP)) ?_
  refine forall_congr' fun patch => ?_
  -- the patch is loaded before the source is read
  rw [forall_comm]
  refine forall_congr' fun source => imp_congr_right fun _ => imp_congr_right fun hS => ?_
  cases patch with
  | ips patch => exact iff_of_true (patch.apply_comesBack source options) (.inl trivial)
  | ups patch => exact patch.apply_comesBack_iff (hsource source hS) options
  | bps patch => exact patch.apply_comesBack_iff source options

/-- **When `apply_patch` writes only on success, and only the output.** Without faults, for every paths
(equal or not) and every options: where it comes back, it does; and it comes back exactly if the patch
and the source ask for no size past what a container can have. -/
theorem applyPatch_writesOnSuccess_iff
    (hpatch : ∀ P, world.files patchPath = some P → P.length ≤ maxSize)
    (hsource : ∀ source, world.files sourcePath = some source → source.length ≤ maxSize) :
    WritesOnSuccess patchPath sourcePath outputPath options world ↔
      SizesFit patchPath sourcePath options world := by
  rw [← returns_produced_iff patchPath sourcePath options world hpatch hsource (n := 0)]
  have heffect := applyPatch_effect patchPath sourcePath outputPath options world
  cases hmade : produced {} world.files 0 patchPath sourcePath options with
  | error e =>
    rw [hmade] at heffect
    exact iff_of_true (.inl ⟨e, hmade, heffect⟩) (Outcome.returns_error e)
  | ok target =>
    rw [hmade] at heffect
    have hmakes := (produced_eq_ok_iff patchPath sourcePath options).mp hmade
    exact iff_of_true (.inr ⟨target, hmakes, heffect⟩) (Outcome.returns_ok target)
  | throws thrown =>
    rw [hmade] at heffect
    obtain ⟨-, hthrows, -⟩ := heffect
    refine iff_of_false ?_ (Outcome.not_returns_throws thrown)
    rintro (⟨e, he, -⟩ | ⟨target, -, hok, -⟩)
    · rw [hmade] at he; cases he
    · rw [hthrows] at hok; cases hok

/-- A run of `apply_patch` that succeeds has a target, and puts it at the output path. -/
theorem exists_target_of_applyPatch_ok
    (h : (applyPatch {} patchPath sourcePath outputPath options world).1 = .ok ()) :
    ∃ target, produced {} world.files 0 patchPath sourcePath options = .ok target ∧
      (applyPatch {} patchPath sourcePath outputPath options world).2.files outputPath = some target ∧
      ∀ path, path ≠ outputPath →
        (applyPatch {} patchPath sourcePath outputPath options world).2.files path
          = world.files path := by
  have heffect := applyPatch_effect patchPath sourcePath outputPath options world
  cases hmade : produced {} world.files 0 patchPath sourcePath options with
  | error e =>
    rw [hmade] at heffect
    rw [heffect.1] at h; cases h
  | throws thrown =>
    rw [hmade] at heffect
    rw [heffect.2.1] at h; cases h
  | ok target =>
    rw [hmade] at heffect
    exact ⟨target, rfl, heffect.2⟩

/-! ### Backups -/

/-- What the backup path has to hold after `apply_patch`, which does not make the backup: if it is the
output path, the patch must make the file out of itself; else the bytes of the file must have been
there before. -/
def BackupThereAnyway : Prop :=
  if filePath ++ options.backupSuffix = outputPath then
    ∃ data, world.files filePath = some data ∧ Makes world.files patchPath filePath options data
  else world.files (filePath ++ options.backupSuffix) = world.files filePath

/-- Without faults `apply_patch` puts what the patch makes at the output path. -/
theorem applyPatch_of_makes {T : Bytes} (h : Makes world.files patchPath filePath options T) :
    ∃ n, applyPatch {} patchPath filePath outputPath options world
      = (.ok (), ({ world with reads := n } : World).put outputPath T) := by
  obtain ⟨n, hrun⟩ := applyPatch_eq {} patchPath filePath outputPath options world
  have hmade : produced {} world.files world.reads patchPath filePath options = .ok T :=
    (produced_eq_ok_iff patchPath filePath options).mpr h
  refine ⟨n, ?_⟩
  rw [hrun, hmade, Effect.bind_apply_ok (Effect.lift_apply _ _), writeFile_faultless]

/-- After a successful `apply_patch` the backup path holds the file exactly where it would have held it
anyway. -/
theorem applyPatch_backup_iff
    (h : (applyPatch {} patchPath filePath outputPath options world).1 = .ok ()) :
    (applyPatch {} patchPath filePath outputPath options world).2.files
        (filePath ++ options.backupSuffix) = world.files filePath ↔
      BackupThereAnyway patchPath filePath outputPath options world := by
  obtain ⟨T, hmade, houtput, hothers⟩ :=
    exists_target_of_applyPatch_ok patchPath filePath outputPath options world h
  obtain ⟨-, -, data, -, -, hfile, -⟩ :=
    (produced_eq_ok_iff patchPath filePath options).mp hmade
  unfold BackupThereAnyway
  by_cases hbackup : filePath ++ options.backupSuffix = outputPath
  · rw [if_pos hbackup, hbackup, houtput]
    simp only [← produced_eq_ok_iff patchPath filePath options (n := 0), hmade, hfile]
    simp
  · rw [if_neg hbackup, hothers _ hbackup]

/-- After a successful `apply_patch_inplace` with a backup, the backup path holds the file as it was,
unless the suffix makes it the temporary file. -/
theorem applyPatchInplace_backup_iff (hrequested : options.createBackup = true)
    (h : (applyPatchInplace {} patchPath filePath options world).1 = .ok ()) :
    (applyPatchInplace {} patchPath filePath options world).2.files
        (filePath ++ options.backupSuffix) = world.files filePath ↔
      options.backupSuffix ≠ ".tmp" := by
  have htemp : filePath ++ options.backupSuffix = tempPath filePath ↔
      options.backupSuffix = ".tmp" := String.append_right_inj filePath
  obtain ⟨hbackup, T, -, hfiles⟩ := applyPatchInplace_of_ok {} patchPath filePath options world h
  -- the file is there, and its backup is another path
  have hother : filePath ++ options.backupSuffix ≠ filePath :=
    fun hsame => hbackup ⟨hrequested, .inr (.inl hsame.symm)⟩
  have hthere : world.files filePath ≠ none :=
    fun hnone => hbackup ⟨hrequested, .inl hnone⟩
  rw [hfiles, Function.update_of_ne hother, ne_eq, ← htemp]
  by_cases hsame : filePath ++ options.backupSuffix = tempPath filePath
  · -- the rename took the backup away with the temporary file
    rw [hsame, Function.update_self]
    exact iff_of_false hthere.symm (not_not.mpr rfl)
  · rw [Function.update_of_ne hsame, backedUp, if_pos hrequested, Function.update_self]
    exact iff_of_true rfl hsame

/-- **When a requested backup is there afterwards.** Without faults: after a successful
`apply_patch_inplace` the backup path holds what the file held, exactly if the suffix is not the one of
the temporary file; after a successful `apply_patch` only where it would have held it anyway. -/
theorem backup_kept_iff (hrequested : options.createBackup = true) :
    ((applyPatch {} patchPath filePath outputPath options world).1 = .ok () →
      ((applyPatch {} patchPath filePath outputPath options world).2.files
          (filePath ++ options.backupSuffix) = world.files filePath ↔
        BackupThereAnyway patchPath filePath outputPath options world)) ∧
    ((applyPatchInplace {} patchPath filePath options world).1 = .ok () →
      ((applyPatchInplace {} patchPath filePath options world).2.files
          (filePath ++ options.backupSuffix) = world.files filePath ↔
        options.backupSuffix ≠ ".tmp")) :=
  ⟨applyPatch_backup_iff patchPath filePath outputPath options world,
    applyPatchInplace_backup_iff patchPath filePath options world hrequested⟩

end Faultless

/-- With a patch whose metadata would be `2^64 - 1` bytes long, `apply_patch` does not come back. -/
theorem not_applyPatch_writesOnSuccess :
    (applyPatch {} "patch" "file" "out" {} (plainWorld.put "patch" BPS.endlessMetadata)).1
        = .throws .lengthError ∧
      ¬ WritesOnSuccess "patch" "file" "out" {} (plainWorld.put "patch" BPS.endlessMetadata) := by
  have hthrows : (applyPatch {} "patch" "file" "out" {}
      (plainWorld.put "patch" BPS.endlessMetadata)).1 = .throws .lengthError := by
    decide +kernel
  refine ⟨hthrows, ?_⟩
  rintro (⟨e, -, he, -⟩ | ⟨target, -, hok, -⟩)
  · rw [hthrows] at he; cases he
  · rw [hthrows] at hok; cases hok

/-- A BPS patch that declares two bytes, from a file to itself: the file holds them afterwards. -/
theorem applyPatch_writesOnSuccess_readThenCopy :
    let options : PatchOptions := { verifyChecksums := false }
    let world := (plainWorld.put "patch" BPS.readThenCopy).put "file" [10, 20, 30]
    WritesOnSuccess "patch" "file" "file" options world ∧
      (applyPatch {} "patch" "file" "file" options world).2.files "file" = some [10, 30] := by
  intro options world
  have hiff := applyPatch_writesOnSuccess_iff "patch" "file" "file" options world
    (by rintro P hP; cases hP; decide) (by rintro S hS; cases hS; decide)
  refine ⟨hiff.mpr ?_, by decide +kernel⟩
  rintro P hP
  cases hP
  refine ⟨.inr (.inr (by decide +kernel)), fun patch source hload _ => .inl ?_⟩
  have hloaded : Patch.LoadedBy (.bps BPS.readThenCopyPatch) BPS.readThenCopy := BPS.load_readThenCopy
  cases hload.symm.trans (loadPatchFromMemory_eq_ok_iff.mpr hloaded)
  show (2 : UInt64).toNat ≤ maxSize
  decide

/-- The documented call leaves no backup; and the suffix of the temporary file loses it. -/
theorem not_backup_kept :
    ((applyPatch {} "patch" "file" "out" { createBackup := true } plainWorld).1 = .ok () ∧
      (applyPatch {} "patch" "file" "out" { createBackup := true } plainWorld).2.files "file.bak"
        ≠ plainWorld.files "file") ∧
    ((applyPatchInplace {} "patch" "file" { createBackup := true, backupSuffix := ".tmp" }
        plainWorld).1 = .ok () ∧
      (applyPatchInplace {} "patch" "file" { createBackup := true, backupSuffix := ".tmp" }
        plainWorld).2.files "file.tmp" ≠ plainWorld.files "file") := by
  decide +kernel

/-- Patching in place with the default suffix keeps the backup, and `apply_patch` keeps one made
before. -/
theorem backup_kept_default :
    (applyPatchInplace {} "patch" "file" { createBackup := true } plainWorld).2.files "file.bak"
        = plainWorld.files "file" ∧
      (applyPatch {} "patch" "file" "out" { createBackup := true }
        (plainWorld.put "file.bak" [1])).2.files "file.bak"
          = (plainWorld.put "file.bak" [1]).files "file" := by
  constructor
  · have hkept := (backup_kept_iff "patch" "file" "out" { createBackup := true } plainWorld rfl).2
    exact (hkept (by decide +kernel)).mpr (by decide)
  · have hkept := (backup_kept_iff "patch" "file" "out" { createBackup := true }
      (plainWorld.put "file.bak" [1]) rfl).1
    refine (hkept (by decide +kernel)).mpr ?_
    have hother : "file" ++ PatchOptions.backupSuffix { createBackup := true } ≠ "out" := by decide
    rw [BackupThereAnyway, if_neg hother]
    decide +kernel

end IUBPatch
