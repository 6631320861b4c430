import IUBPatch.InplaceAtomicity
import Mathlib.Data.Set.Function

/-! # The footprints of the file operations

Which paths the operations on files can change, and which they look at, under any failures and whichever
way they come back. -/

namespace IUBPatch

variable (env : Environment) {α β : Type}

/-! ### The paths an operation changes -/

/-- No path outside of `K` has changed. -/
def KeepsOutside (K : Set Path) (world world' : World) : Prop :=
  ∀ path ∉ K, world'.files path = world.files path

section KeepsOutside

variable {K : Set Path}

theorem KeepsOutside.refl (world : World) : KeepsOutside K world world := fun _ _ => rfl

theorem KeepsOutside.trans {world world' world'' : World} (h : KeepsOutside K world world')
    (h' : KeepsOutside K world' world'') : KeepsOutside K world world'' :=
  fun path hpath => (h' path hpath).trans (h path hpath)

instance : Std.Refl (KeepsOutside K) := ⟨KeepsOutside.refl⟩

instance : IsTrans World (KeepsOutside K) := ⟨fun _ _ _ => KeepsOutside.trans⟩

theorem keepsOutside_put {path : Path} (hpath : path ∈ K) (world : World) (data : Bytes) :
    KeepsOutside K world (world.put path data) :=
  fun _ hother => Function.update_of_ne (ne_of_mem_of_not_mem hpath hother).symm _ _

theorem keepsOutside_erase {path : Path} (hpath : path ∈ K) (world : World) :
    KeepsOutside K world (world.erase path) :=
  fun _ hother => Function.update_of_ne (ne_of_mem_of_not_mem hpath hother).symm _ _

theorem within_readFile (path : Path) : (readFile env path).Within (KeepsOutside K) := by
  intro world
  rw [readFile_apply]
  exact fun _ _ => rfl

theorem within_writeFile {path : Path} (hpath : path ∈ K) (data : Bytes) :
    (writeFile env path data).Within (KeepsOutside K) := by
  intro world
  rcases writeFile_apply env path data world with ⟨-, e, world', hwrite, rfl | ⟨part, rfl⟩⟩ | ⟨-, hwrite⟩
  · rw [hwrite]; exact KeepsOutside.refl world'
  · rw [hwrite]; exact keepsOutside_put hpath world part
  · rw [hwrite]; exact keepsOutside_put hpath world _

theorem within_copyFile (source : Path) {target : Path} (htarget : target ∈ K) :
    (copyFile env source target).Within (KeepsOutside K) := by
  intro world
  rw [copyFile]
  cases world.files source with
  | none => exact KeepsOutside.refl world
  | some data =>
    dsimp only
    split
    · exact KeepsOutside.refl world
    · split
      · exact KeepsOutside.refl world
      · exact keepsOutside_put htarget world _
      · exact keepsOutside_put htarget world data

theorem within_removeFile {path : Path} (hpath : path ∈ K) :
    (removeFile env path).Within (KeepsOutside K) := by
  intro world
  rw [removeFile]
  split
  · exact KeepsOutside.refl world
  · exact keepsOutside_erase hpath world

theorem within_renameFile {source target : Path} (hsource : source ∈ K) (htarget : target ∈ K) :
    (renameFile env source target).Within (KeepsOutside K) := by
  intro world
  rw [renameFile]
  cases world.files source with
  | none => exact KeepsOutside.refl world
  | some data =>
    dsimp only
    split
    · exact KeepsOutside.refl world
    · exact (keepsOutside_erase hsource world).trans (keepsOutside_put htarget _ data)

theorem within_catchFilesystemError (message : String) {m : FileM α}
    (hm : m.Within (KeepsOutside K)) : (catchFilesystemError message m).Within (KeepsOutside K) := by
  intro world
  have hcall := hm world
  rw [catchFilesystemError]
  split
  · rename_i hresult
    rw [hresult] at hcall
    exact hcall
  · exact hcall

variable (patchPath sourcePath outputPath filePath : Path) (options : PatchOptions)

/-- `apply_patch` changes no path but its output. -/
theorem within_applyPatch {outputPath : Path} (houtput : outputPath ∈ K) :
    (applyPatch env patchPath sourcePath outputPath options).Within (KeepsOutside K) := by
  have hlift : ∀ {α : Type} (x : Call α), (Effect.lift x : FileM α).Within (KeepsOutside K) :=
    fun x => Effect.within_lift x
  refine Effect.Within.bind ?_ fun patch => ?_
  · exact Effect.Within.bind (within_readFile env patchPath) fun _ => hlift _
  · refine Effect.Within.bind (within_readFile env sourcePath) fun source => ?_
    exact Effect.Within.bind (hlift _) fun _ => within_writeFile env houtput _

/-- `validate_patch` changes nothing. -/
theorem within_validatePatch :
    (validatePatch env patchPath sourcePath options).Within (KeepsOutside K) := by
  have hlift : ∀ {α : Type} (x : Call α), (Effect.lift x : FileM α).Within (KeepsOutside K) :=
    fun x => Effect.within_lift x
  refine Effect.Within.bind ?_ fun patch => ?_
  · exact Effect.Within.bind (within_readFile env patchPath) fun _ => hlift _
  · refine Effect.Within.bind (hlift _) fun _ => ?_
    refine Effect.Within.bind (hlift _) fun metadata => ?_
    split
    · exact Effect.Within.bind (within_readFile env sourcePath) fun _ => hlift _
    · exact hlift _

/-- Behind the backup, patching in place changes the file and the temporary file. -/
theorem within_applyAndRename (hfile : filePath ∈ K) (htemp : tempPath filePath ∈ K) :
    (applyAndRename env patchPath filePath options).Within (KeepsOutside K) := by
  intro world
  have happly := within_applyPatch env patchPath filePath options htemp world
  rw [applyAndRename]
  rcases hrun : applyPatch env patchPath filePath (tempPath filePath) options world with
    ⟨result, world'⟩
  rw [hrun] at happly
  -- whether the temporary file is removed or renamed, both paths are in the footprint
  refine happly.trans ?_
  cases result with
  | throws thrown => exact KeepsOutside.refl world'
  | error e =>
    exact Effect.Within.bind (within_removeFile env htemp)
      (fun _ => Effect.within_lift _) world'
  | ok _ =>
    exact within_catchFilesystemError _ (within_renameFile env htemp hfile) world'

/-- `create_backup` changes the backup's path. -/
theorem within_createBackup (hbackup : filePath ++ options.backupSuffix ∈ K) :
    (createBackup env filePath options).Within (KeepsOutside K) := by
  rw [createBackup]
  split
  · exact Effect.within_lift _
  · refine Effect.Within.bind ?_
      fun _ => Effect.within_lift _
    exact within_catchFilesystemError _ (within_copyFile env filePath hbackup)

/-- The paths `apply_patch_inplace` may change. -/
def inplacePaths : Set Path := {filePath, filePath ++ options.backupSuffix, tempPath filePath}

instance (path : Path) : Decidable (path ∈ inplacePaths filePath options) :=
  inferInstanceAs (Decidable (_ ∨ _ ∨ _))

/-- **`apply_patch_inplace` stays within its three paths**, under any failures and whichever way it comes
back. -/
theorem within_applyPatchInplace : (applyPatchInplace env patchPath filePath options).Within
    (KeepsOutside (inplacePaths filePath options)) := by
  have hrest := within_applyAndRename (K := inplacePaths filePath options) env patchPath filePath options
    (.inl rfl) (.inr (.inr rfl))
  rw [applyPatchInplace]
  split
  · exact Effect.Within.bind
      (within_createBackup (K := inplacePaths filePath options) env filePath options
        (.inr (.inl rfl))) fun _ => hrest
  · exact hrest

end KeepsOutside

/-! ### The paths an operation looks at -/

/-- The two file systems agree on the paths in `K`, and the reads ahead fail in both or in neither. -/
structure SameWithin (K : Set Path) (world world' : World) : Prop where
  files : Set.EqOn world.files world'.files K
  openFails : ∀ n, env.openFails (world.reads + n) = env.openFails (world'.reads + n)
  readFails : ∀ n, env.readFails (world.reads + n) = env.readFails (world'.reads + n)

section SameWithin

variable {env} {K : Set Path}

theorem SameWithin.put {world world' : World} (h : SameWithin env K world world') (path : Path)
    (data : Bytes) : SameWithin env K (world.put path data) (world'.put path data) where
  files := fun other hother => by
    by_cases hsame : other = path
    · subst hsame; simp
    · simpa [Function.update_of_ne hsame] using h.files hother
  openFails := h.openFails
  readFails := h.readFails

theorem SameWithin.erase {world world' : World} (h : SameWithin env K world world') (path : Path) :
    SameWithin env K (world.erase path) (world'.erase path) where
  files := fun other hother => by
    by_cases hsame : other = path
    · subst hsame; simp
    · simpa [Function.update_of_ne hsame] using h.files hother
  openFails := h.openFails
  readFails := h.readFails

/-- The reads ahead come to the same. -/
theorem readOutcome_congr {world world' : World} (h : SameWithin env K world world') {path : Path}
    (hpath : path ∈ K) (n : Nat) : readOutcome env world.files (world.reads + n) path
      = readOutcome env world'.files (world'.reads + n) path := by
  rw [readOutcome, readOutcome, h.files hpath, h.openFails n, h.readFails n]

theorem respects_readFile {path : Path} (hpath : path ∈ K) :
    (readFile env path).Respects (SameWithin env K) := by
  intro world world' h
  have hread := readOutcome_congr h hpath 0
  rw [Nat.add_zero, Nat.add_zero] at hread
  rw [readFile_apply, readFile_apply, hread]
  refine ⟨rfl, h.files, fun n => ?_, fun n => ?_⟩
  · rw [Nat.add_assoc, Nat.add_assoc]; exact h.openFails (1 + n)
  · rw [Nat.add_assoc, Nat.add_assoc]; exact h.readFails (1 + n)

theorem respects_writeFile (path : Path) (data : Bytes) :
    (writeFile env path data).Respects (SameWithin env K) := by
  intro world world' h
  rw [writeFile, writeFile]
  cases createFileWriter env path with
  | error e => exact ⟨rfl, h⟩
  | ok writer =>
    dsimp only
    cases (BufferedFileWriter.write env writer data).1 with
    | error e => exact ⟨rfl, h.put path _⟩
    | ok _ => exact ⟨rfl, h.put path _⟩

theorem respects_copyFile {source : Path} (hsource : source ∈ K) (target : Path) :
    (copyFile env source target).Respects (SameWithin env K) := by
  intro world world' h
  rw [copyFile, copyFile, h.files hsource]
  cases world'.files source with
  | none => exact ⟨rfl, h⟩
  | some data =>
    dsimp only
    split
    · exact ⟨rfl, h⟩
    · split
      · exact ⟨rfl, h⟩
      · exact ⟨rfl, h.put target _⟩
      · exact ⟨rfl, h.put target data⟩

theorem respects_removeFile (path : Path) :
    (removeFile env path).Respects (SameWithin env K) := by
  intro world world' h
  rw [removeFile, removeFile]
  split
  · exact ⟨rfl, h⟩
  · exact ⟨rfl, h.erase path⟩

theorem respects_renameFile {source : Path} (hsource : source ∈ K) (target : Path) :
    (renameFile env source target).Respects (SameWithin env K) := by
  intro world world' h
  rw [renameFile, renameFile, h.files hsource]
  cases world'.files source with
  | none => exact ⟨rfl, h⟩
  | some data =>
    dsimp only
    split
    · exact ⟨rfl, h⟩
    · exact ⟨rfl, (h.erase source).put target data⟩

theorem respects_catchFilesystemError (message : String) {m : FileM α}
    (hm : m.Respects (SameWithin env K)) :
    (catchFilesystemError message m).Respects (SameWithin env K) := by
  intro world world' h
  obtain ⟨hanswer, hworld⟩ := hm world world' h
  rw [catchFilesystemError, catchFilesystemError]
  rcases hrun : m world with ⟨answer, after⟩
  rcases hrun' : m world' with ⟨answer', after'⟩
  rw [hrun, hrun'] at hanswer hworld
  cases hanswer
  cases answer with
  | ok a => exact ⟨rfl, hworld⟩
  | error e => exact ⟨rfl, hworld⟩
  | throws thrown =>
    cases thrown with
    | lengthError => exact ⟨rfl, hworld⟩
    | filesystemError what => exact ⟨rfl, hworld⟩

variable {patchPath sourcePath : Path} (outputPath filePath : Path) (options : PatchOptions)

/-- `apply_patch` looks at the patch and the source. -/
theorem respects_applyPatch (hpatch : patchPath ∈ K) (hsource : sourcePath ∈ K) :
    (applyPatch env patchPath sourcePath outputPath options).Respects (SameWithin env K) := by
  refine Effect.Respects.bind ?_ fun patch => ?_
  · exact Effect.Respects.bind (respects_readFile hpatch) fun _ => Effect.respects_lift _
  · refine Effect.Respects.bind (respects_readFile hsource) fun source => ?_
    exact Effect.Respects.bind (Effect.respects_lift _) fun _ => respects_writeFile outputPath _

/-- What `apply_patch` makes is made of the patch and the source. -/
theorem produced_congr {world world' : World} (h : SameWithin env K world world')
    (hpatch : patchPath ∈ K) (hsource : sourcePath ∈ K) :
    produced env world.files world.reads patchPath sourcePath options
      = produced env world'.files world'.reads patchPath sourcePath options := by
  have hpatchRead := readOutcome_congr h hpatch 0
  have hsourceRead := readOutcome_congr h hsource 1
  rw [Nat.add_zero, Nat.add_zero] at hpatchRead
  rw [produced, produced, hpatchRead, hsourceRead]

/-- Where it succeeds, the two file systems agree on the output as well, whatever was there. -/
theorem sameWithin_applyPatch {world world' : World} (h : SameWithin env K world world')
    (hpatch : patchPath ∈ K) (hsource : sourcePath ∈ K)
    (hok : (applyPatch env patchPath sourcePath outputPath options world).1 = .ok ()) :
    SameWithin env (insert outputPath K)
      (applyPatch env patchPath sourcePath outputPath options world).2
      (applyPatch env patchPath sourcePath outputPath options world').2 := by
  obtain ⟨hanswer, hworld⟩ :=
    respects_applyPatch outputPath options hpatch hsource world world' h
  have hmade := produced_congr options h hpatch hsource
  -- a call that succeeds has put there what lands of what it made
  have houtput : ∀ world₁ : World,
      (applyPatch env patchPath sourcePath outputPath options world₁).1 = .ok () →
      ∃ T, produced env world₁.files world₁.reads patchPath sourcePath options = .ok T ∧
        (applyPatch env patchPath sourcePath outputPath options world₁).2.files outputPath
          = some (landed env T) := by
    intro world₁ hok₁
    rcases applyPatch_cases env patchPath sourcePath outputPath options world₁ with
      ⟨thrown, -, hthrows⟩ | ⟨-, ⟨e, he⟩, -⟩ | ⟨T, hT, -, -, hfiles⟩
    · rw [hthrows] at hok₁; cases hok₁
    · rw [he] at hok₁; cases hok₁
    · exact ⟨T, hT, by rw [hfiles, Function.update_self]⟩
  obtain ⟨T, hT, hleft⟩ := houtput world hok
  obtain ⟨T', hT', hright⟩ := houtput world' (hanswer.symm.trans hok)
  have hsame : T = T' := by
    rw [hmade, hT'] at hT
    cases hT
    rfl
  refine ⟨fun path hpath => ?_, hworld.openFails, hworld.readFails⟩
  rcases hpath with rfl | hpath
  · rw [hleft, hright, hsame]
  · exact hworld.files hpath

/-- A footprint may be looked at in part. -/
theorem SameWithin.mono {K' : Set Path} {world world' : World} (h : SameWithin env K world world')
    (hsub : K' ⊆ K) : SameWithin env K' world world' :=
  ⟨h.files.mono hsub, h.openFails, h.readFails⟩

/-- Behind the backup, the patch and the file are looked at: the temporary file only when it is made. -/
theorem respects_applyAndRename (hpatch : patchPath ∈ K) (hfile : filePath ∈ K) :
    (applyAndRename env patchPath filePath options).Respects (SameWithin env K) := by
  intro world world' h
  obtain ⟨hanswer, hworld⟩ :=
    respects_applyPatch (tempPath filePath) options hpatch hfile world world' h
  have hmade := sameWithin_applyPatch (tempPath filePath) options h hpatch hfile
  -- the two calls of `apply_patch` come back the same way, and so the same branch is taken
  rw [applyAndRename, applyAndRename]
  rcases hrun : applyPatch env patchPath filePath (tempPath filePath) options world with
    ⟨answer, after⟩
  rcases hrun' : applyPatch env patchPath filePath (tempPath filePath) options world' with
    ⟨answer', after'⟩
  rw [hrun, hrun'] at hanswer hworld hmade
  cases hanswer
  cases answer with
  | throws thrown => exact ⟨rfl, hworld⟩
  | error e =>
    exact Effect.Respects.bind (respects_removeFile (tempPath filePath))
      (fun _ => Effect.respects_lift _) after after' hworld
  | ok _ =>
    obtain ⟨hrenamed, hafter⟩ := respects_catchFilesystemError _
      (respects_renameFile (Set.mem_insert _ K) filePath) after after' (hmade rfl)
    exact ⟨hrenamed, hafter.mono (Set.subset_insert _ K)⟩

/-- **`apply_patch_inplace` looks at the patch and the file only**: where two file systems agree there, it
comes back the same way, and they agree there afterwards. -/
theorem respects_applyPatchInplace (hpatch : patchPath ∈ K) (hfile : filePath ∈ K) :
    (applyPatchInplace env patchPath filePath options).Respects (SameWithin env K) := by
  -- what comes behind the backup, whether one is asked for or not
  have hrest : (applyAndRename env patchPath filePath options).Respects (SameWithin env K) :=
    respects_applyAndRename filePath options hpatch hfile
  rw [applyPatchInplace]
  split
  · refine Effect.Respects.bind ?_ fun _ => hrest
    rw [createBackup]
    split
    · exact Effect.respects_lift _
    · refine Effect.Respects.bind ?_ fun _ => Effect.respects_lift _
      exact respects_catchFilesystemError _ (respects_copyFile hfile _)
  · exact hrest

end SameWithin

end IUBPatch
