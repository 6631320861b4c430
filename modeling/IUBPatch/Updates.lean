import IUBPatch.PatchInfo

/-! # A file updated again and again

Calls of `apply_patch_inplace` on one file, each with its own patch, options and faults, and a caller that
goes on whichever way a call comes back. The file goes from version to version: a call that succeeds puts
the next one there, and no other call changes it. -/

namespace IUBPatch

/-- A call of `apply_patch_inplace` on the file. -/
structure Update where
  env : Environment
  patchPath : Path
  options : PatchOptions

variable {filePath : Path}

/-- The call itself. -/
def Update.run (update : Update) (filePath : Path) : FileM Unit :=
  applyPatchInplace update.env update.patchPath filePath update.options

/-- The calls one after another: how each came back, and the file system behind them. -/
def runUpdates (filePath : Path) : List Update → World → List (Call Unit) × World
  | [], world => ([], world)
  | update :: updates, world =>
    let call := update.run filePath world
    let rest := runUpdates filePath updates call.2
    (call.1 :: rest.1, rest.2)

/-- The paths the call may change: the file, the temporary file, and the backup if one is asked for. -/
def Update.paths (update : Update) (filePath : Path) : Set Path :=
  {path | path = filePath ∨ path = tempPath filePath ∨ IsBackupPath filePath update.options path}

instance (update : Update) (filePath path : Path) : Decidable (path ∈ update.paths filePath) :=
  inferInstanceAs (Decidable (_ ∨ _ ∨ (_ ∧ _)))

/-- The version a call that succeeds puts in the place of another one: what lands of what the patch makes
of that. -/
def Update.Advances (files : Path → Option Bytes) (update : Update) (version version' : Bytes) : Prop :=
  ∃ P patch T, files update.patchPath = some P ∧ loadPatchFromMemory P = .ok patch ∧
    patch.apply version update.options = .ok T ∧ version' = landed update.env T

/-- From version to version by the calls that succeed, in order. -/
inductive History (files : Path → Option Bytes) : Bytes → List (Update × Call Unit) → Bytes → Prop
  | start (version : Bytes) : History files version [] version
  | succeeded {update : Update} {version version' last : Bytes} {calls : List (Update × Call Unit)}
      (step : update.Advances files version version') (rest : History files version' calls last) :
      History files version ((update, .ok ()) :: calls) last
  | failed {update : Update} {answer : Call Unit} {version last : Bytes}
      {calls : List (Update × Call Unit)} (hanswer : answer ≠ .ok ())
      (rest : History files version calls last) : History files version ((update, answer) :: calls) last

/-! ### One call -/

section OneCall

variable {env : Environment} {patchPath : Path} {options : PatchOptions} {world : World}

/-- What stays within the other paths leaves the file as it is. -/
theorem file_of_keepsOutside {world' : World} (h : KeepsOutside {filePath}ᶜ world world') :
    world'.files filePath = world.files filePath :=
  h filePath fun hother => hother rfl

/-- Making a backup leaves the file as it is. -/
theorem file_createBackup :
    (createBackup env filePath options world).2.files filePath = world.files filePath := by
  by_cases hsame : filePath ++ options.backupSuffix = filePath
  · -- a file cannot be copied over itself
    have hcopy : copyFile env filePath (filePath ++ options.backupSuffix) world
        = (.throws (.filesystemError env.what), world) := by
      rw [copyFile, hsame]
      cases world.files filePath with
      | none => rfl
      | some data => exact if_pos rfl
    rw [createBackup]
    split
    · rfl
    · rw [Effect.bind_apply, catchFilesystemError, hcopy]
  · exact file_of_keepsOutside (within_createBackup env filePath options hsame world)

/-- Behind the backup, a call that does not succeed has touched the temporary file at most. -/
theorem file_applyAndRename (h : (applyAndRename env patchPath filePath options world).1 ≠ .ok ()) :
    (applyAndRename env patchPath filePath options world).2.files filePath = world.files filePath := by
  have htemp : tempPath filePath ∈ ({filePath}ᶜ : Set Path) := tempPath_ne filePath
  -- the temporary file is another one, so that making the target leaves the file alone
  have happly := file_of_keepsOutside
    (within_applyPatch env patchPath filePath options htemp world)
  rw [applyAndRename] at h ⊢
  rcases hrun : applyPatch env patchPath filePath (tempPath filePath) options world with
    ⟨answer, world'⟩
  rw [hrun] at h happly
  refine Eq.trans ?_ happly
  cases answer with
  | throws thrown => rfl
  | error e =>
    exact file_of_keepsOutside (Effect.Within.bind (within_removeFile env htemp)
      (fun _ => Effect.within_lift _) world')
  | ok _ =>
    -- a rename that succeeds would make the call a success
    have hrename : renameFile env (tempPath filePath) filePath world'
        = (.throws (.filesystemError env.what), world') := by
      dsimp only [finishInplace] at h
      rw [catchFilesystemError] at h
      rw [renameFile] at h ⊢
      cases hmade : world'.files (tempPath filePath) with
      | none => rfl
      | some data =>
        rw [hmade] at h
        dsimp only at h ⊢
        split
        · rfl
        · rename_i hfails
          rw [if_neg hfails] at h
          exact absurd rfl h
    show (catchFilesystemError _ (renameFile env (tempPath filePath) filePath) world').2.files filePath
      = world'.files filePath
    rw [catchFilesystemError, hrename]

/-- A call that does not succeed, however it comes back, leaves the file as it is. -/
theorem file_applyPatchInplace
    (h : (applyPatchInplace env patchPath filePath options world).1 ≠ .ok ()) :
    (applyPatchInplace env patchPath filePath options world).2.files filePath
      = world.files filePath := by
  rw [applyPatchInplace] at h ⊢
  split at h
  · rename_i hbackup
    have hmade : (createBackup env filePath options world).2.files filePath = world.files filePath :=
      file_createBackup
    rw [if_pos hbackup]
    rw [Effect.bind_apply] at h ⊢
    rcases hrun : createBackup env filePath options world with ⟨path | e | thrown, world'⟩
    · rw [hrun] at h hmade
      exact (file_applyAndRename h).trans hmade
    · rw [hrun] at hmade; exact hmade
    · rw [hrun] at hmade; exact hmade
  · rename_i hbackup
    rw [if_neg hbackup]
    exact file_applyAndRename h

/-- A call stays within its paths. -/
theorem within_run (update : Update) (filePath : Path) :
    (update.run filePath).Within (KeepsOutside (update.paths filePath)) := by
  have hfile : filePath ∈ update.paths filePath := .inl rfl
  have htemp : tempPath filePath ∈ update.paths filePath := .inr (.inl rfl)
  have hrest := within_applyAndRename update.env update.patchPath filePath update.options hfile htemp
  rw [Update.run, applyPatchInplace]
  split
  · rename_i hrequested
    have hbackup : filePath ++ update.options.backupSuffix ∈ update.paths filePath :=
      .inr (.inr ⟨hrequested, rfl⟩)
    exact Effect.Within.bind (within_createBackup update.env filePath update.options hbackup)
      fun _ => hrest
  · exact hrest

/-- A call that succeeds has put there what lands of what the patch makes, and the version before at the
backup's path, if one is asked for and is not the temporary file. -/
theorem advances_of_ok {update : Update} {version : Bytes}
    (hpatch : update.patchPath ∉ update.paths filePath)
    (hfile : world.files filePath = some version) (h : (update.run filePath world).1 = .ok ()) :
    ∃ version', update.Advances world.files version version' ∧
      (update.run filePath world).2.files filePath = some version' ∧
      (update.options.createBackup = true →
        filePath ++ update.options.backupSuffix ≠ tempPath filePath →
        (update.run filePath world).2.files (filePath ++ update.options.backupSuffix)
          = some version) := by
  obtain ⟨hbackup, T, hmade, hfiles⟩ :=
    applyPatchInplace_of_ok update.env update.patchPath filePath update.options world h
  obtain ⟨P, patch, S, hP, hload, hS, happly⟩ := makes_of_produced hmade
  have hrun : (update.run filePath world).2.files = _ := hfiles
  have hown : ¬ IsBackupPath filePath update.options filePath := by
    rintro ⟨hrequested, hsame⟩
    exact hbackup ⟨hrequested, .inr (.inl hsame)⟩
  -- the backup is made first, and overwrites neither the patch nor the file
  rw [backedUp_of_ne filePath update.options (fun hsame => hpatch (.inr (.inr hsame)))] at hP
  rw [backedUp_of_ne filePath update.options hown, hfile] at hS
  cases hS
  refine ⟨landed update.env T, ⟨P, patch, T, hP, hload, happly, rfl⟩, ?_, fun hrequested htemp => ?_⟩
  · rw [hrun, Function.update_self]
  · have hne : filePath ++ update.options.backupSuffix ≠ filePath :=
      fun hsame => hown ⟨hrequested, hsame.symm⟩
    rw [hrun, Function.update_of_ne hne, Function.update_of_ne htemp, backedUp, if_pos hrequested,
      Function.update_self, hfile]

end OneCall

/-! ### All calls -/

theorem length_runUpdates (updates : List Update) (world : World) :
    (runUpdates filePath updates world).1.length = updates.length := by
  induction updates generalizing world with
  | nil => rfl
  | cons update updates ih => rw [runUpdates, List.length_cons, ih, List.length_cons]

/-- The patches are out of the way of the calls. -/
def PatchesApart (filePath : Path) (updates : List Update) : Prop :=
  ∀ update ∈ updates, ∀ other ∈ updates, update.patchPath ∉ other.paths filePath

/-- The same patches, the same history. -/
theorem History.congr {files files' : Path → Option Bytes} {version last : Bytes}
    {calls : List (Update × Call Unit)} (h : History files version calls last)
    (hsame : ∀ call ∈ calls, files' call.1.patchPath = files call.1.patchPath) :
    History files' version calls last := by
  induction h with
  | start version => exact .start version
  | succeeded step rest ih =>
    obtain ⟨hfirst, hrest⟩ := List.forall_mem_cons.mp hsame
    obtain ⟨P, patch, T, hP, hmade⟩ := step
    exact .succeeded ⟨P, patch, T, hfirst.trans hP, hmade⟩ (ih hrest)
  | failed hanswer rest ih => exact .failed hanswer (ih (List.forall_mem_cons.mp hsame).2)

/-- **The file holds the version that the calls that succeeded made of the first one, in order.** -/
theorem history_runUpdates {updates : List Update} (hapart : PatchesApart filePath updates)
    {world : World} {version : Bytes} (hfile : world.files filePath = some version) :
    ∃ last, History world.files version (updates.zip (runUpdates filePath updates world).1) last ∧
      (runUpdates filePath updates world).2.files filePath = some last := by
  induction updates generalizing world version with
  | nil => exact ⟨version, .start version, hfile⟩
  | cons update updates ih =>
    have hown : update.patchPath ∉ update.paths filePath :=
      hapart update List.mem_cons_self update List.mem_cons_self
    have hrest : PatchesApart filePath updates := fun u hu v hv =>
      hapart u (List.mem_cons_of_mem _ hu) v (List.mem_cons_of_mem _ hv)
    -- the later patches are what they were
    have hpatches : ∀ answers : List (Call Unit), ∀ call ∈ updates.zip answers,
        world.files call.1.patchPath = (update.run filePath world).2.files call.1.patchPath := by
      intro answers call hcall
      have hlater : call.1 ∈ updates := (List.of_mem_zip hcall).1
      have hwithin := within_run update filePath world
      exact (hwithin _ (hapart _ (List.mem_cons_of_mem _ hlater) update List.mem_cons_self)).symm
    rw [runUpdates]
    dsimp only
    rw [List.zip_cons_cons]
    by_cases hok : (update.run filePath world).1 = .ok ()
    · obtain ⟨version', hstep, hfile', -⟩ := advances_of_ok hown hfile hok
      obtain ⟨last, hhistory, hlast⟩ := ih hrest hfile'
      rw [hok]
      exact ⟨last, .succeeded hstep (hhistory.congr (hpatches _)), hlast⟩
    · obtain ⟨last, hhistory, hlast⟩ := ih hrest ((file_applyPatchInplace hok).trans hfile)
      exact ⟨last, .failed hok (hhistory.congr (hpatches _)), hlast⟩

/-- Calls in two parts. -/
theorem runUpdates_append (before after : List Update) (world : World) :
    runUpdates filePath (before ++ after) world
      = ((runUpdates filePath before world).1
          ++ (runUpdates filePath after (runUpdates filePath before world).2).1,
        (runUpdates filePath after (runUpdates filePath before world).2).2) := by
  induction before generalizing world with
  | nil => rfl
  | cons update before ih =>
    rw [List.cons_append, runUpdates, ih, runUpdates]
    rfl

/-- The calls change no path but their own. -/
theorem runUpdates_frame {updates : List Update} {path : Path} {world : World}
    (h : ∀ update ∈ updates, path ∉ update.paths filePath) :
    (runUpdates filePath updates world).2.files path = world.files path := by
  induction updates generalizing world with
  | nil => rfl
  | cons update updates ih =>
    obtain ⟨hfirst, hrest⟩ := List.forall_mem_cons.mp h
    have hwithin := within_run update filePath world
    rw [runUpdates]
    exact (ih hrest).trans (hwithin path hfirst)

/-- Answers past the calls do not count. -/
theorem zip_append_right {α β : Type} {as : List α} {bs : List β} (h : as.length = bs.length)
    (more : List β) : as.zip (bs ++ more) = as.zip bs := by
  have hzip : (as ++ []).zip (bs ++ more) = as.zip bs ++ [].zip more := List.zip_append h
  rwa [List.append_nil, List.zip_nil_left, List.append_nil] at hzip

/-- **No version is lost.** Whatever fails in whichever call: the file holds the version that the calls
that succeeded have made of the first one, in order, each by what landed of its target; the version that
such a call was made for is at its backup's path, if it asked for a backup there and no later call uses
that path; and no path changes but those of the calls. -/
theorem no_version_lost {updates : List Update} (hapart : PatchesApart filePath updates)
    {world : World} {original : Bytes} (hfile : world.files filePath = some original) :
    let run := runUpdates filePath updates world
    (∃ last, History world.files original (updates.zip run.1) last ∧
        run.2.files filePath = some last) ∧
      (∀ before update after, updates = before ++ update :: after →
        run.1[before.length]? = some (.ok ()) → update.options.createBackup = true →
        filePath ++ update.options.backupSuffix ≠ tempPath filePath →
        (∀ later ∈ after, filePath ++ update.options.backupSuffix ∉ later.paths filePath) →
        ∃ version, History world.files original (before.zip run.1) version ∧
          run.2.files (filePath ++ update.options.backupSuffix) = some version) ∧
      ∀ path, (∀ update ∈ updates, path ∉ update.paths filePath) →
        run.2.files path = world.files path := by
  refine ⟨history_runUpdates hapart hfile, ?_, fun path hpath => runUpdates_frame hpath⟩
  -- the call that is looked at, between those before and those behind it
  rintro before update after rfl hok hrequested htemp hlater
  have hbefore : PatchesApart filePath before := fun u hu v hv =>
    hapart u (List.mem_append_left _ hu) v (List.mem_append_left _ hv)
  have hown : update.patchPath ∉ update.paths filePath :=
    hapart update (by simp) update (by simp)
  obtain ⟨version, hhistory, hversion⟩ := history_runUpdates hbefore hfile
  rw [runUpdates_append, runUpdates] at hok ⊢
  dsimp only at hok ⊢
  rw [List.getElem?_append_right (length_runUpdates before world).le, length_runUpdates, Nat.sub_self,
    List.getElem?_cons_zero, Option.some.injEq] at hok
  obtain ⟨-, -, -, hbackup⟩ := advances_of_ok hown hversion hok
  refine ⟨version, ?_, (runUpdates_frame hlater).trans (hbackup hrequested htemp)⟩
  rwa [zip_append_right (length_runUpdates before world).symm]

/-- A patch applied in place with a backup, and then once more, when the rename fails. -/
theorem no_version_lost_renameFails :
    (runUpdates "file" [⟨{}, "patch", { createBackup := true }⟩, ⟨{ renameFails := true }, "patch", {}⟩]
      plainWorld).2.files "file.bak" = some [1] := by
  have hapart : PatchesApart "file"
      [⟨{}, "patch", { createBackup := true }⟩, ⟨{ renameFails := true }, "patch", {}⟩] := by
    simp only [PatchesApart, List.forall_mem_cons, List.not_mem_nil, false_imp_iff, implies_true,
      and_true]
    decide
  have hfile : plainWorld.files "file" = some [1] := by decide
  obtain ⟨-, hbackups, -⟩ := no_version_lost hapart hfile
  obtain ⟨version, hhistory, hbackup⟩ := hbackups [] ⟨{}, "patch", { createBackup := true }⟩
    [⟨{ renameFails := true }, "patch", {}⟩] rfl (by decide +kernel) rfl (by decide) (by decide)
  cases hhistory
  exact hbackup

end IUBPatch
