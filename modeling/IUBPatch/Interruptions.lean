import IUBPatch.FileSteps
import IUBPatch.Updates

/-! # Updates that are killed

`apply_patch_inplace` makes the new version beside the file and puts it in the file's place in one step
of the file system. So wherever the process is killed the file is the old version or the new one, and the
backup, once there is anything but the old version in the file, is the old one. -/

namespace IUBPatch

open Stepwise

/-- The call, step by step, with `n` files opened for reading before; `copying` is what the backup's path
holds while the backup is made. -/
def Update.steps (update : Update) (copying : List Bytes) (n : Nat) (filePath : Path) :
    FileSteps Unit :=
  FileSteps.applyPatchInplace update.env copying n update.patchPath filePath update.options

/-- What is left of the call after `k` steps, and the files then. -/
def Update.after (update : Update) (copying : List Bytes) (k : Nat) (filePath : Path) (world : World) :
    FileSteps Unit × Files :=
  Stepwise.after k (update.steps copying world.reads filePath) world.files

/-- The paths the call looks at. -/
def Update.looks (update : Update) (filePath : Path) : Set Path :=
  insert update.patchPath (update.paths filePath)

instance (update : Update) (filePath path : Path) : Decidable (path ∈ update.looks filePath) :=
  inferInstanceAs (Decidable (_ ∨ _))

/-- Run to the end, the steps are the call. -/
theorem run_steps (update : Update) (copying : List Bytes) (filePath : Path) (world : World) :
    Stepwise.run (update.steps copying world.reads filePath) world.files
      = ((update.run filePath world).1, (update.run filePath world).2.files) :=
  FileSteps.run_applyPatchInplace update.env copying update.patchPath filePath update.options world

/-- The steps stay within the paths of the call. -/
theorem confined_steps (update : Update) (copying : List Bytes) (n : Nat) (filePath : Path) :
    FileSteps.Confined (update.looks filePath) (update.paths filePath)
      (update.steps copying n filePath) := by
  have hfile : filePath ∈ update.paths filePath := .inl rfl
  have htemp : tempPath filePath ∈ update.paths filePath := .inr (.inl rfl)
  have hrest : FileSteps.Confined (update.looks filePath) (update.paths filePath)
      (FileSteps.applyAndRename update.env n update.patchPath filePath update.options) :=
    FileSteps.confined_applyAndRename (.inl rfl) (.inr hfile) (.inr htemp) hfile htemp n
  rw [Update.steps, FileSteps.applyPatchInplace]
  split
  · -- the backup's path is one of the call's where a backup is asked for
    rename_i hrequested
    have hbackup : filePath ++ update.options.backupSuffix ∈ update.paths filePath :=
      .inr (.inr ⟨hrequested, rfl⟩)
    exact FileSteps.Confined.bind
      (FileSteps.confined_createBackup copying (.inr hfile) fun _ => hbackup) fun _ => hrest
  · exact hrest

section Killed

variable {env : Environment} {patchPath filePath : Path} {options : PatchOptions} {copying : List Bytes}
  {n : Nat} {files : Files} {version : Option Bytes}

/-- The file is in this version. -/
def Holds (filePath : Path) (version : Option Bytes) (files : Files) : Prop := files filePath = version

/-- A program that does not change a path keeps its version. -/
theorem keepsUntil_holds {α : Type} {steps : FileSteps α} {looks writes : Set Path}
    {Ends : Call α → Prop} (h : FileSteps.Confined looks writes steps) (hfile : filePath ∉ writes)
    (hversion : Holds filePath version files) :
    KeepsUntil (Holds filePath version) Ends steps files :=
  h.keepsUntil (fun _ _ hsame hs => (hsame hfile).trans hs) hversion

/-- A rename that throws changes nothing. -/
theorem renameFile_cases (env : Environment) (source target : Path) (world : World) :
    renameFile env source target world = (.throws (.filesystemError env.what), world) ∨
      (renameFile env source target world).1 = .ok () := by
  rw [renameFile]
  cases world.files source with
  | none => exact .inl rfl
  | some data =>
    dsimp only
    split
    · exact .inl rfl
    · exact .inr rfl

/-- Behind `apply_patch` the file stays as it is until the rename, which ends the call with success. -/
theorem keepsUntil_finishInplace (hversion : Holds filePath version files) (answer : Call Unit) :
    KeepsUntil (Holds filePath version) (· = .ok ()) (FileSteps.finishInplace env filePath answer)
      files := by
  cases answer with
  | throws thrown => exact .inl hversion
  | error e =>
    -- what is removed is the temporary file, which is another one
    have hremove : FileSteps.Confined Set.univ {tempPath filePath}
        (FileSteps.finishInplace env filePath (.error e)) :=
      FileSteps.Confined.bind (FileSteps.confined_atomic
        (within_removeFile env (Set.mem_singleton _)) (respects_removeFile _) 0)
        fun _ => FileSteps.confined_lift _
    exact keepsUntil_holds hremove (tempPath_ne filePath).symm hversion
  | ok _ =>
    refine ⟨hversion, ?_⟩
    rcases renameFile_cases env (tempPath filePath) filePath { files, reads := 0 } with
      hthrows | hrenamed
    · simp only [hthrows]
      exact .inl hversion
    · simp only [FileSteps.lift, hrenamed]
      exact .inr rfl

theorem keepsUntil_applyAndRename (hversion : Holds filePath version files) :
    KeepsUntil (Holds filePath version) (· = .ok ())
      (FileSteps.applyAndRename env n patchPath filePath options) files := by
  have happly : FileSteps.Confined Set.univ {tempPath filePath}
      (FileSteps.applyPatch env n patchPath filePath (tempPath filePath) options) :=
    FileSteps.confined_applyPatch (Set.mem_univ _) (Set.mem_univ _) (Set.mem_singleton _) n
  have hfile : filePath ∉ ({tempPath filePath} : Set Path) := (tempPath_ne filePath).symm
  -- while the new version is made, and then while it is put in place
  refine KeepsUntil.bind (keepsUntil_holds happly hfile hversion) ?_
  exact keepsUntil_finishInplace ((happly.frame_run hfile).trans hversion) _

/-- Making the backup leaves the file alone: a file is not copied over itself. -/
theorem confined_backup : FileSteps.Confined Set.univ {filePath}ᶜ
    (FileSteps.createBackup env copying filePath options) :=
  FileSteps.confined_createBackup copying (Set.mem_univ _) fun hne => Ne.symm hne

/-- **Until the call comes back with success the file is as it was.** -/
theorem keepsUntil_applyPatchInplace (hversion : Holds filePath version files) :
    KeepsUntil (Holds filePath version) (· = .ok ())
      (FileSteps.applyPatchInplace env copying n patchPath filePath options) files := by
  rw [FileSteps.applyPatchInplace]
  split
  · have hfile : filePath ∉ ({filePath}ᶜ : Set Path) := fun hne => hne rfl
    have hbackup : FileSteps.Confined Set.univ {filePath}ᶜ
        (FileSteps.createBackup env copying filePath options) := confined_backup
    refine KeepsUntil.bind (keepsUntil_holds hbackup hfile hversion) ?_
    have hafter := (hbackup.frame_run (s := files) hfile).trans hversion
    rcases hrun : Stepwise.run (FileSteps.createBackup env copying filePath options) files with
      ⟨path | e | thrown, files'⟩ <;> rw [hrun] at hafter
    · exact keepsUntil_applyAndRename hafter
    · exact .inl hafter
    · exact .inl hafter
  · exact keepsUntil_applyAndRename hversion

end Killed

/-! ### A call that is killed -/

section Recovery

variable {update : Update} {copying : List Bytes} {k : Nat} {filePath : Path} {world : World}

/-- A call that is done has left the files of the call. -/
theorem after_eq_run {answer : Call Unit} (h : (update.after copying k filePath world).1 = .done answer) :
    (update.run filePath world).1 = answer ∧
      (update.after copying k filePath world).2 = (update.run filePath world).2.files := by
  obtain ⟨hanswer, hfiles⟩ := Stepwise.eq_run_of_done h
  rw [run_steps] at hanswer hfiles
  exact ⟨hanswer.symm, hfiles⟩

/-- At every moment, the file is as it was or the call has succeeded. -/
theorem file_after (update : Update) (copying : List Bytes) (k : Nat) (filePath : Path) (world : World) :
    (update.after copying k filePath world).2 filePath = world.files filePath ∨
    (update.after copying k filePath world).1 = .done (.ok ()) ∧
      (update.run filePath world).1 = .ok () ∧
      (update.after copying k filePath world).2 = (update.run filePath world).2.files := by
  have hkeeps : KeepsUntil (Holds filePath (world.files filePath)) (· = .ok ())
      (update.steps copying world.reads filePath) world.files := keepsUntil_applyPatchInplace rfl
  rcases hkeeps.after k with hold | ⟨answer, hdone, rfl⟩
  · exact .inl hold
  · exact .inr ⟨hdone, after_eq_run hdone⟩

/-- At every moment, the paths of the call apart, the files are as they were. -/
theorem frame_after {path : Path} (hpath : path ∉ update.paths filePath) :
    (update.after copying k filePath world).2 path = world.files path :=
  (confined_steps update copying world.reads filePath).frame_after k hpath

/-- A call that succeeds leaves the backup it was asked for. -/
theorem backup_of_ok (hok : (update.run filePath world).1 = .ok ())
    (hrequested : update.options.createBackup = true)
    (htemp : filePath ++ update.options.backupSuffix ≠ tempPath filePath) :
    (update.run filePath world).2.files (filePath ++ update.options.backupSuffix)
      = world.files filePath := by
  obtain ⟨hbackup, T, -, hfiles⟩ :=
    applyPatchInplace_of_ok update.env update.patchPath filePath update.options world hok
  have hrun : (update.run filePath world).2.files = _ := hfiles
  have hne : filePath ++ update.options.backupSuffix ≠ filePath := fun hsame =>
    hbackup ⟨hrequested, .inr (.inl hsame.symm)⟩
  rw [hrun, Function.update_of_ne hne, Function.update_of_ne htemp, backedUp, if_pos hrequested,
    Function.update_self]

/-- **Killed anywhere, nothing is lost.** At every moment of a call, under any faults and however the
backup and the temporary file grow: the file is as it was, or the call has come back with success and the
files are those it leaves; what was in the file is there or at the path of the backup, if one is asked
for and is not the temporary file; and no path changes but those of the call. -/
theorem killed_anywhere (update : Update) (copying : List Bytes) (k : Nat) (filePath : Path)
    (world : World) :
    let now := update.after copying k filePath world
    (now.2 filePath = world.files filePath ∨
        now.1 = .done (.ok ()) ∧ (update.run filePath world).1 = .ok () ∧
          now.2 = (update.run filePath world).2.files) ∧
      (update.options.createBackup = true →
        filePath ++ update.options.backupSuffix ≠ tempPath filePath →
        now.2 filePath = world.files filePath ∨
          now.2 (filePath ++ update.options.backupSuffix) = world.files filePath) ∧
      ∀ path ∉ update.paths filePath, now.2 path = world.files path := by
  refine ⟨file_after update copying k filePath world, fun hrequested htemp => ?_,
    fun path hpath => frame_after hpath⟩
  rcases file_after update copying k filePath world with hold | ⟨-, hok, hfiles⟩
  · exact .inl hold
  · rw [hfiles]
    exact .inr (backup_of_ok hok hrequested htemp)

/-- A call looks at its patch and at the file. -/
theorem respects_run (update : Update) (filePath : Path) :
    (update.run filePath).Respects (SameWithin update.env {update.patchPath, filePath}) :=
  respects_applyPatchInplace filePath update.options (.inl rfl) (.inr rfl)

/-- What a call that succeeds leaves is made of the patch and the file: two file systems that agree on
these agree afterwards wherever they did or the call has written. -/
theorem files_of_ok {again : Update} {world' : World}
    (hfile : world.files filePath = world'.files filePath)
    (hsame : SameWithin again.env {again.patchPath, filePath} world world')
    (hok : (again.run filePath world).1 = .ok ()) {path : Path}
    (hpath : world.files path = world'.files path ∨ path ∈ again.paths filePath) :
    (again.run filePath world).2.files path = (again.run filePath world').2.files path := by
  obtain ⟨hanswer, hafter⟩ := respects_run again filePath world world' hsame
  by_cases hown : path = filePath
  · rw [hown]
    exact hafter.files (.inr rfl)
  · obtain ⟨-, T, -, hfiles⟩ :=
      applyPatchInplace_of_ok again.env again.patchPath filePath again.options world hok
    obtain ⟨-, T', -, hfiles'⟩ :=
      applyPatchInplace_of_ok again.env again.patchPath filePath again.options world'
        (hanswer.symm.trans hok)
    have hrun : (again.run filePath world).2.files = _ := hfiles
    have hrun' : (again.run filePath world').2.files = _ := hfiles'
    rw [hrun, hrun', Function.update_of_ne hown, Function.update_of_ne hown]
    -- the temporary file is gone in both, and the backup is the file's content in both
    by_cases htemp : path = tempPath filePath
    · rw [htemp, Function.update_self, Function.update_self]
    · rw [Function.update_of_ne htemp, Function.update_of_ne htemp]
      by_cases hbackup : IsBackupPath filePath again.options path
      · obtain ⟨hrequested, rfl⟩ := hbackup
        rw [backedUp, backedUp, if_pos hrequested, if_pos hrequested, Function.update_self,
          Function.update_self, hfile]
      · rw [backedUp_of_ne filePath again.options hbackup, backedUp_of_ne filePath again.options hbackup]
        exact hpath.resolve_right fun hwritten =>
          hwritten.elim hown fun hrest => hrest.elim htemp hbackup

/-- **A call that is killed can be made again.** Wherever it was killed, and whatever it has left: a call
whose patch is none of its paths comes back as it would have come back at the start, with the same file;
and where it succeeds, the files are the same on all of its paths and outside those of the killed call. -/
theorem killed_again (update again : Update) (copying : List Bytes) (k n : Nat) (filePath : Path)
    (world : World) (hpatch : again.patchPath ∉ update.paths filePath)
    (hkilled : (update.after copying k filePath world).1.answered ≠ some (.ok ())) :
    let killed : World := { files := (update.after copying k filePath world).2, reads := n }
    let fresh : World := { files := world.files, reads := n }
    (again.run filePath killed).1 = (again.run filePath fresh).1 ∧
      (again.run filePath killed).2.files filePath = (again.run filePath fresh).2.files filePath ∧
      ((again.run filePath fresh).1 = .ok () →
        ∀ path, path ∈ again.paths filePath ∨ path ∉ update.paths filePath →
          (again.run filePath killed).2.files path = (again.run filePath fresh).2.files path) := by
  intro killed fresh
  have hfile : killed.files filePath = fresh.files filePath := by
    rcases file_after update copying k filePath world with hold | ⟨hdone, -⟩
    · exact hold
    · rw [hdone] at hkilled
      exact absurd rfl hkilled
  -- the call made again looks at its patch and at the file, and finds both as they were
  have hsame : SameWithin again.env {again.patchPath, filePath} killed fresh := by
    refine ⟨?_, fun _ => rfl, fun _ => rfl⟩
    rintro path (rfl | rfl)
    · exact frame_after hpatch
    · exact hfile
  obtain ⟨hanswer, hafter⟩ := respects_run again filePath killed fresh hsame
  refine ⟨hanswer, hafter.files (.inr rfl), fun hok path hpath => ?_⟩
  refine files_of_ok hfile hsame (hanswer.trans hok) ?_
  rcases hpath with hown | hout
  · exact .inr hown
  · exact .inl (frame_after hout)

/-- A patch applied in place, killed with the temporary file made, and applied again without a backup. -/
theorem killed_again_beforeRename :
    let killed := (Update.after ⟨{}, "patch", { createBackup := true }⟩ [[]] 7 "file" plainWorld).2
    (Update.run ⟨{}, "patch", {}⟩ "file" { files := killed, reads := 0 }).1 = .ok () := by
  have hagain := killed_again ⟨{}, "patch", { createBackup := true }⟩ ⟨{}, "patch", {}⟩ [[]] 7 0 "file"
    plainWorld (by decide) (by decide +kernel)
  exact hagain.1.trans (by decide +kernel)

end Recovery

/-! ### Calls that may be killed, one after another -/

/-- A call by a process that may be killed after some of the steps. -/
structure Attempt where
  update : Update
  copying : List Bytes
  reads : Nat
  killedAt : Option Nat

/-- How the call came back, if it did, and the files that are left. -/
def Attempt.run (attempt : Attempt) (filePath : Path) (files : Files) : Option (Call Unit) × Files :=
  let world : World := { files, reads := attempt.reads }
  match attempt.killedAt with
  | none => (some (attempt.update.run filePath world).1, (attempt.update.run filePath world).2.files)
  | some k =>
    let now := attempt.update.after attempt.copying k filePath world
    (now.1.answered, now.2)

/-- One after another, each on the files that the one before has left: the calls that came back, and the
files at the end. -/
def runAttempts (filePath : Path) : List Attempt → Files → List (Update × Call Unit) × Files
  | [], files => ([], files)
  | attempt :: attempts, files =>
    let now := attempt.run filePath files
    let rest := runAttempts filePath attempts now.2
    ((now.1.map fun answer => (attempt.update, answer)).toList ++ rest.1, rest.2)

section Attempts

variable {filePath : Path} {files : Files}

/-- A call changes no path but its own, killed or not. -/
theorem frame_attempt (attempt : Attempt) {path : Path} (hpath : path ∉ attempt.update.paths filePath) :
    (attempt.run filePath files).2 path = files path := by
  rw [Attempt.run]
  cases attempt.killedAt with
  | none => exact within_run attempt.update filePath { files, reads := attempt.reads } path hpath
  | some k => exact frame_after hpath

/-- **One call**: it has come back with success and put the next version there, or the file is as it
was. -/
theorem attempt_cases (attempt : Attempt) {version : Bytes}
    (hpatch : attempt.update.patchPath ∉ attempt.update.paths filePath)
    (hfile : files filePath = some version) :
    let now := attempt.run filePath files
    (now.1 = some (.ok ()) ∧ ∃ version', attempt.update.Advances files version version' ∧
        now.2 filePath = some version') ∨
      (now.1 ≠ some (.ok ()) ∧ now.2 filePath = some version) := by
  intro now
  have hnow : now = attempt.run filePath files := rfl
  rw [Attempt.run] at hnow
  cases hkilled : attempt.killedAt with
  | none =>
    rw [hkilled] at hnow
    by_cases hok : (attempt.update.run filePath { files, reads := attempt.reads }).1 = .ok ()
    · obtain ⟨version', hstep, hfile', -⟩ := advances_of_ok hpatch hfile hok
      rw [hnow]
      exact .inl ⟨congrArg some hok, version', hstep, hfile'⟩
    · rw [hnow]
      exact .inr ⟨fun h => hok (Option.some.inj h), (file_applyPatchInplace hok).trans hfile⟩
  | some k =>
    rw [hkilled] at hnow
    rw [hnow]
    by_cases hok : (attempt.update.after attempt.copying k filePath
      { files, reads := attempt.reads }).1.answered = some (.ok ())
    · -- it was done before it could be killed
      obtain ⟨hanswer, hfiles⟩ := after_eq_run (eq_done_of_answered hok)
      obtain ⟨version', hstep, hfile', -⟩ := advances_of_ok hpatch hfile hanswer
      exact .inl ⟨hok, version', hstep, (congrFun hfiles filePath).trans hfile'⟩
    · rcases file_after attempt.update attempt.copying k filePath
        { files, reads := attempt.reads } with hold | ⟨hdone, -⟩
      · exact .inr ⟨hok, hold.trans hfile⟩
      · rw [hdone] at hok
        exact absurd rfl hok

/-- What no call changes stays as it was. -/
theorem runAttempts_frame {attempts : List Attempt} {path : Path}
    (h : ∀ attempt ∈ attempts, path ∉ attempt.update.paths filePath) :
    (runAttempts filePath attempts files).2 path = files path := by
  induction attempts generalizing files with
  | nil => rfl
  | cons attempt attempts ih =>
    obtain ⟨hfirst, hrest⟩ := List.forall_mem_cons.mp h
    rw [runAttempts]
    exact (ih hrest).trans (frame_attempt attempt hfirst)

/-- The calls that came back are among those made. -/
theorem mem_of_mem_runAttempts {attempts : List Attempt} {call : Update × Call Unit}
    (h : call ∈ (runAttempts filePath attempts files).1) :
    ∃ attempt ∈ attempts, attempt.update = call.1 := by
  induction attempts generalizing files with
  | nil => cases h
  | cons attempt attempts ih =>
    rw [runAttempts, List.mem_append] at h
    rcases h with hfirst | hrest
    · rw [Option.mem_toList, Option.map_eq_some_iff] at hfirst
      obtain ⟨answer, -, rfl⟩ := hfirst
      exact ⟨attempt, List.mem_cons_self, rfl⟩
    · obtain ⟨other, hother, hsame⟩ := ih hrest
      exact ⟨other, List.mem_cons_of_mem _ hother, hsame⟩

/-- **Killed as often as may be, no version is lost.** Over calls on one file of which any may be killed
after any of its steps, under any faults, with the patches none of the paths the calls touch: the file
holds the version that exactly the calls that came back with success have made of the first one, in
order, each by what landed of its target; and no path changes but those of the calls. -/
theorem killed_history {attempts : List Attempt}
    (hapart : ∀ attempt ∈ attempts, ∀ other ∈ attempts,
      attempt.update.patchPath ∉ other.update.paths filePath)
    {original : Bytes} (hfile : files filePath = some original) :
    let run := runAttempts filePath attempts files
    (∃ last, History files original run.1 last ∧ run.2 filePath = some last) ∧
      ∀ path, (∀ attempt ∈ attempts, path ∉ attempt.update.paths filePath) →
        run.2 path = files path := by
  refine ⟨?_, fun path hpath => runAttempts_frame hpath⟩
  induction attempts generalizing files original with
  | nil => exact ⟨original, .start original, hfile⟩
  | cons attempt attempts ih =>
    have hown : attempt.update.patchPath ∉ attempt.update.paths filePath :=
      hapart attempt List.mem_cons_self attempt List.mem_cons_self
    have hrest : ∀ a ∈ attempts, ∀ b ∈ attempts, a.update.patchPath ∉ b.update.paths filePath :=
      fun a ha b hb => hapart a (List.mem_cons_of_mem _ ha) b (List.mem_cons_of_mem _ hb)
    -- the later patches are what they were
    have hpatches : ∀ call ∈ (runAttempts filePath attempts (attempt.run filePath files).2).1,
        files call.1.patchPath = (attempt.run filePath files).2 call.1.patchPath := by
      intro call hcall
      obtain ⟨later, hlater, hsame⟩ := mem_of_mem_runAttempts hcall
      rw [← hsame]
      exact (frame_attempt attempt
        (hapart later (List.mem_cons_of_mem _ hlater) attempt List.mem_cons_self)).symm
    rw [runAttempts]
    dsimp only
    rcases attempt_cases attempt hown hfile with ⟨hok, version', hstep, hfile'⟩ | ⟨hnot, hfile'⟩
    · obtain ⟨last, hhistory, hlast⟩ := ih hrest hfile'
      rw [hok]
      exact ⟨last, .succeeded hstep (hhistory.congr hpatches), hlast⟩
    · obtain ⟨last, hhistory, hlast⟩ := ih hrest hfile'
      refine ⟨last, ?_, hlast⟩
      -- killed, it is no part of the history; come back without success, it changes nothing there
      cases hanswer : (attempt.run filePath files).1 with
      | none => exact hhistory.congr hpatches
      | some answer =>
        rw [hanswer] at hnot
        exact .failed (fun hok => hnot (congrArg some hok)) (hhistory.congr hpatches)

/-- A call killed with its temporary file made, and another one that is not killed. -/
def killedOnce : List Attempt :=
  [⟨⟨{}, "patch", { createBackup := true }⟩, [[]], 0, some 7⟩, ⟨⟨{}, "patch", {}⟩, [], 0, none⟩]

theorem killed_history_once :
    (∃ last, (runAttempts "file" killedOnce plainWorld.files).2 "file" = some last) ∧
      (runAttempts "file" killedOnce plainWorld.files).2 "patch" = plainWorld.files "patch" := by
  have hapart : ∀ attempt ∈ killedOnce, ∀ other ∈ killedOnce,
      attempt.update.patchPath ∉ other.update.paths "file" := by
    simp only [killedOnce, List.forall_mem_cons, List.not_mem_nil, false_imp_iff, implies_true, and_true]
    decide
  have hfile : plainWorld.files "file" = some [1] := by decide
  obtain ⟨⟨last, -, hlast⟩, hframe⟩ := killed_history hapart hfile
  refine ⟨⟨last, hlast⟩, hframe "patch" ?_⟩
  simp only [killedOnce, List.forall_mem_cons, List.not_mem_nil, false_imp_iff, implies_true, and_true]
  decide

end Attempts

/-! ### Calls side by side -/

/-- A call in a process of its own. -/
structure Running where
  update : Update
  copying : List Bytes
  reads : Nat
  filePath : Path

namespace Running

/-- Its steps. -/
def steps (call : Running) : FileSteps Unit := call.update.steps call.copying call.reads call.filePath

/-- What it comes to alone. -/
def alone (call : Running) (files : Files) : Call Unit × World :=
  call.update.run call.filePath { files, reads := call.reads }

/-- The paths it may change. -/
def paths (call : Running) : Set Path := call.update.paths call.filePath

/-- The paths it looks at. -/
def looks (call : Running) : Set Path := call.update.looks call.filePath

instance (call : Running) (path : Path) : Decidable (path ∈ call.looks) :=
  inferInstanceAs (Decidable (path ∈ call.update.looks call.filePath))

end Running

section SideBySide

variable {ι : Type} [DecidableEq ι]

/-- **Calls side by side.** Where no call changes what another one looks at, and whatever the order in
which they take their steps, and which of them are killed and take no more: at every moment each file is
as it was, or its call has come back with success and the file is the one it leaves alone; every call
that has taken steps enough comes back as it does alone, and leaves what it leaves alone on all of its
paths; and no path changes but those of the calls. -/
theorem sideBySide {calls : ι → Running}
    (hapart : ∀ i j, i ≠ j → Disjoint (calls i).paths (calls j).looks) (files : Files) :
    ∃ enough : ι → Nat, ∀ schedule : List ι,
      let now := interleave (fun i => (calls i).steps) files schedule
      (∀ i, (now.2 (calls i).filePath = files (calls i).filePath ∨
            now.1 i = .done (.ok ()) ∧
              now.2 (calls i).filePath = ((calls i).alone files).2.files (calls i).filePath) ∧
          (enough i ≤ schedule.count i →
            now.1 i = .done ((calls i).alone files).1 ∧
              Set.EqOn now.2 ((calls i).alone files).2.files (calls i).looks)) ∧
        ∀ path, (∀ i, path ∉ (calls i).paths) → now.2 path = files path := by
  have hconfined : ∀ i, Stepwise.Confined (calls i).looks (calls i).paths (calls i).steps := fun i =>
    confined_steps (calls i).update (calls i).copying (calls i).reads (calls i).filePath
  have hends : ∀ i, ∃ m, ∀ n, m ≤ n → Stepwise.after n (calls i).steps files
      = (.done ((calls i).alone files).1, ((calls i).alone files).2.files) := by
    intro i
    obtain ⟨m, hdone⟩ := Stepwise.exists_done (calls i).steps files
    have hrun : Stepwise.run (calls i).steps files = _ :=
      run_steps (calls i).update (calls i).copying (calls i).filePath { files, reads := (calls i).reads }
    refine ⟨m, fun n hn => ?_⟩
    rw [hdone n hn, hrun]
    rfl
  -- the numbers of steps do not depend on the schedule
  choose enough hdone using hends
  refine ⟨enough, fun schedule => ⟨fun i => ?_, fun path hpath => ?_⟩⟩
  · -- each call is where it is alone after as many of its steps
    obtain ⟨hleft, hsame⟩ := interleave_eq_after hconfined hapart files schedule i
    have hfile : (calls i).filePath ∈ (calls i).looks := .inr (.inl rfl)
    refine ⟨?_, fun henough => ?_⟩
    · rw [hleft, hsame hfile]
      rcases file_after (calls i).update (calls i).copying (schedule.count i) (calls i).filePath
        { files, reads := (calls i).reads } with hold | ⟨hok, -, hfiles⟩
      · exact .inl hold
      · exact .inr ⟨hok, congrFun hfiles _⟩
    · rw [hdone i _ henough] at hleft hsame
      exact ⟨hleft, hsame⟩
  · exact interleave_frame hconfined files schedule hpath

/-- Two calls, of which one makes a backup. -/
def twoCalls : Bool → Running
  | true => ⟨⟨{}, "patch", { createBackup := true }⟩, [[]], 0, "file"⟩
  | false => ⟨⟨{}, "patch", {}⟩, [], 0, "save"⟩

theorem sideBySide_twoCalls : ∃ enough : Bool → Nat, ∀ schedule : List Bool,
    enough true ≤ schedule.count true →
      (interleave (fun i => (twoCalls i).steps) plainWorld.files schedule).2 "file.bak"
        = ((twoCalls true).alone plainWorld.files).2.files "file.bak" := by
  have hapart : ∀ i j, i ≠ j → Disjoint (twoCalls i).paths (twoCalls j).looks := by
    rintro (_ | _) (_ | _) hne
    · exact absurd rfl hne
    · refine Set.disjoint_left.mpr ?_
      rintro path (rfl | rfl | ⟨-, rfl⟩) <;> decide
    · refine Set.disjoint_left.mpr ?_
      rintro path (rfl | rfl | ⟨-, rfl⟩) <;> decide
    · exact absurd rfl hne
  obtain ⟨enough, hmoments⟩ := sideBySide hapart plainWorld.files
  refine ⟨enough, fun schedule henough => ?_⟩
  obtain ⟨-, hends⟩ := (hmoments schedule).1 true
  exact (hends henough).2 (.inr (.inr (.inr ⟨rfl, by decide⟩)))

end SideBySide

/-! ### Without a temporary file -/

section OwnSource

variable {env : Environment} {patchPath filePath : Path} {options : PatchOptions} {files : Files}
  {n : Nat}

/-- The first thing a file holds while it is written is nothing. -/
theorem emptied_writeFile (hcreates : env.createFails = false) (data : Bytes) :
    (Stepwise.after 1 (FileSteps.writeFile env filePath data) files).2 filePath = some [] := by
  have hput : ∀ (answer : Call Unit) (more : List Bytes), (Stepwise.after 1 (FileSteps.putAll filePath
      answer (FileSteps.devices data env.duringWrite ++ more)) files).2 filePath = some [] := by
    intro answer more
    have hdevices : ∃ rest, FileSteps.devices data env.duringWrite = [] :: rest := by
      rw [FileSteps.devices]
      cases env.duringWrite with
      | nil => exact ⟨_, rfl⟩
      | cons t transfers =>
        rw [List.scanl_cons, List.map_cons]
        exact ⟨_, rfl⟩
    obtain ⟨rest, hrest⟩ := hdevices
    rw [hrest]
    exact Function.update_self _ _ _
  rw [FileSteps.writeFile, createFileWriter, hcreates]
  simp only [Bool.false_eq_true, if_false]
  cases (BufferedFileWriter.write env (.opened []) data).1 with
  | error e => exact hput _ _
  | ok _ => exact hput _ _

/-- A file that can be read is read. -/
theorem readFile_of_readOutcome {data : Bytes} {path : Path}
    (hread : readOutcome env files n path = .ok data) :
    readFile env path { files, reads := n } = (.ok data, { files, reads := n + 1 }) := by
  rw [readFile_apply, hread]
  rfl

/-- **`apply_patch` from a file to itself loses the file** if it is killed behind its third step: both
files are read by then, and the one that is written is empty. -/
theorem emptied_applyPatch {T : Bytes}
    (hmade : produced env files n patchPath filePath options = .ok T)
    (hcreates : env.createFails = false) :
    (Stepwise.after 3 (FileSteps.applyPatch env n patchPath filePath filePath options) files).2 filePath
      = some [] := by
  rw [produced] at hmade
  obtain ⟨P, hpatch, hrest⟩ := Outcome.bind_eq_ok_iff.mp hmade
  obtain ⟨patch, hload, hrest⟩ := Outcome.bind_eq_ok_iff.mp hrest
  obtain ⟨S, hsource, happly⟩ := Outcome.bind_eq_ok_iff.mp hrest
  rw [Outcome.ofExcept_eq_ok_iff] at hpatch hsource
  -- one step reads the patch, and one the source
  have hloaded : Stepwise.after 3
      (FileSteps.applyPatch env n patchPath filePath filePath options) files
        = Stepwise.after 2 (FileSteps.applyToFile env (n + 1) patch filePath filePath options) files := by
    show Stepwise.after 2 ((FileSteps.lift (readFile env patchPath { files, reads := n }).1 >>=
        fun data => FileSteps.lift (loadPatchFromMemory data)) >>=
        fun patch => FileSteps.applyToFile env (n + 1) patch filePath filePath options : FileSteps Unit)
      (readFile env patchPath { files, reads := n }).2.files = _
    rw [readFile_of_readOutcome hpatch]
    show Stepwise.after 2 (FileSteps.lift (loadPatchFromMemory P) >>=
        fun patch => FileSteps.applyToFile env (n + 1) patch filePath filePath options : FileSteps Unit)
      files = _
    rw [hload]
    rfl
  have happlied : Stepwise.after 2
      (FileSteps.applyToFile env (n + 1) patch filePath filePath options) files
        = Stepwise.after 1 (FileSteps.writeFile env filePath T) files := by
    show Stepwise.after 1 (FileSteps.lift (readFile env filePath { files, reads := n + 1 }).1 >>=
        fun source => FileSteps.lift (patch.apply source options) >>=
        fun patched => FileSteps.writeFile env filePath patched : FileSteps Unit)
      (readFile env filePath { files, reads := n + 1 }).2.files = _
    rw [readFile_of_readOutcome hsource]
    show Stepwise.after 1 (FileSteps.lift (patch.apply S options) >>=
        fun patched => FileSteps.writeFile env filePath patched : FileSteps Unit) files = _
    rw [happly]
    rfl
  rw [hloaded, happlied]
  exact emptied_writeFile hcreates T

end OwnSource
end IUBPatch
