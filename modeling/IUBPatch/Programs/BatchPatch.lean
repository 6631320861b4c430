import IUBPatch.FileFootprint
import IUBPatch.Lib.Footprint
import IUBPatch.Programs.Process
import Mathlib.Data.List.Nodup

/-! # Patching many files

`examples/batch_patch.cc`: one patch, applied in place to each file it is given, with a backup of each.
Each turn has its own failures. The turns share the file system, so a file listed twice, or together
with the name of its own backup or temporary file, can lose its original; nothing else can. -/

namespace IUBPatch.BatchPatch

open Program

/-! ### The program -/

/-- The options of the batch: a backup of each file. -/
def batchOptions : PatchOptions := { createBackup := true }

theorem createBackup_batchOptions : batchOptions.createBackup = true := rfl

/-- `success_count` and `failure_count`. -/
structure Counts where
  successCount : Nat := 0
  failureCount : Nat := 0
  deriving DecidableEq, Repr

/-- The body of the loop. -/
def patchFile (env : Environment) (patchPath filePath : Path) (counts : Counts) : Program Counts := do
  printOut ("Patching: " ++ filePath ++ "... ")
  let result ← call (applyPatchInplace env patchPath filePath batchOptions)
  match result with
  | .ok () => do
    printOut "OK\n"
    pure { counts with successCount := counts.successCount + 1 }
  | .error e => do
    printOut "FAILED\n"
    printErr ("  Error: " ++ e.message ++ "\n")
    pure { counts with failureCount := counts.failureCount + 1 }

/-- The loop from argument `i` on; `env i` holds the failures of the turn of argument `i`. -/
def patchFiles (env : Nat → Environment) (patchPath : Path) :
    Nat → List Path → Counts → Program Counts
  | _, [], counts => pure counts
  | i, filePath :: filePaths, counts => do
    let counts ← patchFile (env i) patchPath filePath counts
    patchFiles env patchPath (i + 1) filePaths counts

/-- `main`: the exit code. -/
def main (env : Nat → Environment) (programName : String) : List String → Program Nat
  | patchPath :: filePath :: filePaths => do
    let counts ← patchFiles env patchPath 2 (filePath :: filePaths) {}
    printOut ("\nResults: " ++ toString counts.successCount ++ " succeeded, "
      ++ toString counts.failureCount ++ " failed\n")
    pure (if counts.failureCount > 0 then 1 else 0)
  | _ => do
    printErr ("Usage: " ++ programName ++ " <patch_file> <file1> [file2] ...\n")
    printErr "Applies patch to multiple files in-place\n"
    pure 1

/-- A turn, read off the way its call comes back. -/
theorem patchFile_apply (env : Environment) (patchPath filePath : Path) (counts : Counts)
    (p : Process) :
    patchFile env patchPath filePath counts p
      = match applyPatchInplace env patchPath filePath batchOptions p.world with
        | (.ok (), world) => (.ok { counts with successCount := counts.successCount + 1 },
            { p with world, out := p.out ++ ("Patching: " ++ filePath ++ "... ") ++ "OK\n" })
        | (.error e, world) => (.ok { counts with failureCount := counts.failureCount + 1 },
            { world, out := p.out ++ ("Patching: " ++ filePath ++ "... ") ++ "FAILED\n"
              err := p.err ++ ("  Error: " ++ e.message ++ "\n") })
        | (.throws thrown, world) => (.throws thrown,
            { p with world, out := p.out ++ ("Patching: " ++ filePath ++ "... ") }) := by
  rw [patchFile, printOut_bind, call_bind]
  rcases applyPatchInplace env patchPath filePath batchOptions p.world with ⟨_ | _ | _, world⟩ <;> rfl

/-! ### A batch as its turns -/

/-- A turn: the call made for the file at an argument's position. -/
def turnStep (env : Nat → Environment) (patchPath : Path) (turn : Nat × Path) (world : World)
    (answer : Call Unit) (world' : World) : Prop :=
  applyPatchInplace (env turn.1) patchPath turn.2 batchOptions world = (answer, world')

/-- The paths a turn may change. -/
def turnWrites (turn : Nat × Path) : Set Path := inplacePaths turn.2 batchOptions

/-- The paths a turn looks at. -/
def turnReads (patchPath : Path) (turn : Nat × Path) : Set Path :=
  insert patchPath (inplacePaths turn.2 batchOptions)

/-- The turns for files from argument `i` on. -/
def turnsOf : Nat → List Path → List (Nat × Path)
  | _, [] => []
  | i, filePath :: filePaths => (i, filePath) :: turnsOf (i + 1) filePaths

variable {env : Nat → Environment} {patchPath : Path}

/-- **The turns of a batch stay within their paths.** -/
theorem local_turnStep :
    Footprint.Local (turnStep env patchPath) World.files (turnReads patchPath) turnWrites where
  frame := by
    rintro ⟨i, filePath⟩ world answer world' hstep path hpath
    have hwithin := within_applyPatchInplace (env i) patchPath filePath batchOptions world
    rw [turnStep] at hstep
    rw [hstep] at hwithin
    exact hwithin path hpath
  locality := by
    rintro ⟨i, filePath⟩ world answer world' hstep other hsame
    have hrespects : (applyPatchInplace (env i) patchPath filePath batchOptions).Respects
        (SameWithin (env i) (turnReads patchPath (i, filePath))) :=
      respects_applyPatchInplace filePath batchOptions (.inl rfl) (.inr (.inl rfl))
    -- the other file system is given the read counter of this one, so that the same reads fail
    have hboth : SameWithin (env i) (turnReads patchPath (i, filePath)) world
        { other with reads := world.reads } := ⟨hsame.symm, fun _ => rfl, fun _ => rfl⟩
    obtain ⟨hanswer, hafter⟩ := hrespects _ _ hboth
    rw [turnStep] at hstep
    rw [hstep] at hanswer hafter
    refine ⟨{ other with reads := world.reads },
      (applyPatchInplace (env i) patchPath filePath batchOptions
        { other with reads := world.reads }).2, rfl, ?_, fun path hpath => ?_⟩
    · exact Prod.ext hanswer.symm rfl
    · exact (hafter.files (.inr hpath)).symm

/-- How the loop goes through the turns still to come: each one succeeds or fails and is counted, until
there is none left or an exception leaves one. -/
inductive Goes : List (Nat × Path) → List ((Nat × Path) × Call Unit) → Counts →
    Outcome Empty StdException Counts → Prop
  | done (counts : Counts) : Goes [] [] counts (.ok counts)
  | succeeded {turn later turns counts outcome}
      (rest : Goes later turns { counts with successCount := counts.successCount + 1 } outcome) :
      Goes (turn :: later) ((turn, .ok ()) :: turns) counts outcome
  | failed {turn later turns counts outcome} (e : ErrorInfo)
      (rest : Goes later turns { counts with failureCount := counts.failureCount + 1 } outcome) :
      Goes (turn :: later) ((turn, .error e) :: turns) counts outcome
  | threw {turn later counts} (thrown : StdException) :
      Goes (turn :: later) [(turn, .throws thrown)] counts (.throws thrown)

/-- **The loop is a serial run of its turns.** -/
theorem patchFiles_run (env : Nat → Environment) (patchPath : Path) (i : Nat) (filePaths : List Path)
    (counts : Counts) (p : Process) :
    ∃ turns, Footprint.Serial (turnStep env patchPath) turns p.world
        (patchFiles env patchPath i filePaths counts p).2.world ∧
      Goes (turnsOf i filePaths) turns counts (patchFiles env patchPath i filePaths counts p).1 := by
  induction filePaths generalizing i counts p with
  | nil => exact ⟨[], .nil _, .done counts⟩
  | cons filePath filePaths ih =>
    rw [patchFiles, Effect.bind_apply, patchFile_apply]
    rcases hturn : applyPatchInplace (env i) patchPath filePath batchOptions p.world with
      ⟨answer, world⟩
    cases answer with
    | throws thrown =>
      refine ⟨[((i, filePath), .throws thrown)], .cons ?_ (.nil _), .threw thrown⟩
      exact hturn
    | error e =>
      obtain ⟨turns, hserial, hgoes⟩ := ih (i + 1)
        { counts with failureCount := counts.failureCount + 1 }
        { world, out := p.out ++ ("Patching: " ++ filePath ++ "... ") ++ "FAILED\n"
          err := p.err ++ ("  Error: " ++ e.message ++ "\n") }
      exact ⟨((i, filePath), .error e) :: turns, .cons hturn hserial, .failed e hgoes⟩
    | ok done =>
      obtain ⟨turns, hserial, hgoes⟩ := ih (i + 1)
        { counts with successCount := counts.successCount + 1 }
        { p with world, out := p.out ++ ("Patching: " ++ filePath ++ "... ") ++ "OK\n" }
      exact ⟨((i, filePath), .ok ()) :: turns, .cons hturn hserial, .succeeded hgoes⟩

/-- The turns taken are the first ones of those to come. -/
theorem Goes.isPrefix {later turns counts outcome} (h : Goes later turns counts outcome) :
    (turns.map Prod.fst).IsPrefix later := by
  induction h with
  | done => exact List.prefix_rfl
  | succeeded _ ih => exact (List.prefix_cons_inj _).mpr ih
  | failed _ _ ih => exact (List.prefix_cons_inj _).mpr ih
  | threw => exact ⟨_, rfl⟩

/-- A loop that comes to its end has taken all turns, and counted them. -/
theorem Goes.of_ok {later turns counts counts'} (h : Goes later turns counts (.ok counts')) :
    turns.map Prod.fst = later ∧ (∀ turn ∈ turns, turn.2.Returns) ∧
      counts'.successCount = counts.successCount + turns.countP (fun turn => turn.2 = .ok ()) ∧
      counts'.failureCount = counts.failureCount + turns.countP (fun turn => turn.2 ≠ .ok ()) := by
  generalize houtcome : (.ok counts' : Outcome Empty StdException Counts) = outcome at h
  induction h with
  | done => cases houtcome; simp
  | threw => cases houtcome
  | succeeded rest ih =>
    obtain ⟨hturns, hreturns, hsuccess, hfailure⟩ := ih houtcome
    refine ⟨by rw [List.map_cons, hturns], ?_, ?_, ?_⟩
    · exact List.forall_mem_cons.mpr ⟨Outcome.returns_ok (), hreturns⟩
    · rw [hsuccess, List.countP_cons_of_pos (by simp)]; dsimp only; omega
    · rw [hfailure, List.countP_cons_of_neg (by simp)]
  | failed e rest ih =>
    obtain ⟨hturns, hreturns, hsuccess, hfailure⟩ := ih houtcome
    refine ⟨by rw [List.map_cons, hturns], ?_, ?_, ?_⟩
    · exact List.forall_mem_cons.mpr ⟨Outcome.returns_error e, hreturns⟩
    · rw [hsuccess, List.countP_cons_of_neg (by simp)]
    · rw [hfailure, List.countP_cons_of_pos (by simp)]; dsimp only; omega

/-- A loop that an exception ends has thrown it in its last turn. -/
theorem Goes.of_throws {later turns counts thrown} (h : Goes later turns counts (.throws thrown)) :
    ∃ turn ∈ turns, turn.2 = .throws thrown := by
  generalize houtcome : (.throws thrown : Outcome Empty StdException Counts) = outcome at h
  induction h with
  | done => cases houtcome
  | threw => cases houtcome; exact ⟨_, List.mem_singleton_self _, rfl⟩
  | succeeded _ ih =>
    obtain ⟨turn, hturn, hthrows⟩ := ih houtcome
    exact ⟨turn, List.mem_cons_of_mem _ hturn, hthrows⟩
  | failed _ _ ih =>
    obtain ⟨turn, hturn, hthrows⟩ := ih houtcome
    exact ⟨turn, List.mem_cons_of_mem _ hturn, hthrows⟩

/-- **A whole batch is a serial run of its turns**: of some of them in order, and of all of them if it
comes to its exit code, which is zero if they all succeed and else one. -/
theorem main_run (env : Nat → Environment) (programName : String) (patchPath filePath : Path)
    (filePaths : List Path) (p : Process) :
    let run := main env programName (patchPath :: filePath :: filePaths) p
    let items := turnsOf 2 (filePath :: filePaths)
    ∃ turns, Footprint.Serial (turnStep env patchPath) turns p.world run.2.world ∧
      (turns.map Prod.fst).IsPrefix items ∧
      match run.1 with
      | .ok code => turns.map Prod.fst = items ∧ (∀ turn ∈ turns, turn.2.Returns) ∧
          code = (if ∀ turn ∈ turns, turn.2 = .ok () then 0 else 1) ∧
          ∃ lines, run.2.out = lines ++ "\nResults: "
            ++ toString (turns.countP fun turn => turn.2 = .ok ()) ++ " succeeded, "
            ++ toString (turns.countP fun turn => turn.2 ≠ .ok ()) ++ " failed\n"
      | .error _ => False
      | .throws thrown => ∃ turn ∈ turns, turn.2 = .throws thrown := by
  intro run items
  have hrun : run = main env programName (patchPath :: filePath :: filePaths) p := rfl
  obtain ⟨turns, hserial, hgoes⟩ :=
    patchFiles_run env patchPath 2 (filePath :: filePaths) {} p
  rw [main, Effect.bind_apply] at hrun
  rcases hloop : patchFiles env patchPath 2 (filePath :: filePaths) {} p with ⟨outcome, p'⟩
  rw [hloop] at hserial hgoes hrun
  rw [hrun]
  cases outcome with
  | error e => exact e.elim
  | throws thrown => exact ⟨turns, hserial, hgoes.isPrefix, hgoes.of_throws⟩
  | ok counts =>
    obtain ⟨hturns, hreturns, hsuccess, hfailure⟩ := hgoes.of_ok
    refine ⟨turns, hserial, hgoes.isPrefix, hturns, hreturns, ?_, p'.out, ?_⟩
    -- the exit code asks for failures by their number
    · have hnone : turns.countP (fun turn => turn.2 ≠ .ok ()) = 0 ↔ ∀ turn ∈ turns, turn.2 = .ok () := by
        rw [List.countP_eq_zero]
        simp
      rw [show ({} : Counts).failureCount = 0 from rfl, Nat.zero_add] at hfailure
      simp only [← hnone, ← hfailure]
      split <;> split <;> omega
    · rw [show ({} : Counts).failureCount = 0 from rfl, Nat.zero_add] at hfailure
      rw [show ({} : Counts).successCount = 0 from rfl, Nat.zero_add] at hsuccess
      rw [← hsuccess, ← hfailure]
      simp [String.append_assoc]

/-! ### Which files get in each other's way -/

/-- No file is listed twice, and none is the backup or the temporary file of a listed one. -/
def SafeToBatch (filePaths : List Path) : Prop :=
  filePaths.Nodup ∧
    ∀ filePath ∈ filePaths, filePath ++ ".bak" ∉ filePaths ∧ tempPath filePath ∉ filePaths

instance (filePaths : List Path) : Decidable (SafeToBatch filePaths) :=
  inferInstanceAs (Decidable (_ ∧ _))

/-- A backup is never a temporary file. -/
theorem backup_ne_temp (filePath other : Path) : filePath ++ ".bak" ≠ tempPath other := by
  intro h
  -- the one ends in `k`, the other in `p`
  have hlast := congrArg (fun s => s.toList.getLast?) h
  simp [tempPath] at hlast

/-- Two files that are listed safely share no path. -/
theorem SafeToBatch.disjoint {filePaths : List Path} (h : SafeToBatch filePaths) {filePath other : Path}
    (hfile : filePath ∈ filePaths) (hother : other ∈ filePaths) (hne : filePath ≠ other) (i j : Nat) :
    Disjoint (turnWrites (i, filePath)) (turnWrites (j, other)) := by
  obtain ⟨hbackup, htemp⟩ := h.2 filePath hfile
  obtain ⟨hbackup', htemp'⟩ := h.2 other hother
  rw [Set.disjoint_left]
  -- file, backup and temporary file of the one against those of the other
  rintro path (rfl | rfl | rfl) (hpath | hpath | hpath)
  · exact hne hpath
  · exact hbackup' (hpath ▸ hfile)
  · exact htemp' (hpath ▸ hfile)
  · exact hbackup (hpath ▸ hother)
  · exact hne ((String.append_left_inj ".bak").mp hpath)
  · exact backup_ne_temp filePath other hpath
  · exact htemp (hpath ▸ hother)
  · exact backup_ne_temp other filePath hpath.symm
  · exact hne ((String.append_left_inj ".tmp").mp hpath)

/-- The files of the turns, in order. -/
theorem map_snd_turnsOf (i : Nat) (filePaths : List Path) :
    (turnsOf i filePaths).map Prod.snd = filePaths := by
  induction filePaths generalizing i with
  | nil => rfl
  | cons filePath filePaths ih => rw [turnsOf, List.map_cons, ih]

/-- A file is not its own backup. -/
theorem ne_backup (filePath : Path) : filePath ≠ filePath ++ ".bak" := by
  intro h
  have hlength := congrArg String.length h
  rw [String.length_append] at hlength
  simp at hlength

/-! ### Originals -/

/-- A turn, however it goes, leaves the file as it was or its backup as the file was. -/
theorem turn_keepsOriginal {turn : Nat × Path} {world world' : World} {answer : Call Unit}
    (hstep : turnStep env patchPath turn world answer world') :
    world'.files turn.2 = world.files turn.2 ∨
      world'.files (turn.2 ++ ".bak") = world.files turn.2 := by
  obtain ⟨i, filePath⟩ := turn
  have hrun : applyPatchInplace (env i) patchPath filePath batchOptions world = (answer, world') := hstep
  rcases applyPatchInplace_cases (env i) patchPath filePath batchOptions world with
    ⟨-, -, hfiles⟩ | ⟨-, hrest⟩
  · left
    rw [hrun] at hfiles
    exact hfiles filePath fun hbackup => ne_backup filePath hbackup.2
  · right
    -- behind the backup, only the file and the temporary file change
    have hwithin := within_applyAndRename (K := {filePath, tempPath filePath}) (env i) patchPath filePath
      batchOptions (.inl rfl) (.inr rfl)
      { world with files := backedUp filePath batchOptions world.files }
    rw [hrun] at hrest
    rw [← hrest] at hwithin
    have hother : filePath ++ ".bak" ∉ ({filePath, tempPath filePath} : Set Path) := by
      rintro (hfile | htemp)
      · exact ne_backup filePath hfile.symm
      · exact backup_ne_temp filePath filePath htemp
    have hkept := hwithin _ hother
    exact hkept.trans (Function.update_self ..)

/-- **A safe batch loses no original**, however its turns go and wherever it ends. -/
theorem originals_of_safe {filePaths : List Path} (hsafe : SafeToBatch filePaths)
    {turns : List ((Nat × Path) × Call Unit)} {world world' : World}
    (hrun : Footprint.Serial (turnStep env patchPath) turns world world')
    (hitems : (turns.map Prod.fst).IsPrefix (turnsOf 2 filePaths)) {filePath : Path}
    (hfile : filePath ∈ filePaths) :
    world'.files filePath = world.files filePath ∨
      world'.files (filePath ++ ".bak") = world.files filePath := by
  have hpaths : ((turns.map Prod.fst).map Prod.snd).IsPrefix filePaths := by
    have := hitems.map Prod.snd
    rwa [map_snd_turnsOf] at this
  have hnodup := hsafe.1.sublist hpaths.sublist
  have hlisted : ∀ turn ∈ turns, turn.1.2 ∈ filePaths := fun turn hturn =>
    hpaths.subset (List.mem_map_of_mem (List.mem_map_of_mem hturn))
  -- the turns of the other files leave this one and its backup alone
  have hothers : ∀ turn ∈ turns, turn.1.2 ≠ filePath →
      filePath ∉ turnWrites turn.1 ∧ filePath ++ ".bak" ∉ turnWrites turn.1 := by
    intro turn hturn hne
    have hdisjoint := hsafe.disjoint hfile (hlisted turn hturn) hne.symm 0 turn.1.1
    exact ⟨Set.disjoint_left.mp hdisjoint (.inl rfl), Set.disjoint_left.mp hdisjoint (.inr (.inl rfl))⟩
  by_cases htaken : ∃ turn ∈ turns, turn.1.2 = filePath
  · obtain ⟨turn, hturn, rfl⟩ := htaken
    -- the file's one turn, between those of others
    obtain ⟨before, after, rfl⟩ := List.append_of_mem hturn
    obtain ⟨world₁, hbefore, hrest⟩ := Footprint.serial_append_iff.mp hrun
    obtain ⟨world₂, hstep, hafter⟩ := Footprint.serial_cons_iff.mp hrest
    simp only [List.map_append, List.map_cons, List.nodup_append, List.nodup_cons] at hnodup
    obtain ⟨-, ⟨hnotAfter, -⟩, hnotBefore⟩ := hnodup
    have hbeforeNe : ∀ other ∈ before, other.1.2 ≠ turn.1.2 := fun other hother =>
      hnotBefore _ (List.mem_map_of_mem (List.mem_map_of_mem hother)) _ List.mem_cons_self
    have hafterNe : ∀ other ∈ after, other.1.2 ≠ turn.1.2 := fun other hother hsame =>
      hnotAfter (hsame ▸ List.mem_map_of_mem (List.mem_map_of_mem hother))
    have hstart : world₁.files turn.1.2 = world.files turn.1.2 :=
      hbefore.frame local_turnStep fun other hother =>
        (hothers other (List.mem_append_left _ hother) (hbeforeNe other hother)).1
    have hend := fun other hother => hothers other
      (List.mem_append_right _ (List.mem_cons_of_mem _ hother)) (hafterNe other hother)
    rcases turn_keepsOriginal hstep with hkept | hbackup
    · left
      rw [hafter.frame local_turnStep fun other hother => (hend other hother).1, hkept, hstart]
    · right
      rw [hafter.frame local_turnStep fun other hother => (hend other hother).2, hbackup, hstart]
  · left
    exact hrun.frame local_turnStep fun turn hturn =>
      (hothers turn hturn fun hsame => htaken ⟨turn, hturn, hsame⟩).1

/-! ### What an unsafe batch can lose -/

/-- A turn whose backup cannot be made. -/
def idle : Environment := { copyFault := some none }

/-- A turn that cannot open the patch. -/
def unreadable : Environment := { openFails := fun _ => true }

/-- A turn whose backup cannot be made changes nothing. -/
theorem idle_turn (patchPath filePath : Path) (world : World) :
    ∃ e, applyPatchInplace idle patchPath filePath batchOptions world = (.error e, world) := by
  -- copying fails whether the file is there or not
  have hcopy : ∀ target, copyFile idle filePath target world
      = (.throws (.filesystemError ""), world) := by
    intro target
    rw [copyFile]
    cases world.files filePath with
    | none => rfl
    | some data =>
      dsimp only
      split <;> rfl
  have hbackup : createBackup idle filePath batchOptions world
      = (.error { code := .fileWriteError, message := "Failed to create backup: " ++ "" }, world) := by
    rw [createBackup, if_neg (by decide), Effect.bind_apply, catchFilesystemError, hcopy]
  refine ⟨{ code := .fileWriteError, message := "Failed to create backup: " ++ "" }, ?_⟩
  rw [applyPatchInplace, if_pos createBackup_batchOptions, Effect.bind_apply, hbackup]

/-- A turn that cannot open the patch makes the backup and clears the temporary path. -/
theorem unreadable_turn (patchPath : Path) {filePath : Path} {world : World} {data : Bytes}
    (hfile : world.files filePath = some data) :
    ∃ e world', applyPatchInplace unreadable patchPath filePath batchOptions world = (.error e, world') ∧
      world'.files = Function.update (Function.update world.files (filePath ++ ".bak") (some data))
        (tempPath filePath) none := by
  have hmade : ∀ files n, produced unreadable files n patchPath filePath batchOptions
      = .error (cannotOpenError patchPath) := by
    intro files n
    rw [produced, readOutcome]
    cases files patchPath <;> rfl
  rcases applyPatchInplace_cases unreadable patchPath filePath batchOptions world with
    ⟨⟨-, hnone | hsame | hfault⟩, -, -⟩ | ⟨-, hrun⟩
  · rw [hfile] at hnone; cases hnone
  · exact absurd hsame (ne_backup filePath)
  · cases hfault
  · have hbacked : backedUp filePath batchOptions world.files
        = Function.update world.files (filePath ++ ".bak") (some data) := by
      rw [backedUp, if_pos createBackup_batchOptions, hfile]
      rfl
    have hcases := applyAndRename_cases unreadable patchPath filePath batchOptions
      { world with files := backedUp filePath batchOptions world.files }
    rw [← hrun] at hcases
    -- of the ways `apply_patch` can go, only its error is left
    rcases hcases with ⟨⟨thrown, hthrows⟩ | ⟨-, hremove⟩, -⟩ | ⟨-, -, ⟨e, he⟩, hfiles⟩
        | ⟨T, hT, -⟩ | ⟨T, hT, -⟩
    · rw [hmade] at hthrows; cases hthrows
    · cases hremove
    · rw [hbacked] at hfiles
      exact ⟨e, _, Prod.ext he rfl, hfiles⟩
    · rw [hmade] at hT; cases hT
    · rw [hmade] at hT; cases hT

/-- A patch that changes the first byte of what it is applied to. -/
def firstByte : Bytes := ipsMagic ++ [0, 0, 0, 0, 1, 0x51] ++ ipsEof

/-- The file system that holds that patch at every path. -/
def patchEverywhere : World := { files := fun _ => some firstByte }

/-- What the patch makes of itself. -/
def patchedPatch : Bytes := 0x51 :: firstByte.tail

/-- A turn without failures where every path holds the patch. -/
theorem faultless_turn (patchPath filePath : Path) :
    ∃ world', applyPatchInplace {} patchPath filePath batchOptions patchEverywhere = (.ok (), world') ∧
      world'.files = Function.update (Function.update (fun _ => some firstByte) (tempPath filePath) none)
        filePath (some patchedPatch) := by
  have hpatched : (loadPatchFromMemory firstByte >>= fun patch => patch.apply firstByte batchOptions)
      = .ok patchedPatch := by
    decide +kernel
  have hbacked : backedUp filePath batchOptions patchEverywhere.files = fun _ => some firstByte := by
    funext path
    rw [backedUp, if_pos createBackup_batchOptions]
    by_cases hpath : path = filePath ++ batchOptions.backupSuffix
    · rw [hpath, Function.update_self]; rfl
    · rw [Function.update_of_ne hpath]; rfl
  have hmade : ∀ n, produced {} (fun _ => some firstByte) n patchPath filePath batchOptions
      = .ok patchedPatch := by
    intro n
    rw [produced, readOutcome_faultless rfl, Outcome.ofExcept_ok, Outcome.ok_bind]
    have hread : readOutcome {} (fun _ => some firstByte) (n + 1) filePath = .ok firstByte :=
      readOutcome_faultless rfl (n + 1)
    simp only [hread]
    exact hpatched
  rcases applyPatchInplace_cases {} patchPath filePath batchOptions patchEverywhere with
    ⟨⟨-, hnone | hsame | hfault⟩, -, -⟩ | ⟨-, hrun⟩
  · cases hnone
  · exact absurd hsame (ne_backup filePath)
  · cases hfault
  · have hcases := applyAndRename_cases {} patchPath filePath batchOptions
      { patchEverywhere with files := backedUp filePath batchOptions patchEverywhere.files }
    rw [← hrun, hbacked] at hcases
    -- of the ways the call can go, only success is left
    rcases hcases with ⟨⟨thrown, hthrows⟩ | ⟨-, hremove⟩, -⟩ | ⟨⟨e, he⟩ | ⟨-, hwrite⟩, -⟩
        | ⟨T, -, -, hrename, -⟩ | ⟨T, hT, -, -, hok, hfiles⟩
    · rw [hmade] at hthrows; cases hthrows
    · cases hremove
    · rw [hmade] at he; cases he
    · exact absurd hwrite (by decide)
    · cases hrename
    · rw [hmade] at hT
      cases hT
      exact ⟨_, Prod.ext hok rfl, hfiles⟩

/-- A turn that comes back hands the file system it leaves on to the turns behind it. -/
theorem patchFiles_step {i : Nat} {filePath : Path} {p : Process} {answer : Call Unit} {world : World}
    (hturn : applyPatchInplace (env i) patchPath filePath batchOptions p.world = (answer, world))
    (hreturns : answer.Returns) (later : List Path) (counts : Counts) :
    ∃ counts' p', p'.world = world ∧ patchFiles env patchPath i (filePath :: later) counts p
      = patchFiles env patchPath (i + 1) later counts' p' := by
  rw [patchFiles, Effect.bind_apply, patchFile_apply, hturn]
  cases answer with
  | throws thrown => exact absurd hreturns (Outcome.not_returns_throws thrown)
  | error e => exact ⟨_, _, rfl, rfl⟩
  | ok done => exact ⟨_, _, rfl, rfl⟩

/-- Idle turns leave the file system as it is. -/
theorem patchFiles_idle (env : Nat → Environment) (patchPath : Path) (i : Nat) (filePaths : List Path)
    (hidle : ∀ k, i ≤ k → k < i + filePaths.length → env k = idle) (later : List Path)
    (counts : Counts) (p : Process) :
    ∃ counts' p', p'.world = p.world ∧ patchFiles env patchPath i (filePaths ++ later) counts p
      = patchFiles env patchPath (i + filePaths.length) later counts' p' := by
  induction filePaths generalizing i counts p with
  | nil => exact ⟨counts, p, rfl, rfl⟩
  | cons filePath filePaths ih =>
    rw [List.length_cons] at hidle ⊢
    obtain ⟨e, hturn⟩ := idle_turn patchPath filePath p.world
    rw [← hidle i le_rfl (by omega)] at hturn
    obtain ⟨counts₁, p₁, hworld₁, hstep⟩ :=
      patchFiles_step hturn (Outcome.returns_error e) (filePaths ++ later) counts
    obtain ⟨counts₂, p₂, hworld₂, hrest⟩ :=
      ih (i := i + 1) (fun k hk hlt => hidle k (by omega) (by omega)) counts₁ p₁
    have hindex : i + 1 + filePaths.length = i + (filePaths.length + 1) := by omega
    refine ⟨counts₂, p₂, hworld₂.trans hworld₁, ?_⟩
    rw [List.cons_append, hstep, hrest, hindex]

/-- The first turn that is not idle. -/
theorem patchFiles_first (env : Nat → Environment) (i : Nat) (before : List Path) {filePath : Path}
    {p : Process} {answer : Call Unit} {world : World}
    (hidle : ∀ k, i ≤ k → k < i + before.length → env k = idle)
    (hturn : applyPatchInplace (env (i + before.length)) patchPath filePath batchOptions p.world
      = (answer, world)) (hreturns : answer.Returns) (later : List Path) (counts : Counts) :
    ∃ counts' p', p'.world = world ∧
      patchFiles env patchPath i (before ++ filePath :: later) counts p
        = patchFiles env patchPath (i + before.length + 1) later counts' p' := by
  obtain ⟨counts₁, p₁, hworld₁, hbefore⟩ :=
    patchFiles_idle env patchPath i before hidle (filePath :: later) counts p
  rw [← hworld₁] at hturn
  obtain ⟨counts₂, p₂, hworld₂, hstep⟩ := patchFiles_step hturn hreturns later counts₁
  exact ⟨counts₂, p₂, hworld₂, hbefore.trans hstep⟩

/-- A batch leaves the file system that its loop leaves. -/
theorem world_main (programName : String) {filePaths : List Path} (hfiles : filePaths ≠ [])
    (p : Process) :
    (main env programName (patchPath :: filePaths) p).2.world
      = (patchFiles env patchPath 2 filePaths {} p).2.world := by
  cases filePaths with
  | nil => exact absurd rfl hfiles
  | cons filePath filePaths =>
    rw [main, Effect.bind_apply]
    rcases patchFiles env patchPath 2 (filePath :: filePaths) {} p with ⟨counts | e | thrown, p'⟩
    · rfl
    · exact e.elim
    · rfl

/-- One turn that is not idle, in a batch of idle ones. -/
theorem world_main_single (programName : String) (before : List Path) (filePath : Path)
    (later : List Path) {only : Environment} {p : Process} {answer : Call Unit} {world : World}
    (hturn : applyPatchInplace only patchPath filePath batchOptions p.world = (answer, world))
    (hreturns : answer.Returns) :
    (main (Function.update (fun _ => idle) (2 + before.length) only) programName
      (patchPath :: (before ++ filePath :: later)) p).2.world = world := by
  rw [world_main programName (by simp)]
  -- the arguments are counted from the program's name, so files begin at 2
  set env := Function.update (fun _ : Nat => idle) (2 + before.length) only with henv
  have hidle : ∀ k, k ≠ 2 + before.length → env k = idle :=
    fun k hk => Function.update_of_ne hk _ _
  obtain ⟨counts, p₁, hworld₁, hfirst⟩ := patchFiles_first env 2 before
    (fun k _ hk => hidle k (by omega)) (by rw [henv, Function.update_self]; exact hturn) hreturns
    later {}
  obtain ⟨counts', p₂, hworld₂, hrest⟩ := patchFiles_idle env patchPath (2 + before.length + 1) later
    (fun k hk _ => hidle k (by omega)) [] counts p₁
  rw [List.append_nil] at hrest
  rw [hfirst, hrest]
  exact hworld₂.trans hworld₁

/-- A batch with a file listed twice: the second backup overwrites the first one. -/
theorem loses_duplicate (programName : String) (patchPath filePath : Path)
    (before middle later : List Path) :
    ∃ (env : Nat → Environment), let after := (main env programName
        (patchPath :: (before ++ filePath :: (middle ++ filePath :: later)))
        { world := patchEverywhere }).2.world.files
      after filePath = some patchedPatch ∧ after (filePath ++ ".bak") = some patchedPatch := by
  have hindex : 2 + before.length ≠ 2 + before.length + 1 + middle.length := by omega
  let env : Nat → Environment := fun k =>
    if k = 2 + before.length then {}
    else if k = 2 + before.length + 1 + middle.length then unreadable else idle
  have hidle : ∀ k, k ≠ 2 + before.length → k ≠ 2 + before.length + 1 + middle.length →
      env k = idle := fun k hk hk' => by simp only [env, if_neg hk, if_neg hk']
  have hfirstEnv : env (2 + before.length) = {} := if_pos rfl
  have hsecondEnv : env (2 + before.length + 1 + middle.length) = unreadable := by
    simp only [env, if_neg hindex.symm, if_true]
  -- the first turn of the file patches it, the second one fails behind its backup
  obtain ⟨world₁, hturn₁, hfiles₁⟩ := faultless_turn patchPath filePath
  have hthere : world₁.files filePath = some patchedPatch := by rw [hfiles₁, Function.update_self]
  obtain ⟨e, world₂, hturn₂, hfiles₂⟩ := unreadable_turn patchPath hthere
  obtain ⟨counts₁, p₁, hworld₁, hfirst⟩ := patchFiles_first env 2 before
    (p := { world := patchEverywhere }) (fun k _ hk => hidle k (by omega) (by omega))
    (by rw [hfirstEnv]; exact hturn₁) (Outcome.returns_ok ()) (middle ++ filePath :: later) {}
  obtain ⟨counts₂, p₂, hworld₂, hsecond⟩ := patchFiles_first env (2 + before.length + 1) middle
    (p := p₁) (fun k _ hk => hidle k (by omega) (by omega))
    (by rw [hsecondEnv, hworld₁]; exact hturn₂) (Outcome.returns_error e) later counts₁
  obtain ⟨counts₃, p₃, hworld₃, hrest⟩ := patchFiles_idle env patchPath
    (2 + before.length + 1 + middle.length + 1) later
    (fun k hk _ => hidle k (by omega) (by omega)) [] counts₂ p₂
  rw [List.append_nil] at hrest
  refine ⟨env, ?_⟩
  rw [world_main programName (by simp), hfirst, hsecond, hrest, patchFiles]
  dsimp only [Effect.pure_apply]
  rw [hworld₃, hworld₂, hfiles₂]
  constructor
  · rw [Function.update_of_ne (tempPath_ne filePath).symm, Function.update_of_ne (ne_backup filePath),
      hthere]
  · rw [Function.update_of_ne (backup_ne_temp filePath filePath), Function.update_self]

/-- A batch with a file and its own backup or temporary file: the file's turn overwrites or removes the
other one before that is backed up. -/
theorem loses_own (programName : String) (patchPath filePath other : Path)
    (hother : other = filePath ++ ".bak" ∨ other = tempPath filePath) (before later : List Path) :
    ∃ (env : Nat → Environment), let after := (main env programName
        (patchPath :: (before ++ filePath :: later))
        { world := patchEverywhere.put other [] }).2.world.files
      after other ≠ some [] ∧ after (other ++ ".bak") ≠ some [] := by
  have hne : filePath ≠ other := by
    rcases hother with rfl | rfl
    · exact ne_backup filePath
    · exact (tempPath_ne filePath).symm
  have hbackup : other ++ ".bak" ≠ other := (ne_backup other).symm
  have hthere : ∀ path, path ≠ other →
      (patchEverywhere.put other []).files path = some firstByte :=
    fun path hpath => Function.update_of_ne hpath _ _
  obtain ⟨e, world, hturn, hfiles⟩ := unreadable_turn patchPath (hthere filePath hne)
  refine ⟨Function.update (fun _ => idle) (2 + before.length) unreadable, ?_⟩
  rw [world_main_single programName before filePath later (p := { world := patchEverywhere.put other [] })
    hturn (Outcome.returns_error e), hfiles]
  have hkept : Function.update (Function.update (patchEverywhere.put other []).files
      (filePath ++ ".bak") (some firstByte)) (tempPath filePath) none (other ++ ".bak")
        = some firstByte := by
    rw [Function.update_of_ne (backup_ne_temp other filePath)]
    by_cases hsame : other ++ ".bak" = filePath ++ ".bak"
    · rw [hsame, Function.update_self]
    · rw [Function.update_of_ne hsame, hthere _ hbackup]
  constructor
  · rcases hother with rfl | rfl
    · rw [Function.update_of_ne (backup_ne_temp filePath filePath), Function.update_self]
      decide
    · rw [Function.update_self]
      exact fun h => by cases h
  · rw [hkept]
    decide

/-- **Which batches lose no original.** Whatever fails and wherever the batch ends, each listed file that
was there is afterwards at its own path or at its backup's as it was, exactly if no file is listed twice
and none is the backup or the temporary file of a listed one. -/
theorem keepsOriginals_iff (programName : String) (patchPath : Path) (filePaths : List Path) :
    (∀ (env : Nat → Environment) (p : Process), ∀ filePath ∈ filePaths, ∀ data,
      p.world.files filePath = some data →
        let after := (main env programName (patchPath :: filePaths) p).2.world.files
        after filePath = some data ∨ after (filePath ++ ".bak") = some data) ↔
      SafeToBatch filePaths := by
  constructor
  · intro hkeeps
    refine ⟨?_, fun filePath hfile => ?_⟩
    -- a file listed twice loses its original, in the two turns of it
    · by_contra hdup
      rw [List.nodup_iff_sublist] at hdup
      simp only [not_forall, not_not] at hdup
      obtain ⟨filePath, htwice⟩ := hdup
      obtain ⟨front, back, rfl, hfront, hback⟩ := List.cons_sublist_iff.mp htwice
      obtain ⟨before, middle, rfl⟩ := List.append_of_mem hfront
      obtain ⟨middle', later, rfl⟩ := List.append_of_mem (List.singleton_sublist.mp hback)
      obtain ⟨env, hfile, hbackup⟩ :=
        loses_duplicate programName patchPath filePath before (middle ++ middle') later
      have hlost := hkeeps env { world := patchEverywhere } filePath (by simp) firstByte rfl
      simp only [List.append_assoc, List.cons_append] at hfile hbackup hlost
      rw [hfile, hbackup] at hlost
      exact absurd hlost (by decide)
    -- as does a listed file that the turn of another one overwrites or removes
    · have hboth : ∀ other, other = filePath ++ ".bak" ∨ other = tempPath filePath →
          other ∉ filePaths := by
        intro other hother hlisted
        obtain ⟨before, later, rfl⟩ := List.append_of_mem hfile
        obtain ⟨env, hgone, hbackup⟩ :=
          loses_own programName patchPath filePath other hother before later
        rcases hkeeps env { world := patchEverywhere.put other [] } other hlisted []
          (Function.update_self ..) with hkept | hkept
        · exact hgone hkept
        · exact hbackup hkept
      exact ⟨hboth _ (.inl rfl), hboth _ (.inr rfl)⟩
  · intro hsafe env p filePath hfile data hdata after
    cases filePaths with
    | nil => cases hfile
    | cons first others =>
      obtain ⟨turns, hrun, hitems, -⟩ := main_run env programName patchPath first others p
      rcases originals_of_safe hsafe hrun hitems hfile with hkept | hbackup
      · exact .inl (hkept.trans hdata)
      · exact .inr (hbackup.trans hdata)

/-! ### Each file as if alone -/

/-- The patch is none of the paths the batch may change. -/
def PatchApart (patchPath : Path) (filePaths : List Path) : Prop :=
  ∀ filePath ∈ filePaths, patchPath ∉ inplacePaths filePath batchOptions

/-- The turns of a safe batch are apart. -/
theorem pairwise_apart {filePaths : List Path} (hsafe : SafeToBatch filePaths)
    (hpatch : PatchApart patchPath filePaths) {turns : List ((Nat × Path) × Call Unit)}
    (hpaths : ((turns.map Prod.fst).map Prod.snd).IsPrefix filePaths) :
    turns.Pairwise fun turn later => Footprint.Apart (turnReads patchPath) turnWrites turn.1 later.1 := by
  have hnodup := hsafe.1.sublist hpaths.sublist
  rw [List.map_map, List.Nodup, List.pairwise_map] at hnodup
  have hlisted : ∀ turn ∈ turns, turn.1.2 ∈ filePaths := fun turn hturn =>
    hpaths.subset (List.mem_map_of_mem (List.mem_map_of_mem hturn))
  have hapart : ∀ turn ∈ turns, ∀ later ∈ turns, turn.1.2 ≠ later.1.2 →
      Disjoint (turnWrites turn.1) (turnReads patchPath later.1 ∪ turnWrites later.1) := by
    intro turn hturn later hlater hne
    have hdisjoint := hsafe.disjoint (hlisted turn hturn) (hlisted later hlater) hne turn.1.1 later.1.1
    -- a turn reads the patch and what it writes
    have hreads : turnReads patchPath later.1 ∪ turnWrites later.1
        = insert patchPath (turnWrites later.1) := by
      rw [turnReads, Set.insert_union, turnWrites, Set.union_self]
    rw [hreads, Set.disjoint_insert_right]
    exact ⟨hpatch turn.1.2 (hlisted turn hturn), hdisjoint⟩
  refine List.Pairwise.imp_of_mem ?_ hnodup
  intro turn later hturn hlater hne
  exact ⟨hapart turn hturn later hlater hne, hapart later hlater turn hturn (Ne.symm hne)⟩

/-- **A safe batch patches each file as if it were alone.** Whatever fails: no path but those of the
listed files changes; and if the batch comes to its exit code, each file's three paths hold what
patching that file alone, on the files the batch started from, leaves there; the exit code is zero
if all of these calls succeed and else one, and the totals it reports are theirs. -/
theorem eachAlone (env : Nat → Environment) (programName : String) (patchPath filePath : Path)
    (filePaths : List Path) (p : Process) (hsafe : SafeToBatch (filePath :: filePaths))
    (hpatch : PatchApart patchPath (filePath :: filePaths)) :
    let run := main env programName (patchPath :: filePath :: filePaths) p
    (∀ path, (∀ listed ∈ filePath :: filePaths, path ∉ inplacePaths listed batchOptions) →
      run.2.world.files path = p.world.files path) ∧
    ∀ code, run.1 = .ok code →
      ∃ turns : List ((Nat × Path) × Call Unit),
        turns.map Prod.fst = turnsOf 2 (filePath :: filePaths) ∧
        (∀ turn ∈ turns, ∃ n world',
          applyPatchInplace (env turn.1.1) patchPath turn.1.2 batchOptions
              { p.world with reads := n } = (turn.2, world') ∧
            Set.EqOn run.2.world.files world'.files (inplacePaths turn.1.2 batchOptions)) ∧
        code = (if ∀ turn ∈ turns, turn.2 = .ok () then 0 else 1) ∧
        ∃ lines, run.2.out = lines ++ "\nResults: "
            ++ toString (turns.countP fun turn => turn.2 = .ok ()) ++ " succeeded, "
            ++ toString (turns.countP fun turn => turn.2 ≠ .ok ()) ++ " failed\n" := by
  intro run
  obtain ⟨turns, hrun, hitems, hends⟩ := main_run env programName patchPath filePath filePaths p
  have hpaths : ((turns.map Prod.fst).map Prod.snd).IsPrefix (filePath :: filePaths) := by
    have := hitems.map Prod.snd
    rwa [map_snd_turnsOf] at this
  have hlisted : ∀ turn ∈ turns, turn.1.2 ∈ filePath :: filePaths := fun turn hturn =>
    hpaths.subset (List.mem_map_of_mem (List.mem_map_of_mem hturn))
  refine ⟨fun path hpath => ?_, fun code hcode => ?_⟩
  · exact hrun.frame local_turnStep fun turn hturn => hpath turn.1.2 (hlisted turn hturn)
  · have hcode' : (main env programName (patchPath :: filePath :: filePaths) p).1 = .ok code := hcode
    rw [hcode'] at hends
    obtain ⟨hall, -, hzero, hreport⟩ := hends
    refine ⟨turns, hall, fun turn hturn => ?_, hzero, hreport⟩
    obtain ⟨⟨files, n⟩, world', hfiles, hstep, hwrites⟩ :=
      hrun.exists_alone local_turnStep (pairwise_apart hsafe hpatch hpaths) hturn
    cases hfiles
    exact ⟨n, world', hstep, hwrites.symm⟩

/-- A patch and two files. -/
def twoFiles : World where
  files path := if path = "patch" then some firstByte else if path = "rom" then some [1]
    else if path = "save" then some [2, 3] else none

/-- Two files, the second of which cannot be backed up. -/
theorem eachAlone_twoFiles :
    ∃ turns : List ((Nat × Path) × Call Unit), turns.map Prod.fst = [(2, "rom"), (3, "save")] ∧
      1 = (if ∀ turn ∈ turns, turn.2 = .ok () then 0 else 1) := by
  have hbatch := eachAlone (Function.update (fun _ => {}) 3 idle) "batch" "patch" "rom" ["save"]
    { world := twoFiles } (by decide) (by unfold PatchApart; decide)
  obtain ⟨turns, hturns, -, hcode, -⟩ := hbatch.2 1 (by decide +kernel)
  exact ⟨turns, hturns, hcode⟩

/-! ### The order of the files -/

/-- Where the failures do not depend on the turn, neither does a step. -/
theorem serial_unindexed {env : Environment} {turns : List ((Nat × Path) × Call Unit)}
    {world world' : World}
    (h : Footprint.Serial (turnStep (fun _ => env) patchPath) turns world world') :
    Footprint.Serial (fun filePath => turnStep (fun _ => env) patchPath (0, filePath))
      (turns.map fun turn => (turn.1.2, turn.2)) world world' := by
  induction h with
  | nil => exact .nil _
  | cons first rest ih => exact .cons first ih

theorem local_turnFile {env : Environment} (patchPath : Path) :
    Footprint.Local (fun filePath => turnStep (fun _ => env) patchPath (0, filePath)) World.files
      (fun filePath => turnReads patchPath (0, filePath)) (fun filePath => turnWrites (0, filePath)) where
  frame := local_turnStep.frame
  locality := local_turnStep.locality

/-- Without failures, what a turn does depends on the files alone. -/
theorem functional_turnStep (patchPath : Path) : Footprint.Functional
    (fun filePath => turnStep (fun _ => {}) patchPath (0, filePath)) World.files := by
  intro filePath world other answer answer' world' other' hfiles hstep hstep'
  -- no read fails, so that the counter of reads does not matter
  have hsame : SameWithin {} Set.univ world other :=
    ⟨fun _ _ => congrFun hfiles _, fun _ => rfl, fun _ => rfl⟩
  have hrespects : (applyPatchInplace {} patchPath filePath batchOptions).Respects
      (SameWithin {} Set.univ) :=
    respects_applyPatchInplace filePath batchOptions (Set.mem_univ _) (Set.mem_univ _)
  obtain ⟨hanswer, hafter⟩ := hrespects world other hsame
  have hrun : applyPatchInplace {} patchPath filePath batchOptions world = (answer, world') := hstep
  have hrun' : applyPatchInplace {} patchPath filePath batchOptions other = (answer', other') := hstep'
  rw [hrun, hrun'] at hanswer hafter
  exact ⟨hanswer, funext fun path => hafter.files (Set.mem_univ path)⟩

/-- A list that is safe is so in any order. -/
theorem SafeToBatch.perm {filePaths filePaths' : List Path} (h : SafeToBatch filePaths)
    (hperm : filePaths.Perm filePaths') : SafeToBatch filePaths' := by
  refine ⟨hperm.nodup_iff.mp h.1, fun filePath hfile => ?_⟩
  simp only [← hperm.mem_iff]
  exact h.2 filePath (hperm.mem_iff.mpr hfile)

/-- A patch that is none of the paths of some files is none of them in any order. -/
theorem PatchApart.perm {filePaths filePaths' : List Path} (h : PatchApart patchPath filePaths)
    (hperm : filePaths.Perm filePaths') : PatchApart patchPath filePaths' :=
  fun filePath hfile => h filePath (hperm.mem_iff.mpr hfile)

section TwoRuns

variable {turns turns' : List ((Nat × Path) × Call Unit)} {world after after' : World}
  (hrun : Footprint.Serial (turnStep (fun _ => {}) patchPath) turns world after)
  (hrun' : Footprint.Serial (turnStep (fun _ => {}) patchPath) turns' world after')
  (hapart : turns.Pairwise fun turn later =>
    Footprint.Apart (turnReads patchPath) turnWrites turn.1 later.1)
  (hapart' : turns'.Pairwise fun turn later =>
    Footprint.Apart (turnReads patchPath) turnWrites turn.1 later.1)

include hrun hrun' hapart hapart'

/-- In two runs on the same files whose turns are apart, a file has the same answer. -/
theorem same_answer {turn turn' : (Nat × Path) × Call Unit} (hturn : turn ∈ turns)
    (hturn' : turn' ∈ turns') (hfile : turn'.1.2 = turn.1.2) : turn.2 = turn'.2 :=
  ((serial_unindexed hrun).same_turn (local_turnFile patchPath) (functional_turnStep patchPath)
    (serial_unindexed hrun') (List.pairwise_map.mpr hapart) (List.pairwise_map.mpr hapart')
    (List.mem_map_of_mem hturn) (List.mem_map_of_mem hturn') hfile).1

/-- Where the files of one run are among those of the other, its answers are among the other's. -/
theorem exists_same_answer
    (hsub : (turns'.map Prod.fst).map Prod.snd ⊆ (turns.map Prod.fst).map Prod.snd)
    {turn' : (Nat × Path) × Call Unit} (hturn' : turn' ∈ turns') :
    ∃ turn ∈ turns, turn.2 = turn'.2 := by
  have hlisted := hsub (List.mem_map_of_mem (List.mem_map_of_mem hturn'))
  rw [List.map_map] at hlisted
  obtain ⟨turn, hturn, hfile⟩ := List.mem_map.mp hlisted
  exact ⟨turn, hturn, same_answer hrun hrun' hapart hapart' hturn hturn' hfile.symm⟩

variable (hperm : ((turns.map Prod.fst).map Prod.snd).Perm ((turns'.map Prod.fst).map Prod.snd))

include hperm

/-- Two runs on the same files in different orders both succeed throughout or both do not. -/
theorem all_ok_iff_of_perm :
    (∀ turn ∈ turns, turn.2 = .ok ()) ↔ ∀ turn' ∈ turns', turn'.2 = .ok () := by
  constructor
  · intro hok turn' hturn'
    obtain ⟨turn, hturn, hsame⟩ :=
      exists_same_answer hrun hrun' hapart hapart' hperm.symm.subset hturn'
    exact hsame ▸ hok turn hturn
  · intro hok turn hturn
    obtain ⟨turn', hturn', hsame⟩ :=
      exists_same_answer hrun' hrun hapart' hapart hperm.subset hturn
    exact hsame ▸ hok turn' hturn'

/-- Two runs on the same files in different orders leave the same files. -/
theorem same_files_of_perm : after'.files = after.files := by
  refine ((serial_unindexed hrun).order (local_turnFile patchPath) (functional_turnStep patchPath)
    (serial_unindexed hrun') (List.pairwise_map.mpr hapart) (List.pairwise_map.mpr hapart') ?_).symm
  rw [List.map_map, List.map_map] at hperm ⊢
  exact hperm

end TwoRuns

/-- **The order of the files makes no difference.** Without failures: if a safe batch whose patch is
none of the files it touches comes to an exit code, the same files listed in any other order come to the
same one, and leave the same files. -/
theorem order_irrelevant (programName : String) {patchPath : Path} {filePaths filePaths' : List Path}
    (hperm : filePaths.Perm filePaths') (hsafe : SafeToBatch filePaths)
    (hpatch : PatchApart patchPath filePaths) (p : Process) {code : Nat}
    (hcode : (main (fun _ => {}) programName (patchPath :: filePaths) p).1 = .ok code) :
    (main (fun _ => {}) programName (patchPath :: filePaths') p).1 = .ok code ∧
      (main (fun _ => {}) programName (patchPath :: filePaths') p).2.world.files
        = (main (fun _ => {}) programName (patchPath :: filePaths) p).2.world.files := by
  cases filePaths with
  | nil =>
    cases hperm.symm.eq_nil
    exact ⟨hcode, rfl⟩
  | cons first others =>
    obtain ⟨first', others', rfl⟩ := List.exists_cons_of_ne_nil
      (fun hnil => List.cons_ne_nil first others (hnil ▸ hperm).eq_nil : filePaths' ≠ [])
    obtain ⟨turns, hrun, -, hends⟩ := main_run (fun _ => {}) programName patchPath first others p
    obtain ⟨turns', hrun', hitems', hends'⟩ :=
      main_run (fun _ => {}) programName patchPath first' others' p
    rw [hcode] at hends
    obtain ⟨hall, hreturns, hzero, -⟩ := hends
    have hpaths : (turns.map Prod.fst).map Prod.snd = first :: others := by
      rw [hall, map_snd_turnsOf]
    have hpaths' : ((turns'.map Prod.fst).map Prod.snd).IsPrefix (first' :: others') := by
      have := hitems'.map Prod.snd
      rwa [map_snd_turnsOf] at this
    have hprefix : ((turns.map Prod.fst).map Prod.snd).IsPrefix (first :: others) :=
      hpaths ▸ List.prefix_rfl
    have hapart := pairwise_apart hsafe hpatch hprefix
    have hapart' := pairwise_apart (hsafe.perm hperm) (hpatch.perm hperm) hpaths'
    cases hcode' : (main (fun _ => {}) programName (patchPath :: first' :: others') p).1 with
    | error e => exact e.elim
    | throws thrown =>
      -- the other batch has come to no end, but each of its answers is one of the first batch
      rw [hcode'] at hends'
      obtain ⟨turn', hturn', hthrows⟩ := hends'
      have hsub : (turns'.map Prod.fst).map Prod.snd ⊆ (turns.map Prod.fst).map Prod.snd :=
        fun path hpath => hpaths ▸ hperm.mem_iff.mpr (hpaths'.subset hpath)
      obtain ⟨turn, hturn, hsame⟩ := exists_same_answer hrun hrun' hapart hapart' hsub hturn'
      have hanswer := hreturns turn hturn
      rw [hsame, hthrows] at hanswer
      exact absurd hanswer (Outcome.not_returns_throws thrown)
    | ok code' =>
      rw [hcode'] at hends'
      obtain ⟨hall', -, hzero', -⟩ := hends'
      have hitems : ((turns.map Prod.fst).map Prod.snd).Perm ((turns'.map Prod.fst).map Prod.snd) := by
        rw [hall', map_snd_turnsOf, hpaths]
        exact hperm
      refine ⟨?_, same_files_of_perm hrun hrun' hapart hapart' hitems⟩
      rw [hzero', hzero]
      simp only [all_ok_iff_of_perm hrun hrun' hapart hapart' hitems]

/-- The two files the other way round. -/
theorem order_irrelevant_twoFiles :
    (main (fun _ => {}) "batch" ["patch", "save", "rom"] { world := twoFiles }).1 = .ok 0 ∧
      (main (fun _ => {}) "batch" ["patch", "save", "rom"] { world := twoFiles }).2.world.files
        = (main (fun _ => {}) "batch" ["patch", "rom", "save"] { world := twoFiles }).2.world.files :=
  order_irrelevant "batch" (List.Perm.swap "save" "rom" []) (by decide) (by unfold PatchApart; decide)
    { world := twoFiles } (by decide +kernel)

end IUBPatch.BatchPatch
