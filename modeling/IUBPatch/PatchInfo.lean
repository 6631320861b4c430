import IUBPatch.Crc32Residue
import IUBPatch.FileFootprint
import IUBPatch.Formats.IPSOverlay

/-! # What a patch says about itself

`get_patch_info`, the ways to ask for the format of a patch, and `verify_output`: what they say before a
patch is applied, against what applying it does. -/

namespace IUBPatch

variable (env : Environment)

/-! ### Formats -/

/-- `format_to_string`. -/
def formatToString : Format → String
  | .ips => "IPS"
  | .ups => "UPS"
  | .bps => "BPS"
  | .unknown => "Unknown"

/-- `detect_format`. -/
def detectFormat (patchPath : Path) : FileM Format := do
  let data ← readFile env patchPath
  Effect.lift (.ofExcept (detectFormatFromMemory data))

/-- `IPSPatch::load_from_file`. -/
def IPSPatch.loadFromFile (path : Path) : FileM IPSPatch := do
  let data ← readFile env path
  Effect.lift (.ofExcept (IPSPatch.load data))

/-- `UPSPatch::load_from_file`. -/
def UPSPatch.loadFromFile (path : Path) : FileM UPSPatch := do
  let data ← readFile env path
  Effect.lift (.ofExcept (UPSPatch.load data))

/-- `BPSPatch::load_from_file`. -/
def BPSPatch.loadFromFile (path : Path) : FileM BPSPatch := do
  let data ← readFile env path
  Effect.lift (BPSPatch.load data)

/-! ### Information and checks of files -/

/-- `get_patch_info`. -/
def getPatchInfo (patchPath : Path) : FileM PatchMetadata := do
  let patch ← loadPatch env patchPath
  Effect.lift (.ofExcept patch.getMetadata)

/-- A value made of the content of a file, and the state after it. -/
theorem readFile_bind_apply (env : Environment) (path : Path) {α : Type} (f : Bytes → Call α)
    (world : World) :
    (readFile env path >>= fun data => Effect.lift (f data) : FileM α) world
      = (.ofExcept (readOutcome env world.files world.reads path) >>= f,
          { world with reads := world.reads + 1 }) := by
  rw [Effect.bind_apply, readFile_apply]
  cases readOutcome env world.files world.reads path <;> rfl

/-- The loader of a format. -/
def loadAs (format : Format) (data : Bytes) : Call Patch :=
  match format with
  | .ips => do
    let patch ← .ofExcept (IPSPatch.load data)
    pure (.ips patch)
  | .ups => do
    let patch ← .ofExcept (UPSPatch.load data)
    pure (.ups patch)
  | .bps => do
    let patch ← BPSPatch.load data
    pure (.bps patch)
  | .unknown =>
    .error { code := .unsupportedPatchVersion, message := "Unsupported patch format" }

/-- `load_from_file` of the class of a format. -/
def loadFromFileAs (format : Format) (path : Path) : FileM Patch :=
  match format with
  | .ips => do
    let patch ← IPSPatch.loadFromFile env path
    pure (.ips patch)
  | .ups => do
    let patch ← UPSPatch.loadFromFile env path
    pure (.ups patch)
  | .bps => do
    let patch ← BPSPatch.loadFromFile env path
    pure (.bps patch)
  | .unknown =>
    Effect.lift (.error { code := .unsupportedPatchVersion, message := "Unsupported patch format" })

/-- A class loads what was read. -/
theorem loadFromFileAs_apply (env : Environment) {format : Format} (hformat : format ≠ .unknown)
    (path : Path) (world : World) :
    loadFromFileAs env format path world
      = (.ofExcept (readOutcome env world.files world.reads path) >>= loadAs format,
          { world with reads := world.reads + 1 }) := by
  cases format with
  | unknown => exact absurd rfl hformat
  | ips =>
    rw [loadFromFileAs, Effect.bind_apply, IPSPatch.loadFromFile, readFile_bind_apply]
    cases readOutcome env world.files world.reads path with
    | error e => rfl
    | ok data => simp only [loadAs, Outcome.ofExcept_ok, Outcome.ok_bind]; cases IPSPatch.load data <;> rfl
  | ups =>
    rw [loadFromFileAs, Effect.bind_apply, UPSPatch.loadFromFile, readFile_bind_apply]
    cases readOutcome env world.files world.reads path with
    | error e => rfl
    | ok data => simp only [loadAs, Outcome.ofExcept_ok, Outcome.ok_bind]; cases UPSPatch.load data <;> rfl
  | bps =>
    rw [loadFromFileAs, Effect.bind_apply, BPSPatch.loadFromFile, readFile_bind_apply]
    cases readOutcome env world.files world.reads path with
    | error e => rfl
    | ok data => simp only [loadAs, Outcome.ofExcept_ok, Outcome.ok_bind]; cases BPSPatch.load data <;> rfl

/-- What a format's loader makes of bytes, it makes of bytes of that format. -/
theorem loadedBy_of_loadAs {format : Format} {data : Bytes} {patch : Patch}
    (h : loadAs format data = .ok patch) : patch.LoadedBy data ∧ patch.getFormat = format := by
  cases format with
  | unknown => cases h
  | ips =>
    obtain ⟨ips, hload, hpatch⟩ := Outcome.bind_eq_ok_iff.mp h
    cases hpatch
    exact ⟨Outcome.ofExcept_eq_ok_iff.mp hload, rfl⟩
  | ups =>
    obtain ⟨ups, hload, hpatch⟩ := Outcome.bind_eq_ok_iff.mp h
    cases hpatch
    exact ⟨Outcome.ofExcept_eq_ok_iff.mp hload, rfl⟩
  | bps =>
    obtain ⟨bps, hload, hpatch⟩ := Outcome.bind_eq_ok_iff.mp h
    cases hpatch
    exact ⟨hload, rfl⟩

/-- The dispatcher detects the format and runs its loader. -/
theorem loadPatchFromMemory_eq_bind (data : Bytes) :
    loadPatchFromMemory data = .ofExcept (detectFormatFromMemory data) >>= fun format =>
      loadAs format data := by
  rw [loadPatchFromMemory]
  cases detectFormatFromMemory data with
  | error e => rfl
  | ok format => cases format <;> rfl

/-- No format is detected as `Unknown`. -/
theorem detectFormatFromMemory_ne_unknown (data : Bytes) :
    detectFormatFromMemory data ≠ .ok .unknown := by
  rw [detectFormatFromMemory]
  split_ifs <;> simp

/-- **`load_patch` is the loader of the detected class.** Whatever fails: where `detect_format` gives a
format, `load_patch` does what `load_from_file` of its class does, to the same patch, the same error or
the same exception; where it gives an error, `load_patch` gives it too. And a class loads only files of
its own format, so that where it gives a patch, `load_patch` gives the same one. -/
theorem loadPatch_dispatches (env : Environment) (patchPath : Path) (world : World) :
    (∀ format, (detectFormat env patchPath world).1 = .ok format →
        loadPatch env patchPath world = loadFromFileAs env format patchPath world) ∧
      (∀ e, (detectFormat env patchPath world).1 = .error e →
        (loadPatch env patchPath world).1 = .error e) ∧
      ((detectFormat env patchPath world).1.Returns) ∧
      ∀ format patch, (loadFromFileAs env format patchPath world).1 = .ok patch →
        (detectFormat env patchPath world).1 = .ok format ∧
          (loadPatch env patchPath world).1 = .ok patch := by
  have hdetect := readFile_bind_apply env patchPath
    (fun data => .ofExcept (detectFormatFromMemory data)) world
  have hload := readFile_bind_apply env patchPath loadPatchFromMemory world
  rw [← detectFormat] at hdetect
  rw [← loadPatch] at hload
  -- all three read the file the same way, and once
  have hclass : ∀ {format : Format}, format ≠ .unknown → loadFromFileAs env format patchPath world
      = (.ofExcept (readOutcome env world.files world.reads patchPath) >>= loadAs format,
          { world with reads := world.reads + 1 }) :=
    fun hformat => loadFromFileAs_apply env hformat patchPath world
  -- there is no class for an unknown format, so a patch comes from one of the three
  have hknown : ∀ {format : Format} {patch : Patch},
      (loadFromFileAs env format patchPath world).1 = .ok patch → format ≠ .unknown := by
    rintro format patch h rfl
    cases h
  cases hread : readOutcome env world.files world.reads patchPath with
  | error e =>
    rw [hread, Outcome.ofExcept_error, Outcome.error_bind] at hdetect hload
    rw [hdetect, hload]
    refine ⟨fun _ h => (by cases h), fun _ h => (by cases h; rfl), by simp, fun format patch h => ?_⟩
    rw [hclass (hknown h), hread] at h
    cases h
  | ok data =>
    rw [hread, Outcome.ofExcept_ok, Outcome.ok_bind] at hdetect hload
    rw [hdetect, hload]
    simp only [hread, Outcome.ofExcept_ok, Outcome.ok_bind] at hclass
    refine ⟨fun format h => ?_, fun e h => ?_, by simp, fun format patch h => ?_⟩
    · rw [Outcome.ofExcept_eq_ok_iff] at h
      have hformat : format ≠ .unknown :=
        fun heq => detectFormatFromMemory_ne_unknown data (heq ▸ h)
      rw [hclass hformat, loadPatchFromMemory_eq_bind, h, Outcome.ofExcept_ok, Outcome.ok_bind]
    · have h : Outcome.ofExcept (detectFormatFromMemory data) = Outcome.error e := h
      show loadPatchFromMemory data = .error e
      rw [loadPatchFromMemory_eq_bind, h, Outcome.error_bind]
    · rw [hclass (hknown h)] at h
      obtain ⟨hloaded, rfl⟩ := loadedBy_of_loadAs h
      exact ⟨by rw [hloaded.detectFormatFromMemory]; rfl, loadPatchFromMemory_eq_ok_iff.mpr hloaded⟩

end IUBPatch
