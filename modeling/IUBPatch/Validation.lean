import IUBPatch.Apply
import IUBPatch.Lib.FallibleFold
import IUBPatch.SourceChecks

/-! # Validating a patch against applying it

`validate_patch` decides anew which source is the right one, and it skips the size check where the
header declares size zero. So it accepts a longer source there if the checksum happens to be right,
which `apply` rejects. -/

namespace IUBPatch

/-! ### What `apply` rejects a source for -/

/-- A malformed patch is not the fault of the source. -/
theorem not_isSourceRejection_of_code {e : ErrorInfo} (h : e.code = .invalidPatchFormat) :
    ¬ IsSourceRejection e := by
  rintro (hcode | ⟨hcode, -⟩)
  · rw [h] at hcode; cases hcode
  · rw [h] at hcode; cases hcode

/-- Neither is a wrong target. -/
theorem not_isSourceRejection_of_message {e : ErrorInfo} (hcode : e.code = .checksumMismatch)
    (rest : String) (hmessage : e.message = "Target CRC32 mismatch" ++ rest) :
    ¬ IsSourceRejection e := by
  rintro (h | ⟨-, other, h⟩)
  · rw [hcode] at h; cases h
  · rw [hmessage] at h
    -- the two messages begin with different letters
    have hhead := congrArg (fun s => s.toList.head?) h
    simp at hhead

namespace BPS

/-- Every error of a command calls the patch malformed. -/
theorem code_of_execCommand_eq_error {patchData source : Bytes} {st : ReplayState} {cmd : Command}
    {e : ErrorInfo} (h : execCommand patchData source st cmd = .error e) :
    e.code = .invalidPatchFormat := by
  have hloop : ∀ (offset : UInt64) (remaining : Nat) (i : UInt64) (output : Bytes) (e : ErrorInfo),
      targetCopyLoop offset remaining i output = .error e → e.code = .invalidPatchFormat := by
    intro offset remaining
    induction remaining with
    | zero => intro i output e h; cases h
    | succ remaining ih =>
      intro i output e h
      rw [targetCopyLoop] at h
      split at h
      · cases h; rfl
      · exact ih _ _ _ h
  rw [execCommand] at h
  cases haction : cmd.action <;> rw [haction] at h <;> dsimp only at h <;> split at h
  · cases h; rfl
  · cases h
  · cases h; rfl
  · cases h
  · cases h; rfl
  · cases h
  · cases h; rfl
  · cases hcopy : targetCopyLoop _ _ _ _ with
    | error e' =>
      rw [hcopy] at h
      cases h
      exact hloop _ _ _ _ _ hcopy
    | ok output =>
      rw [hcopy] at h
      cases h

end BPS

/-- The BPS replay never blames the source. -/
theorem BPSPatch.code_of_replayTarget_eq_error {patch : BPSPatch} {source : Bytes} {e : ErrorInfo}
    (h : patch.replayTarget source = .error e) : e.code = .invalidPatchFormat := by
  rw [replayTarget, reserve] at h
  split at h
  · rw [Outcome.ok_bind] at h
    cases hreplay : BPS.replay patch.patchData source patch.dataOffset patch.commands with
    | error e' =>
      rw [hreplay] at h
      cases h
      obtain ⟨_, cmd, _, st, _, _, hstep⟩ := FallibleFold.run_eq_error hreplay
      exact BPS.code_of_execCommand_eq_error hstep
    | ok st =>
      rw [hreplay, Outcome.ofExcept_ok, Outcome.ok_bind] at h
      split at h
      · cases h; rfl
      · cases h
  · cases h

/-- The UPS replay returns no error at all. -/
theorem UPSPatch.replayTarget_ne_error (patch : UPSPatch) (source : Bytes) (e : ErrorInfo) :
    patch.replayTarget source ≠ .error e := by
  rw [replayTarget, resize]
  split
  · rw [Outcome.ok_bind]
    dsimp only
    rw [resize]
    split
    · intro h; cases h
    · intro h; cases h
  · intro h; cases h

namespace Patch

/-- `apply` blames the source exactly when its source checks fail. -/
theorem exists_sourceRejection_iff (patch : Patch) (source : Bytes) (options : PatchOptions) :
    (∃ e, patch.apply source options = .error e ∧ IsSourceRejection e) ↔
      patch.RejectsSource source options := by
  cases patch with
  | ips patch =>
    obtain ⟨target, htarget⟩ := patch.exists_apply_eq_ok source options
    show (∃ e, patch.apply source options = .error e ∧ IsSourceRejection e) ↔ False
    simp [htarget]
  | ups patch =>
    show (∃ e, patch.apply source options = .error e ∧ IsSourceRejection e) ↔
      patch.RejectsSource source options
    refine ⟨?_, UPSPatch.apply_of_rejects⟩
    rintro ⟨e, he, hrejection⟩
    by_contra hpass
    rw [UPSPatch.apply_of_not_rejects hpass] at he
    rcases bind_targetCheck_eq_error (fun _ => UPSPatch.targetCrcError) he with hreplay | ⟨_, rfl⟩
    · exact patch.replayTarget_ne_error source e hreplay
    · exact not_isSourceRejection_of_message rfl "" rfl hrejection
  | bps patch =>
    show (∃ e, patch.apply source options = .error e ∧ IsSourceRejection e) ↔
      patch.RejectsSource source options
    refine ⟨?_, BPSPatch.apply_of_rejects⟩
    rintro ⟨e, he, hrejection⟩
    by_contra hpass
    rw [BPSPatch.apply_of_not_rejects hpass] at he
    rcases bind_targetCheck_eq_error patch.targetCrcError he with hreplay | ⟨target, rfl⟩
    · exact not_isSourceRejection_of_code (BPSPatch.code_of_replayTarget_eq_error hreplay)
        hrejection
    · refine not_isSourceRejection_of_message rfl (": expected " ++ toString patch.targetCrc
        ++ ", got " ++ toString (calcCrc32 target)) ?_ hrejection
      simp only [BPSPatch.targetCrcError, String.append_assoc]
      rfl

end Patch

/-! ### What `validate_patch` accepts -/

/-- The source checks of `validate_patch` pass: a declared size of zero stands for any size. -/
theorem checkSource_eq_ok_iff (metadata : PatchMetadata) (source : Bytes) :
    checkSource metadata source = .ok () ↔
      (metadata.srcSize > 0 → size source = metadata.srcSize) ∧
        calcCrc32 source = metadata.sourceChecksum := by
  rw [checkSource, checks_eq_ok_iff, not_and, not_not, not_not]

namespace Patch

/-- What `validate_patch` wants of a source. -/
def AcceptsSource (patch : Patch) (source : Bytes) : Prop :=
  match patch with
  | .ips _ => True
  | .ups patch => (patch.srcSize > 0 → size source = patch.srcSize) ∧
      calcCrc32 source = patch.srcCrc
  | .bps patch => (patch.srcSize > 0 → size source = patch.srcSize) ∧
      calcCrc32 source = patch.srcCrc

/-- The patch declares an empty source and the checksum of a non-empty one. -/
def PassesUnsized (patch : Patch) (source : Bytes) : Prop :=
  match patch with
  | .ips _ => False
  | .ups patch => patch.srcSize = 0 ∧ source ≠ [] ∧ calcCrc32 source = patch.srcCrc
  | .bps patch => patch.srcSize = 0 ∧ source ≠ [] ∧ calcCrc32 source = patch.srcCrc

end Patch

/-- Without faults `read_file` gives the contents. -/
theorem readFile_faultless {path : Path} {world : World} {data : Bytes}
    (h : world.files path = some data) :
    readFile {} path world = (.ok data, { world with reads := world.reads + 1 }) := by
  rw [readFile_apply, readOutcome_faultless h, Outcome.ofExcept_ok]

/-- Without faults `validate_patch` of a valid patch comes to its source checks, if the format has
checksums. -/
theorem validatePatch_faultless {P S : Bytes} {patch : Patch} {metadata : PatchMetadata}
    (hload : loadPatchFromMemory P = .ok patch) (hvalid : patch.validate = .ok ())
    (hmetadata : patch.getMetadata = .ok metadata) {patchPath sourcePath : Path} {world : World}
    (hpatch : world.files patchPath = some P) (hsource : world.files sourcePath = some S)
    (options : PatchOptions) :
    (validatePatch {} patchPath sourcePath options world).1
      = if metadata.hasChecksums then .ofExcept (checkSource metadata S) else .ok () := by
  have hloaded : loadPatch {} patchPath world
      = (.ok patch, { world with reads := world.reads + 1 }) := by
    rw [loadPatch, Effect.bind_apply_ok (readFile_faultless hpatch), Effect.lift_apply, hload]
  have hread : readFile {} sourcePath { world with reads := world.reads + 1 } = (.ok S, _) :=
    readFile_faultless hsource
  rw [validatePatch, Effect.bind_apply_ok hloaded, hvalid, hmetadata]
  show ((if metadata.hasChecksums then readFile {} sourcePath >>= fun source =>
      Effect.lift (.ofExcept (checkSource metadata source)) else pure () : FileM Unit)
        { world with reads := world.reads + 1 }).1 = _
  cases metadata.hasChecksums with
  | true => rw [if_pos rfl, if_pos rfl, Effect.bind_apply_ok hread, Effect.lift_apply]
  | false => rw [if_neg Bool.false_ne_true, if_neg Bool.false_ne_true, Effect.pure_apply]

/-- Without faults `validate_patch` accepts a valid patch and a source exactly by its source checks. -/
theorem validatePatch_eq_ok_iff {P S : Bytes} {patch : Patch}
    (hload : loadPatchFromMemory P = .ok patch) (hvalid : patch.validate = .ok ())
    {patchPath sourcePath : Path} {world : World} (hpatch : world.files patchPath = some P)
    (hsource : world.files sourcePath = some S) (options : PatchOptions) :
    (validatePatch {} patchPath sourcePath options world).1 = .ok () ↔ patch.AcceptsSource S := by
  cases patch with
  | ips patch =>
    rw [validatePatch_faultless hload hvalid rfl hpatch hsource]
    exact iff_of_true rfl trivial
  | ups patch =>
    rw [validatePatch_faultless hload hvalid rfl hpatch hsource, if_pos rfl,
      Outcome.ofExcept_eq_ok_iff]
    exact checkSource_eq_ok_iff _ S
  | bps patch =>
    rw [validatePatch_faultless hload hvalid rfl hpatch hsource, if_pos rfl,
      Outcome.ofExcept_eq_ok_iff]
    exact checkSource_eq_ok_iff _ S

/-- A size check that a declared zero switches off differs from one that is always made exactly on
non-empty sources of a declared empty one. -/
theorem sizeCheck_agrees_iff {S : Bytes} (hS : S.length ≤ maxSize) (srcSize : UInt64)
    (srcCrc : UInt32) :
    ((srcSize > 0 → size S = srcSize) ∧ calcCrc32 S = srcCrc ↔
        size S = srcSize ∧ calcCrc32 S = srcCrc) ↔
      ¬ (srcSize = 0 ∧ S ≠ [] ∧ calcCrc32 S = srcCrc) := by
  have hempty : size S = 0 ↔ S = [] := by
    rw [← UInt64.toNat_inj, toNat_size hS, UInt64.toNat_zero, List.length_eq_zero_iff]
  by_cases hzero : srcSize = 0
  · subst hzero
    simp only [gt_iff_lt, UInt64.not_lt_zero, false_imp_iff, true_and, hempty]
    tauto
  · have hpos : srcSize > 0 := by
      rw [gt_iff_lt, UInt64.lt_iff_toNat_lt, UInt64.toNat_zero]
      exact Nat.pos_of_ne_zero fun h => hzero (UInt64.toNat_inj.mp h)
    simp [hzero, hpos]

/-- **Where `validate_patch` and `apply` agree on the source.** For a valid patch in one file and a
source in another, `validate_patch` accepts exactly the sources that `apply` with verification does
not reject, unless the patch declares an empty source and the checksum of this non-empty one. -/
theorem validatePatch_agrees_iff {P S : Bytes} {patch : Patch}
    (hload : loadPatchFromMemory P = .ok patch) (hvalid : patch.validate = .ok ())
    (hS : S.length ≤ maxSize) {patchPath sourcePath : Path} {world : World}
    (hpatch : world.files patchPath = some P) (hsource : world.files sourcePath = some S)
    (options : PatchOptions) :
    ((validatePatch {} patchPath sourcePath options world).1 = .ok () ↔
        ¬ ∃ e, patch.apply S (options.withVerification true) = .error e ∧ IsSourceRejection e) ↔
      ¬ patch.PassesUnsized S := by
  rw [validatePatch_eq_ok_iff hload hvalid hpatch hsource, patch.exists_sourceRejection_iff]
  cases patch with
  | ips patch => exact iff_of_true (iff_of_true trivial id) id
  | ups patch =>
    have hpasses : ¬ patch.RejectsSource S (options.withVerification true) ↔
        size S = patch.srcSize ∧ calcCrc32 S = patch.srcCrc := by
      simp [UPSPatch.RejectsSource, PatchOptions.withVerification]
    show (_ ↔ ¬ patch.RejectsSource S (options.withVerification true)) ↔ _
    rw [hpasses]
    exact sizeCheck_agrees_iff hS patch.srcSize patch.srcCrc
  | bps patch =>
    have hpasses : ¬ patch.RejectsSource S (options.withVerification true) ↔
        size S = patch.srcSize ∧ calcCrc32 S = patch.srcCrc := by
      simp [BPSPatch.RejectsSource, PatchOptions.withVerification]
    show (_ ↔ ¬ patch.RejectsSource S (options.withVerification true)) ↔ _
    rw [hpasses]
    exact sizeCheck_agrees_iff hS patch.srcSize patch.srcCrc

/-! ### A patch that declares an empty source -/

/-- A valid BPS patch of an empty target that declares source size zero, before its own checksum, with
the checksum of one byte. -/
def unsizedBody : Bytes :=
  bpsMagic ++ [0x80, 0x80, 0x80] ++ uint32Bytes (calcCrc32 [7]) ++ uint32Bytes 0

/-- The patch, with the checksum that makes it valid. -/
def unsizedPatch : Bytes := unsizedBody ++ uint32Bytes (calcCrc32 unsizedBody)

/-- The patch and a source of one byte, as the only files. -/
def unsizedWorld : World where
  files path := if path = "patch" then some unsizedPatch else if path = "source" then some [7] else none

/-- `validate_patch` accepts the one byte, and `apply` rejects it for its size. -/
theorem not_validatePatch_agrees :
    ∃ patch, loadPatchFromMemory unsizedPatch = .ok patch ∧ patch.validate = .ok () ∧
      ¬ ((validatePatch {} "patch" "source" {} unsizedWorld).1 = .ok () ↔
        ¬ ∃ e, patch.apply [7] {} = .error e ∧ IsSourceRejection e) := by
  have hvalidated : (validatePatch {} "patch" "source" {} unsizedWorld).1 = .ok () := by
    decide +kernel
  have hrun : (loadPatchFromMemory unsizedPatch >>= fun patch =>
      .ok (patch.validate, patch.apply [7] {}) : Call (Result Unit × Call Bytes))
        = .ok (.ok (), .error
            { code := .sourceSizeMismatch
              message := "Source size mismatch: expected 0, got 1" }) := by
    decide +kernel
  obtain ⟨patch, hload, hresults⟩ := Outcome.bind_eq_ok_iff.mp hrun
  obtain ⟨hvalid, happly⟩ := Prod.mk.inj (Outcome.ok.inj hresults)
  exact ⟨patch, hload, hvalid, fun hagree => hagree.mp hvalidated ⟨_, happly, .inl rfl⟩⟩

/-- A patch of an empty target that declares two bytes of source, before its own checksum. -/
def twoBytesBody : Bytes :=
  bpsMagic ++ [0x82, 0x80, 0x80] ++ uint32Bytes (calcCrc32 [7, 8]) ++ uint32Bytes 0

/-- The patch, with the checksum that makes it valid. -/
def twoBytesPatch : Bytes := twoBytesBody ++ uint32Bytes (calcCrc32 twoBytesBody)

/-- The patch and its source, as the only files. -/
def twoBytesWorld : World := (unsizedWorld.put "patch" twoBytesPatch).put "source" [7, 8]

/-- On the source of the size and the checksum that the patch declares, the two agree. -/
theorem validatePatch_agrees_twoBytes :
    ∃ patch, loadPatchFromMemory twoBytesPatch = .ok patch ∧
      (validatePatch {} "patch" "source" {} twoBytesWorld).1 = .ok () ∧
      ¬ ∃ e, patch.apply [7, 8] {} = .error e ∧ IsSourceRejection e := by
  let patch : BPSPatch :=
    { patchData := twoBytesPatch
      srcSize := 2
      targetSize := 0
      metadataSize := 0
      metadataString := []
      srcCrc := calcCrc32 [7, 8]
      targetCrc := 0
      patchCrc := calcCrc32 twoBytesBody
      commands := []
      dataOffset := 7 }
  have hload : loadPatchFromMemory twoBytesPatch = .ok (.bps patch) := by decide +kernel
  have hvalid : (Patch.bps patch).validate = .ok () := by decide +kernel
  have hsized : ¬ (Patch.bps patch).PassesUnsized [7, 8] := fun h => absurd h.1 (by decide)
  have hvalidated : (validatePatch {} "patch" "source" {} twoBytesWorld).1 = .ok () := by
    decide +kernel
  have hpatch : twoBytesWorld.files "patch" = some twoBytesPatch := rfl
  have hsource : twoBytesWorld.files "source" = some [7, 8] := rfl
  have hagree := (validatePatch_agrees_iff hload hvalid (by decide) hpatch hsource {}).mpr hsized
  exact ⟨.bps patch, hload, hvalidated, hagree.mp hvalidated⟩

end IUBPatch
