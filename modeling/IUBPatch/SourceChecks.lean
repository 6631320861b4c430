import IUBPatch.Formats.UPSReplay
import IUBPatch.PatchBase

/-! # The checks around applying a patch

Both checksummed formats apply a patch in three parts: checks of the source, the replay, and a check
of the target. Split so, the parts say which sources are rejected, that verification only filters,
and when an exception leaves the call. -/

namespace IUBPatch

/-! ### The three parts of `apply` -/

/-- The error says that the source is the wrong one. -/
def IsSourceRejection (error : ErrorInfo) : Prop :=
  error.code = .sourceSizeMismatch ∨
    error.code = .checksumMismatch ∧
      ∃ rest : String, error.message = "Source CRC32 mismatch" ++ rest

namespace BPSPatch

/-- The source checks of `apply` fail. -/
def RejectsSource (patch : BPSPatch) (source : Bytes) (options : PatchOptions) : Prop :=
  size source ≠ patch.srcSize ∨ options.verifyChecksums ∧ calcCrc32 source ≠ patch.srcCrc

/-- The replay of `apply`, up to the check of its size. -/
def replayTarget (patch : BPSPatch) (source : Bytes) : Call Bytes := do
  reserve patch.targetSize
  let st ← .ofExcept (BPS.replay patch.patchData source patch.dataOffset patch.commands)
  if size st.output ≠ patch.targetSize then .error (patch.outputSizeError st.output)
  else .ok st.output

/-- What the replay returns is the output of all commands, which has the declared size. -/
theorem replayTarget_eq_ok_iff {patch : BPSPatch} {source T : Bytes} :
    patch.replayTarget source = .ok T ↔
      patch.targetSize.toNat ≤ maxSize ∧ size T = patch.targetSize ∧
        ∃ st, BPS.replay patch.patchData source patch.dataOffset patch.commands = .ok st ∧
          st.output = T := by
  rw [replayTarget, reserve]
  by_cases hreserve : patch.targetSize.toNat ≤ maxSize
  · rw [if_pos hreserve, Outcome.ok_bind, Outcome.bind_eq_ok_iff]
    simp only [Outcome.ofExcept_eq_ok_iff]
    constructor
    · rintro ⟨st, hrun, h⟩
      split at h
      · cases h
      · rename_i htarget
        cases h
        exact ⟨hreserve, not_not.mp htarget, st, hrun, rfl⟩
    · rintro ⟨-, htarget, st, hrun, rfl⟩
      exact ⟨st, hrun, if_neg (not_not.mpr htarget)⟩
  · rw [if_neg hreserve, Outcome.throws_bind]
    exact iff_of_false (fun h => by cases h) fun h => hreserve h.1

/-- A rejected source is rejected as such. -/
theorem apply_of_rejects {patch : BPSPatch} {source : Bytes} {options : PatchOptions}
    (h : patch.RejectsSource source options) :
    ∃ e, patch.apply source options = .error e ∧ IsSourceRejection e := by
  rw [apply]
  by_cases hsize : size source = patch.srcSize
  · have hcrc : options.verifyChecksums ∧ calcCrc32 source ≠ patch.srcCrc := by
      rcases h with hne | hcrc
      · exact absurd hsize hne
      · exact hcrc
    rw [if_neg (not_not.mpr hsize), if_pos hcrc]
    refine ⟨_, rfl, .inr ⟨rfl, ": expected " ++ toString patch.srcCrc ++ ", got "
      ++ toString (calcCrc32 source), ?_⟩⟩
    simp only [sourceCrcError, String.append_assoc]
    rfl
  · rw [if_pos hsize]
    exact ⟨_, rfl, .inl rfl⟩

/-- On a source that passes, `apply` is the replay and the check of the target. -/
theorem apply_of_not_rejects {patch : BPSPatch} {source : Bytes} {options : PatchOptions}
    (h : ¬ patch.RejectsSource source options) :
    patch.apply source options = patch.replayTarget source >>= fun target =>
      if options.verifyChecksums ∧ calcCrc32 target ≠ patch.targetCrc then
        .error (patch.targetCrcError target)
      else .ok target := by
  obtain ⟨hsize, hcrc⟩ := not_or.mp h
  rw [apply, if_neg hsize, if_neg hcrc, replayTarget]
  cases reserve patch.targetSize with
  | error e => rfl
  | throws thrown => rfl
  | ok _ =>
    cases BPS.replay patch.patchData source patch.dataOffset patch.commands with
    | error e => rfl
    | ok st =>
      simp only [Outcome.ok_bind, Outcome.ofExcept_ok]
      split
      · rfl
      · rfl

end BPSPatch

namespace UPSPatch

/-- The source checks of `apply` fail. -/
def RejectsSource (patch : UPSPatch) (source : Bytes) (options : PatchOptions) : Prop :=
  options.verifyChecksums ∧ (size source ≠ patch.srcSize ∨ calcCrc32 source ≠ patch.srcCrc)

/-- The replay of `apply`. -/
def replayTarget (patch : UPSPatch) (source : Bytes) : Call Bytes := do
  let output ← resize [] (max (size source) patch.targetSize)
  let output := patch.blocks.foldl UPS.xorBlock (overwrite output 0 source)
  resize output patch.targetSize

/-- A rejected source is rejected as such. -/
theorem apply_of_rejects {patch : UPSPatch} {source : Bytes} {options : PatchOptions}
    (h : patch.RejectsSource source options) :
    ∃ e, patch.apply source options = .error e ∧ IsSourceRejection e := by
  obtain ⟨hverify, hchecks⟩ := h
  rw [apply]
  by_cases hsize : size source = patch.srcSize
  · have hcrc : calcCrc32 source ≠ patch.srcCrc := by
      rcases hchecks with hne | hcrc
      · exact absurd hsize hne
      · exact hcrc
    rw [if_neg (fun hfail => hfail.2 hsize), if_pos ⟨hverify, hcrc⟩]
    exact ⟨_, rfl, .inr ⟨rfl, "", rfl⟩⟩
  · rw [if_pos ⟨hverify, hsize⟩]
    exact ⟨_, rfl, .inl rfl⟩

/-- On a source that passes, `apply` is the replay and the check of the target. -/
theorem apply_of_not_rejects {patch : UPSPatch} {source : Bytes} {options : PatchOptions}
    (h : ¬ patch.RejectsSource source options) :
    patch.apply source options = patch.replayTarget source >>= fun target =>
      if options.verifyChecksums ∧ calcCrc32 target ≠ patch.targetCrc then .error targetCrcError
      else .ok target := by
  have hsize : ¬ (options.verifyChecksums ∧ size source ≠ patch.srcSize) :=
    fun hfail => h ⟨hfail.1, .inl hfail.2⟩
  have hcrc : ¬ (options.verifyChecksums ∧ calcCrc32 source ≠ patch.srcCrc) :=
    fun hfail => h ⟨hfail.1, .inr hfail.2⟩
  rw [apply, if_neg hsize, if_neg hcrc, replayTarget]
  cases resize [] (max (size source) patch.targetSize) with
  | error e => rfl
  | throws thrown => rfl
  | ok output => rfl

end UPSPatch

/-! ### Verification as a filter -/

/-- The options with verification turned on or off. -/
def PatchOptions.withVerification (options : PatchOptions) (verify : Bool) : PatchOptions :=
  { options with verifyChecksums := verify }

/-- The check of the target passes the right target on and nothing else. -/
theorem bind_targetCheck_eq_ok_iff (failure : Bytes → ErrorInfo) {replayed : Call Bytes}
    {verify : Bool} {targetCrc : UInt32} {T : Bytes} :
    (replayed >>= fun target =>
        if verify ∧ calcCrc32 target ≠ targetCrc then .error (failure target) else .ok target)
        = .ok T ↔
      replayed = .ok T ∧ (verify → calcCrc32 T = targetCrc) := by
  rw [Outcome.bind_eq_ok_iff]
  constructor
  · rintro ⟨target, hreplayed, h⟩
    split at h
    · cases h
    · rename_i hpass
      cases h
      exact ⟨hreplayed, fun hverify => by_contra fun hcrc => hpass ⟨hverify, hcrc⟩⟩
  · rintro ⟨hreplayed, hcrc⟩
    exact ⟨T, hreplayed, if_neg fun hfail => hfail.2 (hcrc hfail.1)⟩

/-- A BPS patch returns `T` exactly when it passes the source, replays it to `T` and passes `T`. -/
theorem BPSPatch.apply_eq_ok_iff (patch : BPSPatch) (source T : Bytes) (options : PatchOptions) :
    patch.apply source options = .ok T ↔
      ¬ patch.RejectsSource source options ∧ patch.replayTarget source = .ok T ∧
        (options.verifyChecksums → calcCrc32 T = patch.targetCrc) := by
  by_cases hreject : patch.RejectsSource source options
  · obtain ⟨e, he, -⟩ := apply_of_rejects hreject
    simp [he, hreject]
  · rw [apply_of_not_rejects hreject, bind_targetCheck_eq_ok_iff]
    simp [hreject]

/-- A UPS patch returns `T` exactly when it passes the source, replays it to `T` and passes `T`. -/
theorem UPSPatch.apply_eq_ok_iff (patch : UPSPatch) (source T : Bytes) (options : PatchOptions) :
    patch.apply source options = .ok T ↔
      ¬ patch.RejectsSource source options ∧ patch.replayTarget source = .ok T ∧
        (options.verifyChecksums → calcCrc32 T = patch.targetCrc) := by
  by_cases hreject : patch.RejectsSource source options
  · obtain ⟨e, he, -⟩ := apply_of_rejects hreject
    simp [he, hreject]
  · rw [apply_of_not_rejects hreject, bind_targetCheck_eq_ok_iff]
    simp [hreject]

/-- Two checks in a row pass exactly when neither of them fails. -/
theorem checks_eq_ok_iff {p q : Prop} [Decidable p] [Decidable q] {e f : ErrorInfo} :
    (if p then .error e else if q then .error f else .ok () : Result Unit) = .ok () ↔ ¬ p ∧ ¬ q := by
  by_cases hp : p
  · simp [hp]
  · by_cases hq : q
    · simp [hp, hq]
    · simp [hp, hq]

/-- **Verification is a filter.** For every patch, source and target: a BPS patch returns the target
verified exactly when it does so unverified and the separate checksum call accepts the pair; a UPS
patch also wants the declared source size; an IPS patch does the same either way. -/
theorem verification_isFilter (source T : Bytes) (options : PatchOptions) :
    (∀ patch : BPSPatch, patch.apply source (options.withVerification true) = .ok T ↔
      patch.apply source (options.withVerification false) = .ok T ∧
        patch.verifyChecksums source T = .ok ()) ∧
    (∀ patch : UPSPatch, patch.apply source (options.withVerification true) = .ok T ↔
      size source = patch.srcSize ∧ patch.apply source (options.withVerification false) = .ok T ∧
        patch.verifyChecksums source T = .ok ()) ∧
    (∀ patch : IPSPatch, patch.apply source (options.withVerification true)
      = patch.apply source (options.withVerification false)) := by
  refine ⟨fun patch => ?_, fun patch => ?_, fun patch => rfl⟩
  · rw [patch.apply_eq_ok_iff, patch.apply_eq_ok_iff, BPSPatch.verifyChecksums, checks_eq_ok_iff,
      BPSPatch.RejectsSource, BPSPatch.RejectsSource]
    simp only [PatchOptions.withVerification, not_or, ne_eq, not_not, true_and, forall_const,
      Bool.false_eq_true, false_and, not_false_eq_true, and_true, false_imp_iff]
    tauto
  · rw [patch.apply_eq_ok_iff, patch.apply_eq_ok_iff, UPSPatch.verifyChecksums, checks_eq_ok_iff,
      UPSPatch.RejectsSource, UPSPatch.RejectsSource]
    simp only [PatchOptions.withVerification, not_or, ne_eq, not_not, true_and, forall_const,
      Bool.false_eq_true, false_and, not_false_eq_true, and_true, false_imp_iff]
    tauto

/-! ### Exceptions -/

/-- `resize` comes back exactly below `max_size`. -/
theorem returns_resize_iff (data : Bytes) (n : UInt64) :
    (resize data n).Returns ↔ n.toNat ≤ maxSize := by
  rw [resize]
  by_cases hfit : n.toNat ≤ maxSize
  · simp [hfit]
  · simp [hfit]

/-- Writing a record asks for no more than `2^32` bytes, so it always succeeds. -/
theorem IPSPatch.exists_writeRecord_eq_ok (output : Bytes) (record : IPS.Record) :
    ∃ output', writeRecord output record = .ok output' := by
  have hlt := (record.offset + record.length.toUInt32).toNat_lt
  have hfit : (record.offset + record.length.toUInt32).toUInt64.toNat ≤ maxSize := by
    rw [UInt32.toNat_toUInt64, maxSize]
    omega
  rw [writeRecord]
  dsimp only
  rw [resize, if_pos hfit]
  split
  · rw [Outcome.ok_bind]
    split <;> exact ⟨_, rfl⟩
  · rw [Outcome.pure_eq, Outcome.ok_bind]
    split <;> exact ⟨_, rfl⟩

/-- An IPS patch makes a target of every source. -/
theorem IPSPatch.exists_apply_eq_ok (patch : IPSPatch) (source : Bytes) (options : PatchOptions) :
    ∃ target, patch.apply source options = .ok target :=
  Outcome.exists_foldlM_eq_ok exists_writeRecord_eq_ok patch.records source

/-- The BPS replay comes back exactly if the target size is one a vector can have. -/
theorem BPSPatch.returns_replayTarget_iff (patch : BPSPatch) (source : Bytes) :
    (patch.replayTarget source).Returns ↔ patch.targetSize.toNat ≤ maxSize := by
  rw [replayTarget, reserve]
  by_cases hfit : patch.targetSize.toNat ≤ maxSize
  · refine iff_of_true ?_ hfit
    rw [if_pos hfit, Outcome.ok_bind]
    apply Outcome.returns_bind (Outcome.returns_ofExcept _)
    intro st _
    split
    · exact Outcome.returns_error _
    · exact Outcome.returns_ok _
  -- `reserve` throws before the replay starts
  · rw [if_neg hfit]
    exact iff_of_false (Outcome.not_returns_throws _) hfit

/-- The UPS replay comes back exactly if the target size is one a vector can have. -/
theorem UPSPatch.returns_replayTarget_iff (patch : UPSPatch) {source : Bytes}
    (hsource : source.length ≤ maxSize) :
    (patch.replayTarget source).Returns ↔ patch.targetSize.toNat ≤ maxSize := by
  have hmax := toNat_max_size hsource patch.targetSize
  rw [replayTarget]
  by_cases hfit : patch.targetSize.toNat ≤ maxSize
  · refine iff_of_true ?_ hfit
    apply Outcome.returns_bind
    · rw [returns_resize_iff, hmax]; exact max_le hsource hfit
    · intro output _
      rw [returns_resize_iff]; exact hfit
  -- the buffer itself is too large
  · rw [resize, if_neg (by rw [hmax]; omega)]
    exact iff_of_false (Outcome.not_returns_throws _) hfit

/-- The check of the target comes back if the replay does. -/
theorem returns_bind_targetCheck_iff (failure : Bytes → ErrorInfo) {replayed : Call Bytes}
    {p : Bytes → Prop} [DecidablePred p] :
    (replayed >>= fun target => if p target then .error (failure target) else .ok target).Returns ↔
      replayed.Returns := by
  cases replayed with
  | ok target =>
    rw [Outcome.ok_bind]
    split <;> simp
  | error e => rfl
  | throws thrown => rfl

/-- An error behind the replay comes from it or from the check of the target. -/
theorem bind_targetCheck_eq_error (failure : Bytes → ErrorInfo) {replayed : Call Bytes}
    {p : Bytes → Prop} [DecidablePred p] {e : ErrorInfo}
    (h : (replayed >>= fun target => if p target then .error (failure target) else .ok target)
      = .error e) : replayed = .error e ∨ ∃ target, e = failure target := by
  cases replayed with
  | ok target =>
    rw [Outcome.ok_bind] at h
    split at h
    · cases h; exact .inr ⟨target, rfl⟩
    · cases h
  | error e' => cases h; exact .inl rfl
  | throws thrown => cases h

/-- When no exception leaves `UPSPatch::apply`. -/
theorem UPSPatch.apply_comesBack_iff (patch : UPSPatch) {source : Bytes}
    (hsource : source.length ≤ maxSize) (options : PatchOptions) :
    (patch.apply source options).Returns ↔
      patch.targetSize.toNat ≤ maxSize ∨ patch.RejectsSource source options := by
  by_cases hreject : patch.RejectsSource source options
  · obtain ⟨e, he, -⟩ := UPSPatch.apply_of_rejects hreject
    rw [he]
    exact iff_of_true (Outcome.returns_error e) (.inr hreject)
  · rw [UPSPatch.apply_of_not_rejects hreject, returns_bind_targetCheck_iff,
      patch.returns_replayTarget_iff hsource, or_iff_left hreject]

/-- When no exception leaves `BPSPatch::apply`. -/
theorem BPSPatch.apply_comesBack_iff (patch : BPSPatch) (source : Bytes) (options : PatchOptions) :
    (patch.apply source options).Returns ↔
      patch.targetSize.toNat ≤ maxSize ∨ patch.RejectsSource source options := by
  by_cases hreject : patch.RejectsSource source options
  · obtain ⟨e, he, -⟩ := BPSPatch.apply_of_rejects hreject
    rw [he]
    exact iff_of_true (Outcome.returns_error e) (.inr hreject)
  · rw [BPSPatch.apply_of_not_rejects hreject, returns_bind_targetCheck_iff,
      patch.returns_replayTarget_iff, or_iff_left hreject]

/-- No exception leaves `IPSPatch::apply`. -/
theorem IPSPatch.apply_comesBack (patch : IPSPatch) (source : Bytes) (options : PatchOptions) :
    (patch.apply source options).Returns := by
  obtain ⟨target, htarget⟩ := patch.exists_apply_eq_ok source options
  rw [htarget]
  exact Outcome.returns_ok target

namespace Patch

/-- The source checks of `Patch::apply` fail; IPS has none. -/
def RejectsSource (patch : Patch) (source : Bytes) (options : PatchOptions) : Prop :=
  match patch with
  | .ips _ => False
  | .ups patch => patch.RejectsSource source options
  | .bps patch => patch.RejectsSource source options

/-- The declared target size, in the formats that declare one, is one a vector can have. -/
def TargetFits : Patch → Prop
  | .ips _ => True
  | .ups patch => patch.targetSize.toNat ≤ maxSize
  | .bps patch => patch.targetSize.toNat ≤ maxSize

/-- **When no exception leaves `apply`.** For every patch, every source that fits a vector and every
options, `apply` comes back with a value or an error exactly when the declared target size is one a
vector can have, or the source checks reject the source before that size is asked for. -/
theorem returns_apply_iff (patch : Patch) {source : Bytes} (hsource : source.length ≤ maxSize)
    (options : PatchOptions) :
    (patch.apply source options).Returns ↔
      patch.TargetFits ∨ patch.RejectsSource source options := by
  cases patch with
  | ips patch => exact iff_of_true (patch.apply_comesBack source options) (.inl trivial)
  | ups patch => exact patch.apply_comesBack_iff hsource options
  | bps patch => exact patch.apply_comesBack_iff source options

/-- A BPS patch onto an empty source that declares a target of `2^63` bytes: it is accepted, and
applying it throws. -/
theorem not_returns_apply_hugeTarget :
    ∃ patch, loadPatchFromMemory (bpsMagic ++ encodeNum 0 ++ encodeNum (2 ^ 63) ++ encodeNum 0
        ++ List.replicate 12 0) = .ok patch ∧ ¬ (patch.apply [] {}).Returns := by
  have hthrows : (loadPatchFromMemory (bpsMagic ++ encodeNum 0 ++ encodeNum (2 ^ 63) ++ encodeNum 0
      ++ List.replicate 12 0) >>= fun patch => .ok (patch.apply [] {}) : Call (Call Bytes))
      = .ok (.throws .lengthError) := by
    decide +kernel
  obtain ⟨patch, hload, happly⟩ := Outcome.bind_eq_ok_iff.mp hthrows
  refine ⟨patch, hload, ?_⟩
  rw [Outcome.ok.inj happly]
  exact Outcome.not_returns_throws _

/-- A UPS patch that declares three bytes for one; and a BPS patch that declares `2^63` bytes, on a
source which it rejects first. -/
theorem returns_apply_declaredSizes :
    ((Patch.ups ⟨[], 1, 3, 0, 0, 0, [⟨1, [5, 6]⟩]⟩).apply [7] { verifyChecksums := false }).Returns ∧
      ((Patch.bps ⟨[], 1, 0x8000000000000000, 0, [], 0, 0, 0, [], 0⟩).apply [] {}).Returns :=
  ⟨(returns_apply_iff (.ups ⟨[], 1, 3, 0, 0, 0, [⟨1, [5, 6]⟩]⟩) (by decide) _).mpr
      (.inl (show (3 : UInt64).toNat ≤ maxSize by decide)),
    (returns_apply_iff (.bps ⟨[], 1, 0x8000000000000000, 0, [], 0, 0, 0, [], 0⟩) (by decide) _).mpr
      (.inr (.inl (show size [] ≠ 1 by decide)))⟩

end Patch

end IUBPatch
