import IUBPatch.Formats.BPS
import IUBPatch.Formats.IPS
import IUBPatch.Formats.UPS

/-! # Patches of any format

`patch_base.cc`: the format is told from the first bytes, and the loader of that format does the
rest. -/

namespace IUBPatch

/-- `class Patch`: a loaded patch of one of the three formats. -/
inductive Patch where
  | ips (patch : IPSPatch)
  | ups (patch : UPSPatch)
  | bps (patch : BPSPatch)
  deriving DecidableEq

namespace Patch

/-- `Patch::get_metadata`. -/
def getMetadata : Patch → Result PatchMetadata
  | .ips patch => patch.getMetadata
  | .ups patch => patch.getMetadata
  | .bps patch => patch.getMetadata

/-- `Patch::apply`. -/
def apply (patch : Patch) (source : Bytes) (options : PatchOptions) : Call Bytes :=
  match patch with
  | .ips patch => patch.apply source options
  | .ups patch => patch.apply source options
  | .bps patch => patch.apply source options

/-- `Patch::validate`. -/
def validate : Patch → Result Unit
  | .ips patch => patch.validate
  | .ups patch => patch.validate
  | .bps patch => patch.validate

end Patch

/-- `detect_format_from_memory`. -/
def detectFormatFromMemory (patchData : Bytes) : Result Format :=
  if patchData.length < 4 then
    .error { code := .invalidPatchFormat, message := "Patch data too small" }
  else if patchData.length ≥ 5 ∧ patchData.take 5 = ipsMagic then .ok .ips
  else if patchData.length ≥ 4 ∧ patchData.take 4 = upsMagic then .ok .ups
  else if patchData.length ≥ 4 ∧ patchData.take 4 = bpsMagic then .ok .bps
  else .error { code := .invalidPatchFormat, message := "Unknown patch format" }

/-- `load_patch_from_memory`. -/
def loadPatchFromMemory (patchData : Bytes) : Call Patch := do
  let format ← .ofExcept (detectFormatFromMemory patchData)
  match format with
  | .ips => do
    let patch ← .ofExcept (IPSPatch.load patchData)
    pure (.ips patch)
  | .ups => do
    let patch ← .ofExcept (UPSPatch.load patchData)
    pure (.ups patch)
  | .bps => do
    let patch ← BPSPatch.load patchData
    pure (.bps patch)
  | .unknown =>
    .error { code := .unsupportedPatchVersion, message := "Unsupported patch format" }

/-- A loaded patch comes from the loader of its own format. -/
theorem loadPatchFromMemory_eq_ok {P : Bytes} {patch : Patch}
    (h : loadPatchFromMemory P = .ok patch) :
    match patch with
    | .ips ips => IPSPatch.load P = .ok ips
    | .ups ups => UPSPatch.load P = .ok ups
    | .bps bps => BPSPatch.load P = .ok bps := by
  rw [loadPatchFromMemory] at h
  obtain ⟨format, -, h⟩ := Outcome.bind_eq_ok_iff.mp h
  cases format with
  | unknown => cases h
  | ips =>
    obtain ⟨ips, hload, hpatch⟩ := Outcome.bind_eq_ok_iff.mp h
    cases hpatch
    exact Outcome.ofExcept_eq_ok_iff.mp hload
  | ups =>
    obtain ⟨ups, hload, hpatch⟩ := Outcome.bind_eq_ok_iff.mp h
    cases hpatch
    exact Outcome.ofExcept_eq_ok_iff.mp hload
  | bps =>
    obtain ⟨bps, hload, hpatch⟩ := Outcome.bind_eq_ok_iff.mp h
    cases hpatch
    exact hload

/-! ### Dispatch -/

/-- `Patch::get_format`. -/
def Patch.getFormat : Patch → Format
  | .ips _ => .ips
  | .ups _ => .ups
  | .bps _ => .bps

/-- The loader of the patch's own format makes it of the bytes. -/
def Patch.LoadedBy (patch : Patch) (P : Bytes) : Prop :=
  match patch with
  | .ips patch => IPSPatch.load P = .ok patch
  | .ups patch => UPSPatch.load P = .ok patch
  | .bps patch => BPSPatch.load P = .ok patch

/-- An accepted file is long enough for its format and begins with its magic. -/
theorem Patch.LoadedBy.magic {patch : Patch} {P : Bytes} (h : patch.LoadedBy P) :
    match patch with
    | .ips _ => 8 ≤ P.length ∧ P.take 5 = ipsMagic
    | .ups _ => 16 ≤ P.length ∧ P.take 4 = upsMagic
    | .bps _ => 16 ≤ P.length ∧ P.take 4 = bpsMagic := by
  cases patch with
  | ips patch =>
    have hload : IPSPatch.load P = .ok patch := h
    rw [IPSPatch.load] at hload
    by_cases hlong : P.length < ipsHeaderSize + ipsEofSize
    · rw [if_pos hlong] at hload; cases hload
    · by_cases hmagic : P.take ipsHeaderSize = ipsMagic
      · exact ⟨Nat.not_lt.mp hlong, hmagic⟩
      · rw [if_neg hlong, if_pos hmagic] at hload; cases hload
  | ups patch =>
    obtain ⟨hlong, hmagic, -⟩ := UPSPatch.load_eq_ok h
    exact ⟨Nat.not_lt.mp hlong, hmagic⟩
  | bps patch =>
    have hload : BPSPatch.load P = .ok patch := h
    rw [BPSPatch.load] at hload
    by_cases hlong : P.length < bpsHeaderSize + 12
    · rw [if_pos hlong] at hload; cases hload
    · by_cases hmagic : P.take bpsHeaderSize = bpsMagic
      · exact ⟨Nat.not_lt.mp hlong, hmagic⟩
      · rw [if_neg hlong, if_pos hmagic] at hload; cases hload

/-- Four bytes of a magic of five. -/
theorem take_four_of_take_five {P : Bytes} (h : P.take 5 = ipsMagic) :
    P.take 4 = [0x50, 0x41, 0x54, 0x43] := by
  have htake : (P.take 5).take 4 = P.take 4 := List.take_take ..
  rw [← htake, h]
  rfl

/-- A file with the magic of BPS is told as one. -/
theorem detectFormatFromMemory_of_take_eq_bpsMagic {P : Bytes} (h : P.take bpsHeaderSize = bpsMagic) :
    detectFormatFromMemory P = .ok .bps := by
  have hlong : ¬ P.length < 4 := by
    have hlength := congrArg List.length h
    rw [List.length_take, bpsHeaderSize, show bpsMagic.length = 4 from rfl] at hlength
    omega
  have hips : ¬ (P.length ≥ 5 ∧ P.take 5 = ipsMagic) := by
    rintro ⟨-, h5⟩
    rw [bpsHeaderSize, take_four_of_take_five h5] at h
    exact absurd h (by decide)
  have hups : ¬ (P.length ≥ 4 ∧ P.take 4 = upsMagic) := by
    rintro ⟨-, h4⟩
    rw [bpsHeaderSize, h4] at h
    exact absurd h (by decide)
  rw [detectFormatFromMemory, if_neg hlong, if_neg hips, if_neg hups, if_pos ⟨by omega, h⟩]

/-- The format of an accepted file is told from its first bytes. -/
theorem Patch.LoadedBy.detectFormatFromMemory {patch : Patch} {P : Bytes} (h : patch.LoadedBy P) :
    detectFormatFromMemory P = .ok patch.getFormat := by
  have hmagic := h.magic
  rw [IUBPatch.detectFormatFromMemory]
  cases patch with
  | ips ips =>
    obtain ⟨hlong, hmagic⟩ := hmagic
    rw [if_neg (by omega), if_pos ⟨by omega, hmagic⟩]
    rfl
  | ups ups =>
    obtain ⟨hlong, hmagic⟩ := hmagic
    have hips : ¬ (P.length ≥ 5 ∧ P.take 5 = ipsMagic) := by
      rintro ⟨-, h5⟩
      rw [take_four_of_take_five h5] at hmagic
      exact absurd hmagic (by decide)
    rw [if_neg (by omega), if_neg hips, if_pos ⟨by omega, hmagic⟩]
    rfl
  | bps bps => exact detectFormatFromMemory_of_take_eq_bpsMagic hmagic.2

/-- **The dispatcher adds and loses nothing**: it comes back with a patch exactly where the loader of
the patch's own format does, and with the same one. -/
theorem loadPatchFromMemory_eq_ok_iff {P : Bytes} {patch : Patch} :
    loadPatchFromMemory P = .ok patch ↔ patch.LoadedBy P := by
  constructor
  · intro h
    have hloaded := loadPatchFromMemory_eq_ok h
    cases patch with
    | ips ips => exact hloaded
    | ups ups => exact hloaded
    | bps bps => exact hloaded
  · intro h
    rw [loadPatchFromMemory, h.detectFormatFromMemory, Outcome.ofExcept_ok, Outcome.ok_bind]
    cases patch with
    | ips ips =>
      have hload : IPSPatch.load P = .ok ips := h
      rw [Patch.getFormat, hload]
      rfl
    | ups ups =>
      have hload : UPSPatch.load P = .ok ups := h
      rw [Patch.getFormat, hload]
      rfl
    | bps bps =>
      have hload : BPSPatch.load P = .ok bps := h
      rw [Patch.getFormat, hload]
      rfl

end IUBPatch
