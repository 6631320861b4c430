import IUBPatch.Formats.BPSLayout

/-! # Loading a BPS patch inside its bytes

The number decoder never leaves the patch, so the loader could only do so at the metadata. Their check
adds in 64 bits: a size that takes the sum past `2^64` passes it, and is then handed to `assign`. -/

namespace IUBPatch.BPS

/-- The check of the metadata, which is made for a size other than zero, does not reject them. -/
def MetadataPasses (P : Bytes) : Prop :=
  ¬ (declaredMetadataSize P > 0 ∧
    UInt64.ofNat (metadataOffset P) + declaredMetadataSize P > size P)

instance (P : Bytes) : Decidable (MetadataPasses P) := inferInstanceAs (Decidable (¬ _))

/-- Loading comes back, and reads inside the patch alone: what the metadata check lets pass ends within
it, and `offset` goes from the header through the commands without a step back or past the end. -/
structure LoadsInside (P : Bytes) : Prop where
  returns : (BPSPatch.load P).Returns
  metadata : bpsHeaderSize + 12 ≤ P.length → P.take bpsHeaderSize = bpsMagic → MetadataPasses P →
    metadataEnd P ≤ P.length
  header : bpsHeaderSize + 12 ≤ P.length → bpsHeaderSize ≤ targetSizeOffset P ∧
    targetSizeOffset P ≤ metadataSizeOffset P ∧ metadataSizeOffset P ≤ metadataOffset P ∧
    metadataOffset P ≤ P.length
  region : ∀ patch, BPSPatch.load P = .ok patch → metadataOffset P ≤ patch.dataOffset ∧
    patch.dataOffset ≤ P.length
  commands : ∀ patch, BPSPatch.load P = .ok patch → ∀ offset,
    WhileLoop.Visits (Running P) (turn P) patch.dataOffset offset → Running P offset →
      offset < turn P offset ∧ turn P offset ≤ P.length

/-- The header is read forward, inside the patch. -/
theorem header_forward {P : Bytes} (hlong : bpsHeaderSize ≤ P.length) :
    bpsHeaderSize ≤ targetSizeOffset P ∧ targetSizeOffset P ≤ metadataSizeOffset P ∧
      metadataSizeOffset P ≤ metadataOffset P ∧ metadataOffset P ≤ P.length :=
  ⟨le_decodeBpsNum P _, le_decodeBpsNum P _, le_decodeBpsNum P _, metadataOffset_le hlong⟩

/-- One turn of the command loop goes forward, inside the patch. -/
theorem turn_forward {P : Bytes} {offset : Nat} (h : Running P offset) :
    offset < turn P offset ∧ turn P offset ≤ P.length := by
  unfold Running at h
  refine ⟨lt_parseCommand (by omega), ?_⟩
  have hfirst : (decodeBpsNum P offset).2 ≤ P.length := by
    rw [decodeBpsNum_snd]
    exact numberEnd_le (by omega)
  rw [turn, parseCommand]
  dsimp only
  split
  · rw [decodeBpsNum_snd]
    exact numberEnd_le hfirst
  · exact hfirst

/-- The metadata of an accepted patch end inside it. -/
theorem dataOffset_inside {P : Bytes} {patch : BPSPatch} (hfit : P.length ≤ maxSize)
    (hload : BPSPatch.load P = .ok patch) :
    metadataOffset P ≤ patch.dataOffset ∧ patch.dataOffset ≤ P.length := by
  have hlong : ¬ P.length < bpsHeaderSize + 12 := by
    have hlength := (BPSPatch.load_eq_ok hload).1
    rw [bpsHeaderSize]
    omega
  rcases load_cases hfit hlong (load_header hload).1 with
    ⟨hin, patch', hload', hend⟩ | ⟨-, -, e, he⟩ | ⟨-, hthrows⟩
  · obtain rfl : patch' = patch := Outcome.ok.inj (hload'.symm.trans hload)
    exact ⟨by rw [hend, metadataEnd]; exact Nat.le_add_right _ _, hend ▸ hin⟩
  · cases he.symm.trans hload
  · cases hthrows.symm.trans hload

/-- What the check lets pass ends inside the patch, if its end is a 64-bit number. -/
theorem metadataEnd_le {P : Bytes} (hfit : P.length ≤ maxSize) (hlong : bpsHeaderSize ≤ P.length)
    (hexact : metadataEnd P < 2 ^ 64) (hpasses : MetadataPasses P) : metadataEnd P ≤ P.length := by
  have hoffset := metadataOffset_le hlong
  by_cases hzero : declaredMetadataSize P > 0
  · have hsum : ¬ UInt64.ofNat (metadataOffset P) + declaredMetadataSize P > size P :=
      fun hover => hpasses ⟨hzero, hover⟩
    rw [gt_iff_lt, UInt64.lt_iff_toNat_lt, toNat_size hfit, UInt64.toNat_add, UInt64.toNat_ofNat',
      Nat.mod_add_mod] at hsum
    rw [metadataEnd] at hexact ⊢
    rw [Nat.mod_eq_of_lt hexact] at hsum
    omega
  · -- no metadata
    have hnone : (declaredMetadataSize P).toNat = 0 := by
      rw [gt_iff_lt, UInt64.lt_iff_toNat_lt, UInt64.toNat_zero] at hzero
      omega
    rw [metadataEnd, hnone]
    exact hoffset

/-- The load of a patch with a header comes back exactly if the end of its metadata is a 64-bit
number. -/
theorem returns_load_iff {P : Bytes} (hfit : P.length ≤ maxSize)
    (hlong : ¬ P.length < bpsHeaderSize + 12) (hmagic : P.take bpsHeaderSize = bpsMagic) :
    (BPSPatch.load P).Returns ↔ metadataEnd P < 2 ^ 64 := by
  unfold maxSize at hfit
  rcases load_cases hfit hlong hmagic with
    ⟨hin, patch, hload, -⟩ | ⟨-, hexact, e, he⟩ | ⟨hwraps, hthrows⟩
  · rw [hload]
    exact iff_of_true (Outcome.returns_ok _) (by omega)
  · rw [he]
    exact iff_of_true (Outcome.returns_error _) hexact
  · rw [hthrows]
    exact iff_of_false (Outcome.not_returns_throws _) (by omega)

/-- Loading comes back exactly if the patch is rejected for its size or its magic, or the end of the
metadata is a 64-bit number. -/
theorem load_comesBack_iff {P : Bytes} (hfit : P.length ≤ maxSize) :
    (BPSPatch.load P).Returns ↔
      P.length < bpsHeaderSize + 12 ∨ P.take bpsHeaderSize ≠ bpsMagic ∨ metadataEnd P < 2 ^ 64 := by
  by_cases hrejected : P.length < bpsHeaderSize + 12 ∨ P.take bpsHeaderSize ≠ bpsMagic
  · obtain ⟨e, he⟩ := load_eq_error hrejected
    rw [he]
    exact iff_of_true (Outcome.returns_error e) (or_assoc.mp (.inl hrejected))
  · obtain ⟨hlong, hmagic⟩ := not_or.mp hrejected
    rw [or_iff_right hlong, or_iff_right hmagic]
    exact returns_load_iff hfit hlong (not_not.mp hmagic)

/-- **When loading a BPS patch is total and stays inside it.** For bytes that fit a vector: exactly if
they are rejected for their size or their magic, or the end of the metadata that the header declares is
a 64-bit number. -/
theorem load_inside_iff {P : Bytes} (hfit : P.length ≤ maxSize) :
    LoadsInside P ↔
      P.length < bpsHeaderSize + 12 ∨ P.take bpsHeaderSize ≠ bpsMagic ∨ metadataEnd P < 2 ^ 64 := by
  constructor
  · exact fun h => (load_comesBack_iff hfit).mp h.returns
  · intro h
    constructor
    case returns => exact (load_comesBack_iff hfit).mpr h
    case metadata =>
      intro hlong hmagic hpasses
      rcases h with hshort | hother | hexact
      · omega
      · exact absurd hmagic hother
      · exact metadataEnd_le hfit (by omega) hexact hpasses
    case header => exact fun hlong => header_forward (by omega)
    case region => exact fun patch hload => dataOffset_inside hfit hload
    case commands => exact fun patch _ offset _ hrunning => turn_forward hrunning

/-- A patch whose metadata would be `2^64 - 1` bytes long. -/
def endlessMetadata : Bytes :=
  bpsMagic ++ [0x80, 0x80] ++ [0x7F, 0x7E, 0x7E, 0x7E, 0x7E, 0x7E, 0x7E, 0x7E, 0x7E, 0x80]

/-- Their end wraps to the end of the patch less one byte, passes the check, and `assign` throws. -/
theorem not_load_inside :
    MetadataPasses endlessMetadata ∧ endlessMetadata.length < metadataEnd endlessMetadata ∧
      BPSPatch.load endlessMetadata = .throws .lengthError ∧ ¬ LoadsInside endlessMetadata := by
  have hthrows : BPSPatch.load endlessMetadata = .throws .lengthError := by decide +kernel
  refine ⟨by decide +kernel, by decide +kernel, hthrows, fun h => ?_⟩
  have hreturns := h.returns
  rw [hthrows] at hreturns
  exact Outcome.not_returns_throws _ hreturns

/-- A patch with one byte of metadata. -/
theorem load_inside_oneByte :
    LoadsInside (bpsMagic ++ [0x80, 0x80, 0x81, 0x41] ++ List.replicate 12 0) :=
  (load_inside_iff (by decide)).mpr (.inr (.inr (by decide +kernel)))

end IUBPatch.BPS
