import IUBPatch.Crc32Bitwise
import IUBPatch.Validation

/-! # What the checksum catches

Four consecutive bytes fit the register of the checksum, so two inputs that differ there alone have
different checksums, wherever the four bytes stand. A source damaged in such a window is rejected by
everything that checks the source. -/

namespace IUBPatch

/-! ### Two inputs that differ in a window -/

/-- A byte as a symbol for the register. -/
def crc32Symbol (b : Byte) : BitVec 32 := b.toUInt32.toBitVec

theorem crc32Symbol_injective : Function.Injective crc32Symbol := by
  intro a b h
  have hnat := congrArg BitVec.toNat h
  rw [crc32Symbol, crc32Symbol, UInt32.toNat_toBitVec, UInt32.toNat_toBitVec, UInt8.toNat_toUInt32,
    UInt8.toNat_toUInt32] at hnat
  exact UInt8.toNat_inj.mp hnat

/-- The loop of `calc_crc32` feeds the bytes to the register. -/
theorem toBitVec_foldl_crc32Step (crc : UInt32) (data : Bytes) :
    (data.foldl crc32Step crc).toBitVec
      = (data.map crc32Symbol).foldl (ShiftRegister.feed crc32Poly.toBitVec 8) crc.toBitVec := by
  induction data generalizing crc with
  | nil => rfl
  | cons b data ih =>
    rw [List.foldl_cons, ih, crc32Step_eq, toBitVec_crc32ByteStep, List.map_cons, List.foldl_cons,
      crc32Symbol]

/-- Bytes are symbols of eight bits. -/
theorem fits_map_crc32Symbol (data : Bytes) : ShiftRegister.Fits 8 (data.map crc32Symbol) := by
  intro symbol hsymbol i hi
  obtain ⟨b, -, rfl⟩ := List.mem_map.mp hsymbol
  exact getLsbD_toUInt32_of_le b hi

/-- The register of the checksum loses nothing. -/
theorem crc32Poly_top : crc32Poly.toBitVec.msb = true := by decide

/-- **A window of four bytes decides the checksum**: with the same bytes before and after them,
different bytes have different checksums. -/
theorem calcCrc32_ne_of_window (p s : Bytes) {w w' : Bytes} (hlength : w.length = w'.length)
    (hshort : w.length ≤ 4) (hne : w ≠ w') :
    calcCrc32 (p ++ w ++ s) ≠ calcCrc32 (p ++ w' ++ s) := by
  intro hcrc
  have hstates : (p ++ w ++ s).foldl crc32Step 0xFFFFFFFF
      = (p ++ w' ++ s).foldl crc32Step 0xFFFFFFFF := (UInt32.xor_left_inj _).mp hcrc
  have hfed := congrArg UInt32.toBitVec hstates
  rw [toBitVec_foldl_crc32Step, toBitVec_foldl_crc32Step] at hfed
  simp only [List.map_append, List.foldl_append] at hfed
  -- back over the bytes behind the window, then over the window itself
  have hwindow := ShiftRegister.foldl_feed_state_injective _ crc32Poly_top _ hfed
  have hsymbols := ShiftRegister.foldl_feed_injective _ crc32Poly_top (fits_map_crc32Symbol w)
    (fits_map_crc32Symbol w') (by simpa using hlength) (by rw [List.length_map]; omega) hwindow
  exact hne (List.map_injective_iff.mpr crc32Symbol_injective hsymbols)

/-- Two byte strings of one length that differ, and only inside four consecutive bytes. -/
structure DifferInWindow (S S' : Bytes) : Prop where
  length_eq : S.length = S'.length
  ne : S ≠ S'
  outside : ∃ start, ∀ i, i < start ∨ start + 4 ≤ i → S[i]? = S'[i]?

/-- Byte strings that differ in a window are one prefix and one suffix around it. -/
theorem DifferInWindow.exists_append {S S' : Bytes} (h : DifferInWindow S S') :
    ∃ p w w' s, S = p ++ w ++ s ∧ S' = p ++ w' ++ s ∧ w.length = w'.length ∧ w.length ≤ 4 ∧
      w ≠ w' := by
  obtain ⟨start, houtside⟩ := h.outside
  have hbefore : S.take start = S'.take start := by
    apply List.ext_getElem?
    intro i
    by_cases hi : i < start
    · rw [List.getElem?_take_of_lt hi, List.getElem?_take_of_lt hi, houtside i (.inl hi)]
    · rw [List.getElem?_take_eq_none (Nat.not_lt.mp hi),
        List.getElem?_take_eq_none (Nat.not_lt.mp hi)]
  have hbehind : S.drop (start + 4) = S'.drop (start + 4) := by
    apply List.ext_getElem?
    intro i
    rw [List.getElem?_drop, List.getElem?_drop, houtside _ (.inr (Nat.le_add_right _ i))]
  have hsplit : ∀ bytes : Bytes,
      bytes = bytes.take start ++ slice bytes start 4 ++ bytes.drop (start + 4) := by
    intro bytes
    rw [slice, List.append_assoc, ← List.drop_drop, List.take_append_drop, List.take_append_drop]
  refine ⟨S.take start, slice S start 4, slice S' start 4, S.drop (start + 4), hsplit S, ?_, ?_,
    List.length_take_le _ _, ?_⟩
  · rw [hbefore, hbehind]; exact hsplit S'
  · simp only [slice, List.length_take, List.length_drop, h.length_eq]
  · intro hwindow
    apply h.ne
    rw [hsplit S, hsplit S', hbefore, hbehind, hwindow]

/-- Damage inside a window changes the checksum. -/
theorem DifferInWindow.calcCrc32_ne {S S' : Bytes} (h : DifferInWindow S S') :
    calcCrc32 S' ≠ calcCrc32 S := by
  obtain ⟨p, w, w', s, rfl, rfl, hlength, hshort, hne⟩ := h.exists_append
  exact (calcCrc32_ne_of_window p s hlength hshort hne).symm

/-! ### A damaged source -/

/-- A source of the declared size with another checksum is rejected for its checksum. -/
theorem Patch.apply_of_wrongCrc {patch : Patch} {metadata : PatchMetadata} {source : Bytes}
    (hmetadata : patch.getMetadata = .ok metadata) (hchecksums : metadata.hasChecksums = true)
    (hsize : size source = metadata.srcSize) (hcrc : calcCrc32 source ≠ metadata.sourceChecksum)
    {options : PatchOptions} (hverify : options.verifyChecksums = true) :
    ∃ e, patch.apply source options = .error e ∧ e.code = .checksumMismatch := by
  cases patch with
  | ips patch => cases hmetadata; cases hchecksums
  | ups patch =>
    cases hmetadata
    show ∃ e, patch.apply source options = .error e ∧ e.code = .checksumMismatch
    rw [UPSPatch.apply, if_neg fun hfail => hfail.2 hsize, if_pos ⟨hverify, hcrc⟩]
    exact ⟨_, rfl, rfl⟩
  | bps patch =>
    cases hmetadata
    show ∃ e, patch.apply source options = .error e ∧ e.code = .checksumMismatch
    rw [BPSPatch.apply, if_neg (not_not.mpr hsize), if_pos ⟨hverify, hcrc⟩]
    exact ⟨_, rfl, rfl⟩

/-- The source checks of `validate_patch` reject it for its checksum too. -/
theorem checkSource_of_wrongCrc {metadata : PatchMetadata} {source : Bytes}
    (hsize : size source = metadata.srcSize) (hcrc : calcCrc32 source ≠ metadata.sourceChecksum) :
    ∃ e, checkSource metadata source = .error e ∧ e.code = .checksumMismatch := by
  rw [checkSource, if_neg fun hfail => hfail.2 hsize, if_pos hcrc]
  exact ⟨_, rfl, rfl⟩

/-- **Short damage is caught.** Inputs that differ in up to four consecutive bytes have different
checksums. So where a source has the size and the checksum that a loaded UPS or BPS patch declares,
every source that differs from it inside a window of four bytes is rejected for its checksum, by
`apply` with verification and by `validate_patch` of a valid patch. -/
theorem window_damage_caught :
    (∀ p s w w' : Bytes, w.length = w'.length → w.length ≤ 4 → w ≠ w' →
      calcCrc32 (p ++ w ++ s) ≠ calcCrc32 (p ++ w' ++ s)) ∧
    ∀ (P S S' : Bytes) (patch : Patch) (metadata : PatchMetadata),
      loadPatchFromMemory P = .ok patch → patch.getMetadata = .ok metadata →
      metadata.hasChecksums = true → S.length = metadata.srcSize.toNat →
      calcCrc32 S = metadata.sourceChecksum → DifferInWindow S S' →
      (∀ options : PatchOptions, options.verifyChecksums = true →
        ∃ e, patch.apply S' options = .error e ∧ e.code = .checksumMismatch) ∧
      (patch.validate = .ok () → ∀ (patchPath sourcePath : Path) (world : World)
        (options : PatchOptions),
        world.files patchPath = some P → world.files sourcePath = some S' →
        ∃ e, (validatePatch {} patchPath sourcePath options world).1 = .error e ∧
          e.code = .checksumMismatch) := by
  refine ⟨fun p s w w' => calcCrc32_ne_of_window p s, ?_⟩
  intro P S S' patch metadata hload hmetadata hchecksums hlength hcrc hdamage
  have hsize : size S' = metadata.srcSize := by
    rw [size, ← hdamage.length_eq, hlength, UInt64.ofNat_toNat]
  have hwrong : calcCrc32 S' ≠ metadata.sourceChecksum := hcrc ▸ hdamage.calcCrc32_ne
  constructor
  · intro options hverify
    exact Patch.apply_of_wrongCrc hmetadata hchecksums hsize hwrong hverify
  · intro hvalid patchPath sourcePath world options hpatch hsource
    obtain ⟨e, he, hcode⟩ := checkSource_of_wrongCrc hsize hwrong
    rw [validatePatch_faultless hload hvalid hmetadata hpatch hsource, if_pos hchecksums, he]
    exact ⟨e, rfl, hcode⟩

/-- A valid BPS patch of an empty target from the one byte 7. -/
def sizedPatch : Bytes :=
  let body := bpsMagic ++ [0x81, 0x80, 0x80] ++ uint32Bytes (calcCrc32 [7]) ++ uint32Bytes 0
  body ++ uint32Bytes (calcCrc32 body)

/-- One changed byte between two others; and a source of one byte, changed, for the patch. -/
theorem window_damage_caught_byte :
    calcCrc32 [1, 2, 3] ≠ calcCrc32 [1, 7, 3] ∧
      ∃ patch, loadPatchFromMemory sizedPatch = .ok patch ∧
        (∃ e, patch.apply [8] {} = .error e ∧ e.code = .checksumMismatch) ∧
        ∃ e, (validatePatch {} "patch" "source" {}
            ⟨fun path => if path = "patch" then some sizedPatch else some [8], 0⟩).1 = .error e ∧
          e.code = .checksumMismatch := by
  have hrun : (loadPatchFromMemory sizedPatch >>= fun patch =>
      .ok (patch.validate, patch.getMetadata) : Call (Result Unit × Result PatchMetadata))
        = .ok (.ok (), .ok { format := .bps, hasChecksums := true, srcSize := 1
                             sourceChecksum := calcCrc32 [7] }) := by
    decide +kernel
  obtain ⟨patch, hload, hresults⟩ := Outcome.bind_eq_ok_iff.mp hrun
  obtain ⟨hvalid, hmetadata⟩ := Prod.mk.inj (Outcome.ok.inj hresults)
  have hdamage : DifferInWindow [7] [8] := by
    refine ⟨rfl, by decide, 0, fun i hi => ?_⟩
    have hlong : 1 ≤ i := by omega
    rw [List.getElem?_eq_none hlong, List.getElem?_eq_none hlong]
  obtain ⟨happly, hvalidate⟩ := window_damage_caught.2 sizedPatch [7] [8] patch _ hload hmetadata rfl
    rfl rfl hdamage
  exact ⟨window_damage_caught.1 [1] [3] [2] [7] rfl (by decide) (by decide), patch, hload,
    happly {} rfl, hvalidate hvalid "patch" "source" _ {} rfl rfl⟩

end IUBPatch
