import IUBPatch.Crc32Detection
import IUBPatch.Formats.BPSLoad

/-! # A patch file carries its own checksum

UPS and BPS files end in the checksum of everything before it, so the checksum of a whole valid file
is one constant, whatever the file. That makes `validate` a check of the whole file, the stored
checksum included, and it catches damage within four bytes anywhere in it. -/

namespace IUBPatch

/-- The checksum of every file that ends in its own checksum. -/
def crc32Residue : UInt32 := 0x2144DF1C

/-! ### A checksum behind the data -/

/-- The bytes of a word are its symbols. -/
theorem map_crc32Symbol_uint32Bytes (word : UInt32) :
    (uint32Bytes word).map crc32Symbol = ShiftRegister.unpack 8 4 word.toBitVec := by
  have hbyte : ∀ (n : Nat) (x : BitVec 32), x.toNat = n →
      crc32Symbol (UInt8.ofNat n) = (x.setWidth 8).setWidth 32 := by
    intro n x hx
    apply BitVec.eq_of_toNat_eq
    rw [crc32Symbol, UInt32.toNat_toBitVec, UInt8.toNat_toUInt32, UInt8.toNat_ofNat',
      BitVec.toNat_setWidth, BitVec.toNat_setWidth, hx]
    omega
  -- each byte of the word is a quotient by a power of 256, as its symbol is a shift
  have hshift : ∀ (x : BitVec 32), (x >>> 8).toNat = x.toNat / 256 := by
    intro x
    rw [BitVec.toNat_ushiftRight, Nat.shiftRight_eq_div_pow]
  have h0 : word.toBitVec.toNat = word.toNat := rfl
  have h1 : (word.toBitVec >>> 8).toNat = word.toNat / 256 := by rw [hshift, h0]
  have h2 : (word.toBitVec >>> 8 >>> 8).toNat = word.toNat / 65536 := by
    rw [hshift, h1, Nat.div_div_eq_div_mul]
  have h3 : (word.toBitVec >>> 8 >>> 8 >>> 8).toNat = word.toNat / 16777216 := by
    rw [hshift, h2, Nat.div_div_eq_div_mul]
  simp only [uint32Bytes, List.map_cons, List.map_nil, ShiftRegister.unpack, hbyte _ _ h0,
    hbyte _ _ h1, hbyte _ _ h2, hbyte _ _ h3]

/-- Four bytes in front of an end fill the register, as the word they spell. -/
theorem toBitVec_foldl_uint32Bytes (crc word : UInt32) :
    ((uint32Bytes word).foldl crc32Step crc).toBitVec
      = (ShiftRegister.step crc32Poly.toBitVec)^[32] (crc.toBitVec ^^^ word.toBitVec) := by
  rw [toBitVec_foldl_crc32Step, map_crc32Symbol_uint32Bytes,
    ShiftRegister.foldl_feed_eq _ (ShiftRegister.fits_unpack 8 4 word.toBitVec) (by simp),
    ShiftRegister.length_unpack, ShiftRegister.pack_unpack (by decide)]

/-- **A word behind the data**: the checksum sees only what it differs by from the checksum of the
data. -/
theorem calcCrc32_append_uint32Bytes (data : Bytes) (word : UInt32) :
    calcCrc32 (data ++ uint32Bytes word) = calcCrc32 (uint32Bytes (calcCrc32 data ^^^ word)) := by
  have hstate : (uint32Bytes word).foldl crc32Step (data.foldl crc32Step 0xFFFFFFFF)
      = (uint32Bytes (calcCrc32 data ^^^ word)).foldl crc32Step 0xFFFFFFFF := by
    apply UInt32.toBitVec_inj.mp
    rw [toBitVec_foldl_uint32Bytes, toBitVec_foldl_uint32Bytes, ← UInt32.toBitVec_xor,
      ← UInt32.toBitVec_xor, calcCrc32]
    congr 2
    -- the final inversion of the checksum undoes the initial one
    have hregroup : (0xFFFFFFFF : UInt32) ^^^ (data.foldl crc32Step 0xFFFFFFFF ^^^ 0xFFFFFFFF ^^^ word)
        = (0xFFFFFFFF ^^^ 0xFFFFFFFF) ^^^ (data.foldl crc32Step 0xFFFFFFFF ^^^ word) := by ac_rfl
    rw [hregroup, UInt32.xor_self, UInt32.zero_xor]
  rw [calcCrc32, List.foldl_append, hstate]
  rfl

/-- Different words have different checksums. -/
theorem calcCrc32_uint32Bytes_inj {word word' : UInt32} :
    calcCrc32 (uint32Bytes word) = calcCrc32 (uint32Bytes word') ↔ word = word' := by
  refine ⟨fun h => ?_, fun h => by rw [h]⟩
  by_contra hne
  have hbytes : uint32Bytes word ≠ uint32Bytes word' := by
    intro heq
    have hword := congrArg littleEndian heq
    rw [littleEndian_uint32Bytes, littleEndian_uint32Bytes] at hword
    exact hne (UInt32.toNat_inj.mp hword)
  have hcrc : calcCrc32 ([] ++ uint32Bytes word ++ []) ≠ calcCrc32 ([] ++ uint32Bytes word' ++ []) :=
    calcCrc32_ne_of_window [] [] rfl (Nat.le_refl 4) hbytes
  rw [List.nil_append, List.append_nil, List.nil_append, List.append_nil] at hcrc
  exact hcrc h

/-- **The residue**: a word behind the data is its checksum exactly if the whole has the residue for
its checksum. -/
theorem calcCrc32_append_eq_residue_iff (data : Bytes) (word : UInt32) :
    calcCrc32 (data ++ uint32Bytes word) = crc32Residue ↔ calcCrc32 data = word := by
  have hresidue : crc32Residue = calcCrc32 (uint32Bytes 0) := by decide +kernel
  rw [calcCrc32_append_uint32Bytes, hresidue, calcCrc32_uint32Bytes_inj, UInt32.xor_eq_zero_iff]

/-! ### Valid files -/

/-- Four bytes are those of the word they spell. -/
theorem uint32Bytes_littleEndian {bytes : Bytes} (h : bytes.length = 4) :
    uint32Bytes (UInt32.ofNat (littleEndian bytes)) = bytes := by
  obtain ⟨a, b, c, d, rfl⟩ := List.length_eq_four.mp h
  have ha := a.toNat_lt
  have hb := b.toNat_lt
  have hc := c.toNat_lt
  have hd := d.toNat_lt
  have hbyte : ∀ (x : Byte) (n : Nat), n % 256 = x.toNat → UInt8.ofNat n = x := by
    intro x n hn
    apply UInt8.toNat_inj.mp
    rw [UInt8.toNat_ofNat', hn]
  simp only [littleEndian, uint32Bytes, UInt32.toNat_ofNat', List.cons.injEq, and_true]
  exact ⟨hbyte a _ (by omega), hbyte b _ (by omega), hbyte c _ (by omega), hbyte d _ (by omega)⟩

/-- The last word of a file is the checksum of the bytes before it exactly if the file has the
residue. -/
theorem lastWord_eq_crc_iff {P : Bytes} (hlong : 16 ≤ P.length) :
    calcCrc32 (P.take (P.length - 4)) = uint32At P (P.length - 12 + 8) ↔
      calcCrc32 P = crc32Residue := by
  have hoffset : P.length - 12 + 8 = P.length - 4 := by omega
  have hlast : slice P (P.length - 4) 4 = P.drop (P.length - 4) := by
    rw [slice, List.take_of_length_le (by rw [List.length_drop]; omega)]
  have hword : uint32Bytes (uint32At P (P.length - 4)) = P.drop (P.length - 4) := by
    rw [uint32At, hlast, uint32Bytes_littleEndian (by rw [List.length_drop]; omega)]
  have hwhole := calcCrc32_append_eq_residue_iff (P.take (P.length - 4)) (uint32At P (P.length - 4))
  rw [hword, List.take_append_drop] at hwhole
  rw [hoffset, hwhole]

/-- What an accepted UPS file is: its bytes kept, its magic, and its last word as the checksum. -/
theorem UPSPatch.footer_of_load {P : Bytes} {patch : UPSPatch} (h : load P = .ok patch) :
    16 ≤ P.length ∧ P.take upsHeaderSize = upsMagic ∧ patch.patchData = P ∧
      patch.patchCrc = uint32At P (P.length - 12 + 8) := by
  obtain ⟨hlong, hmagic, hparse⟩ := load_eq_ok h
  rw [parse, if_neg hlong] at hparse
  cases hparse
  rw [upsHeaderSize] at hlong
  exact ⟨by omega, hmagic, rfl, rfl⟩

/-- What an accepted BPS file is: its bytes kept, its magic, and its last word as the checksum. -/
theorem BPSPatch.footer_of_load {P : Bytes} {patch : BPSPatch} (h : load P = .ok patch) :
    16 ≤ P.length ∧ P.take bpsHeaderSize = bpsMagic ∧ patch.patchData = P ∧
      patch.patchCrc = uint32At P (P.length - 12 + 8) := by
  obtain ⟨hlong, -, -⟩ := load_eq_ok h
  rw [load, if_neg (by rw [bpsHeaderSize]; omega)] at h
  split at h
  · cases h
  · rename_i hmagic
    rw [parse, if_neg (by rw [bpsHeaderSize]; omega), if_neg hmagic] at h
    obtain ⟨metadata, -, hpatch⟩ := Outcome.bind_eq_ok_iff.mp h
    cases hpatch
    exact ⟨hlong, not_not.mp hmagic, rfl, rfl⟩

/-- An accepted UPS file is valid, or rejected for its checksum, as its residue says. -/
theorem UPSPatch.validate_cases {P : Bytes} {patch : UPSPatch} (h : load P = .ok patch) :
    (calcCrc32 P = crc32Residue ∧ patch.validate = .ok ()) ∨
      (calcCrc32 P ≠ crc32Residue ∧ ∃ e, patch.validate = .error e ∧ e.code = .checksumMismatch) := by
  obtain ⟨hlong, hmagic, hdata, hcrc⟩ := footer_of_load h
  rw [validate, hdata, hcrc, if_neg (by rw [upsHeaderSize]; omega), if_neg (not_not.mpr hmagic)]
  by_cases hresidue : calcCrc32 P = crc32Residue
  · exact .inl ⟨hresidue, if_neg (not_not.mpr ((lastWord_eq_crc_iff hlong).mpr hresidue))⟩
  · rw [if_pos (mt (lastWord_eq_crc_iff hlong).mp hresidue)]
    exact .inr ⟨hresidue, _, rfl, rfl⟩

/-- An accepted BPS file is valid, or rejected for its checksum, as its residue says. -/
theorem BPSPatch.validate_cases {P : Bytes} {patch : BPSPatch} (h : load P = .ok patch) :
    (calcCrc32 P = crc32Residue ∧ patch.validate = .ok ()) ∨
      (calcCrc32 P ≠ crc32Residue ∧ ∃ e, patch.validate = .error e ∧ e.code = .checksumMismatch) := by
  obtain ⟨hlong, hmagic, hdata, hcrc⟩ := footer_of_load h
  rw [validate, hdata, hcrc, if_neg (by rw [bpsHeaderSize]; omega), if_neg (not_not.mpr hmagic)]
  dsimp only
  by_cases hresidue : calcCrc32 P = crc32Residue
  · exact .inl ⟨hresidue, if_neg (not_not.mpr ((lastWord_eq_crc_iff hlong).mpr hresidue))⟩
  · rw [if_pos (mt (lastWord_eq_crc_iff hlong).mp hresidue)]
    exact .inr ⟨hresidue, _, rfl, rfl⟩

namespace Patch

/-- The patch comes from a file that ends in its own checksum. -/
def HasChecksums : Patch → Prop
  | .ips _ => False
  | .ups _ => True
  | .bps _ => True

/-- An accepted file with checksums is valid, or rejected for its checksum, as its residue says. -/
theorem validate_cases {P : Bytes} {patch : Patch} (hload : loadPatchFromMemory P = .ok patch)
    (hchecksums : patch.HasChecksums) :
    (calcCrc32 P = crc32Residue ∧ patch.validate = .ok ()) ∨
      (calcCrc32 P ≠ crc32Residue ∧ ∃ e, patch.validate = .error e ∧ e.code = .checksumMismatch) := by
  cases patch with
  | ips patch => exact hchecksums.elim
  | ups patch => exact UPSPatch.validate_cases (loadPatchFromMemory_eq_ok hload)
  | bps patch => exact BPSPatch.validate_cases (loadPatchFromMemory_eq_ok hload)

end Patch

/-- A file that loads as an IPS patch has the magic of one. -/
theorem take_of_load_ips {P : Bytes} {patch : IPSPatch}
    (hload : loadPatchFromMemory P = .ok (.ips patch)) : P.take 5 = ipsMagic := by
  have h : IPSPatch.load P = .ok patch := loadPatchFromMemory_eq_ok hload
  by_contra hmagic
  rw [IPSPatch.load] at h
  split at h
  · cases h
  · rw [ipsHeaderSize, if_pos hmagic] at h
    cases h

/-- Where `validate_patch` succeeds, under any faults, the patch file loads and is valid. -/
theorem exists_valid_of_validatePatch {env : Environment} {patchPath sourcePath : Path}
    {options : PatchOptions} {world : World}
    (h : (validatePatch env patchPath sourcePath options world).1 = .ok ()) :
    ∃ P patch, world.files patchPath = some P ∧ loadPatchFromMemory P = .ok patch ∧
      patch.validate = .ok () := by
  rw [validatePatch, Effect.bind_apply, loadPatch, Effect.bind_apply, readFile_apply] at h
  cases hread : readOutcome env world.files world.reads patchPath with
  | error e => rw [hread] at h; cases h
  | ok P =>
    have hfile : world.files patchPath = some P := files_of_readOutcome hread
    rw [hread] at h
    simp only [Outcome.ofExcept_ok, Effect.lift_apply] at h
    cases hload : loadPatchFromMemory P with
    | error e => rw [hload] at h; cases h
    | throws thrown => rw [hload] at h; cases h
    | ok patch =>
      rw [hload] at h
      dsimp only at h
      rw [Effect.bind_apply, Effect.lift_apply] at h
      cases hvalid : patch.validate with
      | error e => rw [hvalid] at h; cases h
      | ok _ => exact ⟨P, patch, hfile, hload, hvalid⟩

/-- **Short damage to a patch file is caught.** A valid UPS or BPS file has the residue for its
checksum. So a file that differs from it inside a window of four bytes, wherever the window lies (over
the magic, a size, a command, a stored checksum), is not valid: unless the damage makes an IPS file of
it, it is rejected by the loader or for its checksum by `validate`, and `validate_patch` never accepts
it, whatever the source and whatever faults occur. -/
theorem damagedPatch_caught {P P' : Bytes} {patch : Patch}
    (hload : loadPatchFromMemory P = .ok patch) (hchecksums : patch.HasChecksums)
    (hvalid : patch.validate = .ok ()) (hdamage : DifferInWindow P P')
    (hips : P'.take 5 ≠ ipsMagic) :
    calcCrc32 P = crc32Residue ∧
      (∀ patch', loadPatchFromMemory P' = .ok patch' →
        ∃ e, patch'.validate = .error e ∧ e.code = .checksumMismatch) ∧
      ∀ (env : Environment) (patchPath sourcePath : Path) (options : PatchOptions) (world : World),
        world.files patchPath = some P' →
          (validatePatch env patchPath sourcePath options world).1 ≠ .ok () := by
  have hresidue : calcCrc32 P = crc32Residue := by
    rcases Patch.validate_cases hload hchecksums with ⟨h, -⟩ | ⟨-, e, he, -⟩
    · exact h
    · rw [hvalid] at he; cases he
  have hwrong : calcCrc32 P' ≠ crc32Residue := hresidue ▸ hdamage.calcCrc32_ne
  have hcaught : ∀ patch', loadPatchFromMemory P' = .ok patch' →
      ∃ e, patch'.validate = .error e ∧ e.code = .checksumMismatch := by
    intro patch' hload'
    -- an IPS patch has no checksum to be wrong, so the damage must not make one of it
    have hchecksums' : patch'.HasChecksums := by
      cases patch' with
      | ips ips => exact absurd (take_of_load_ips hload') hips
      | ups ups => trivial
      | bps bps => trivial
    rcases Patch.validate_cases hload' hchecksums' with ⟨h, -⟩ | ⟨-, he⟩
    · exact absurd h hwrong
    · exact he
  refine ⟨hresidue, hcaught, ?_⟩
  -- whatever the faults are, what `validate_patch` accepts it has read and found valid
  intro env patchPath sourcePath options world hfile haccepted
  obtain ⟨P'', patch', hfile', hload', hvalid'⟩ := exists_valid_of_validatePatch haccepted
  rw [hfile] at hfile'
  cases hfile'
  obtain ⟨e, he, -⟩ := hcaught patch' hload'
  rw [hvalid'] at he
  cases he

/-- The valid BPS patch of an empty target, its last byte changed. -/
theorem damagedPatch_caught_lastByte :
    ∃ patch, loadPatchFromMemory sizedPatch = .ok patch ∧
      ∀ (env : Environment) (patchPath sourcePath : Path) (options : PatchOptions) (world : World),
        world.files patchPath = some (sizedPatch.set 18 7) →
          (validatePatch env patchPath sourcePath options world).1 ≠ .ok () := by
  have hrun : (loadPatchFromMemory sizedPatch >>= fun patch =>
      .ok (patch.validate, patch.getMetadata) : Call (Result Unit × Result PatchMetadata))
        = .ok (.ok (), .ok { format := .bps, hasChecksums := true, srcSize := 1
                             sourceChecksum := calcCrc32 [7] }) := by
    decide +kernel
  obtain ⟨patch, hload, hresults⟩ := Outcome.bind_eq_ok_iff.mp hrun
  obtain ⟨hvalid, hmetadata⟩ := Prod.mk.inj (Outcome.ok.inj hresults)
  have hchecksums : patch.HasChecksums := by
    cases patch with
    | ips patch => cases hmetadata
    | ups patch => trivial
    | bps patch => trivial
  have hdamage : DifferInWindow sizedPatch (sizedPatch.set 18 7) := by
    refine ⟨(List.length_set).symm, by decide +kernel, 15, fun i hi => ?_⟩
    rw [List.getElem?_set_ne (by omega)]
  exact ⟨patch, hload,
    (damagedPatch_caught hload hchecksums hvalid hdamage (by decide +kernel)).2.2⟩

end IUBPatch
