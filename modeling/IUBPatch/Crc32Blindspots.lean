import IUBPatch.Crc32Detection
import Mathlib.SetTheory.Cardinal.Finite

/-! # What the checksum cannot catch

The checksum is affine in XOR, so whether damage is caught depends on the damage alone, not on the
file. And any four consecutive bytes reach every checksum in exactly one way, so of the files of one
length the same number has every checksum: of the `256 ^ n` files of the declared size, a source check
passes exactly `256 ^ (n - 4)`. -/

namespace IUBPatch

/-! ### Damage as a mask -/

/-- A file with a damage mask of its length XORed in. -/
def masked (S D : Bytes) : Bytes := List.zipWith (· ^^^ ·) S D

@[simp] theorem length_masked {S D : Bytes} (h : S.length = D.length) :
    (masked S D).length = S.length := by
  rw [masked, List.length_zipWith, h, Nat.min_self]

/-- Bytes XORed are symbols XORed. -/
theorem map_crc32Symbol_masked (S D : Bytes) :
    (masked S D).map crc32Symbol
      = List.zipWith (· ^^^ ·) (S.map crc32Symbol) (D.map crc32Symbol) := by
  have hsymbol : ∀ a b : Byte, crc32Symbol (a ^^^ b) = crc32Symbol a ^^^ crc32Symbol b := by
    intro a b
    rw [crc32Symbol, UInt8.toUInt32_xor, UInt32.toBitVec_xor, crc32Symbol, crc32Symbol]
  rw [masked, List.map_zipWith, List.zipWith_map]
  simp only [hsymbol]

/-- **The checksum is affine**: a damage mask changes it by what the mask makes of an empty register. -/
theorem calcCrc32_masked {S D : Bytes} (h : S.length = D.length) :
    calcCrc32 (masked S D) = calcCrc32 S ^^^ D.foldl crc32Step 0 := by
  have hstate : (masked S D).foldl crc32Step 0xFFFFFFFF
      = S.foldl crc32Step 0xFFFFFFFF ^^^ D.foldl crc32Step 0 := by
    apply UInt32.toBitVec_inj.mp
    have hlength : (S.map crc32Symbol).length = (D.map crc32Symbol).length := by
      rw [List.length_map, List.length_map, h]
    have hfed := ShiftRegister.foldl_feed_xor crc32Poly.toBitVec (n := 8) hlength
      (0xFFFFFFFF : UInt32).toBitVec (0 : UInt32).toBitVec
    rw [UInt32.toBitVec_xor, toBitVec_foldl_crc32Step, toBitVec_foldl_crc32Step,
      toBitVec_foldl_crc32Step, map_crc32Symbol_masked, ← hfed]
    congr 1
  rw [calcCrc32, hstate, calcCrc32]
  ac_rfl

/-! ### Counting files -/

/-- Every symbol of eight bits is a byte. -/
theorem exists_map_crc32Symbol {symbols : List (BitVec 32)} (h : ShiftRegister.Fits 8 symbols) :
    ∃ bytes : Bytes, bytes.map crc32Symbol = symbols := by
  induction symbols with
  | nil => exact ⟨[], rfl⟩
  | cons symbol symbols ih =>
    obtain ⟨bytes, hbytes⟩ := ih fun s hs => h s (List.mem_cons_of_mem symbol hs)
    have hlt : symbol.toNat < 256 :=
      Nat.lt_pow_two_of_testBit symbol.toNat fun i hi => h symbol List.mem_cons_self i hi
    have hsymbol : crc32Symbol (UInt8.ofNat symbol.toNat) = symbol := by
      apply BitVec.eq_of_toNat_eq
      rw [crc32Symbol, UInt32.toNat_toBitVec, UInt8.toNat_toUInt32, UInt8.toNat_ofNat',
        Nat.mod_eq_of_lt hlt]
    exact ⟨UInt8.ofNat symbol.toNat :: bytes, by rw [List.map_cons, hsymbol, hbytes]⟩

/-- **Four bytes reach every checksum in exactly one way**, wherever they stand. -/
theorem existsUnique_window (p s : Bytes) (crc : UInt32) :
    ∃! w : Bytes, w.length = 4 ∧ calcCrc32 (p ++ w ++ s) = crc := by
  -- the states from which the bytes behind the window end in the checksum
  have hend : Function.Bijective fun x : BitVec 32 =>
      (s.map crc32Symbol).foldl (ShiftRegister.feed crc32Poly.toBitVec 8) x := by
    have : Finite (BitVec 32) := Finite.of_equiv (Fin (2 ^ 32)) BitVec.equivFin.symm.toEquiv
    exact Finite.injective_iff_bijective.mp
      (ShiftRegister.foldl_feed_state_injective _ crc32Poly_top _)
  obtain ⟨state, hstate⟩ := hend.surjective (crc ^^^ 0xFFFFFFFF).toBitVec
  have hiff : ∀ w : Bytes, calcCrc32 (p ++ w ++ s) = crc ↔
      (w.map crc32Symbol).foldl (ShiftRegister.feed crc32Poly.toBitVec 8)
        (p.foldl crc32Step 0xFFFFFFFF).toBitVec = state := by
    intro w
    have hinvert : calcCrc32 (p ++ w ++ s) = crc ↔
        (p ++ w ++ s).foldl crc32Step 0xFFFFFFFF = crc ^^^ 0xFFFFFFFF := by
      rw [calcCrc32]
      constructor
      · intro h; rw [← h, UInt32.xor_assoc, UInt32.xor_self, UInt32.xor_zero]
      · intro h; rw [h, UInt32.xor_assoc, UInt32.xor_self, UInt32.xor_zero]
    rw [hinvert, ← UInt32.toBitVec_inj, toBitVec_foldl_crc32Step, toBitVec_foldl_crc32Step]
    simp only [List.map_append, List.foldl_append]
    rw [← hstate]
    exact hend.injective.eq_iff
  obtain ⟨symbols, ⟨hlength, hfits, hfed⟩, hunique⟩ :=
    ShiftRegister.existsUnique_foldl_feed_eq crc32Poly.toBitVec crc32Poly_top (n := 8) (k := 4) rfl
      (p.foldl crc32Step 0xFFFFFFFF).toBitVec state
  obtain ⟨bytes, hbytes⟩ := exists_map_crc32Symbol hfits
  refine ⟨bytes, ⟨?_, (hiff bytes).mpr (hbytes ▸ hfed)⟩, ?_⟩
  · rw [← hlength, ← hbytes, List.length_map]
  · rintro w ⟨hw, hcrc⟩
    apply List.map_injective_iff.mpr crc32Symbol_injective
    rw [hbytes]
    exact hunique _ ⟨by rw [List.length_map, hw], fits_map_crc32Symbol w, (hiff w).mp hcrc⟩

/-- There are 256 bytes. -/
theorem card_byte : Nat.card Byte = 256 := by
  have e : Byte ≃ Fin 256 :=
    ⟨UInt8.toFin, UInt8.ofFin, fun _ => rfl, fun _ => rfl⟩
  rw [Nat.card_congr e, Nat.card_fin]

/-- There are `256 ^ n` files of `n` bytes. -/
theorem card_files (n : Nat) : Nat.card {S : Bytes // S.length = n} = 256 ^ n := by
  -- `Byte` has no `Fintype` instance; its cardinality gives one
  have : Finite Byte := Nat.finite_of_card_ne_zero (by rw [card_byte]; decide)
  have : Fintype Byte := Fintype.ofFinite Byte
  have hvector : Nat.card (List.Vector Byte n) = Nat.card Byte ^ n := by
    rw [Nat.card_eq_fintype_card, card_vector, Nat.card_eq_fintype_card]
  rw [← card_byte]
  exact hvector

/-- **Every checksum is the checksum of equally many files**: four of the bytes follow from the
others. -/
theorem card_files_of_crc {n : Nat} (hn : 4 ≤ n) (crc : UInt32) :
    Nat.card {S : Bytes // S.length = n ∧ calcCrc32 S = crc} = 256 ^ (n - 4) := by
  rw [← card_files (n - 4)]
  choose window hwindow hunique using fun p : Bytes => existsUnique_window p [] crc
  refine Nat.card_congr
    { toFun := fun S => ⟨S.1.take (n - 4), by rw [List.length_take, S.2.1]; omega⟩
      invFun := fun p => ⟨p.1 ++ window p.1, ?_, ?_⟩
      left_inv := fun S => Subtype.ext ?_
      right_inv := fun p => Subtype.ext ?_ }
  · rw [List.length_append, p.2, (hwindow p.1).1, Nat.sub_add_cancel hn]
  · have hcrc := (hwindow p.1).2
    rwa [List.append_nil] at hcrc
  -- the last four bytes are the ones that give the checksum
  · have hlast := hunique (S.1.take (n - 4)) (S.1.drop (n - 4))
      ⟨by rw [List.length_drop, S.2.1]; omega,
        by rw [List.append_nil, List.take_append_drop]; exact S.2.2⟩
    show S.1.take (n - 4) ++ window (S.1.take (n - 4)) = S.1
    rw [← hlast, List.take_append_drop]
  · exact List.take_left' p.2

/-! ### What a source check passes -/

/-- The source checks of a patch with checksums, with verification. -/
theorem not_rejectsSource_iff {patch : Patch} {metadata : PatchMetadata}
    (hmetadata : patch.getMetadata = .ok metadata) (hchecksums : metadata.hasChecksums = true)
    {options : PatchOptions} (hverify : options.verifyChecksums = true) (S : Bytes) :
    ¬ patch.RejectsSource S options ↔
      size S = metadata.srcSize ∧ calcCrc32 S = metadata.sourceChecksum := by
  cases patch with
  | ips patch => cases hmetadata; cases hchecksums
  | ups patch =>
    cases hmetadata
    show ¬ patch.RejectsSource S options ↔ size S = patch.srcSize ∧ calcCrc32 S = patch.srcCrc
    simp [UPSPatch.RejectsSource, hverify]
  | bps patch =>
    cases hmetadata
    show ¬ patch.RejectsSource S options ↔ size S = patch.srcSize ∧ calcCrc32 S = patch.srcCrc
    simp [BPSPatch.RejectsSource, hverify]

/-- **What a source check is worth.** For a UPS or BPS patch that declares a source of `n` bytes, four
at least: of the `256 ^ n` files of that size the source checks of `apply` with verification pass
exactly `256 ^ (n - 4)`, and no file of another size. Whether damage to a source that passes goes
unnoticed depends on the damage alone: the XOR mask of it is a blind spot if it leads an empty register
back to empty. -/
theorem sourceCheck_passes {patch : Patch} {metadata : PatchMetadata}
    (hmetadata : patch.getMetadata = .ok metadata) (hchecksums : metadata.hasChecksums = true)
    (hlong : 4 ≤ metadata.srcSize.toNat) (hfit : metadata.srcSize.toNat ≤ maxSize)
    {options : PatchOptions} (hverify : options.verifyChecksums = true) :
    (∀ S : Bytes, S.length ≤ maxSize → ¬ patch.RejectsSource S options →
        S.length = metadata.srcSize.toNat) ∧
      Nat.card {S : Bytes // S.length ≤ maxSize ∧ ¬ patch.RejectsSource S options}
        = 256 ^ (metadata.srcSize.toNat - 4) ∧
      ∀ S D : Bytes, S.length ≤ maxSize → S.length = D.length → ¬ patch.RejectsSource S options →
        (¬ patch.RejectsSource (masked S D) options ↔ D.foldl crc32Step 0 = 0) := by
  have hpasses := not_rejectsSource_iff hmetadata hchecksums hverify
  have hlength : ∀ S : Bytes, S.length ≤ maxSize → ¬ patch.RejectsSource S options →
      S.length = metadata.srcSize.toNat := by
    intro S hS hpass
    rw [← toNat_size hS, ((hpasses S).mp hpass).1]
  refine ⟨hlength, ?_, ?_⟩
  · rw [← card_files_of_crc hlong metadata.sourceChecksum]
    -- the files that pass are those of the size with the declared checksum
    refine Nat.card_congr (Equiv.subtypeEquivRight fun S => ?_)
    constructor
    · rintro ⟨hS, hpass⟩
      exact ⟨hlength S hS hpass, ((hpasses S).mp hpass).2⟩
    · rintro ⟨hsize, hcrc⟩
      exact ⟨by omega, (hpasses S).mpr ⟨by rw [size, hsize, UInt64.ofNat_toNat], hcrc⟩⟩
  · intro S D _ hsame hS
    obtain ⟨hsize, hcrc⟩ := (hpasses S).mp hS
    have hsizeXor : size (masked S D) = metadata.srcSize := by
      rw [size, length_masked hsame, ← hsize, size]
    -- the checksum is linear up to a constant, so the damage adds its own register to it
    rw [hpasses, calcCrc32_masked hsame, hcrc]
    simp only [hsizeXor, true_and]
    constructor
    · intro h
      have hcancel := congrArg (metadata.sourceChecksum ^^^ ·) h
      simpa only [← UInt32.xor_assoc, UInt32.xor_self, UInt32.zero_xor] using hcancel
    · intro h
      rw [h, UInt32.xor_zero]

/-- A patch of a source of five bytes. -/
def fiveBytes : Patch :=
  .ups
    { patchData := [], srcSize := 5, targetSize := 0, srcCrc := calcCrc32 [1, 2, 3, 4, 5]
      targetCrc := 0, patchCrc := 0, blocks := [] }

/-- It passes 256 files, all of five bytes, among them the source with all of its bytes damaged. -/
theorem sourceCheck_passes_fiveBytes :
    (∀ S : Bytes, S.length ≤ maxSize → ¬ fiveBytes.RejectsSource S {} → S.length = 5) ∧
      Nat.card {S : Bytes // S.length ≤ maxSize ∧ ¬ fiveBytes.RejectsSource S {}} = 256 ^ 1 ∧
      ¬ fiveBytes.RejectsSource (masked [1, 2, 3, 4, 5] [1, 0x96, 0x30, 0x07, 0x77]) {} := by
  have hmetadata : fiveBytes.getMetadata
      = .ok { format := .ups, hasChecksums := true, srcSize := 5
              sourceChecksum := calcCrc32 [1, 2, 3, 4, 5] } := rfl
  have hsource : ¬ fiveBytes.RejectsSource [1, 2, 3, 4, 5] {} :=
    (not_rejectsSource_iff hmetadata rfl rfl _).mpr ⟨rfl, rfl⟩
  have hverify : ({} : PatchOptions).verifyChecksums = true := rfl
  obtain ⟨hlength, hcard, hblind⟩ := sourceCheck_passes hmetadata rfl (by decide) (by decide) hverify
  refine ⟨hlength, hcard, ?_⟩
  exact (hblind [1, 2, 3, 4, 5] [1, 0x96, 0x30, 0x07, 0x77] (by decide) rfl hsource).mpr
    (by decide +kernel)

end IUBPatch
