import IUBPatch.Crc32
import IUBPatch.Lib.ShiftRegister

/-! # The CRC-32 table is right

The checksum by its definition, bit by bit, is a feedback shift register fed with bytes. The table
holds what eight steps make of each byte, so the table-driven loop computes the same. -/

namespace IUBPatch

/-- The polynomial of CRC-32, lowest power in the top bit. -/
def crc32Poly : UInt32 := 0xEDB88320

/-- One bit of the checksum: shift right, and XOR the polynomial in if the bit shifted out was one. -/
def crc32BitStep (crc : UInt32) : UInt32 :=
  if crc &&& 1 ≠ 0 then (crc >>> 1) ^^^ crc32Poly else crc >>> 1

/-- One byte of the checksum: XOR it into the low byte, then eight bits. -/
def crc32ByteStep (crc : UInt32) (b : Byte) : UInt32 := crc32BitStep^[8] (crc ^^^ b.toUInt32)

/-- The checksum by its definition. -/
def crc32Bitwise (data : Bytes) : UInt32 := data.foldl crc32ByteStep 0xFFFFFFFF ^^^ 0xFFFFFFFF

/-! ### The register -/

/-- The test of the bit shifted out. -/
theorem and_one_ne_zero_iff_getLsbD (crc : UInt32) :
    crc &&& 1 ≠ 0 ↔ crc.toBitVec.getLsbD 0 = true := by
  have hrest : (crc &&& 1).toNat = crc.toNat % 2 := by
    rw [UInt32.toNat_and]
    exact Nat.and_one_is_mod crc.toNat
  rw [ne_eq, ← UInt32.toNat_inj, hrest, UInt32.toNat_zero, BitVec.getLsbD, UInt32.toNat_toBitVec,
    Nat.testBit_zero, decide_eq_true_iff]
  omega

/-- One bit of the checksum is one step of the register. -/
theorem toBitVec_crc32BitStep (crc : UInt32) :
    (crc32BitStep crc).toBitVec = ShiftRegister.step crc32Poly.toBitVec crc.toBitVec := by
  rw [crc32BitStep, ShiftRegister.step]
  by_cases hbit : crc &&& 1 ≠ 0
  · rw [if_pos hbit, if_pos ((and_one_ne_zero_iff_getLsbD crc).mp hbit), UInt32.toBitVec_xor,
      UInt32.toBitVec_shiftRight]
    rfl
  · rw [if_neg hbit, if_neg (mt (and_one_ne_zero_iff_getLsbD crc).mpr hbit),
      UInt32.toBitVec_shiftRight, BitVec.xor_zero]
    rfl

theorem toBitVec_iterate_crc32BitStep (n : Nat) (crc : UInt32) :
    (crc32BitStep^[n] crc).toBitVec
      = (ShiftRegister.step crc32Poly.toBitVec)^[n] crc.toBitVec := by
  have hstep : Function.Semiconj UInt32.toBitVec crc32BitStep
      (ShiftRegister.step crc32Poly.toBitVec) := toBitVec_crc32BitStep
  exact hstep.iterate_right n crc

/-- One byte of the checksum is one symbol fed to the register. -/
theorem toBitVec_crc32ByteStep (crc : UInt32) (b : Byte) :
    (crc32ByteStep crc b).toBitVec
      = ShiftRegister.feed crc32Poly.toBitVec 8 crc.toBitVec b.toUInt32.toBitVec := by
  rw [crc32ByteStep, toBitVec_iterate_crc32BitStep, UInt32.toBitVec_xor, ShiftRegister.feed]

/-! ### The table -/

/-- **Every table word is right**: it is what eight bits make of its index. -/
theorem crc32Table_eq : ∀ i < 256, crc32Table.getD i 0 = crc32BitStep^[8] (UInt32.ofNat i) := by
  decide +kernel

/-- The bits of a byte in a wider word. -/
theorem getLsbD_lowByte (i : Nat) : (0xFF : UInt32).toBitVec.getLsbD i = decide (i < 8) := by
  have hmask : (0xFF : UInt32).toBitVec = BitVec.ofNat 32 (2 ^ 8 - 1) := rfl
  rw [hmask, BitVec.getLsbD_ofNat, Nat.testBit_two_pow_sub_one]
  by_cases hi : i < 8
  · simp [hi, show i < 32 by omega]
  · simp [hi]

/-- What a mask for the low byte takes away. -/
theorem lowByte_xor_shiftRight (x : UInt32) :
    ((x &&& 0xFF).toBitVec ^^^ x.toBitVec) >>> 8 = x.toBitVec >>> 8 := by
  apply BitVec.eq_of_getLsbD_eq
  intro i _
  rw [BitVec.getLsbD_ushiftRight, BitVec.getLsbD_ushiftRight, BitVec.getLsbD_xor,
    UInt32.toBitVec_and, BitVec.getLsbD_and, getLsbD_lowByte]
  simp

/-- A byte has no bits past its eighth. -/
theorem getLsbD_toUInt32_of_le (b : Byte) {i : Nat} (hi : 8 ≤ i) :
    b.toUInt32.toBitVec.getLsbD i = false := by
  have hlt := b.toNat_lt
  rw [BitVec.getLsbD, UInt32.toNat_toBitVec, UInt8.toNat_toUInt32]
  exact Nat.testBit_lt_two_pow (Nat.lt_of_lt_of_le hlt (Nat.pow_le_pow_right (by decide) hi))

/-- **One turn of the loop is one byte of the checksum.** -/
theorem crc32Step_eq (crc : UInt32) (b : Byte) : crc32Step crc b = crc32ByteStep crc b := by
  set x := crc ^^^ b.toUInt32 with hx
  have hindex : (x &&& 0xFF).toNat < 256 := by
    rw [UInt32.toNat_and]
    exact Nat.lt_succ_of_le Nat.and_le_right
  -- the byte leaves nothing in the bits that are shifted down
  have hshift : x.toBitVec >>> 8 = crc.toBitVec >>> 8 := by
    apply BitVec.eq_of_getLsbD_eq
    intro i _
    rw [hx, UInt32.toBitVec_xor, BitVec.getLsbD_ushiftRight, BitVec.getLsbD_ushiftRight,
      BitVec.getLsbD_xor, getLsbD_toUInt32_of_le b (Nat.le_add_right 8 i), Bool.xor_false]
  have hlow : ∀ i < 8, (x &&& 0xFF).toBitVec.getLsbD i = x.toBitVec.getLsbD i := by
    intro i hi
    rw [UInt32.toBitVec_and, BitVec.getLsbD_and, getLsbD_lowByte, decide_eq_true hi, Bool.and_true]
  apply UInt32.toBitVec_inj.mp
  rw [crc32Step, ← hx, crc32Table_eq _ hindex, UInt32.ofNat_toNat, UInt32.toBitVec_xor,
    toBitVec_iterate_crc32BitStep, crc32ByteStep, ← hx, toBitVec_iterate_crc32BitStep,
    ShiftRegister.iterate_step_split _ hlow, lowByte_xor_shiftRight, hshift,
    UInt32.toBitVec_shiftRight]
  rfl

/-- **The table-driven checksum is the bitwise one.** -/
theorem calcCrc32_eq_crc32Bitwise (data : Bytes) : calcCrc32 data = crc32Bitwise data := by
  have hstep : crc32Step = crc32ByteStep := funext fun crc => funext fun b => crc32Step_eq crc b
  rw [calcCrc32, crc32Bitwise, hstep]

/-- The check value of the format: the checksum of the digits "123456789". -/
example : calcCrc32 [0x31, 0x32, 0x33, 0x34, 0x35, 0x36, 0x37, 0x38, 0x39] = 0xCBF43926 := by
  decide +kernel

end IUBPatch
