import IUBPatch.Crc32
import IUBPatch.Interface
import IUBPatch.VariableLen

/-! # The UPS format

The loader and the replayer of `ups.cc`. A patch is a list of XOR blocks; the loader adds up their
offsets in 64 bits, the replayer XORs them into a buffer that holds the longer of the two files. -/

namespace IUBPatch

/-- `UPS_MAGIC`: the bytes of "UPS1". -/
def upsMagic : Bytes := [0x55, 0x50, 0x53, 0x31]

/-- `UPS_HEADER_SIZE`. -/
def upsHeaderSize : Nat := 4

namespace UPS

/-- `struct XORBlock`. -/
structure XORBlock where
  offset : UInt64
  data : Bytes
  deriving DecidableEq, Repr

/-- The inner loop of `parse`, over the bytes before the checksums: bytes up to a zero, which is
consumed; each byte read as data moves the file offset on. -/
def xorDataLoop : Bytes → (offset : Nat) → (fileOffset : UInt64) → (data : Bytes) →
    Bytes × Nat × UInt64
  | [], offset, fileOffset, data => (data, offset, fileOffset)
  | b :: unread, offset, fileOffset, data =>
    -- the closing zero takes up a byte of the patch, but no position of the file
    if b = 0 then (data, offset + 1, fileOffset)
    else xorDataLoop unread (offset + 1) (fileOffset + 1) (data ++ [b])

/-- One turn of the outer loop of `parse`: a block (its data possibly empty), and the two offsets
after it. -/
def parseBlock (patchData : Bytes) (offset : Nat) (fileOffset : UInt64) : XORBlock × Nat × UInt64 :=
  let (relativeOffset, offset) := decodeVariableLen patchData offset
  let fileOffset := fileOffset + relativeOffset
  let (data, offset, next) :=
    xorDataLoop ((patchData.take (patchData.length - 12)).drop offset) offset fileOffset []
  ({ offset := fileOffset, data }, offset, next)

/-- How many bytes the inner loop consumes: the data, and the zero behind them if there is one. -/
def xorDataLength : Bytes → Nat
  | [] => 0
  | b :: unread => if b = 0 then 1 else xorDataLength unread + 1

/-- The inner loop of `parse` reads up to the first zero and moves the position in the file on by as
many bytes. -/
theorem xorDataLoop_eq (unread : Bytes) (offset : Nat) (fileOffset : UInt64) (data : Bytes) :
    xorDataLoop unread offset fileOffset data
      = (data ++ unread.takeWhile (· ≠ 0), offset + xorDataLength unread,
        fileOffset + UInt64.ofNat (unread.takeWhile (· ≠ 0)).length) := by
  induction unread generalizing offset fileOffset data with
  | nil => simp [xorDataLoop, xorDataLength]
  | cons b unread ih =>
    rw [xorDataLoop, xorDataLength]
    by_cases hb : b = 0
    · rw [if_pos hb, if_pos hb, List.takeWhile_cons_of_neg (by simpa using hb)]
      simp
    · have hone : ∀ n : Nat, fileOffset + 1 + UInt64.ofNat n = fileOffset + UInt64.ofNat (n + 1) := by
        intro n
        rw [UInt64.ofNat_add, UInt64.add_assoc, UInt64.add_comm 1]
        rfl
      rw [if_neg hb, if_neg hb, ih, List.takeWhile_cons_of_pos (by simpa using hb), List.length_cons,
        hone, List.append_assoc, Nat.add_assoc, Nat.add_comm 1]
      rfl

theorem xorDataLength_eq (unread : Bytes) :
    xorDataLength unread = (unread.takeWhile (· ≠ 0)).length + if 0 ∈ unread then 1 else 0 := by
  induction unread with
  | nil => rfl
  | cons b unread ih =>
    rw [xorDataLength]
    by_cases hb : b = 0
    · rw [if_pos hb, List.takeWhile_cons_of_neg (by simpa using hb), if_pos (by simp [hb]),
        List.length_nil]
    · have hmem : 0 ∈ b :: unread ↔ 0 ∈ unread := by simp [Ne.symm hb]
      rw [if_neg hb, List.takeWhile_cons_of_pos (by simpa using hb), ih, List.length_cons,
        if_congr hmem rfl rfl]
      omega

theorem le_xorDataLoop (unread : Bytes) (offset : Nat) (fileOffset : UInt64) (data : Bytes) :
    offset ≤ (xorDataLoop unread offset fileOffset data).2.1 := by
  rw [xorDataLoop_eq]
  exact Nat.le_add_right offset _

/-- A block takes up at least one byte. -/
theorem lt_parseBlock {patchData : Bytes} {offset : Nat} (fileOffset : UInt64)
    (h : offset < patchData.length) : offset < (parseBlock patchData offset fileOffset).2.1 :=
  Nat.lt_of_lt_of_le (lt_decodeBpsNum h) (le_xorDataLoop ..)

/-- The outer loop of `parse`; a block without data is dropped. -/
def parseBlocks (patchData : Bytes) (offset : Nat) (fileOffset : UInt64) : List XORBlock :=
  if offset + 12 < patchData.length then
    let parsed := parseBlock patchData offset fileOffset
    let blocks := parseBlocks patchData parsed.2.1 parsed.2.2
    if parsed.1.data.isEmpty then blocks else parsed.1 :: blocks
  else []
termination_by patchData.length - offset
decreasing_by
  have hnext : offset < (parseBlock patchData offset fileOffset).2.1 :=
    lt_parseBlock fileOffset (by omega)
  omega

end UPS

open UPS in
/-- `UPSPatch::Impl`, the fields of a parsed patch. -/
structure UPSPatch where
  patchData : Bytes
  srcSize : UInt64
  targetSize : UInt64
  srcCrc : UInt32
  targetCrc : UInt32
  patchCrc : UInt32
  blocks : List XORBlock
  deriving DecidableEq

namespace UPSPatch

open UPS

/-- `UPSPatch::Impl::parse`. -/
def parse (patchData : Bytes) : Result UPSPatch :=
  if patchData.length < upsHeaderSize + 12 then
    .error { code := .invalidPatchFormat, message := "UPS patch too small" }
  else
    let (srcSize, offset) := decodeVariableLen patchData upsHeaderSize
    let (targetSize, offset) := decodeVariableLen patchData offset
    let crcOffset := patchData.length - 12
    .ok
      { patchData, srcSize, targetSize
        blocks := parseBlocks patchData offset 0
        srcCrc := uint32At patchData crcOffset
        targetCrc := uint32At patchData (crcOffset + 4)
        patchCrc := uint32At patchData (crcOffset + 8) }

/-- `UPSPatch::load`. -/
def load (patchData : Bytes) : Result UPSPatch :=
  if patchData.length < upsHeaderSize + 12 then
    .error { code := .invalidPatchFormat, message := "UPS patch too small" }
  else if patchData.take upsHeaderSize ≠ upsMagic then
    .error { code := .invalidPatchHeader, message := "Invalid UPS header" }
  else parse patchData

/-- A patch that passes the checks of its size and its magic is parsed. -/
theorem load_eq {P : Bytes} (hlong : ¬ P.length < upsHeaderSize + 12)
    (hmagic : P.take upsHeaderSize = upsMagic) : load P = parse P := by
  rw [load, if_neg hlong, if_neg (not_not.mpr hmagic)]

/-- An accepted patch has passed them. -/
theorem load_eq_ok {P : Bytes} {patch : UPSPatch} (h : load P = .ok patch) :
    ¬ P.length < upsHeaderSize + 12 ∧ P.take upsHeaderSize = upsMagic ∧ parse P = .ok patch := by
  by_cases hlong : P.length < upsHeaderSize + 12
  · rw [load, if_pos hlong] at h
    cases h
  by_cases hmagic : P.take upsHeaderSize = upsMagic
  · rw [load_eq hlong hmagic] at h
    exact ⟨hlong, hmagic, h⟩
  · rw [load, if_neg hlong, if_pos hmagic] at h
    cases h

/-- `UPSPatch::get_metadata`. -/
def getMetadata (patch : UPSPatch) : Result PatchMetadata :=
  .ok
    { format := .ups, hasChecksums := true, srcSize := patch.srcSize, targetSize := patch.targetSize
      sourceChecksum := patch.srcCrc, targetChecksum := patch.targetCrc }

end UPSPatch

/-! ### Replay -/

namespace UPS

/-- The inner loop of `apply`: XOR the bytes of a block into the output from `position` on, until the
block or the output ends. -/
def xorBytes (position : UInt64) : Bytes → Bytes → Bytes
  | [], output => output
  | b :: data, output =>
    if position.toNat < output.length then
      xorBytes (position + 1) data (output.modify position.toNat (· ^^^ b))
    -- past the end of the output the source breaks out of the loop
    else output

/-- The body of the block loop of `apply`. -/
def xorBlock (output : Bytes) (block : XORBlock) : Bytes := xorBytes block.offset block.data output

end UPS

namespace UPSPatch

open UPS

/-- The error of the source size check. -/
def sourceSizeError (patch : UPSPatch) (source : Bytes) : ErrorInfo where
  code := .sourceSizeMismatch
  message := "Source size mismatch: expected " ++ toString patch.srcSize ++ ", got "
    ++ toString (size source)

/-- The error of the source checksum checks. -/
def sourceCrcError : ErrorInfo :=
  { code := .checksumMismatch, message := "Source CRC32 mismatch" }

/-- The error of the target checksum checks. -/
def targetCrcError : ErrorInfo :=
  { code := .checksumMismatch, message := "Target CRC32 mismatch" }

/-- `UPSPatch::apply`. -/
def apply (patch : UPSPatch) (source : Bytes) (options : PatchOptions) : Call Bytes :=
  if options.verifyChecksums ∧ size source ≠ patch.srcSize then
    .error (patch.sourceSizeError source)
  else if options.verifyChecksums ∧ calcCrc32 source ≠ patch.srcCrc then .error sourceCrcError
  else do
    let output ← resize [] (max (size source) patch.targetSize)
    let output := patch.blocks.foldl xorBlock (overwrite output 0 source)
    let output ← resize output patch.targetSize
    if options.verifyChecksums ∧ calcCrc32 output ≠ patch.targetCrc then .error targetCrcError
    else .ok output

/-- `UPSPatch::validate`. -/
def validate (patch : UPSPatch) : Result Unit :=
  if patch.patchData.length < upsHeaderSize + 12 then
    .error { code := .invalidPatchFormat, message := "UPS patch too small" }
  else if patch.patchData.take upsHeaderSize ≠ upsMagic then
    .error { code := .invalidPatchHeader, message := "Invalid UPS header" }
  else if calcCrc32 (patch.patchData.take (patch.patchData.length - 4)) ≠ patch.patchCrc then
    .error { code := .checksumMismatch, message := "Patch CRC32 mismatch" }
  else .ok ()

/-- `UPSPatch::verify_checksums`. -/
def verifyChecksums (patch : UPSPatch) (source target : Bytes) : Result Unit :=
  if calcCrc32 source ≠ patch.srcCrc then .error sourceCrcError
  else if calcCrc32 target ≠ patch.targetCrc then .error targetCrcError
  else .ok ()

end UPSPatch

end IUBPatch
