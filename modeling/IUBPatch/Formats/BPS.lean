import IUBPatch.Crc32
import IUBPatch.Interface
import IUBPatch.VariableLen

/-! # The BPS format

The loader and the replayer of `bps.cc`. The loader turns the command region into a list of
commands; the replayer runs that list over three cursors and an output buffer, in the 64-bit
arithmetic of the source. -/

namespace IUBPatch

/-- `BPS_MAGIC`: the bytes of "BPS1". -/
def bpsMagic : Bytes := [0x42, 0x50, 0x53, 0x31]

/-- `BPS_HEADER_SIZE`. -/
def bpsHeaderSize : Nat := 4

namespace BPS

/-- `enum class Action`. -/
inductive Action where
  | sourceRead
  | targetRead
  | sourceCopy
  | targetCopy
  deriving DecidableEq, Repr

/-- `static_cast<Action>(encoded & 3)`. -/
def Action.ofEncoded (encoded : UInt64) : Action :=
  match (encoded &&& 3).toNat with
  | 0 => .sourceRead
  | 1 => .targetRead
  | 2 => .sourceCopy
  | _ => .targetCopy

/-- The action carries a relative offset. -/
def Action.IsCopy (action : Action) : Prop := action = .sourceCopy ∨ action = .targetCopy

instance (action : Action) : Decidable action.IsCopy :=
  inferInstanceAs (Decidable (action = .sourceCopy ∨ action = .targetCopy))

/-- The length field of an encoded command, `(encoded >> 2) + 1`. -/
def encodedLength (encoded : UInt64) : UInt64 := (encoded >>> 2) + 1

theorem toNat_encodedLength (encoded : UInt64) :
    (encodedLength encoded).toNat = encoded.toNat / 4 + 1 := by
  have hlt := encoded.toNat_lt
  have hshift : (encoded >>> 2).toNat = encoded.toNat / 4 := by
    rw [UInt64.toNat_shiftRight, Nat.shiftRight_eq_div_pow]; rfl
  rw [encodedLength, UInt64.toNat_add, hshift, UInt64.toNat_one]
  omega

/-- `struct Command`. A length is `(encoded >> 2) + 1`, so it is never zero and never above `2^62`. -/
structure Command where
  action : Action
  length : UInt64
  offsetDelta : UInt64
  length_pos : 0 < length.toNat
  length_le : length.toNat ≤ 2 ^ 62
  deriving DecidableEq

/-- The command an encoded number and a relative offset make. -/
def Command.ofEncoded (encoded offsetDelta : UInt64) : Command where
  action := Action.ofEncoded encoded
  length := encodedLength encoded
  offsetDelta := offsetDelta
  length_pos := by rw [toNat_encodedLength]; omega
  length_le := by
    have hlt := encoded.toNat_lt
    rw [toNat_encodedLength]
    omega

/-- One turn of the command loop of `parse`: the command at `offset`, and the offset after it. -/
def parseCommand (patchData : Bytes) (offset : Nat) : Command × Nat :=
  let (encoded, offset) := decodeBpsNum patchData offset
  if (Action.ofEncoded encoded).IsCopy then
    let (offsetDelta, offset) := decodeBpsNum patchData offset
    (Command.ofEncoded encoded offsetDelta, offset)
  -- a `TargetRead` ends here too: its bytes are not skipped
  else (Command.ofEncoded encoded 0, offset)

/-- A command takes up at least one byte. -/
theorem lt_parseCommand {patchData : Bytes} {offset : Nat} (h : offset < patchData.length) :
    offset < (parseCommand patchData offset).2 := by
  have hfirst := lt_decodeBpsNum h
  have hsecond := le_decodeBpsNum patchData (decodeBpsNum patchData offset).2
  rw [parseCommand]
  dsimp only
  split
  · exact Nat.lt_of_lt_of_le hfirst hsecond
  · exact hfirst

/-- The command loop of `parse`: commands until the last twelve bytes. -/
def parseCommands (patchData : Bytes) (offset : Nat) : List Command :=
  if offset + 12 < patchData.length then
    (parseCommand patchData offset).1 :: parseCommands patchData (parseCommand patchData offset).2
  else []
termination_by patchData.length - offset
decreasing_by
  have hnext : offset < (parseCommand patchData offset).2 := lt_parseCommand (by omega)
  omega

/-- The metadata part of `parse`: the string, and the offset after it. The bound test adds in 64 bits,
and `assign` throws on a length past the string's `max_size`. -/
def parseMetadata (patchData : Bytes) (metadataSize : UInt64) (offset : Nat) : Call (Bytes × Nat) :=
  if metadataSize > 0 then
    -- the sum may wrap, and then passes the test
    if UInt64.ofNat offset + metadataSize > size patchData then
      .error { code := .invalidPatchFormat, message := "Metadata exceeds patch size" }
    else do
      let metadataString ← assign patchData offset metadataSize
      pure (metadataString, offset + metadataSize.toNat)
  else .ok ([], offset)

end BPS

open BPS in
/-- `BPSPatch::Impl`, the fields of a parsed patch. -/
structure BPSPatch where
  patchData : Bytes
  srcSize : UInt64
  targetSize : UInt64
  metadataSize : UInt64
  metadataString : Bytes
  srcCrc : UInt32
  targetCrc : UInt32
  patchCrc : UInt32
  commands : List Command
  dataOffset : Nat
  deriving DecidableEq

namespace BPSPatch

open BPS

/-- `BPSPatch::Impl::parse`. -/
def parse (patchData : Bytes) : Call BPSPatch :=
  if patchData.length < bpsHeaderSize + 12 then
    .error { code := .invalidPatchFormat, message := "BPS patch too small" }
  else if patchData.take bpsHeaderSize ≠ bpsMagic then
    .error { code := .invalidPatchHeader, message := "Invalid BPS header" }
  else do
    let (srcSize, offset) := decodeBpsNum patchData bpsHeaderSize
    let (targetSize, offset) := decodeBpsNum patchData offset
    let (metadataSize, offset) := decodeBpsNum patchData offset
    let (metadataString, dataOffset) ← parseMetadata patchData metadataSize offset
    let crcOffset := patchData.length - 12
    pure
      { patchData, srcSize, targetSize, metadataSize, metadataString, dataOffset
        commands := parseCommands patchData dataOffset
        srcCrc := uint32At patchData crcOffset
        targetCrc := uint32At patchData (crcOffset + 4)
        patchCrc := uint32At patchData (crcOffset + 8) }

/-- `BPSPatch::load`, which makes the checks of `parse` once more before it. -/
def load (patchData : Bytes) : Call BPSPatch :=
  if patchData.length < bpsHeaderSize + 12 then
    .error { code := .invalidPatchFormat, message := "BPS patch too small" }
  else if patchData.take bpsHeaderSize ≠ bpsMagic then
    .error { code := .invalidPatchHeader, message := "Invalid BPS header" }
  else parse patchData

/-- `BPSPatch::get_metadata`. -/
def getMetadata (patch : BPSPatch) : Result PatchMetadata :=
  .ok
    { format := .bps, hasChecksums := true, srcSize := patch.srcSize, targetSize := patch.targetSize
      sourceChecksum := patch.srcCrc, targetChecksum := patch.targetCrc }

end BPSPatch

/-! ### Replay -/

namespace BPS

/-- The locals of the command loop of `apply`. -/
structure ReplayState where
  output : Bytes
  sourceRelOffset : UInt64
  targetRelOffset : UInt64
  patchDataOffset : UInt64
  deriving DecidableEq

/-- The signed offset of a copy command: the low bit of the delta is its sign. -/
def signedDelta (offsetDelta : UInt64) : Int64 :=
  if offsetDelta &&& 1 ≠ 0 then -(offsetDelta >>> 1).toInt64 else (offsetDelta >>> 1).toInt64

/-- The `offset` of both copy cases: the cursor cast to `int64`, moved by the signed delta. -/
def copyOffset (cursor offsetDelta : UInt64) : Int64 := cursor.toInt64 + signedDelta offsetDelta

/-- The error every rejected command returns, with its own message. -/
def commandError (message : String) : ErrorInfo := { code := .invalidPatchFormat, message }

/-- The byte loop of `TargetCopy`: `remaining` more turns from index `i` on. -/
def targetCopyLoop (offset : UInt64) : (remaining : Nat) → (i : UInt64) → Bytes → Result Bytes
  | 0, _, output => .ok output
  | remaining + 1, i, output =>
    match output[(offset + i).toNat]? with
    | none => .error (commandError "TargetCopy exceeds output size")
    | some byte => targetCopyLoop offset remaining (i + 1) (output ++ [byte])

/-- The body of the command loop of `apply`. -/
def execCommand (patchData source : Bytes) (st : ReplayState) (cmd : Command) :
    Result ReplayState :=
  match cmd.action with
  | .sourceRead =>
    if st.sourceRelOffset + cmd.length > size source then
      .error (commandError "SourceRead exceeds source size")
    else
      .ok { st with
        output := st.output ++ slice source st.sourceRelOffset.toNat cmd.length.toNat
        sourceRelOffset := st.sourceRelOffset + cmd.length }
  | .targetRead =>
    -- the cursor starts where the commands do, not behind them
    if st.patchDataOffset + cmd.length > size patchData - 12 then
      .error (commandError "TargetRead exceeds patch data")
    else
      .ok { st with
        output := st.output ++ slice patchData st.patchDataOffset.toNat cmd.length.toNat
        patchDataOffset := st.patchDataOffset + cmd.length }
  | .sourceCopy =>
    let offset := copyOffset st.sourceRelOffset cmd.offsetDelta
    if offset < 0 ∨ offset.toUInt64 + cmd.length > size source then
      .error (commandError "SourceCopy offset out of bounds")
    else
      .ok { st with
        output := st.output ++ slice source offset.toUInt64.toNat cmd.length.toNat
        sourceRelOffset := offset.toUInt64 + cmd.length }
  | .targetCopy =>
    let offset := copyOffset st.targetRelOffset cmd.offsetDelta
    if offset < 0 ∨ offset.toUInt64 ≥ size st.output then
      .error (commandError "TargetCopy offset out of bounds")
    else do
      let output ← targetCopyLoop offset.toUInt64 cmd.length.toNat 0 st.output
      .ok { st with output, targetRelOffset := offset.toUInt64 + cmd.length }

/-- The locals before the first command. -/
def ReplayState.init (dataOffset : Nat) : ReplayState :=
  { output := [], sourceRelOffset := 0, targetRelOffset := 0
    patchDataOffset := UInt64.ofNat dataOffset }

/-- The command loop of `apply` over a list of commands. -/
def replay (patchData source : Bytes) (dataOffset : Nat) (commands : List Command) :
    Result ReplayState :=
  commands.foldlM (execCommand patchData source) (ReplayState.init dataOffset)

end BPS

namespace BPSPatch

open BPS

/-- The error of the source size check. -/
def sourceSizeError (patch : BPSPatch) (source : Bytes) : ErrorInfo where
  code := .sourceSizeMismatch
  message := "Source size mismatch: expected " ++ toString patch.srcSize ++ ", got "
    ++ toString (size source)

/-- The error of the source checksum check. -/
def sourceCrcError (patch : BPSPatch) (source : Bytes) : ErrorInfo where
  code := .checksumMismatch
  message := "Source CRC32 mismatch: expected " ++ toString patch.srcCrc ++ ", got "
    ++ toString (calcCrc32 source)

/-- The error of the target checksum check. -/
def targetCrcError (patch : BPSPatch) (target : Bytes) : ErrorInfo where
  code := .checksumMismatch
  message := "Target CRC32 mismatch: expected " ++ toString patch.targetCrc ++ ", got "
    ++ toString (calcCrc32 target)

/-- The error of the final size check. -/
def outputSizeError (patch : BPSPatch) (output : Bytes) : ErrorInfo where
  code := .invalidPatchFormat
  message := "Output size mismatch: expected " ++ toString patch.targetSize ++ ", got "
    ++ toString (size output)

/-- `BPSPatch::apply`. -/
def apply (patch : BPSPatch) (source : Bytes) (options : PatchOptions) : Call Bytes :=
  if size source ≠ patch.srcSize then .error (patch.sourceSizeError source)
  else if options.verifyChecksums ∧ calcCrc32 source ≠ patch.srcCrc then
    .error (patch.sourceCrcError source)
  else do
    reserve patch.targetSize
    let st ← .ofExcept (replay patch.patchData source patch.dataOffset patch.commands)
    if size st.output ≠ patch.targetSize then .error (patch.outputSizeError st.output)
    else if options.verifyChecksums ∧ calcCrc32 st.output ≠ patch.targetCrc then
      .error (patch.targetCrcError st.output)
    else .ok st.output

/-- `BPSPatch::validate`. -/
def validate (patch : BPSPatch) : Result Unit :=
  if patch.patchData.length < bpsHeaderSize + 12 then
    .error { code := .invalidPatchFormat, message := "BPS patch too small" }
  else if patch.patchData.take bpsHeaderSize ≠ bpsMagic then
    .error { code := .invalidPatchHeader, message := "Invalid BPS header" }
  else
    let calculatedCrc := calcCrc32 (patch.patchData.take (patch.patchData.length - 4))
    if calculatedCrc ≠ patch.patchCrc then
      .error
        { code := .checksumMismatch
          message := "Patch CRC32 mismatch: expected " ++ toString patch.patchCrc ++ ", got "
            ++ toString calculatedCrc }
    else .ok ()

/-- `BPSPatch::verify_checksums`. -/
def verifyChecksums (patch : BPSPatch) (source target : Bytes) : Result Unit :=
  if calcCrc32 source ≠ patch.srcCrc then .error (patch.sourceCrcError source)
  else if calcCrc32 target ≠ patch.targetCrc then .error (patch.targetCrcError target)
  else .ok ()

end BPSPatch

end IUBPatch
