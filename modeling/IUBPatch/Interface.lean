import IUBPatch.Bytes

/-! # What every patch format shares

The options a caller passes, the format tag and the metadata a patch reports. -/

namespace IUBPatch

/-- `PatchOptions`, the fields the operations read. -/
structure PatchOptions where
  verifyChecksums : Bool := true
  createBackup : Bool := false
  backupSuffix : String := ".bak"
  deriving DecidableEq, Repr

/-- `enum class Format`. -/
inductive Format where
  | unknown
  | ips
  | ups
  | bps
  deriving DecidableEq, Repr

/-- `PatchMetadata`. -/
structure PatchMetadata where
  format : Format := .unknown
  srcSize : UInt64 := 0
  targetSize : UInt64 := 0
  sourceChecksum : UInt32 := 0
  targetChecksum : UInt32 := 0
  hasChecksums : Bool := false
  deriving DecidableEq, Repr

end IUBPatch
