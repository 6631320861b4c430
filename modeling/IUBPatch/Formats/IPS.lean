import IUBPatch.Interface

/-! # The IPS format

The loader and the replayer of `ips.cc`. A patch is a list of records, each a run of literal bytes or
one repeated byte, closed by the marker "EOF" at a record boundary. -/

namespace IUBPatch

/-- `IPS_MAGIC`: the bytes of "PATCH". -/
def ipsMagic : Bytes := [0x50, 0x41, 0x54, 0x43, 0x48]

/-- `IPS_EOF`: the bytes of "EOF". -/
def ipsEof : Bytes := [0x45, 0x4F, 0x46]

/-- `IPS_HEADER_SIZE`. -/
def ipsHeaderSize : Nat := 5

/-- `IPS_EOF_SIZE`. -/
def ipsEofSize : Nat := 3

/-- `IPS_RECORD_HEADER_SIZE`. -/
def ipsRecordHeaderSize : Nat := 5

namespace IPS

/-- `patch_data[i]`, for an index the parser has checked. -/
def byteAt (data : Bytes) (i : Nat) : Byte := data.getD i 0

/-- The three-byte big-endian number at `offset`. -/
def uint24At (data : Bytes) (offset : Nat) : UInt32 :=
  (byteAt data offset).toUInt32 <<< 16 ||| (byteAt data (offset + 1)).toUInt32 <<< 8
    ||| (byteAt data (offset + 2)).toUInt32

/-- The two-byte big-endian number at `offset`. -/
def uint16At (data : Bytes) (offset : Nat) : UInt16 :=
  (byteAt data offset).toUInt16 <<< 8 ||| (byteAt data (offset + 1)).toUInt16

/-- A byte shifted up and a number below it are added by `|||`. -/
theorem shiftLeft_or_eq_add {high low i : Nat} (h : low < 2 ^ i) :
    high <<< i ||| low = high * 2 ^ i + low := by
  rw [Nat.shiftLeft_eq, Nat.mul_comm, Nat.two_pow_add_eq_or_of_lt h]

theorem toNat_uint16At (data : Bytes) (offset : Nat) :
    (uint16At data offset).toNat
      = (byteAt data offset).toNat * 256 + (byteAt data (offset + 1)).toNat := by
  have hhigh := (byteAt data offset).toNat_lt
  have hlow := (byteAt data (offset + 1)).toNat_lt
  have hmod : (byteAt data offset).toNat <<< 8 % 2 ^ 16 = (byteAt data offset).toNat <<< 8 := by
    rw [Nat.shiftLeft_eq]; exact Nat.mod_eq_of_lt (by omega)
  rw [uint16At, UInt16.toNat_or, UInt16.toNat_shiftLeft, UInt8.toNat_toUInt16,
    UInt8.toNat_toUInt16]
  exact (congrArg (· ||| _) hmod).trans (shiftLeft_or_eq_add hlow)

theorem toNat_uint24At (data : Bytes) (offset : Nat) :
    (uint24At data offset).toNat
      = ((byteAt data offset).toNat * 256 + (byteAt data (offset + 1)).toNat) * 256
        + (byteAt data (offset + 2)).toNat := by
  have hhigh := (byteAt data offset).toNat_lt
  have hmid := (byteAt data (offset + 1)).toNat_lt
  have hlow := (byteAt data (offset + 2)).toNat_lt
  set a := (byteAt data offset).toNat with ha
  set b := (byteAt data (offset + 1)).toNat with hb
  set c := (byteAt data (offset + 2)).toNat with hc
  have hva : ((byteAt data offset).toUInt32 <<< 16).toNat = a <<< 16 := by
    rw [UInt32.toNat_shiftLeft, UInt8.toNat_toUInt32, Nat.shiftLeft_eq, Nat.shiftLeft_eq]
    exact Nat.mod_eq_of_lt (by simp; omega)
  have hvb : ((byteAt data (offset + 1)).toUInt32 <<< 8).toNat = b <<< 8 := by
    rw [UInt32.toNat_shiftLeft, UInt8.toNat_toUInt32, Nat.shiftLeft_eq, Nat.shiftLeft_eq]
    exact Nat.mod_eq_of_lt (by simp; omega)
  -- the two upper bytes together are one shifted number
  have hor : a <<< 16 ||| b <<< 8 = (a * 256 + b) <<< 8 := by
    rw [Nat.shiftLeft_eq b, shiftLeft_or_eq_add (by omega), Nat.shiftLeft_eq]
    ring
  rw [uint24At, UInt32.toNat_or, UInt32.toNat_or, hva, hvb, hor, UInt8.toNat_toUInt32]
  exact shiftLeft_or_eq_add hlow

/-- `struct Record`. A data record leaves `rleSize` and `rleValue` unset in the source (zero here) and
nothing reads them; an RLE record has size zero and no data. -/
structure Record where
  offset : UInt32
  size : UInt16
  isRle : Bool
  rleSize : UInt16
  rleValue : Byte
  data : Bytes
  offset_lt : offset.toNat < 2 ^ 24
  isRle_iff : isRle = true ↔ size = 0
  length_data : data.length = size.toNat
  deriving DecidableEq

/-- The length of the range a record writes, `rec.is_rle ? rec.rle_size : rec.size`. -/
def Record.length (record : Record) : UInt16 :=
  if record.isRle then record.rleSize else record.size

theorem uint24At_lt (data : Bytes) (offset : Nat) : (uint24At data offset).toNat < 2 ^ 24 := by
  have hhigh := (byteAt data offset).toNat_lt
  have hmid := (byteAt data (offset + 1)).toNat_lt
  have hlow := (byteAt data (offset + 2)).toNat_lt
  rw [toNat_uint24At]
  omega

/-- The record at `offset`, past the end-marker test of the loop of `parse`, and the offset after
it. -/
def parseRecord (patchData : Bytes) (offset : Nat) : Result (Record × Nat) :=
  if offset + ipsRecordHeaderSize > patchData.length then
    .error { code := .corruptedPatchData, message := "Truncated IPS record header" }
  else if hrle : uint16At patchData (offset + 3) = 0 then
    if offset + 5 + 3 > patchData.length then
      .error { code := .corruptedPatchData, message := "Truncated RLE record" }
    else
      .ok
        ({ offset := uint24At patchData offset, size := uint16At patchData (offset + 3)
           isRle := true, rleSize := uint16At patchData (offset + 5)
           rleValue := byteAt patchData (offset + 7), data := []
           offset_lt := uint24At_lt patchData offset
           isRle_iff := by simp [hrle]
           length_data := by simp [hrle] }, offset + 5 + 3)
  else if hdata : offset + 5 + (uint16At patchData (offset + 3)).toNat > patchData.length then
    .error { code := .corruptedPatchData, message := "Truncated data record" }
  else
    .ok
      ({ offset := uint24At patchData offset, size := uint16At patchData (offset + 3)
         isRle := false, rleSize := 0, rleValue := 0
         data := slice patchData (offset + 5) (uint16At patchData (offset + 3)).toNat
         offset_lt := uint24At_lt patchData offset
         isRle_iff := by simp [hrle]
         length_data := length_slice (Nat.not_lt.mp hdata) },
        offset + 5 + (uint16At patchData (offset + 3)).toNat)

/-- A record takes up at least its header. -/
theorem lt_parseRecord {patchData : Bytes} {offset next : Nat} {record : Record}
    (h : parseRecord patchData offset = .ok (record, next)) : offset < next := by
  rw [parseRecord] at h
  split at h
  · cases h
  · split at h
    · split at h
      · cases h
      · cases h; omega
    · split at h
      · cases h
      · cases h; omega

/-- The loop of `parse` from `offset` on: the records up to the end marker, and whether at least four
bytes follow the marker. -/
def parseRecords (patchData : Bytes) (offset : Nat) : Result (List Record × Bool) :=
  if offset + 3 ≤ patchData.length then
    if slice patchData offset ipsEofSize = ipsEof then
      .ok ([], decide (offset + ipsEofSize + 4 ≤ patchData.length))
    else
      match _hrecord : parseRecord patchData offset with
      | .error e => .error e
      | .ok (record, next) => do
        let (records, isIps32Format) ← parseRecords patchData next
        pure (record :: records, isIps32Format)
  else .ok ([], false)
termination_by patchData.length - offset
decreasing_by
  have hnext := lt_parseRecord _hrecord
  omega

end IPS

open IPS in
/-- `IPSPatch::Impl`, the fields of a parsed patch. -/
structure IPSPatch where
  patchData : Bytes
  isIps32Format : Bool
  records : List Record
  deriving DecidableEq

namespace IPSPatch

open IPS

/-- `IPSPatch::Impl::parse`. -/
def parse (patchData : Bytes) : Result IPSPatch :=
  if patchData.length < ipsHeaderSize + ipsEofSize then
    .error { code := .invalidPatchFormat, message := "IPS patch too small" }
  else do
    let (records, isIps32Format) ← parseRecords patchData ipsHeaderSize
    pure { patchData, isIps32Format, records }

/-- `IPSPatch::load`. -/
def load (patchData : Bytes) : Result IPSPatch :=
  if patchData.length < ipsHeaderSize + ipsEofSize then
    .error { code := .invalidPatchFormat, message := "IPS patch too small" }
  else if patchData.take ipsHeaderSize ≠ ipsMagic then
    .error { code := .invalidPatchHeader, message := "Invalid IPS header" }
  else parse patchData

/-- `IPSPatch::is_ips32`. -/
def isIps32 (patch : IPSPatch) : Bool := patch.isIps32Format

/-- `IPSPatch::get_metadata`: the target size is the furthest end of a record. -/
def getMetadata (patch : IPSPatch) : Result PatchMetadata :=
  .ok
    { format := .ips, hasChecksums := false
      targetSize := patch.records.foldl (fun maxOffset record =>
        let recEnd := (record.offset + record.length.toUInt32).toUInt64
        if recEnd > maxOffset then recEnd else maxOffset) 0 }

/-- The body of the record loop of `apply`. -/
def writeRecord (output : Bytes) (record : Record) : Call Bytes := do
  let requiredSize := (record.offset + record.length.toUInt32).toUInt64
  let output ← if requiredSize > size output then resize output requiredSize
    else pure output
  if record.isRle then
    pure (overwrite output record.offset.toNat
      (List.replicate record.rleSize.toNat record.rleValue))
  else pure (overwrite output record.offset.toNat record.data)

/-- `IPSPatch::apply`; the options play no part. -/
def apply (patch : IPSPatch) (source : Bytes) (_options : PatchOptions) : Call Bytes :=
  patch.records.foldlM writeRecord source

/-- `IPSPatch::validate`. -/
def validate (patch : IPSPatch) : Result Unit :=
  if patch.patchData.length < ipsHeaderSize + ipsEofSize then
    .error { code := .invalidPatchFormat, message := "IPS patch too small" }
  else if patch.patchData.take ipsHeaderSize ≠ ipsMagic then
    .error { code := .invalidPatchHeader, message := "Invalid IPS header" }
  else .ok ()

end IPSPatch

end IUBPatch
