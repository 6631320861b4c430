import IUBPatch.Formats.IPS

/-! # IPS parsing undoes IPS serialisation

The writer of the format, and the parser of the source run on what it writes. The parser recognises
the end marker by content at a record boundary, so a record is told from the marker by its offset
alone; nothing inside a record is ever compared with the marker. -/

namespace IUBPatch.IPS

/-! ### The writer -/

/-- The two big-endian bytes of a number below `2^16`. -/
def uint16Bytes (n : Nat) : Bytes := [UInt8.ofNat (n / 256), UInt8.ofNat n]

/-- The three big-endian bytes of a number below `2^24`. -/
def uint24Bytes (n : Nat) : Bytes := UInt8.ofNat (n / 65536) :: uint16Bytes n

/-- What the format can say in one record: bytes to write at an offset, or one byte to repeat. -/
inductive Hunk where
  | data (offset : Fin (2 ^ 24)) (payload : Bytes) (nonempty : 0 < payload.length)
      (fits : payload.length < 2 ^ 16)
  | rle (offset : Fin (2 ^ 24)) (runLength : UInt16) (fill : Byte)

/-- The size field of a payload is not the zero that marks an RLE record. -/
theorem ofNat_length_ne_zero {payload : Bytes} (nonempty : 0 < payload.length)
    (fits : payload.length < 2 ^ 16) : UInt16.ofNat payload.length ≠ 0 := by
  rw [ne_eq, ← UInt16.toNat_inj, UInt16.toNat_ofNat', Nat.mod_eq_of_lt fits]
  exact nonempty.ne'

namespace Hunk

/-- The offset of the range the hunk writes. -/
def offset : Hunk → Nat
  | .data offset _ _ _ => offset
  | .rle offset _ _ => offset

theorem offset_lt (hunk : Hunk) : hunk.offset < 2 ^ 24 := by
  cases hunk with
  | data offset => exact offset.isLt
  | rle offset => exact offset.isLt

/-- What follows the offset: the size and the data, or size zero, the run length and the fill. -/
def body : Hunk → Bytes
  | .data _ payload _ _ => uint16Bytes payload.length ++ payload
  | .rle _ runLength fill => uint16Bytes 0 ++ (uint16Bytes runLength.toNat ++ [fill])

/-- The bytes of a hunk. -/
def encode (hunk : Hunk) : Bytes := uint24Bytes hunk.offset ++ hunk.body

/-- The parsed form of a hunk. -/
def record : Hunk → Record
  | .data offset payload nonempty fits =>
    { offset := UInt32.ofNat offset, size := UInt16.ofNat payload.length, isRle := false
      rleSize := 0, rleValue := 0, data := payload
      offset_lt := by rw [UInt32.toNat_ofNat']; omega
      isRle_iff := by simp [ofNat_length_ne_zero nonempty fits]
      length_data := by rw [UInt16.toNat_ofNat', Nat.mod_eq_of_lt fits] }
  | .rle offset runLength fill =>
    { offset := UInt32.ofNat offset, size := 0, isRle := true
      rleSize := runLength, rleValue := fill, data := []
      offset_lt := by rw [UInt32.toNat_ofNat']; omega
      isRle_iff := by simp
      length_data := rfl }

end Hunk

/-- The file of a list of hunks, with `trailing` bytes after the end marker. -/
def serialize (hunks : List Hunk) (trailing : Bytes) : Bytes :=
  ipsMagic ++ (hunks.flatMap Hunk.encode ++ (ipsEof ++ trailing))

/-! ### Reading numbers back -/

theorem length_uint16Bytes (n : Nat) : (uint16Bytes n).length = 2 := rfl

theorem length_uint24Bytes (n : Nat) : (uint24Bytes n).length = 3 := rfl

/-- A byte of the unread part. -/
theorem byteAt_add {data unread : Bytes} {offset : Nat} (h : data.drop offset = unread) (i : Nat) :
    byteAt data (offset + i) = unread.getD i 0 := by
  rw [byteAt, ← h, List.getD_eq_getElem?_getD, List.getD_eq_getElem?_getD, List.getElem?_drop]

/-- The two bytes of a number are read back as it. -/
theorem uint16At_of_drop {data rest : Bytes} {offset n : Nat} (hn : n < 2 ^ 16)
    (h : data.drop offset = uint16Bytes n ++ rest) : uint16At data offset = UInt16.ofNat n := by
  have hhigh : byteAt data offset = UInt8.ofNat (n / 256) := byteAt_add h 0
  have hlow : byteAt data (offset + 1) = UInt8.ofNat n := byteAt_add h 1
  rw [← UInt16.toNat_inj, toNat_uint16At, hhigh, hlow, UInt8.toNat_ofNat', UInt8.toNat_ofNat',
    UInt16.toNat_ofNat']
  omega

/-- The three bytes of a number are read back as it. -/
theorem uint24At_of_drop {data rest : Bytes} {offset n : Nat} (hn : n < 2 ^ 24)
    (h : data.drop offset = uint24Bytes n ++ rest) : uint24At data offset = UInt32.ofNat n := by
  have hhigh : byteAt data offset = UInt8.ofNat (n / 65536) := byteAt_add h 0
  have hmid : byteAt data (offset + 1) = UInt8.ofNat (n / 256) := byteAt_add h 1
  have hlow : byteAt data (offset + 2) = UInt8.ofNat n := byteAt_add h 2
  rw [← UInt32.toNat_inj, toNat_uint24At, hhigh, hmid, hlow, UInt8.toNat_ofNat',
    UInt8.toNat_ofNat', UInt8.toNat_ofNat', UInt32.toNat_ofNat']
  omega

/-- The end marker is the offset `0x454F46`, and no other offset has its bytes. -/
theorem uint24Bytes_eq_ipsEof_iff {n : Nat} (hn : n < 2 ^ 24) :
    uint24Bytes n = ipsEof ↔ n = 0x454F46 := by
  constructor
  · intro h
    simp only [uint24Bytes, uint16Bytes, ipsEof, List.cons.injEq, ← UInt8.toNat_inj,
      UInt8.toNat_ofNat'] at h
    obtain ⟨hhigh, hmid, hlow, -⟩ := h
    simp only [UInt8.reduceToNat] at hhigh hmid hlow
    omega
  · rintro rfl; decide

/-! ### The parser on what the writer wrote -/

/-- The parser reads a hunk back where its bytes stand, whatever follows. -/
theorem parseRecord_of_drop {data rest : Bytes} {offset : Nat} (hunk : Hunk)
    (h : data.drop offset = hunk.encode ++ rest) :
    parseRecord data offset = .ok (hunk.record, offset + hunk.encode.length) := by
  have hlength := length_of_drop h (by rw [Hunk.encode, uint24Bytes]; simp)
  rw [Hunk.encode, List.append_assoc] at h
  have hoffset := uint24At_of_drop hunk.offset_lt h
  have hbody := drop_add_of_drop h
  rw [length_uint24Bytes] at hbody
  rw [parseRecord]
  cases hunk with
  -- a size other than zero: the data branch
  | data start payload nonempty fits =>
    rw [Hunk.body, List.append_assoc] at hbody
    have hsize := uint16At_of_drop fits hbody
    have hne : uint16At data (offset + 3) ≠ 0 := by
      rw [hsize]; exact ofNat_length_ne_zero nonempty fits
    have hsizeNat : (UInt16.ofNat payload.length).toNat = payload.length := by
      rw [UInt16.toNat_ofNat', Nat.mod_eq_of_lt fits]
    have hpayload := slice_of_drop (drop_add_of_drop hbody)
    rw [length_uint16Bytes, Nat.add_assoc] at hpayload
    have hlong : offset + (5 + payload.length) ≤ data.length := by
      simp [hlength, Hunk.encode, Hunk.body, length_uint24Bytes, length_uint16Bytes]; omega
    rw [if_neg (by rw [ipsRecordHeaderSize]; omega), dif_neg hne,
      dif_neg (by rw [hsize, hsizeNat]; omega)]
    simp only [hoffset, hsize, hsizeNat, hpayload, Hunk.record, Hunk.encode, Hunk.body, Hunk.offset,
      List.length_append, length_uint24Bytes, length_uint16Bytes, ← Nat.add_assoc]
  -- size zero: the RLE branch
  | rle start runLength fill =>
    rw [Hunk.body, List.append_assoc] at hbody
    have hsize : uint16At data (offset + 3) = 0 := uint16At_of_drop (by decide) hbody
    have hrun := drop_add_of_drop hbody
    rw [List.append_assoc, length_uint16Bytes] at hrun
    have hrunLength := uint16At_of_drop runLength.toNat_lt hrun
    have hfill : byteAt data (offset + 7) = fill := byteAt_add (drop_add_of_drop hrun) 0
    have hlong : offset + 8 ≤ data.length := by
      simp [hlength, Hunk.encode, Hunk.body, length_uint24Bytes, length_uint16Bytes]; omega
    rw [UInt16.ofNat_toNat] at hrunLength
    rw [if_neg (by rw [ipsRecordHeaderSize]; omega), dif_pos hsize, if_neg (by omega)]
    simp only [hoffset, hsize, hrunLength, hfill, Hunk.record, Hunk.encode, Hunk.body, Hunk.offset,
      List.length_append, length_uint24Bytes, length_uint16Bytes]
    rfl

/-- One turn of the loop of `parse` that reads a record. -/
theorem parseRecords_cons {data : Bytes} {offset next : Nat} {record : Record}
    (hmark : slice data offset ipsEofSize ≠ ipsEof)
    (hrecord : parseRecord data offset = .ok (record, next)) :
    parseRecords data offset
      = (parseRecords data next).map fun parsed => (record :: parsed.1, parsed.2) := by
  have hlong : offset + 3 ≤ data.length := by
    by_contra hshort
    rw [parseRecord, if_pos (by rw [ipsRecordHeaderSize]; omega)] at hrecord
    cases hrecord
  rw [parseRecords, if_pos hlong, if_neg hmark]
  split
  · rename_i e herror
    rw [hrecord] at herror
    cases herror
  · rename_i record' next' hrecord'
    rw [hrecord] at hrecord'
    cases hrecord'
    cases parseRecords data next <;> rfl

/-- Where a hunk stands, the end marker is read exactly if the hunk has the reserved offset. -/
theorem slice_eq_ipsEof_iff {data rest : Bytes} {offset : Nat} (hunk : Hunk)
    (h : data.drop offset = hunk.encode ++ rest) :
    slice data offset ipsEofSize = ipsEof ↔ hunk.offset = 0x454F46 := by
  rw [Hunk.encode, List.append_assoc] at h
  have hslice : slice data offset ipsEofSize = uint24Bytes hunk.offset := slice_of_drop h
  rw [hslice, uint24Bytes_eq_ipsEof_iff hunk.offset_lt]

/-- **The loop on a list of hunks**: it reads them all and goes on behind them. -/
theorem parseRecords_append {data rest : Bytes} {hunks : List Hunk} {offset : Nat}
    (hreserved : ∀ hunk ∈ hunks, hunk.offset ≠ 0x454F46)
    (h : data.drop offset = hunks.flatMap Hunk.encode ++ rest) :
    parseRecords data offset = (parseRecords data (offset + (hunks.flatMap Hunk.encode).length)).map
      fun parsed => (hunks.map Hunk.record ++ parsed.1, parsed.2) := by
  induction hunks generalizing offset with
  | nil =>
    rw [List.flatMap_nil, List.length_nil, Nat.add_zero]
    cases parseRecords data offset <;> rfl
  | cons hunk hunks ih =>
    rw [List.flatMap_cons, List.append_assoc] at h
    -- what stands at the boundary is the offset of the hunk, and that is not the marker
    have hmark : slice data offset ipsEofSize ≠ ipsEof :=
      mt (slice_eq_ipsEof_iff hunk h).mp (hreserved hunk (by simp))
    rw [parseRecords_cons hmark (parseRecord_of_drop hunk h),
      ih (fun other hother => hreserved other (by simp [hother])) (drop_add_of_drop h),
      List.flatMap_cons, List.length_append, Nat.add_assoc]
    cases parseRecords data (offset + (hunk.encode.length + (hunks.flatMap Hunk.encode).length)) <;> rfl

/-- The loop on a list of hunks with the end marker behind them. -/
theorem parseRecords_of_drop {data trailing : Bytes} {hunks : List Hunk} {offset : Nat}
    (hreserved : ∀ hunk ∈ hunks, hunk.offset ≠ 0x454F46)
    (h : data.drop offset = hunks.flatMap Hunk.encode ++ (ipsEof ++ trailing)) :
    parseRecords data offset = .ok (hunks.map Hunk.record, decide (4 ≤ trailing.length)) := by
  rw [parseRecords_append hreserved h]
  have hend := drop_add_of_drop h
  set next := offset + (hunks.flatMap Hunk.encode).length
  have hlength := length_of_drop hend (by simp [ipsEof])
  have hmark : slice data next ipsEofSize = ipsEof := slice_of_drop hend
  have hfour : next + ipsEofSize + 4 ≤ data.length ↔ 4 ≤ trailing.length := by
    simp [hlength, ipsEof, ipsEofSize]; omega
  rw [parseRecords, if_pos (by simp [hlength, ipsEof]), if_pos hmark, decide_eq_decide.mpr hfour]
  show Except.ok (hunks.map Hunk.record ++ [], _) = _
  rw [List.append_nil]

/-- The patch that a serialised list of hunks loads as. -/
theorem load_serialized {hunks : List Hunk} (trailing : Bytes)
    (hreserved : ∀ hunk ∈ hunks, hunk.offset ≠ 0x454F46) :
    IPSPatch.load (serialize hunks trailing)
      = .ok ⟨serialize hunks trailing, decide (4 ≤ trailing.length), hunks.map Hunk.record⟩ := by
  have hmagic : (serialize hunks trailing).take ipsHeaderSize = ipsMagic := List.take_left' rfl
  have hrecords : (serialize hunks trailing).drop ipsHeaderSize
      = hunks.flatMap Hunk.encode ++ (ipsEof ++ trailing) := List.drop_left' rfl
  have hlong : ¬ (serialize hunks trailing).length < ipsHeaderSize + ipsEofSize := by
    simp [serialize, ipsMagic, ipsEof, ipsHeaderSize, ipsEofSize]; omega
  rw [IPSPatch.load, if_neg hlong, if_neg (not_not.mpr hmagic), IPSPatch.parse, if_neg hlong,
    parseRecords_of_drop hreserved hrecords]
  rfl

/-- **IPS parsing undoes IPS serialisation.** For every list of hunks none of which starts at the
reserved offset, and for every trailing bytes, the file of the hunks loads as their records in order,
and is taken for IPS32 exactly when at least four bytes trail the marker. -/
theorem load_serialize {hunks : List Hunk} (trailing : Bytes)
    (hreserved : ∀ hunk ∈ hunks, hunk.offset ≠ 0x454F46) :
    ∃ patch, IPSPatch.load (serialize hunks trailing) = .ok patch ∧
      patch.records = hunks.map Hunk.record ∧
      (patch.isIps32 = true ↔ 4 ≤ trailing.length) :=
  ⟨_, load_serialized trailing hreserved, rfl, decide_eq_true_iff⟩

/-- A file with "EOF" in a payload and across two records: an RLE record of fill 'E' before one whose
offset begins with 'O' 'F', and a payload that is the marker itself. -/
theorem load_serialize_markers : ∃ patch,
    IPSPatch.load (serialize
      [.rle 0 1 0x45, .data 0x4F4600 ipsEof (by decide) (by decide)] [1, 2, 3]) = .ok patch ∧
      patch.records.length = 2 ∧ (patch.isIps32 = true ↔ 4 ≤ 3) := by
  have hreserved : ∀ hunk ∈ [Hunk.rle 0 1 0x45, .data 0x4F4600 ipsEof (by decide) (by decide)],
      hunk.offset ≠ 0x454F46 := by decide
  obtain ⟨patch, hload, hrecords, hips32⟩ := load_serialize [1, 2, 3] hreserved
  exact ⟨patch, hload, by rw [hrecords]; rfl, hips32⟩

end IUBPatch.IPS
