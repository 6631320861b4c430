import IUBPatch.Formats.IPSRoundTrip
import IUBPatch.Lib.PrefixCode
import Mathlib.Data.List.GetD

/-! # Truncated IPS patches

What the loader takes for a patch is records up to an end marker, or records up to the end of the file
with at most two bytes left over. The second kind is what a download cut at a record boundary looks
like. -/

namespace IUBPatch.IPS

/-! ### The parser read backwards -/

/-- A byte of the data stands first among the unread ones. -/
theorem drop_eq_byteAt_cons {data : Bytes} (i : Nat) (h : i < data.length) :
    data.drop i = byteAt data i :: data.drop (i + 1) := by
  rw [byteAt, List.getD_eq_getElem _ _ h, List.drop_eq_getElem_cons h]

/-- The bytes of the number read at an offset are the bytes there. -/
theorem drop_eq_uint16Bytes {data : Bytes} (i : Nat) (h : i + 2 ≤ data.length) :
    data.drop i = uint16Bytes (uint16At data i).toNat ++ data.drop (i + 2) := by
  have hhigh := (byteAt data i).toNat_lt
  have hlow := (byteAt data (i + 1)).toNat_lt
  have hbytes : uint16Bytes (uint16At data i).toNat = [byteAt data i, byteAt data (i + 1)] := by
    simp only [uint16Bytes, toNat_uint16At, List.cons.injEq, ← UInt8.toNat_inj, UInt8.toNat_ofNat',
      and_true]
    omega
  rw [drop_eq_byteAt_cons _ (by omega), drop_eq_byteAt_cons _ (by omega), hbytes]
  rfl

theorem drop_eq_uint24Bytes {data : Bytes} (i : Nat) (h : i + 3 ≤ data.length) :
    data.drop i = uint24Bytes (uint24At data i).toNat ++ data.drop (i + 3) := by
  have hhigh := (byteAt data i).toNat_lt
  have hmid := (byteAt data (i + 1)).toNat_lt
  have hlow := (byteAt data (i + 2)).toNat_lt
  have hbytes : uint24Bytes (uint24At data i).toNat
      = [byteAt data i, byteAt data (i + 1), byteAt data (i + 2)] := by
    simp only [uint24Bytes, uint16Bytes, toNat_uint24At, List.cons.injEq, ← UInt8.toNat_inj,
      UInt8.toNat_ofNat', and_true]
    omega
  rw [drop_eq_byteAt_cons _ (by omega), drop_eq_byteAt_cons _ (by omega),
    drop_eq_byteAt_cons _ (by omega), hbytes]
  rfl

/-- What is parsed as a record is the bytes of a hunk. -/
theorem exists_hunk_of_parseRecord {data : Bytes} {offset next : Nat} {record : Record}
    (h : parseRecord data offset = .ok (record, next)) :
    ∃ hunk : Hunk, data.drop offset = hunk.encode ++ data.drop next := by
  rw [parseRecord] at h
  split at h
  · cases h
  rename_i hheader
  unfold ipsRecordHeaderSize at hheader
  have hlength := Nat.not_lt.mp hheader
  have hoffset := drop_eq_uint24Bytes offset (show offset + 3 ≤ data.length by omega)
  have hsize := drop_eq_uint16Bytes (offset + 3) hlength
  set start : Fin (2 ^ 24) := ⟨(uint24At data offset).toNat, uint24At_lt data offset⟩ with hstart
  by_cases hrle : uint16At data (offset + 3) = 0
  -- size zero: the RLE branch
  · rw [dif_pos hrle] at h
    split at h
    · cases h
    rename_i hlong
    cases h
    have hrun := drop_eq_uint16Bytes (offset + 5) (show offset + 5 + 2 ≤ data.length by omega)
    have hfill := drop_eq_byteAt_cons (offset + 7) (show offset + 7 < data.length by omega)
    refine ⟨.rle start (uint16At data (offset + 5)) (byteAt data (offset + 7)), ?_⟩
    rw [hoffset, hsize, hrle, hrun, hfill]
    simp [Hunk.encode, Hunk.body, Hunk.offset, hstart]
  -- a size other than zero: the data branch
  · rw [dif_neg hrle] at h
    split at h
    · cases h
    rename_i hlong
    cases h
    set n := (uint16At data (offset + 3)).toNat with hn
    have hpayload : (slice data (offset + 5) n).length = n := length_slice (Nat.not_lt.mp hlong)
    have hpos : 0 < n := Nat.pos_of_ne_zero fun hzero => hrle (UInt16.toNat_inj.mp hzero)
    have hlt : n < 2 ^ 16 := (uint16At data (offset + 3)).toNat_lt
    refine ⟨.data start (slice data (offset + 5) n) (by omega) (by omega), ?_⟩
    have hrest : data.drop (offset + 5) = slice data (offset + 5) n ++ data.drop (offset + 5 + n) := by
      rw [slice, ← List.drop_drop (i := n), List.take_append_drop]
    rw [hoffset, hsize, hrest]
    simp [Hunk.encode, Hunk.body, Hunk.offset, hstart, hpayload]

/-- **What the loop accepts**: hunks, and behind them either the end marker or fewer bytes than a
marker has. -/
theorem exists_hunks_of_parseRecords {data : Bytes} {offset : Nat} {parsed : List Record × Bool}
    (h : parseRecords data offset = .ok parsed) :
    ∃ (hunks : List Hunk) (rest : Bytes), (∀ hunk ∈ hunks, hunk.offset ≠ 0x454F46) ∧
      data.drop offset = hunks.flatMap Hunk.encode ++ rest ∧
      (rest.length < ipsEofSize ∨ ∃ trailing, rest = ipsEof ++ trailing) := by
  induction offset using parseRecords.induct data generalizing parsed with
  | case1 offset hlong hmark =>
    refine ⟨[], data.drop offset, by simp, rfl, .inr ⟨data.drop (offset + 3), ?_⟩⟩
    have hslice : (data.drop offset).take 3 = ipsEof := hmark
    rw [← hslice, ← List.drop_drop, List.take_append_drop]
  | case2 offset hlong hmark e herror =>
    rw [parseRecords, if_pos hlong, if_neg hmark] at h
    split at h
    · cases h
    · rename_i record next hrecord
      rw [hrecord] at herror
      cases herror
  | case3 offset hlong hmark record next hrecord ih =>
    rw [parseRecords_cons hmark hrecord] at h
    cases hparsed : parseRecords data next with
    | error e => rw [hparsed] at h; cases h
    | ok parsed' =>
      obtain ⟨hunks, rest, hreserved, hdrop, hrest⟩ := ih hparsed
      obtain ⟨hunk, hhunk⟩ := exists_hunk_of_parseRecord hrecord
      -- the test for the marker found none, so the hunk has another offset
      have hoffset : hunk.offset ≠ 0x454F46 := mt (slice_eq_ipsEof_iff hunk hhunk).mpr hmark
      refine ⟨hunk :: hunks, rest, ?_, ?_, hrest⟩
      · intro other hother
        rcases List.mem_cons.mp hother with rfl | hother
        · exact hoffset
        · exact hreserved other hother
      · rw [hhunk, hdrop, List.flatMap_cons, List.append_assoc]
  | case4 offset hshort =>
    refine ⟨[], data.drop offset, by simp, rfl, .inl ?_⟩
    rw [List.length_drop, ipsEofSize]
    omega

/-! ### Hunks are told apart -/

/-- No hunk begins another one: its bytes are parsed with its length. -/
theorem prefixFree_encode : PrefixCode.PrefixFree Hunk.encode := by
  rintro hunk hunk' ⟨rest, hrest⟩
  have hparsed : parseRecord hunk'.encode 0 = .ok (hunk.record, 0 + hunk.encode.length) :=
    parseRecord_of_drop hunk (by rw [List.drop_zero, hrest])
  have hparsed' : parseRecord hunk'.encode 0 = .ok (hunk'.record, 0 + hunk'.encode.length) :=
    parseRecord_of_drop hunk' (by rw [List.drop_zero, List.append_nil])
  rw [hparsed] at hparsed'
  have hlength : hunk.encode.length = hunk'.encode.length := by
    have hnext := (Prod.mk.inj (Except.ok.inj hparsed')).2
    omega
  exact List.IsPrefix.eq_of_length ⟨rest, hrest⟩ hlength

/-- The end marker begins no hunk but one with the reserved offset. -/
theorem ipsEof_append_ne_encode {hunk : Hunk} (hreserved : hunk.offset ≠ 0x454F46)
    (trailing rest : Bytes) : ipsEof ++ trailing ≠ hunk.encode ++ rest := by
  intro h
  have hdrop : (ipsEof ++ trailing).drop 0 = hunk.encode ++ rest := h
  exact hreserved ((slice_eq_ipsEof_iff hunk hdrop).mp rfl)

/-! ### What is accepted -/

/-- A complete patch: the magic, records, the end marker at a record boundary, and anything. -/
def Complete (P : Bytes) : Prop := ∃ hunks trailing, P = serialize hunks trailing

/-- The file is long enough for a patch, and ends at a record boundary or one or two bytes behind it,
with no end marker at any boundary. -/
def EndsAtBoundary (P : Bytes) : Prop :=
  ipsHeaderSize + ipsEofSize ≤ P.length ∧ ∃ (hunks : List Hunk) (rest : Bytes),
    (∀ hunk ∈ hunks, hunk.offset ≠ 0x454F46) ∧ rest.length < ipsEofSize ∧
      P = ipsMagic ++ (hunks.flatMap Hunk.encode ++ rest)

/-- What the loader accepts: enough bytes, the magic, and what the loop accepts behind it. -/
theorem load_eq_ok_iff {P : Bytes} : (∃ patch, IPSPatch.load P = .ok patch) ↔
    ipsHeaderSize + ipsEofSize ≤ P.length ∧ P.take ipsHeaderSize = ipsMagic ∧
      ∃ parsed, parseRecords P ipsHeaderSize = .ok parsed := by
  rw [IPSPatch.load]
  by_cases hlong : P.length < ipsHeaderSize + ipsEofSize
  · rw [if_pos hlong]
    refine iff_of_false ?_ fun h => absurd h.1 (Nat.not_le.mpr hlong)
    rintro ⟨patch, h⟩; cases h
  rw [if_neg hlong]
  by_cases hmagic : P.take ipsHeaderSize = ipsMagic
  · rw [if_neg (not_not.mpr hmagic), IPSPatch.parse, if_neg hlong]
    cases hparsed : parseRecords P ipsHeaderSize with
    | error e =>
      refine iff_of_false ?_ ?_
      · rintro ⟨patch, h⟩; cases h
      · rintro ⟨-, -, parsed, h⟩; cases h
    | ok parsed => exact iff_of_true ⟨_, rfl⟩ ⟨Nat.not_lt.mp hlong, hmagic, parsed, rfl⟩
  · rw [if_pos hmagic]
    refine iff_of_false ?_ fun h => hmagic h.2.1
    rintro ⟨patch, h⟩; cases h

/-- **What the loader accepts, on the bytes**: a complete patch without the reserved offset, or a file
that ends at a boundary. -/
theorem load_eq_ok_iff_layout {P : Bytes} : (∃ patch, IPSPatch.load P = .ok patch) ↔
    (∃ hunks trailing, (∀ hunk ∈ hunks, hunk.offset ≠ 0x454F46) ∧ P = serialize hunks trailing) ∨
      EndsAtBoundary P := by
  rw [load_eq_ok_iff]
  constructor
  · rintro ⟨hlong, hmagic, parsed, hparsed⟩
    obtain ⟨hunks, rest, hreserved, hdrop, hrest⟩ := exists_hunks_of_parseRecords hparsed
    have hparts : P = ipsMagic ++ (hunks.flatMap Hunk.encode ++ rest) := by
      rw [← hmagic, ← hdrop, List.take_append_drop]
    rcases hrest with hshort | ⟨trailing, rfl⟩
    · exact .inr ⟨hlong, hunks, rest, hreserved, hshort, hparts⟩
    · exact .inl ⟨hunks, trailing, hreserved, hparts⟩
  · rintro (⟨hunks, trailing, hreserved, rfl⟩ | ⟨hlong, hunks, rest, hreserved, hshort, rfl⟩)
    · exact load_eq_ok_iff.mp ⟨_, load_serialized trailing hreserved⟩
    · refine ⟨hlong, List.take_left' rfl, ?_⟩
      have hdrop : (ipsMagic ++ (hunks.flatMap Hunk.encode ++ rest)).drop ipsHeaderSize
          = hunks.flatMap Hunk.encode ++ rest := List.drop_left' rfl
      rw [parseRecords_append hreserved hdrop]
      -- the loop finds too little left to look for a marker in, and stops
      rw [parseRecords, if_neg]
      · exact ⟨_, rfl⟩
      · rw [ipsEofSize] at hshort
        simp [ipsMagic, ipsHeaderSize]
        omega

/-- No file ends at a boundary and is complete. -/
theorem EndsAtBoundary.not_complete {P : Bytes} (h : EndsAtBoundary P) : ¬ Complete P := by
  rintro ⟨hunks', trailing, hcomplete⟩
  obtain ⟨-, hunks, rest, hreserved, hshort, rfl⟩ := h
  have hread := List.append_cancel_left hcomplete
  obtain ⟨n, -, -, hrest⟩ := prefixFree_encode.exists_take_of_append hread
    fun hunk hhunk z => ipsEof_append_ne_encode (hreserved hunk hhunk) trailing z
  -- the rest would have to hold the marker
  rw [hrest, ipsEofSize] at hshort
  simp [ipsEof] at hshort
  omega

/-! ### Cuts -/

/-- Where the first `i` hunks of a patch end. -/
def boundary (hunks : List Hunk) (i : Nat) : Nat :=
  ipsHeaderSize + ((hunks.take i).flatMap Hunk.encode).length

/-- The cut leaves a file long enough for a patch, and lies at a record boundary or one or two bytes
behind it. -/
def CutAtBoundary (hunks : List Hunk) (k : Nat) : Prop :=
  ipsHeaderSize + ipsEofSize ≤ k ∧
    ∃ i ≤ hunks.length, boundary hunks i ≤ k ∧ k < boundary hunks i + ipsEofSize

/-- What is read of a patch that something was cut off from is its first hunks, and fewer bytes than a
marker has. -/
theorem read_of_cut {hunks hunks' : List Hunk} {rest cut : Bytes}
    (hreserved : ∀ hunk ∈ hunks, hunk.offset ≠ 0x454F46)
    (hreserved' : ∀ hunk ∈ hunks', hunk.offset ≠ 0x454F46) (hcut : 0 < cut.length)
    (h : hunks'.flatMap Hunk.encode ++ (rest ++ cut) = hunks.flatMap Hunk.encode ++ ipsEof)
    (hrest : rest.length < ipsEofSize ∨ ∃ trailing, rest = ipsEof ++ trailing) :
    ∃ i ≤ hunks.length, hunks'.flatMap Hunk.encode = (hunks.take i).flatMap Hunk.encode ∧
      rest.length < ipsEofSize := by
  obtain ⟨i, hi, htake, htail⟩ := prefixFree_encode.exists_take_of_append h
    fun hunk hhunk z h => ipsEof_append_ne_encode (hreserved' hunk hhunk) [] z (by simpa using h)
  refine ⟨i, hi, htake, ?_⟩
  rcases hrest with hshort | ⟨trailing, rfl⟩
  · exact hshort
  · -- a marker before the cut would have to be the one at the end, with nothing cut off
    exfalso
    rw [List.append_assoc] at htail
    cases hnext : hunks.drop i with
    | nil =>
      rw [hnext] at htail
      have hlength := congrArg List.length htail
      simp only [List.flatMap_nil, List.nil_append, List.length_append] at hlength
      omega
    | cons hunk later =>
      rw [hnext, List.flatMap_cons, List.append_assoc] at htail
      have hmem : hunk ∈ hunks := List.mem_of_mem_drop (by rw [hnext]; simp)
      exact ipsEof_append_ne_encode (hreserved hunk hmem) _ _ htail

/-- The records of a patch and its marker, cut behind the first `i` hunks. -/
theorem take_body (hunks : List Hunk) {i n : Nat}
    (h : ((hunks.take i).flatMap Hunk.encode).length ≤ n) :
    (hunks.flatMap Hunk.encode ++ ipsEof).take n = (hunks.take i).flatMap Hunk.encode
      ++ ((hunks.drop i).flatMap Hunk.encode ++ ipsEof).take
        (n - ((hunks.take i).flatMap Hunk.encode).length) := by
  have hsplit : hunks.flatMap Hunk.encode = (hunks.take i).flatMap Hunk.encode
      ++ (hunks.drop i).flatMap Hunk.encode := by
    rw [← List.flatMap_append, List.take_append_drop]
  rw [hsplit, List.append_assoc, List.take_append, List.take_of_length_le h]

/-- **Which cuts are accepted**: those at a boundary. -/
theorem load_take_eq_ok_iff {hunks : List Hunk} (hreserved : ∀ hunk ∈ hunks, hunk.offset ≠ 0x454F46)
    {k : Nat} (hk : k < (serialize hunks []).length) :
    (∃ patch, IPSPatch.load ((serialize hunks []).take k) = .ok patch) ↔ CutAtBoundary hunks k := by
  set whole := serialize hunks [] with hwhole
  have hlength : (whole.take k).length = k := List.length_take_of_le hk.le
  have hbody : whole.drop ipsHeaderSize = hunks.flatMap Hunk.encode ++ ipsEof := by
    rw [hwhole, serialize, List.append_nil]
    exact List.drop_left' rfl
  rw [load_eq_ok_iff, hlength]
  constructor
  · rintro ⟨hlong, -, parsed, hparsed⟩
    obtain ⟨hunks', rest, hreserved', hdrop, hrest⟩ := exists_hunks_of_parseRecords hparsed
    have hkept := congrArg List.length hdrop
    rw [List.length_drop, hlength, List.length_append] at hkept
    -- the whole patch, read as what the cut leaves and what it takes away
    have hread : hunks'.flatMap Hunk.encode ++ (rest ++ whole.drop k)
        = hunks.flatMap Hunk.encode ++ ipsEof := by
      rw [← List.append_assoc, ← hdrop, ← hbody]
      nth_rewrite 3 [← List.take_append_drop k whole]
      rw [List.drop_append_of_le_length (by rw [hlength]; omega)]
    obtain ⟨i, hi, htake, hshort⟩ :=
      read_of_cut hreserved hreserved' (by rw [List.length_drop]; omega) hread hrest
    refine ⟨hlong, i, hi, ?_⟩
    rw [boundary, ← htake]
    unfold ipsEofSize at hlong hshort ⊢
    omega
  · rintro ⟨hlong, i, -, hle, hlt⟩
    unfold boundary at hle hlt
    have hmagic : (whole.take k).take ipsHeaderSize = ipsMagic := by
      rw [List.take_take, Nat.min_eq_left (by omega), hwhole]
      exact List.take_left' rfl
    refine ⟨hlong, hmagic, ?_⟩
    have hdrop := take_body hunks (Nat.le_sub_of_add_le' hle)
    rw [← hbody, ← List.drop_take] at hdrop
    rw [parseRecords_append (fun hunk hhunk => hreserved hunk (List.mem_of_mem_take hhunk)) hdrop,
      parseRecords, if_neg]
    · exact ⟨_, rfl⟩
    · rw [ipsEofSize] at hlt
      rw [hlength]
      omega

/-- **When the loader accepts complete patches only.** An accepted file is complete exactly if it does
not end at a record boundary, give or take two bytes, without an end marker; and of the proper prefixes
of a patch, exactly those that end there are not rejected. -/
theorem load_complete_iff {hunks : List Hunk} (hreserved : ∀ hunk ∈ hunks, hunk.offset ≠ 0x454F46) :
    (∀ P : Bytes, ((∃ patch, IPSPatch.load P = .ok patch) → Complete P) ↔ ¬ EndsAtBoundary P) ∧
    ∀ k < (serialize hunks []).length,
      ((∃ e, IPSPatch.load ((serialize hunks []).take k) = .error e) ↔ ¬ CutAtBoundary hunks k) := by
  constructor
  · intro P
    constructor
    · intro h hends
      exact hends.not_complete (h (load_eq_ok_iff_layout.mpr (.inr hends)))
    · intro hends hload
      rcases load_eq_ok_iff_layout.mp hload with ⟨hunks, trailing, -, hparts⟩ | hboundary
      · exact ⟨hunks, trailing, hparts⟩
      · exact absurd hboundary hends
  · intro k hk
    rw [exists_error_iff, load_take_eq_ok_iff hreserved hk]

/-- A patch of two records cut between them: it is not complete, and is applied without its second
record. -/
theorem not_load_complete :
    13 < (serialize [.rle 0 1 7, .rle 1 1 8] []).length ∧
      ¬ Complete ((serialize [.rle 0 1 7, .rle 1 1 8] []).take 13) ∧
      (do
        let patch ← .ofExcept (IPSPatch.load ((serialize [.rle 0 1 7, .rle 1 1 8] []).take 13))
        patch.apply [0, 0] {} : Call Bytes) = .ok [7, 0] := by
  refine ⟨by decide, EndsAtBoundary.not_complete ⟨by decide, [.rle 0 1 7], [], ?_, ?_, ?_⟩, ?_⟩
  · decide
  · decide
  · decide
  · decide +kernel

/-- The same patch cut inside its second record is rejected. -/
theorem load_complete_twoRecords :
    ∃ e, IPSPatch.load ((serialize [.rle 0 1 7, .rle 1 1 8] []).take 16) = .error e := by
  have hreserved : ∀ hunk ∈ [Hunk.rle 0 1 7, .rle 1 1 8], hunk.offset ≠ 0x454F46 := by decide
  refine ((load_complete_iff hreserved).2 16 (by decide)).mpr ?_
  unfold CutAtBoundary
  decide

end IUBPatch.IPS
