import IUBPatch.Formats.UPSRoundTrip
import IUBPatch.Lib.WhileLoop
import Mathlib.Data.List.TakeWhile

/-! # Well-formed UPS patches

The loader checks the size and the magic of a patch and nothing behind them. So an accepted patch is
well formed where the loader reads it only if its bytes were: two numbers, hunks and twelve bytes. -/

namespace IUBPatch.UPS

/-! ### Where the loader reads -/

/-- The outer loop of `parse` goes on from the offset in the patch (and the one in the file). -/
def Running (patchData : Bytes) (state : Nat × UInt64) : Prop := state.1 + 12 < patchData.length

/-- The two offsets after one more turn of the outer loop. -/
def turn (patchData : Bytes) (state : Nat × UInt64) : Nat × UInt64 :=
  (parseBlock patchData state.1 state.2).2

/-- Where the loader begins to read hunks: behind the two numbers of the header. -/
def hunksOffset (patchData : Bytes) : Nat :=
  (decodeVariableLen patchData (decodeVariableLen patchData upsHeaderSize).2).2

/-- The outer loop of `parse` tests its condition at the two offsets. -/
abbrev LoopAt (patchData : Bytes) (state : Nat × UInt64) : Prop :=
  WhileLoop.Visits (Running patchData) (turn patchData) (hunksOffset patchData, 0) state

/-- The blocks of a patch are what the loop reads at the offsets it goes on from, but for those without
data. -/
theorem mem_parseBlocks_iff {patchData : Bytes} {start : Nat} {fileOffset : UInt64}
    {block : XORBlock} : block ∈ parseBlocks patchData start fileOffset ↔
      ∃ state, WhileLoop.Visits (Running patchData) (turn patchData) (start, fileOffset) state ∧
        Running patchData state ∧ block = (parseBlock patchData state.1 state.2).1 ∧
        block.data ≠ [] := by
  induction start, fileOffset using parseBlocks.induct patchData with
  | case1 start fileOffset hrunning parsed hempty ih =>
    have hdata : parsed.1.data = [] := List.isEmpty_iff.mp hempty
    rw [parseBlocks, if_pos hrunning, if_pos hempty, ih]
    refine Iff.trans ?_ WhileLoop.exists_turn_iff.symm
    constructor
    · intro hlater
      exact ⟨hrunning, .inr hlater⟩
    · rintro ⟨-, ⟨rfl, hne⟩ | hlater⟩
      · exact absurd hdata hne
      · exact hlater
  | case2 start fileOffset hrunning parsed hnonempty ih =>
    have hdata : parsed.1.data ≠ [] := fun hnil => hnonempty (List.isEmpty_iff.mpr hnil)
    rw [parseBlocks, if_pos hrunning, if_neg hnonempty, List.mem_cons, ih]
    refine Iff.trans ?_ WhileLoop.exists_turn_iff.symm
    constructor
    · rintro (rfl | hlater)
      · exact ⟨hrunning, .inl ⟨rfl, hdata⟩⟩
      · exact ⟨hrunning, .inr hlater⟩
    · rintro ⟨-, ⟨rfl, -⟩ | hlater⟩
      · exact .inl rfl
      · exact .inr hlater
  | case3 start fileOffset hends =>
    rw [parseBlocks, if_neg hends]
    refine Iff.trans ?_ WhileLoop.exists_turn_iff.symm
    exact iff_of_false List.not_mem_nil fun h => hends h.1

/-- The hunk read at an offset is well formed: its number is, and what is read behind that is its data
and a zero, before the last twelve bytes. -/
structure WellFormedHunk (patchData : Bytes) (offset : Nat) (fileOffset : UInt64) : Prop where
  relativeOffset : WellFormedNumber patchData (patchData.length - 12) offset
  closed : slice patchData (decodeVariableLen patchData offset).2
      ((parseBlock patchData offset fileOffset).2.1 - (decodeVariableLen patchData offset).2)
    = (parseBlock patchData offset fileOffset).1.data ++ [0]
  before : (parseBlock patchData offset fileOffset).2.1 ≤ patchData.length - 12

/-- The loader reads the patch as one that is well formed: the numbers of the header and every hunk
are, and the last hunk ends where the last twelve bytes begin. -/
structure WellFormed (patchData : Bytes) : Prop where
  srcSize : WellFormedNumber patchData (patchData.length - 12) upsHeaderSize
  targetSize : WellFormedNumber patchData (patchData.length - 12)
    (decodeVariableLen patchData upsHeaderSize).2
  hunks : ∀ state, LoopAt patchData state → Running patchData state →
    WellFormedHunk patchData state.1 state.2
  exactly : ∀ state, LoopAt patchData state → ¬ Running patchData state →
    state.1 + 12 = patchData.length

/-! ### The bytes of a patch -/

/-- A hunk as the format writes it. -/
structure Hunk where
  relativeOffset : UInt64
  data : Bytes
  nonzero : ∀ b ∈ data, b ≠ 0

/-- The bytes of a hunk: a number, the data, and the zero that closes it. -/
def Hunk.encode (hunk : Hunk) : Bytes := encodeNum hunk.relativeOffset.toNat ++ (hunk.data ++ [0])

/-- The file is one that a writer of the format can make: the magic, the encodings of two 64-bit
numbers, hunks, and twelve bytes of checksums. -/
def IsFile (P : Bytes) : Prop :=
  ∃ (srcSize targetSize : UInt64) (hunks : List Hunk) (footer : Bytes), footer.length = 12 ∧
    P = upsMagic ++ (encodeNum srcSize.toNat ++ (encodeNum targetSize.toNat
      ++ (hunks.flatMap Hunk.encode ++ footer)))

theorem Hunk.length_encode_pos (hunk : Hunk) : 0 < hunk.encode.length := by
  rw [encode, List.length_append]
  have := length_encodeNum_pos hunk.relativeOffset.toNat
  omega

/-! ### Well-formed hunks are hunks -/

/-- What the inner loop reads: data without a zero, up to a zero or the end. -/
theorem xorDataLoop_cases (unread : Bytes) (offset : Nat) (fileOffset : UInt64) (done : Bytes) :
    ∃ data, (∀ b ∈ data, b ≠ 0) ∧ (xorDataLoop unread offset fileOffset done).1 = done ++ data ∧
      (unread = data ∧ (xorDataLoop unread offset fileOffset done).2.1 = offset + data.length ∨
        ∃ rest, unread = data ++ 0 :: rest ∧
          (xorDataLoop unread offset fileOffset done).2.1 = offset + data.length + 1) := by
  have hsplit := List.takeWhile_append_dropWhile (p := (· ≠ 0)) (l := unread)
  rw [xorDataLoop_eq, xorDataLength_eq]
  have hnonzero : ∀ b ∈ unread.takeWhile (· ≠ 0), b ≠ 0 :=
    fun b hb => by simpa using List.mem_takeWhile_imp hb
  refine ⟨unread.takeWhile (· ≠ 0), hnonzero, rfl, ?_⟩
  cases hbehind : unread.dropWhile (· ≠ 0) with
  | nil =>
    rw [hbehind, List.append_nil] at hsplit
    have hnone : 0 ∉ unread := by
      intro hmem
      rw [← hsplit] at hmem
      exact hnonzero 0 hmem rfl
    rw [if_neg hnone]
    exact .inl ⟨hsplit.symm, rfl⟩
  | cons b rest =>
    have hne : unread.dropWhile (· ≠ 0) ≠ [] := by
      rw [hbehind]
      exact List.cons_ne_nil b rest
    have hzero := List.head_dropWhile_not _ hne
    simp only [hbehind, List.head_cons, decide_eq_false_iff_not, not_not] at hzero
    rw [hbehind, hzero] at hsplit
    have hmem : 0 ∈ unread := by
      rw [← hsplit]
      simp
    rw [if_pos hmem]
    exact .inr ⟨rest, hsplit.symm, rfl⟩

/-- What is unread at an offset is what is unread before the last twelve bytes, and those. -/
theorem drop_eq_append_footer {data : Bytes} {offset : Nat} (h : offset ≤ data.length - 12) :
    data.drop offset
      = (data.take (data.length - 12)).drop offset ++ data.drop (data.length - 12) := by
  nth_rewrite 1 [← List.take_append_drop (data.length - 12) data]
  rw [List.drop_append_of_le_length]
  rw [List.length_take]
  omega

/-- Where a well-formed hunk is read stand the bytes of one. -/
theorem WellFormedHunk.exists_hunk {patchData : Bytes} {offset : Nat} {fileOffset : UInt64}
    (h : WellFormedHunk patchData offset fileOffset) :
    ∃ hunk : Hunk, patchData.drop offset
      = hunk.encode ++ patchData.drop (parseBlock patchData offset fileOffset).2.1 := by
  obtain ⟨hnumber, hclosed, -⟩ := h
  obtain ⟨n, rest, hdrop, hbefore⟩ := wellFormedNumber_iff.mp hnumber
  have hdecoded : decodeVariableLen patchData offset = (n, offset + (encodeNum n.toNat).length) := by
    rw [decodeVariableLen_eq_decodeBpsNum, decodeBpsNum_of_drop hdrop, UInt64.ofNat_toNat]
  have hrest := drop_add_of_drop hdrop
  rw [parseBlock, hdecoded] at hclosed ⊢
  dsimp only at hclosed ⊢
  set start := offset + (encodeNum n.toNat).length with hstart
  obtain ⟨data, hnonzero, hdata, hends⟩ := xorDataLoop_cases
    ((patchData.take (patchData.length - 12)).drop start) start (fileOffset + n) []
  rw [hdata, List.nil_append] at hclosed
  rcases hends with ⟨-, hend⟩ | ⟨more, hmore, hend⟩
  · -- nothing closed the data, so what was read is not that long
    rw [hend, Nat.add_sub_cancel_left] at hclosed
    have hlength := List.length_take_le data.length (patchData.drop start)
    unfold slice at hclosed
    rw [hclosed, List.length_append, List.length_singleton] at hlength
    omega
  · have hunread : patchData.drop start
        = (data ++ [0]) ++ (more ++ patchData.drop (patchData.length - 12)) := by
      rw [drop_eq_append_footer hbefore, hmore]
      simp
    refine ⟨⟨n, data, hnonzero⟩, ?_⟩
    have hnext := drop_add_of_drop hunread
    rw [List.length_append, List.length_singleton, ← Nat.add_assoc] at hnext
    rw [hend, hdrop, ← hrest, hunread, hnext, Hunk.encode]
    simp

/-- Where the bytes of a hunk stand before twelve bytes, a well-formed hunk is read, and all of
them. -/
theorem Hunk.wellFormedHunk (hunk : Hunk) {patchData more footer : Bytes} {offset : Nat}
    (hfooter : footer.length = 12)
    (h : patchData.drop offset = hunk.encode ++ (more ++ footer)) (fileOffset : UInt64) :
    WellFormedHunk patchData offset fileOffset ∧
      (parseBlock patchData offset fileOffset).2.1 = offset + hunk.encode.length := by
  have hlength := length_of_drop h (List.append_ne_nil_of_left_ne_nil
    (List.ne_nil_of_length_pos hunk.length_encode_pos) _)
  have hparts : patchData.drop offset = encodeNum hunk.relativeOffset.toNat
      ++ (hunk.data ++ (0 :: (more ++ footer))) := by
    rw [h, Hunk.encode]
    simp
  have hblock := parseBlock_of_drop hunk.nonzero hfooter hparts fileOffset
  have hdecoded : decodeVariableLen patchData offset
      = (hunk.relativeOffset, offset + (encodeNum hunk.relativeOffset.toNat).length) := by
    rw [decodeVariableLen_eq_decodeBpsNum, decodeBpsNum_of_drop hparts, UInt64.ofNat_toNat]
  simp only [Hunk.encode, List.length_append, List.length_singleton, hfooter] at hlength
  refine ⟨⟨wellFormedNumber_iff.mpr ⟨hunk.relativeOffset, _, hparts, by omega⟩, ?_, ?_⟩, ?_⟩
  · rw [hblock, hdecoded]
    dsimp only
    have hread : patchData.drop (offset + (encodeNum hunk.relativeOffset.toNat).length)
        = (hunk.data ++ [0]) ++ (more ++ footer) := by
      rw [drop_add_of_drop hparts]
      simp
    have htaken : offset + (encodeNum hunk.relativeOffset.toNat).length + hunk.data.length + 1
        - (offset + (encodeNum hunk.relativeOffset.toNat).length) = (hunk.data ++ [0]).length := by
      rw [List.length_append, List.length_singleton]
      omega
    rw [htaken, slice_of_drop hread]
  · rw [hblock]
    dsimp only
    omega
  · rw [hblock, Hunk.encode]
    simp only [List.length_append, List.length_singleton]
    omega

/-! ### Well-formed patches are files -/

/-- From where the hunks of a file begin, the loop stops only between them. -/
theorem exists_hunks_of_loopAt {patchData footer : Bytes} (hfooter : footer.length = 12)
    {hunks : List Hunk}
    (h : patchData.drop (hunksOffset patchData) = hunks.flatMap Hunk.encode ++ footer)
    {state : Nat × UInt64} (hloop : LoopAt patchData state) :
    ∃ later : List Hunk, patchData.drop state.1 = later.flatMap Hunk.encode ++ footer := by
  refine hloop.invariant (fun state => ∃ later : List Hunk,
    patchData.drop state.1 = later.flatMap Hunk.encode ++ footer) ⟨hunks, h⟩ ?_
  rintro ⟨offset, fileOffset⟩ hrunning ⟨later, hlater⟩
  unfold Running at hrunning
  rcases footer_or_word_of_drop Hunk.length_encode_pos hfooter hlater with
    ⟨-, hend⟩ | ⟨hunk, later, -, -, -, hhunk⟩
  · omega
  · obtain ⟨-, hnext⟩ := hunk.wellFormedHunk hfooter hhunk fileOffset
    refine ⟨later, ?_⟩
    show patchData.drop (parseBlock patchData offset fileOffset).2.1 = _
    rw [hnext]
    exact drop_add_of_drop hhunk

/-- A file is read as one that is well formed. -/
theorem IsFile.wellFormed {P : Bytes} (h : IsFile P) : WellFormed P := by
  obtain ⟨srcSize, targetSize, hunks, footer, hfooter, hparts⟩ := h
  have hsrc : P.drop upsHeaderSize = encodeNum srcSize.toNat ++ (encodeNum targetSize.toNat
      ++ (hunks.flatMap Hunk.encode ++ footer)) := by
    rw [hparts]; exact List.drop_left' rfl
  have htarget := drop_add_of_drop hsrc
  have hhunks := drop_add_of_drop htarget
  have hsrcDecoded : (decodeVariableLen P upsHeaderSize).2
      = upsHeaderSize + (encodeNum srcSize.toNat).length := by
    rw [decodeVariableLen_eq_decodeBpsNum, decodeBpsNum_of_drop hsrc]
  have hstart : hunksOffset P = upsHeaderSize + (encodeNum srcSize.toNat).length
      + (encodeNum targetSize.toNat).length := by
    rw [hunksOffset, hsrcDecoded, decodeVariableLen_eq_decodeBpsNum, decodeBpsNum_of_drop htarget]
  have hlength : P.length = upsHeaderSize + (encodeNum srcSize.toNat).length
      + (encodeNum targetSize.toNat).length + (hunks.flatMap Hunk.encode).length + 12 := by
    rw [hparts]
    simp only [List.length_append, hfooter, upsMagic, upsHeaderSize, List.length_cons,
      List.length_nil]
    omega
  rw [← hstart] at hhunks
  refine ⟨wellFormedNumber_iff.mpr ⟨srcSize, _, hsrc, by omega⟩, ?_, ?_, ?_⟩
  · rw [hsrcDecoded]
    exact wellFormedNumber_iff.mpr ⟨targetSize, _, htarget, by omega⟩
  · rintro ⟨offset, fileOffset⟩ hloop hrunning
    obtain ⟨later, hlater⟩ := exists_hunks_of_loopAt hfooter hhunks hloop
    unfold Running at hrunning
    rcases footer_or_word_of_drop Hunk.length_encode_pos hfooter hlater with
      ⟨-, hend⟩ | ⟨hunk, later, -, -, -, hhunk⟩
    · omega
    · exact (hunk.wellFormedHunk hfooter hhunk fileOffset).1
  · rintro ⟨offset, fileOffset⟩ hloop hends
    obtain ⟨later, hlater⟩ := exists_hunks_of_loopAt hfooter hhunks hloop
    rcases footer_or_word_of_drop Hunk.length_encode_pos hfooter hlater with
      ⟨-, hend⟩ | ⟨-, -, -, hrunning, -⟩
    · exact hend
    · exact absurd hrunning hends

/-- A patch that is read as well formed is a file. -/
theorem WellFormed.isFile {P : Bytes} (hmagic : P.take upsHeaderSize = upsMagic)
    (h : WellFormed P) : IsFile P := by
  obtain ⟨hsrcSize, htargetSize, hhunks, hexactly⟩ := h
  obtain ⟨srcSize, rest, hsrc, -⟩ := wellFormedNumber_iff.mp hsrcSize
  obtain ⟨targetSize, rest', htarget, -⟩ := wellFormedNumber_iff.mp htargetSize
  have hdown : ∀ state, Running P state → P.length - (turn P state).1 < P.length - state.1 := by
    rintro ⟨offset, fileOffset⟩ hrunning
    have hrunning : offset + 12 < P.length := hrunning
    have hnext := lt_parseBlock fileOffset (show offset < P.length by omega)
    show P.length - (parseBlock P offset fileOffset).2.1 < P.length - offset
    omega
  have hregion : ∃ (hunks : List Hunk) (footer : Bytes), footer.length = 12 ∧
      P.drop (hunksOffset P) = hunks.flatMap Hunk.encode ++ footer := by
    refine WhileLoop.of_turns (P.length - ·.1) hdown (fun state => ∃ (hunks : List Hunk) (footer : Bytes),
      footer.length = 12 ∧ P.drop state.1 = hunks.flatMap Hunk.encode ++ footer)
      (hunksOffset P, 0) ?_ ?_
    · -- where the loop ends stand the twelve bytes
      intro state hloop hends
      have hend := hexactly state hloop hends
      exact ⟨[], P.drop state.1, by rw [List.length_drop]; omega, rfl⟩
    · -- and every turn puts a hunk in front
      rintro state hloop hrunning ⟨hunks, footer, hfooter, hnext⟩
      obtain ⟨hunk, hhunk⟩ := (hhunks state hloop hrunning).exists_hunk
      refine ⟨hunk :: hunks, footer, hfooter, ?_⟩
      rw [hhunk, List.flatMap_cons, List.append_assoc, ← hnext]
      rfl
  obtain ⟨hunks, footer, hfooter, hrest⟩ := hregion
  refine ⟨srcSize, targetSize, hunks, footer, hfooter, ?_⟩
  have hbehindTarget : P.drop (hunksOffset P) = rest' := drop_decodeBpsNum_snd htarget
  have hbehindSrc : P.drop (decodeVariableLen P upsHeaderSize).2 = rest := drop_decodeBpsNum_snd hsrc
  rw [← hrest, hbehindTarget, ← htarget, hbehindSrc, ← hsrc, ← hmagic, List.take_append_drop]

/-! ### What the loader accepts -/

/-- The loader rejects what is too short or has another magic, and nothing else. -/
theorem load_eq_ok_iff {P : Bytes} : (∃ patch, UPSPatch.load P = .ok patch) ↔
    upsHeaderSize + 12 ≤ P.length ∧ P.take upsHeaderSize = upsMagic := by
  constructor
  · rintro ⟨patch, h⟩
    obtain ⟨hlong, hmagic, -⟩ := UPSPatch.load_eq_ok h
    exact ⟨Nat.not_lt.mp hlong, hmagic⟩
  · rintro ⟨hlong, hmagic⟩
    rw [UPSPatch.load_eq (Nat.not_lt.mpr hlong) hmagic, UPSPatch.parse,
      if_neg (Nat.not_lt.mpr hlong)]
    exact ⟨_, rfl⟩

/-- **When the loader accepts well-formed patches only.** What it accepts is well formed exactly if the
bytes are rejected for their size or their magic, or are a file of the format; and of an accepted
patch, however it is cut, exactly what is left with fewer than sixteen bytes is rejected. -/
theorem load_wellFormed_iff (P : Bytes) :
    (((∃ patch, UPSPatch.load P = .ok patch) → WellFormed P) ↔
      P.length < upsHeaderSize + 12 ∨ P.take upsHeaderSize ≠ upsMagic ∨ IsFile P) ∧
    ((∃ patch, UPSPatch.load P = .ok patch) → ∀ k,
      (∃ e, UPSPatch.load (P.take k) = .error e) ↔ k < upsHeaderSize + 12) := by
  constructor
  · rw [load_eq_ok_iff]
    constructor
    · intro h
      by_cases hlong : P.length < upsHeaderSize + 12
      · exact .inl hlong
      by_cases hmagic : P.take upsHeaderSize = upsMagic
      · exact .inr (.inr ((h ⟨Nat.not_lt.mp hlong, hmagic⟩).isFile hmagic))
      · exact .inr (.inl hmagic)
    · rintro (hshort | hmagic | hfile) ⟨hlong, hmagic'⟩
      · exact absurd hlong (Nat.not_le.mpr hshort)
      · exact absurd hmagic' hmagic
      · exact hfile.wellFormed
  · intro hload k
    obtain ⟨hlong, hmagic⟩ := load_eq_ok_iff.mp hload
    rw [exists_error_iff, load_eq_ok_iff, List.length_take]
    constructor
    · intro hrejected
      by_contra hk
      have hkept : (P.take k).take upsHeaderSize = upsMagic := by
        rw [List.take_take, Nat.min_eq_left (by omega), hmagic]
      exact hrejected ⟨by omega, hkept⟩
    · rintro hk ⟨hkept, -⟩
      omega

/-- Sixteen bytes, the last twelve of them zeros: the sizes are read out of the checksums. -/
theorem not_load_wellFormed :
    (∃ patch, UPSPatch.load (upsMagic ++ List.replicate 12 0) = .ok patch) ∧
      ¬ WellFormed (upsMagic ++ List.replicate 12 0) := by
  refine ⟨load_eq_ok_iff.mpr ⟨by decide, by decide⟩, fun h => ?_⟩
  have hbefore := h.srcSize.before
  revert hbefore
  decide

end IUBPatch.UPS
